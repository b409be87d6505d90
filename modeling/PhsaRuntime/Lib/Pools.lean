import Mathlib.Data.Set.Insert
import Mathlib.Tactic.Common

/-!
# Pools of blocks

Several pools take their blocks from one heap, and each has a book of the blocks that it has
taken and not given back. A pool that gives back only what its book has gives back live blocks
only, whatever it is asked for, as long as the heap hands out no block that is live.

Owners hold blocks of the pools, at most one each. A block has at most one owner as long as new
owners get new blocks, and it stays in its book until its owner gives it back or a block is
given back by someone who does not own it.

## Main definitions

* `Booked` — what the books have is live, and no block is in two books.
* `Holding` — what the owners hold is in the books, and no block has two owners.

## Main results

* `Booked.take`, `Booked.give`, `Booked.close` — what pools do keeps `Booked`.
* `Holding.own`, `Holding.give`, `Holding.drop` — what owners do keeps `Holding`.
-/

namespace PhsaRuntime

variable {α ι ω : Type*}

/-- The live blocks of a heap, and the books of its pools. -/
structure Booked (heap : Set α) (book : ι → Set α) : Prop where
  live : ∀ i b, b ∈ book i → b ∈ heap
  unique : ∀ i j b, b ∈ book i → b ∈ book j → i = j

namespace Booked

variable {heap heap' : Set α} {book book' : ι → Set α} {i : ι} {b : α}

/-- A block that is not live is in no book. -/
theorem not_mem (h : Booked heap book) (hb : b ∉ heap) : b ∉ book i :=
  fun hmem => hb (h.live i b hmem)

/-- The pool takes a block that is not live. -/
theorem take (h : Booked heap book) (hb : b ∉ heap) (hheap : ∀ c, c ∈ heap' ↔ c = b ∨ c ∈ heap)
    (hbook : ∀ j c, c ∈ book' j ↔ j = i ∧ c = b ∨ c ∈ book j) : Booked heap' book' where
  live j c hc := by
    rw [hheap]
    rcases (hbook j c).mp hc with hnew | hold
    · exact .inl hnew.2
    · exact .inr (h.live j c hold)
  unique j k c hj hk := by
    rcases (hbook j c).mp hj with hj | hj
    · rcases (hbook k c).mp hk with hk | hk
      · exact hj.1.trans hk.1.symm
      · exact absurd (h.live k c hk) (hj.2 ▸ hb)
    · rcases (hbook k c).mp hk with hk | hk
      · exact absurd (h.live j c hj) (hk.2 ▸ hb)
      · exact h.unique j k c hj hk

/-- The pool gives a block back. -/
theorem give (h : Booked heap book) (hb : b ∈ book i)
    (hheap : ∀ c, c ∈ heap' ↔ c ∈ heap ∧ c ≠ b)
    (hother : ∀ j c, j ≠ i → (c ∈ book' j ↔ c ∈ book j))
    (hself : ∀ c, c ∈ book' i ↔ c ∈ book i ∧ c ≠ b) : Booked heap' book' := by
  have hold : ∀ j c, c ∈ book' j → c ∈ book j ∧ c ≠ b := by
    intro j c hc
    by_cases hj : j = i
    · exact hj ▸ (hself c).mp (hj ▸ hc)
    · have hmem := (hother j c hj).mp hc
      refine ⟨hmem, ?_⟩
      intro heq
      exact hj (h.unique j i b (heq ▸ hmem) hb)
  constructor
  · intro j c hc
    obtain ⟨hmem, hne⟩ := hold j c hc
    exact (hheap c).mpr ⟨h.live j c hmem, hne⟩
  · intro j k c hj hk
    exact h.unique j k c (hold j c hj).1 (hold k c hk).1

/-- Pools are closed, and their blocks stay live. -/
theorem close (h : Booked heap book) (hbook : ∀ j c, c ∈ book' j → c ∈ book j) :
    Booked heap book' where
  live j c hc := h.live j c (hbook j c hc)
  unique j k c hj hk := h.unique j k c (hbook j c hj) (hbook k c hk)

end Booked

/-- What the owners hold: a pool, and a block of it. -/
structure Holding (book : ι → Set α) (held : ω → Option (ι × α)) : Prop where
  booked : ∀ o i b, held o = some (i, b) → b ∈ book i
  unique : ∀ o o' i j b, held o = some (i, b) → held o' = some (j, b) → o = o'

namespace Holding

variable {heap : Set α} {book book' : ι → Set α} {held held' : ω → Option (ι × α)}
  {i j : ι} {b : α} {o : ω}

/-- Nobody holds a block that is not live. -/
theorem not_held (h : Holding book held) (hbooked : Booked heap book) (hb : b ∉ heap) :
    held o ≠ some (j, b) :=
  fun hheld => hb (hbooked.live j b (h.booked o j b hheld))

/-- Someone comes to hold a block that nobody holds. -/
theorem own (h : Holding book held) (hb : b ∈ book i) (hfree : ∀ o' j, held o' ≠ some (j, b))
    (hself : held' o = some (i, b)) (hother : ∀ o', o' ≠ o → held' o' = held o') :
    Holding book held' where
  booked o' j c hheld := by
    by_cases ho : o' = o
    · rw [ho, hself] at hheld
      obtain ⟨rfl, rfl⟩ := Prod.mk.inj (Option.some.inj hheld)
      exact hb
    · rw [hother o' ho] at hheld
      exact h.booked o' j c hheld
  unique o₁ o₂ j k c h₁ h₂ := by
    by_cases ho₁ : o₁ = o
    · by_cases ho₂ : o₂ = o
      · exact ho₁.trans ho₂.symm
      · rw [ho₁, hself] at h₁
        rw [hother o₂ ho₂] at h₂
        obtain ⟨-, rfl⟩ := Prod.mk.inj (Option.some.inj h₁)
        exact absurd h₂ (hfree o₂ k)
    · rw [hother o₁ ho₁] at h₁
      by_cases ho₂ : o₂ = o
      · rw [ho₂, hself] at h₂
        obtain ⟨-, rfl⟩ := Prod.mk.inj (Option.some.inj h₂)
        exact absurd h₁ (hfree o₁ j)
      · rw [hother o₂ ho₂] at h₂
        exact h.unique o₁ o₂ j k c h₁ h₂

/-- A block leaves the books, and whoever held it holds it no longer. -/
theorem give (h : Holding book held) (hbook : ∀ j c, c ∈ book j → c ≠ b → c ∈ book' j)
    (hheld : ∀ o' j c, held' o' = some (j, c) → held o' = some (j, c) ∧ c ≠ b) :
    Holding book' held' where
  booked o' j c ho := by
    obtain ⟨hold, hne⟩ := hheld o' j c ho
    exact hbook j c (h.booked o' j c hold) hne
  unique o₁ o₂ j k c h₁ h₂ := h.unique o₁ o₂ j k c (hheld o₁ j c h₁).1 (hheld o₂ k c h₂).1

/-- Owners are gone, and their blocks may stay. -/
theorem drop (h : Holding book held)
    (hbook : ∀ o' j c, held' o' = some (j, c) → c ∈ book j → c ∈ book' j)
    (hheld : ∀ o' j c, held' o' = some (j, c) → held o' = some (j, c)) : Holding book' held' where
  booked o' j c ho := hbook o' j c ho (h.booked o' j c (hheld o' j c ho))
  unique o₁ o₂ j k c h₁ h₂ := h.unique o₁ o₂ j k c (hheld o₁ j c h₁) (hheld o₂ k c h₂)

end Holding

end PhsaRuntime
