import Mathlib.Order.Defs.LinearOrder
import Mathlib.Order.Lattice
import Mathlib.Data.List.Infix
import Mathlib.Data.List.Pairwise
import Mathlib.Data.List.Nodup

/-!
# Ordered maps

A finite map with ordered keys, as the list of its entries in the order of the keys. The
order is a field of the map, so that a walk over the entries, from either end, may use it.

Two entries are *neighbours* if one follows the other: no key of the map lies between.

## Main results

* `mem_insert`, `mem_erase` — the entries after an update.
* `value_unique` — a key has one value.
* `le_last`, `Neighbours.le_or_le` — what the order says of a walk.
-/

namespace PhsaRuntime

universe u v

/-- A finite map with ordered keys. -/
structure OrderedMap (α : Type u) (β : Type v) [LinearOrder α] where
  /-- The entries, smallest key first. -/
  entries : List (α × β)
  sorted : entries.Pairwise fun x y => x.1 < y.1

namespace OrderedMap

variable {α : Type u} {β : Type v} [LinearOrder α]

instance : Membership (α × β) (OrderedMap α β) := ⟨fun m x => x ∈ m.entries⟩

theorem mem_def {m : OrderedMap α β} {x : α × β} : x ∈ m ↔ x ∈ m.entries := Iff.rfl

/-- The map without entries. -/
def empty : OrderedMap α β := ⟨[], .nil⟩

@[simp] theorem entries_empty : (empty : OrderedMap α β).entries = [] := rfl

/-- Set the value of a key. -/
def insert (m : OrderedMap α β) (k : α) (v : β) : OrderedMap α β where
  entries := m.entries.filter (fun x => x.1 < k) ++ (k, v) :: m.entries.filter (fun x => k < x.1)
  sorted := by
    refine List.pairwise_append.mpr ⟨m.sorted.filter _, ?_, ?_⟩
    · refine List.pairwise_cons.mpr ⟨?_, m.sorted.filter _⟩
      intro y hy
      exact of_decide_eq_true (List.mem_filter.mp hy).2
    · intro x hx y hy
      have hxk : x.1 < k := of_decide_eq_true (List.mem_filter.mp hx).2
      rcases List.mem_cons.mp hy with rfl | hy
      · exact hxk
      · exact hxk.trans (of_decide_eq_true (List.mem_filter.mp hy).2)

/-- Remove a key, if the map has it. -/
def erase (m : OrderedMap α β) (k : α) : OrderedMap α β where
  entries := m.entries.filter fun x => x.1 ≠ k
  sorted := m.sorted.filter _

/-- The entry with the largest key. -/
def last? (m : OrderedMap α β) : Option (α × β) := m.entries.getLast?

variable {m : OrderedMap α β} {k : α} {v w : β} {x y : α × β}

@[simp] theorem mem_insert : x ∈ m.insert k v ↔ x = (k, v) ∨ x ∈ m ∧ x.1 ≠ k := by
  simp only [mem_def, insert, List.mem_append, List.mem_filter, List.mem_cons, decide_eq_true_eq]
  constructor
  · rintro (⟨hx, hlt⟩ | rfl | ⟨hx, hlt⟩)
    · exact .inr ⟨hx, hlt.ne⟩
    · exact .inl rfl
    · exact .inr ⟨hx, hlt.ne'⟩
  · rintro (rfl | ⟨hx, hne⟩)
    · exact .inr (.inl rfl)
    · rcases lt_or_gt_of_ne hne with hlt | hlt
      · exact .inl ⟨hx, hlt⟩
      · exact .inr (.inr ⟨hx, hlt⟩)

@[simp] theorem mem_erase : x ∈ m.erase k ↔ x ∈ m ∧ x.1 ≠ k := by
  simp [mem_def, erase]

/-- A removal makes the map smaller if and only if the map has the key. -/
theorem length_erase_lt : (m.erase k).entries.length < m.entries.length ↔ ∃ v, (k, v) ∈ m := by
  rw [erase, List.length_filter_lt_length_iff_exists]
  constructor
  · rintro ⟨⟨k', v⟩, hmem, hk⟩
    obtain rfl : k' = k := by simpa using hk
    exact ⟨v, hmem⟩
  · rintro ⟨v, hmem⟩
    exact ⟨(k, v), hmem, by simp⟩

/-- The removal of a key that the map does not have. -/
theorem erase_eq_self (h : ¬ ∃ v, (k, v) ∈ m) : m.erase k = m := by
  have hall : ∀ x ∈ m.entries, decide (x.1 ≠ k) = true := by
    intro x hx
    apply decide_eq_true
    intro hk
    exact h ⟨x.2, hk ▸ hx⟩
  cases m
  simpa only [erase, mk.injEq, List.filter_eq_self] using hall

/-- Maps with the same entries are equal. -/
theorem eq_of_mem_iff {m' : OrderedMap α β} (h : ∀ x, x ∈ m ↔ x ∈ m') : m = m' := by
  have hnodup : ∀ m : OrderedMap α β, m.entries.Nodup := by
    intro m
    apply m.sorted.imp
    rintro x y hlt rfl
    exact lt_irrefl _ hlt
  have hperm : m.entries.Perm m'.entries :=
    (List.perm_ext_iff_of_nodup (hnodup m) (hnodup m')).mpr h
  have hentries : m.entries = m'.entries := by
    apply hperm.eq_of_pairwise _ m.sorted m'.sorted
    intro x y _ _ hxy hyx
    exact absurd hyx hxy.not_gt
  cases m
  cases m'
  simpa using hentries

/-- The removal of a key that was set. -/
theorem erase_insert : (m.insert k v).erase k = m.erase k := by
  apply eq_of_mem_iff
  intro x
  simp only [mem_erase, mem_insert]
  constructor
  · rintro ⟨rfl | hx, hne⟩
    · exact absurd rfl hne
    · exact hx
  · intro hx
    exact ⟨.inr hx, hx.2⟩

theorem nodup_keys (m : OrderedMap α β) : (m.entries.map Prod.fst).Nodup := by
  refine List.pairwise_map.mpr (m.sorted.imp ?_)
  intro x y hlt
  exact hlt.ne

/-- A key has one value. -/
theorem value_unique (hv : (k, v) ∈ m) (hw : (k, w) ∈ m) : v = w := by
  have heq := List.inj_on_of_nodup_map m.nodup_keys hv hw rfl
  exact congrArg Prod.snd heq

/-! ## Walks in the order of the keys -/

/-- The last entry has the largest key. -/
theorem le_last (h : m.last? = some y) (hx : x ∈ m) : x.1 ≤ y.1 := by
  obtain ⟨l, hl⟩ := List.getLast?_eq_some_iff.mp h
  have hsorted := m.sorted
  rw [mem_def, hl, List.mem_append, List.mem_singleton] at hx
  rw [hl, List.pairwise_append] at hsorted
  rcases hx with hx | rfl
  · exact (hsorted.2.2 x hx y List.mem_cons_self).le
  · exact le_rfl

theorem mem_of_last? (h : m.last? = some y) : y ∈ m := List.mem_of_getLast? h

theorem last?_eq_none : m.last? = none ↔ m.entries = [] := List.getLast?_eq_none_iff

/-- The entry `y` follows the entry `x`. -/
def Neighbours (m : OrderedMap α β) (x y : α × β) : Prop := [x, y] <:+: m.entries

namespace Neighbours

theorem mem_left (h : m.Neighbours x y) : x ∈ m := h.subset (by simp)

theorem mem_right (h : m.Neighbours x y) : y ∈ m := h.subset (by simp)

/-- No key lies between those of two neighbours. -/
theorem le_or_le (h : m.Neighbours x y) {z : α × β} (hz : z ∈ m) : z.1 ≤ x.1 ∨ y.1 ≤ z.1 := by
  obtain ⟨l, r, hlr⟩ := h
  have hsorted := m.sorted
  rw [mem_def, ← hlr] at hz
  rw [← hlr, List.append_assoc, List.pairwise_append] at hsorted
  simp only [List.append_assoc, List.cons_append, List.nil_append, List.mem_append,
    List.mem_cons] at hz hsorted
  obtain ⟨-, htail, hcross⟩ := hsorted
  rcases hz with hz | rfl | rfl | hz
  · exact .inl (hcross z hz x (.inl rfl)).le
  · exact .inl le_rfl
  · exact .inr le_rfl
  · exact .inr ((List.pairwise_cons.mp (List.pairwise_cons.mp htail).2).1 z hz).le

end Neighbours

end OrderedMap

end PhsaRuntime
