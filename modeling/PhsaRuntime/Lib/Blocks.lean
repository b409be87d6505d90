import Mathlib.Data.Nat.Notation
import Mathlib.Data.Set.Pairwise.Basic
import Mathlib.Logic.Relation
import Mathlib.Order.CompletePartialOrder
import Mathlib.Order.Interval.Set.Disjoint
import Mathlib.Tactic.Common

/-!
# Blocks of an address range

What an allocator of a fixed range of addresses is for. A block is a base and a size, and
occupies the addresses of its span. A `Heap` is the set of the live blocks of a range: they
lie inside the range and no two of them share an address, so that an overlapping heap cannot
be built. A block is added where it fits, at any aligned base, and removed by its base.

An implementation is related to a heap that has the same live blocks, and searches it with
the arithmetic of `fits_iff`; the aligned bases from an address on are those from its
aligned successor on (`exists_aligned_iff`).

## Main definitions

* `Heap`, `Heap.Fits` — live blocks, and where one more fits.
* `Heap.Step` — an allocation, or a release.
* `padding` — the distance to the next aligned address.
-/

namespace PhsaRuntime

/-- The addresses of a block, given by its base and its size. -/
def span (b : ℕ × ℕ) : Set ℕ := Set.Ico b.1 (b.1 + b.2)

theorem span_subset_iff {lo hi : ℕ} {b : ℕ × ℕ} (hb : 0 < b.2) :
    span b ⊆ Set.Ico lo hi ↔ lo ≤ b.1 ∧ b.1 + b.2 ≤ hi := by
  rw [span, Set.Ico_subset_Ico_iff (by omega)]

theorem disjoint_span_iff {b c : ℕ × ℕ} (hb : 0 < b.2) (hc : 0 < c.2) :
    Disjoint (span b) (span c) ↔ b.1 + b.2 ≤ c.1 ∨ c.1 + c.2 ≤ b.1 := by
  rw [span, span, Set.Ico_disjoint_Ico]
  omega

/-! ## Alignment -/

/-- The distance from an address to the next multiple of `align`. -/
def padding (addr align : ℕ) : ℕ := if addr % align > 0 then align - addr % align else 0

theorem padding_lt (addr : ℕ) {align : ℕ} (h : 0 < align) : padding addr align < align := by
  simp only [padding]
  split <;> omega

theorem dvd_add_padding (addr : ℕ) {align : ℕ} (h : 0 < align) :
    align ∣ addr + padding addr align := by
  have hmod := Nat.mod_lt addr h
  have hdiv := Nat.div_add_mod addr align
  simp only [padding]
  split
  · refine ⟨addr / align + 1, ?_⟩
    rw [Nat.mul_add_one]
    omega
  · rw [Nat.add_zero]
    exact Nat.dvd_of_mod_eq_zero (by omega)

/-- The padded address is the least aligned one. -/
theorem add_padding_le {addr align a : ℕ} (ha : align ∣ a) (hle : addr ≤ a) :
    addr + padding addr align ≤ a := by
  rcases Nat.eq_zero_or_pos align with rfl | h
  · have hzero : a = 0 := Nat.eq_zero_of_zero_dvd ha
    simp only [padding, Nat.mod_zero]
    split <;> omega
  · obtain ⟨k, hk⟩ := (Nat.dvd_sub (dvd_add_padding addr h) ha)
    have hlt := padding_lt addr h
    by_contra hgt
    have hk0 : k = 0 := by
      by_contra hne
      have := Nat.le_mul_of_pos_right align (Nat.pos_of_ne_zero hne)
      omega
    rw [hk0, Nat.mul_zero] at hk
    omega

/-- There is room for an aligned block between two addresses if and only if there is room
at the padded lower one. -/
theorem exists_aligned_iff {lo hi size align : ℕ} (h : 0 < align) :
    (∃ a, align ∣ a ∧ lo ≤ a ∧ a + size ≤ hi) ↔ lo + padding lo align + size ≤ hi := by
  constructor
  · rintro ⟨a, hdvd, hle, hhi⟩
    have := add_padding_le hdvd hle
    omega
  · intro hhi
    exact ⟨lo + padding lo align, dvd_add_padding lo h, by omega, hhi⟩

/-! ## Heaps -/

/-- The live blocks of the addresses from `lo` up to `hi`. -/
@[ext]
structure Heap (lo hi : ℕ) where
  live : Set (ℕ × ℕ)
  inside : ∀ b ∈ live, span b ⊆ Set.Ico lo hi
  disjoint : live.PairwiseDisjoint span

namespace Heap

variable {lo hi : ℕ}

/-- No block is live. -/
def empty (lo hi : ℕ) : Heap lo hi where
  live := ∅
  inside := by simp
  disjoint := Set.pairwiseDisjoint_empty

/-- A block of the given size and alignment fits at `a`. -/
structure Fits (H : Heap lo hi) (size align a : ℕ) : Prop where
  aligned : align ∣ a
  inside : span (a, size) ⊆ Set.Ico lo hi
  apart : ∀ b ∈ H.live, Disjoint (span b) (span (a, size))

/-- A block becomes live where it fits. -/
def add (H : Heap lo hi) {size align a : ℕ} (h : H.Fits size align a) : Heap lo hi where
  live := insert (a, size) H.live
  inside := by
    intro b hb
    rcases Set.mem_insert_iff.mp hb with rfl | hb
    · exact h.inside
    · exact H.inside b hb
  disjoint := by
    apply H.disjoint.insert
    intro b hb _
    exact (h.apart b hb).symm

/-- The block with base `p`, if there is one, is no longer live. -/
def remove (H : Heap lo hi) (p : ℕ) : Heap lo hi where
  live := {b ∈ H.live | b.1 ≠ p}
  inside := by
    intro b hb
    exact H.inside b hb.1
  disjoint := H.disjoint.subset (Set.sep_subset _ _)

@[simp] theorem live_add (H : Heap lo hi) {size align a : ℕ} (h : H.Fits size align a) :
    (H.add h).live = insert (a, size) H.live := rfl

@[simp] theorem live_remove (H : Heap lo hi) (p : ℕ) :
    (H.remove p).live = {b ∈ H.live | b.1 ≠ p} := rfl

/-- An allocation or a release. -/
inductive Step (H : Heap lo hi) : Heap lo hi → Prop
  | allocate {size align a : ℕ} (h : H.Fits size align a) : Step H (H.add h)
  | free (p : ℕ) : Step H (H.remove p)

/-- Where a block fits, as a comparison of addresses. -/
theorem fits_iff {H : Heap lo hi} (hpos : ∀ b ∈ H.live, 0 < b.2) {size align a : ℕ}
    (hsize : 0 < size) :
    H.Fits size align a ↔ align ∣ a ∧ lo ≤ a ∧ a + size ≤ hi ∧
      ∀ b ∈ H.live, b.1 + b.2 ≤ a ∨ a + size ≤ b.1 := by
  constructor
  · intro h
    obtain ⟨hlo, hhi⟩ := (span_subset_iff (b := (a, size)) hsize).mp h.inside
    refine ⟨h.aligned, hlo, hhi, ?_⟩
    intro b hb
    exact (disjoint_span_iff (c := (a, size)) (hpos b hb) hsize).mp (h.apart b hb)
  · rintro ⟨haligned, hlo, hhi, hapart⟩
    refine ⟨haligned, (span_subset_iff (b := (a, size)) hsize).mpr ⟨hlo, hhi⟩, ?_⟩
    intro b hb
    exact (disjoint_span_iff (c := (a, size)) (hpos b hb) hsize).mpr (hapart b hb)

/-- A block that fits has an address of its own. -/
theorem Fits.not_mem {H : Heap lo hi} {size align a : ℕ} (h : H.Fits size align a)
    (hsize : 0 < size) : (a, size) ∉ H.live := by
  intro hmem
  have ha : a ∈ span (a, size) := ⟨le_rfl, Nat.lt_add_of_pos_right hsize⟩
  exact Set.disjoint_left.mp (h.apart _ hmem) ha ha

end Heap

end PhsaRuntime
