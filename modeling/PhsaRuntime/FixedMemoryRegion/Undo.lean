import PhsaRuntime.FixedMemoryRegion.Soundness
import PhsaRuntime.Lib.Component

/-!
# Releasing what was just allocated

An allocation leaves two traces in a region: the block, which its release removes, and
`FreeSpaceStart`, which stays. As long as there are blocks the next call sets `FreeSpaceStart`
again, but in a region that has become empty it is what the next allocation starts from, so that
callers who release everything can tell every value of it from every other
(`freeSpaceStart_eq`).

## Main result

* `release_undoes_allocation_iff` — when the callers of a region cannot tell that a block has
  been allocated and released.
-/

namespace PhsaRuntime

/-- What a call on a region returns. -/
inductive RegionAnswer
  | allocated (ptr : ℕ)
  | freed (found : Bool)
  deriving DecidableEq, Repr

/-- The arguments are `size_t`s and addresses. -/
def RegionAction.InRange : RegionAction → Prop
  | .allocate size align => size < 2 ^ 64 ∧ align < 2 ^ 64
  | .free ptr => ptr < 2 ^ 64

namespace FixedMemoryRegion

/-- A call: what it returns and the region afterwards; `none` where the process aborts. -/
def call (a : RegionAction) (r : FixedMemoryRegion) : Option (RegionAnswer × FixedMemoryRegion) :=
  match a with
  | .allocate size align => (r.allocate size align).map fun res => (.allocated res.1, res.2)
  | .free ptr => some (.freed (r.free ptr).1, (r.free ptr).2)

/-- A region, as its callers see it. -/
def component : Component FixedMemoryRegion RegionAction RegionAnswer := ⟨call⟩

/-- The calls are the steps of `regionMachine`. -/
theorem call_eq_step (regionStart size : ℕ) (a : RegionAction) (r : FixedMemoryRegion) :
    (r.call a).map Prod.snd =
      ((regionMachine regionStart size).step a (some r)).bind id := by
  cases a with
  | allocate size align =>
    simp [call, regionMachine, Option.map_map, Function.comp_def]
  | free ptr => rfl

/-- No caller can tell the two regions apart. -/
abbrev Indistinguishable (r r' : FixedMemoryRegion) : Prop :=
  component.Indistinguishable RegionAction.InRange r r'

/-- `FreeSpaceStart` already has the value that an allocation leaves it: the end of the new
block, where that goes behind the last chunk, and else the end of the last chunk. -/
def CacheKept (r : FixedMemoryRegion) (size align : ℕ) : Prop :=
  let start := r.freeSpaceStartNow
  r.freeSpaceStart =
    if Word.wrap (start + size + padding start align) ≤ r.regionEnd then
      Word.wrap (Word.wrap (start + padding start align) + size)
    else start

variable {r r' : FixedMemoryRegion} {size align p : ℕ}

theorem cacheKept_iff :
    r.CacheKept size align ↔ r.freeSpaceStart = (r.allocateAtEnd size align).2 := by
  simp only [CacheKept, allocateAtEnd]
  split <;> rfl

/-! ## Addresses -/

/-- Everything a region keeps is an address. -/
structure Addressed (r : FixedMemoryRegion) : Prop where
  freeSpaceStart : r.freeSpaceStart < 2 ^ 64
  base : ∀ b ∈ r.allocations, b.1 < 2 ^ 64

theorem wrap_lt (x : ℕ) : Word.wrap x < 2 ^ 64 := Nat.mod_lt x (by decide)

theorem findFragment_lt (size align : ℕ) (chunks : List (ℕ × ℕ)) :
    findFragment size align chunks < 2 ^ 64 := by
  fun_induction findFragment size align chunks with
  | case1 => exact wrap_lt _
  | case2 _ _ _ _ _ ih => exact ih
  | case3 => decide

theorem Addressed.allocateAtEnd (h : r.Addressed) (size align : ℕ) :
    (r.allocateAtEnd size align).1 < 2 ^ 64 ∧ (r.allocateAtEnd size align).2 < 2 ^ 64 := by
  have hnow : r.freeSpaceStartNow < 2 ^ 64 := by
    rw [freeSpaceStartNow]
    split
    · exact wrap_lt _
    · exact h.freeSpaceStart
  simp only [FixedMemoryRegion.allocateAtEnd]
  split
  · exact ⟨wrap_lt _, wrap_lt _⟩
  · exact ⟨Nat.two_pow_pos 64, hnow⟩

theorem Addressed.place_lt (h : r.Addressed) (size align : ℕ) : r.place size align < 2 ^ 64 := by
  rw [place]
  split
  · exact findFragment_lt size align _
  · exact (h.allocateAtEnd size align).1

/-- What an allocation that returns does. -/
theorem allocate_eq_some (h : r.allocate size align = some (p, r')) :
    p = r.place size align ∧ p ≠ 0 ∧
      r' = { r with
        freeSpaceStart := (r.allocateAtEnd size align).2
        allocations := r.allocations.insert p size } := by
  simp only [allocate] at h
  split at h
  · cases h
  · rename_i hplace
    simp only [not_or] at hplace
    obtain ⟨rfl, rfl⟩ := Prod.mk.inj (Option.some.inj h)
    exact ⟨rfl, hplace.2.1, rfl⟩

theorem Addressed.allocate (h : r.Addressed) (ha : r.allocate size align = some (p, r')) :
    r'.Addressed := by
  obtain ⟨rfl, -, rfl⟩ := allocate_eq_some ha
  refine ⟨(h.allocateAtEnd size align).2, ?_⟩
  intro b hb
  rcases OrderedMap.mem_insert.mp hb with rfl | ⟨hb, -⟩
  · exact h.place_lt size align
  · exact h.base b hb

theorem Addressed.free (h : r.Addressed) (p : ℕ) : (r.free p).2.Addressed :=
  ⟨h.freeSpaceStart, fun b hb => h.base b (OrderedMap.mem_erase.mp hb).1⟩

theorem addressed_of_reachable {regionStart size : ℕ} (hstart : regionStart < 2 ^ 64)
    {ok : Option FixedMemoryRegion → RegionAction → Prop}
    (h : (regionMachine regionStart size).Reachable ok (some r)) : r.Addressed := by
  refine h.induction (P := fun s => ∀ r, s = some r → r.Addressed) ?_ ?_ r rfl
  · rintro s rfl r heq
    obtain rfl := Option.some.inj heq
    exact ⟨hstart, by simp [create, OrderedMap.mem_def]⟩
  · intro s a s' _ _ hs ih r' hr'
    obtain ⟨r, rfl, hr⟩ := Option.map_eq_some_iff.mp hs
    cases a with
    | allocate n align =>
      obtain ⟨⟨p, r₁⟩, hsome, hsnd⟩ := Option.map_eq_some_iff.mp (hr.trans hr')
      obtain rfl : r₁ = r' := hsnd
      exact (ih r rfl).allocate hsome
    | free p =>
      obtain rfl := Option.some.inj (hr.trans hr')
      exact (ih r rfl).free p

/-! ## The two traces of an allocation -/

/-- What is left of an allocation when its block is released. -/
theorem free_of_allocate (h : r.allocate size align = some (p, r')) :
    (r'.free p).2 = { r with
      freeSpaceStart := (r.allocateAtEnd size align).2
      allocations := r.allocations.erase p } := by
  obtain ⟨-, -, rfl⟩ := allocate_eq_some h
  simp only [free, OrderedMap.erase_insert]

/-- A release is answered in the same way, so that the same blocks are live. -/
theorem Indistinguishable.free_eq (h : r.Indistinguishable r') (hp : p < 2 ^ 64) :
    (r.free p).1 = (r'.free p).1 ∧ (r.free p).2.Indistinguishable (r'.free p).2 := by
  have hok : RegionAction.InRange (.free p) := hp
  have hanswer := h.answer hok
  simp only [component, call, Option.map_some, Option.some.injEq, RegionAnswer.freed.injEq]
    at hanswer
  exact ⟨hanswer, h.call hok rfl rfl⟩

/-- An allocation is answered in the same way. -/
theorem Indistinguishable.allocate_eq (h : r.Indistinguishable r') (hsize : size < 2 ^ 64)
    (halign : align < 2 ^ 64) :
    (r.allocate size align).map Prod.fst = (r'.allocate size align).map Prod.fst := by
  have hok : RegionAction.InRange (.allocate size align) := ⟨hsize, halign⟩
  have hcall : ∀ r : FixedMemoryRegion, (component.call (.allocate size align) r).map Prod.fst =
      ((r.allocate size align).map Prod.fst).map RegionAnswer.allocated := by
    intro r
    simp [component, call, Function.comp_def]
  have hanswer := h.answer hok
  rw [hcall, hcall] at hanswer
  apply Option.map_injective _ hanswer
  intro x y hxy
  exact RegionAnswer.allocated.inj hxy

/-- Release the blocks with the given bases. -/
def freeAll (r : FixedMemoryRegion) : List ℕ → FixedMemoryRegion
  | [] => r
  | p :: ps => (r.free p).2.freeAll ps

theorem freeAll_eq (r : FixedMemoryRegion) (ps : List ℕ) :
    r.freeAll ps = { r with allocations := (r.freeAll ps).allocations } ∧
      ∀ b, b ∈ (r.freeAll ps).allocations ↔ b ∈ r.allocations ∧ b.1 ∉ ps := by
  induction ps generalizing r with
  | nil => simp [freeAll]
  | cons p ps ih =>
    obtain ⟨heq, hmem⟩ := ih (r.free p).2
    refine ⟨heq, ?_⟩
    intro b
    rw [freeAll, hmem, free, OrderedMap.mem_erase, List.mem_cons, not_or, and_assoc]

/-- Release every block. -/
def freeEverything (r : FixedMemoryRegion) : FixedMemoryRegion :=
  r.freeAll (r.allocations.entries.map Prod.fst)

theorem freeEverything_eq (r : FixedMemoryRegion) :
    r.freeEverything = { r with allocations := .empty } := by
  obtain ⟨heq, hmem⟩ := freeAll_eq r (r.allocations.entries.map Prod.fst)
  have hempty : (r.freeAll (r.allocations.entries.map Prod.fst)).allocations = .empty := by
    apply OrderedMap.eq_of_mem_iff
    intro b
    rw [hmem]
    constructor
    · rintro ⟨hb, hnot⟩
      exact absurd (List.mem_map_of_mem hb) hnot
    · intro hb
      cases hb
  rw [freeEverything, heq, hempty]

theorem Indistinguishable.freeAll (h : r.Indistinguishable r') {ps : List ℕ}
    (hps : ∀ p ∈ ps, p < 2 ^ 64) : (r.freeAll ps).Indistinguishable (r'.freeAll ps) := by
  induction ps generalizing r r' with
  | nil => exact h
  | cons p ps ih =>
    exact ih (h.free_eq (hps p List.mem_cons_self)).2 fun q hq =>
      hps q (List.mem_cons_of_mem p hq)

/-- A request to an empty region is answered with `FreeSpaceStart`, if at all. -/
theorem allocate_empty (hempty : r.allocations = .empty) (hlt : r.freeSpaceStart < 2 ^ 64) :
    (r.allocate size 1).map Prod.fst =
      if r.freeSpaceStart ≠ 0 ∧ Word.wrap (r.freeSpaceStart + size) ≤ r.regionEnd then
        some r.freeSpaceStart
      else none := by
  have hnow : r.freeSpaceStartNow = r.freeSpaceStart := by
    simp only [freeSpaceStartNow, hempty]
    rfl
  have hpad : padding r.freeSpaceStart 1 = 0 := by simp [padding, Nat.mod_one]
  have hwrap : Word.wrap r.freeSpaceStart = r.freeSpaceStart := Word.wrap_of_lt hlt
  have hnone : findFragment size 1 r.allocations.entries = 0 := by
    rw [hempty]
    rfl
  simp only [allocate, place, allocateAtEnd, hnow, hpad, Nat.add_zero, hwrap, hnone]
  by_cases hzero : r.freeSpaceStart = 0
  · by_cases hroom : Word.wrap size ≤ r.regionEnd <;> simp [hzero, hroom]
  · by_cases hroom : Word.wrap (r.freeSpaceStart + size) ≤ r.regionEnd
    · simp [hzero, hroom, Nat.mod_one]
    · simp [hroom]

/-- The size of the address space above `FreeSpaceStart` is always granted, as the end of the
block wraps around to 0. -/
theorem freeSpaceStart_eq_of_ne_zero (h : r.Indistinguishable r')
    (hempty : r.allocations = .empty) (hempty' : r'.allocations = .empty)
    (hlt : r.freeSpaceStart < 2 ^ 64) (hlt' : r'.freeSpaceStart < 2 ^ 64)
    (hne : r.freeSpaceStart ≠ 0) : r.freeSpaceStart = r'.freeSpaceStart := by
  have hsum : r.freeSpaceStart + (2 ^ 64 - r.freeSpaceStart) = 2 ^ 64 := by omega
  have hroom : Word.wrap (2 ^ 64) ≤ r.regionEnd := Nat.zero_le _
  have hsize : 2 ^ 64 - r.freeSpaceStart < 2 ^ 64 := by omega
  have hanswer := h.allocate_eq hsize (by decide : 1 < 2 ^ 64)
  rw [allocate_empty hempty hlt, allocate_empty hempty' hlt', hsum, if_pos ⟨hne, hroom⟩] at hanswer
  split at hanswer
  · exact Option.some.inj hanswer
  · cases hanswer

/-- **The callers see `FreeSpaceStart`:** they release every block and allocate again. -/
theorem freeSpaceStart_eq (h : r.Indistinguishable r') (hr : r.Addressed) (hr' : r'.Addressed)
    (hsame : r.allocations = r'.allocations) : r.freeSpaceStart = r'.freeSpaceStart := by
  have hempty : r.freeEverything.Indistinguishable r'.freeEverything := by
    rw [freeEverything, freeEverything, ← hsame]
    apply h.freeAll
    intro p hp
    obtain ⟨b, hb, rfl⟩ := List.mem_map.mp hp
    exact hr.base b hb
  rw [freeEverything_eq, freeEverything_eq] at hempty
  by_cases hzero : r.freeSpaceStart = 0
  · by_cases hzero' : r'.freeSpaceStart = 0
    · rw [hzero, hzero']
    · have heq := freeSpaceStart_eq_of_ne_zero hempty.symm rfl rfl hr'.freeSpaceStart
        hr.freeSpaceStart hzero'
      exact heq.symm
  · have heq := freeSpaceStart_eq_of_ne_zero hempty rfl rfl hr.freeSpaceStart
      hr'.freeSpaceStart hzero
    exact heq

end FixedMemoryRegion

open FixedMemoryRegion

/-- **When a release undoes an allocation:** exactly if no block of the region has the base of the
new one, and `FreeSpaceStart` already has the value that the allocation leaves it. -/
theorem release_undoes_allocation_iff {regionStart regionSize : ℕ} (hstart : regionStart < 2 ^ 64)
    {r r' : FixedMemoryRegion} {size align p : ℕ}
    (h : (regionMachine regionStart regionSize).Reachable Machine.always (some r))
    (hallocate : r.allocate size align = some (p, r')) :
    (r'.free p).2.Indistinguishable r ↔ (∀ n, (p, n) ∉ r.live) ∧ r.CacheKept size align := by
  have haddr := addressed_of_reachable hstart h
  have haddr' := (haddr.allocate hallocate).free p
  have hp : p < 2 ^ 64 := by
    obtain ⟨rfl, -, -⟩ := allocate_eq_some hallocate
    exact haddr.place_lt size align
  have hleft := free_of_allocate hallocate
  constructor
  · intro hsame
    have hnone : ∀ n, (p, n) ∉ r.live := by
      intro n hn
      have hfound := (r.free_eq_true p).mpr ⟨n, hn⟩
      rw [← (hsame.free_eq hp).1, free_eq_true, hleft] at hfound
      obtain ⟨n, hn⟩ := hfound
      simp at hn
    refine ⟨hnone, ?_⟩
    have hblocks : (r'.free p).2.allocations = r.allocations := by
      rw [hleft]
      exact OrderedMap.erase_eq_self (by simpa using hnone)
    have hcache := freeSpaceStart_eq hsame haddr' haddr hblocks
    rw [hleft] at hcache
    exact cacheKept_iff.mpr hcache.symm
  · rintro ⟨hnone, hcache⟩
    have herase : r.allocations.erase p = r.allocations :=
      OrderedMap.erase_eq_self (by simpa using hnone)
    have heq : (r'.free p).2 = r := by
      rw [hleft, herase, ← cacheKept_iff.mp hcache]
    rw [heq]
    exact .refl r

/-- A block is allocated at the place of one that was released. -/
theorem release_undoes_allocation_again : ∃ r r' : FixedMemoryRegion,
    r.allocate 8 1 = some (24, r') ∧ (r'.free 24).2.Indistinguishable r := by
  obtain ⟨s, hs, hp⟩ := Machine.exists_reachable_of_run (regionMachine 16 64) Machine.always
    [.allocate 8 1, .allocate 8 1, .free 24]
    (fun s => s.any fun r => (r.allocate 8 1).map Prod.fst = some 24 ∧
      r.allocations.entries = [(16, 8)] ∧ r.freeSpaceStart = (r.allocateAtEnd 8 1).2)
    rfl (by decide +kernel)
  obtain ⟨r, rfl, hr⟩ := (Option.any_eq_true _ _).mp hp
  obtain ⟨hallocate, hentries, hcache⟩ := of_decide_eq_true hr
  obtain ⟨⟨p, r'⟩, hsome, hp⟩ := Option.map_eq_some_iff.mp hallocate
  obtain rfl : p = 24 := hp
  have hnone : ∀ n, (24, n) ∉ r.live := by simp [live, OrderedMap.mem_def, hentries]
  exact ⟨r, r', hsome,
    (release_undoes_allocation_iff (by decide) hs hsome).mpr ⟨hnone, cacheKept_iff.mpr hcache⟩⟩

/-- In a region of 64 bytes, 32 bytes are allocated and released, and 40 bytes are no longer
found. -/
theorem release_leaks : ∃ r r' : FixedMemoryRegion, ∃ p,
    (regionMachine 16 64).Reachable Machine.always (some r) ∧ r.allocate 32 1 = some (p, r') ∧
      ¬ (r'.free p).2.Indistinguishable r := by
  refine ⟨.create 16 64, _, _, .init rfl, rfl, ?_⟩
  intro h
  have hsize : 40 < 2 ^ 64 := by decide
  have hanswer := h.allocate_eq hsize (by decide : 1 < 2 ^ 64)
  exact absurd hanswer (by decide)

end PhsaRuntime
