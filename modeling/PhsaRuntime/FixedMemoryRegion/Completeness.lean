import PhsaRuntime.FixedMemoryRegion.Soundness
import PhsaRuntime.Packet

/-!
# Which requests a region serves

A request could be served wherever an aligned block fits. The region looks in two places
only: behind the last chunk, up to but not including the last byte, and between a chunk and
the next one. The room before the first chunk, the last byte, and, in a region without
chunks, all that lies below the old end of the last one, are never looked at. And where
nothing is found the process aborts, before the null pointer that the callers test for is
returned.

## Main result

* `region_complete_iff` — in a run, every request is served or refused as it should be if and
  only if every request finds room in one of these two places.
-/

namespace PhsaRuntime

namespace FixedMemoryRegion

/-- An aligned block of the given size fits somewhere. -/
def Satisfiable (r : FixedMemoryRegion) (size align : ℕ) : Prop :=
  ∃ a, align ∣ a ∧ span (a, size) ⊆ Set.Ico r.startAddress (r.startAddress + r.regionSize) ∧
    ∀ b ∈ r.live, Disjoint (span b) (span (a, size))

/-- The callers report a failed allocation: `hsa_memory_allocate` by its status, the dispatch
of a packet by the check of its group memory. -/
def Reported (r : FixedMemoryRegion) (size align : ℕ) : Prop :=
  (align = 128 → (hsaMemoryAllocate true (some r) size false).map Prod.fst =
    some .errorOutOfResources) ∧
  ∀ p : AQLPacket, p.groupSegmentSize = size → validGroupMemory p none = false

/-- A request is served if and only if it can be, and otherwise refused with the null
pointer. -/
def ServesOrRefuses (r : FixedMemoryRegion) (size align : ℕ) : Prop :=
  ∃ p r', r.allocate size align = some (p, r') ∧ (p ≠ 0 ↔ r.Satisfiable size align) ∧
    (p = 0 → r'.live = r.live ∧ r.Reported size align)

/-- There is room behind the last chunk and before the last byte of the region, or between
two neighbours. -/
def HasRoom (r : FixedMemoryRegion) (size align : ℕ) : Prop :=
  (∃ a, align ∣ a ∧ r.tail ≤ a ∧ a + size < r.startAddress + r.regionSize) ∨
    ∃ b c, r.allocations.Neighbours b c ∧ ∃ a, align ∣ a ∧ b.1 + b.2 ≤ a ∧ a + size ≤ c.1

namespace Represents

variable {lo hi : ℕ} {r : FixedMemoryRegion} {H : Heap lo hi} {size align : ℕ}

theorem endFits_iff (h : r.Represents H) (halign : 0 < align) (hhi : hi < 2 ^ 64) :
    r.EndFits size align ↔
      ∃ a, align ∣ a ∧ r.tail ≤ a ∧ a + size < r.startAddress + r.regionSize := by
  have hlast := h.regionEnd hhi
  rw [h.startAddress, h.regionSize, ← hlast, EndFits, ← exists_aligned_iff halign]
  simp only [Nat.lt_succ_iff]

theorem fragmentFits_iff (halign : 0 < align) {b c : ℕ × ℕ} :
    FragmentFits size align b c ↔ ∃ a, align ∣ a ∧ b.1 + b.2 ≤ a ∧ a + size ≤ c.1 :=
  (exists_aligned_iff halign).symm

theorem place_ne_zero_iff (h : r.Represents H) (hlo : 0 < lo) (halign : 0 < align)
    (hhi : hi + size + align < 2 ^ 64) : r.place size align ≠ 0 ↔ r.HasRoom size align := by
  simp only [HasRoom, ← h.endFits_iff halign (show hi < 2 ^ 64 by omega),
    ← fragmentFits_iff halign]
  have htail := h.tail_bounds.1
  rcases h.place_cases hlo halign hhi with
    ⟨hend, hplace⟩ | ⟨b, c, hbc, hfits, hplace⟩ | ⟨hzero, hend, hnone⟩
  · exact iff_of_true (by omega) (.inl hend)
  · have hb := h.inside hbc.mem_left
    exact iff_of_true (by omega) (.inr ⟨b, c, hbc, hfits⟩)
  · apply iff_of_false (not_not.mpr hzero)
    rintro (h' | ⟨b, c, hbc, hfits⟩)
    · exact hend h'
    · exact hnone b c hbc hfits

/-- **The request lemma.** -/
theorem servesOrRefuses_iff (h : r.Represents H) (hlo : 0 < lo) (hsize : 0 < size)
    (halign : 0 < align) (hhi : hi + size + align < 2 ^ 64) :
    r.ServesOrRefuses size align ↔ r.HasRoom size align := by
  rw [← h.place_ne_zero_iff hlo halign hhi]
  rcases h.allocate_cases hlo hsize halign hhi with ⟨hzero, hnone⟩ | ⟨r', hfits, hsome, -⟩
  · refine iff_of_false ?_ (not_not.mpr hzero)
    rintro ⟨p, r', hsome, -⟩
    rw [hnone] at hsome
    cases hsome
  · have hne : r.place size align ≠ 0 := by
      obtain ⟨-, hlo', -⟩ := (h.fits_iff hsize).mp hfits
      omega
    refine iff_of_true ?_ hne
    refine ⟨_, r', hsome, iff_of_true hne ?_, fun hzero => absurd hzero hne⟩
    refine ⟨_, hfits.aligned, ?_, ?_⟩
    · rw [h.startAddress, h.regionSize]
      exact hfits.inside
    · intro b hb
      exact hfits.apart b (by rwa [h.live])

end Represents

end FixedMemoryRegion

/-! ## Runs -/

/-- A request that is admissible and not above the maximum size. -/
def WithinLimits (regionStart size : ℕ) (s : Option FixedMemoryRegion) (a : RegionAction) :
    Prop :=
  Admissible regionStart size s a ∧
    match a with
    | .allocate n _ => ∀ r ∈ s, n ≤ r.getMaxAllocSize
    | .free _ => True

/-- A call that serves or refuses its request as it should. -/
def CallComplete (s : Option FixedMemoryRegion) : RegionAction → Prop
  | .allocate n align => ∀ r ∈ s, r.ServesOrRefuses n align
  | .free _ => True

/-- A call whose request finds room. -/
def CallHasRoom (s : Option FixedMemoryRegion) : RegionAction → Prop
  | .allocate n align => ∀ r ∈ s, r.HasRoom n align
  | .free _ => True

/-- **Completeness.** In a run, every request is served or refused as it should be if and
only if every request finds room behind the last chunk or between two neighbours. -/
theorem region_complete_iff {regionStart size : ℕ} (hstart : 0 < regionStart)
    {tr : List (Option FixedMemoryRegion × RegionAction)} {s : Option FixedMemoryRegion}
    (hrun : (regionMachine regionStart size).Run tr s)
    (hok : ∀ p ∈ tr, WithinLimits regionStart size p.1 p.2) :
    (∀ p ∈ tr, CallComplete p.1 p.2) ↔ ∀ p ∈ tr, CallHasRoom p.1 p.2 := by
  apply forall₂_congr
  rintro ⟨s, a⟩ hp
  cases a with
  | free ptr => rfl
  | allocate n align =>
    apply forall₂_congr
    rintro r rfl
    have hreach := hrun.reachable_of_mem (fun p hp => (hok p hp).1) hp
    obtain ⟨H, hrep, -⟩ := region_represents hstart hreach
    obtain ⟨hn, halign, hfar⟩ := (hok _ hp).1
    exact hrep.servesOrRefuses_iff hstart hn halign (by omega)

/-- A request of 16 bytes in an empty region of 64. -/
theorem region_complete_iff_served : ∃ s : Option FixedMemoryRegion,
    (regionMachine 16 64).Run [(some (.create 16 64), .allocate 16 16)] s ∧
      CallComplete (some (.create 16 64)) (.allocate 16 16) := by
  have hrun : (regionMachine 16 64).Run [(some (.create 16 64), .allocate 16 16)] _ :=
    .step (.init rfl) rfl
  refine ⟨_, hrun, ?_⟩
  have hiff := region_complete_iff (by decide) hrun (by simp [WithinLimits, Admissible,
    FixedMemoryRegion.getMaxAllocSize, FixedMemoryRegion.create])
  have hroom : CallHasRoom (some (.create 16 64)) (.allocate 16 16) := by
    rintro r ⟨⟩
    exact .inl ⟨16, by decide, by decide, by decide⟩
  simpa using hiff.mpr (by simpa using hroom)

/-- A request for a whole region without blocks fits, and aborts the process. -/
theorem region_incomplete :
    (regionMachine 16 16).Reachable (WithinLimits 16 16) (some (.create 16 16)) ∧
      WithinLimits 16 16 (some (.create 16 16)) (.allocate 16 1) ∧
      (FixedMemoryRegion.create 16 16).Satisfiable 16 1 ∧
      ¬ CallComplete (some (.create 16 16)) (.allocate 16 1) := by
  refine ⟨.init rfl, ?_, ⟨16, by decide, subset_rfl, ?_⟩, ?_⟩
  · simp [WithinLimits, Admissible, FixedMemoryRegion.getMaxAllocSize, FixedMemoryRegion.create]
  · intro b hb
    simp [FixedMemoryRegion.create, OrderedMap.mem_def] at hb
  · intro hcomplete
    obtain ⟨p, r', hsome, -⟩ := hcomplete _ rfl
    have hnone : (FixedMemoryRegion.create 16 16).allocate 16 1 = none := by decide +kernel
    rw [hnone] at hsome
    cases hsome

end PhsaRuntime
