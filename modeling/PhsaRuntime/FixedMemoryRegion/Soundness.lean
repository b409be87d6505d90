import PhsaRuntime.FixedMemoryRegion

/-!
# A region is a heap

A region of addresses below `2 ^ 64` represents a heap: its live blocks lie inside the range
and share no address. Where sums do not wrap around, an allocation that succeeds adds a block
that fits, and a release removes the block with the given base, so that every run of a region
is a run of heap steps.

Both attempts of an allocation are read as searches for an aligned address: the first between
the end of the last chunk and the last byte of the region, the second between the end of a
chunk and its neighbour (`place_ne_zero_iff`).

## Main result

* `region_sound` — the live blocks of every reachable region, and what the calls do to them.
-/

namespace PhsaRuntime

namespace FixedMemoryRegion

/-- Where the free space at the end starts, as an address. -/
def tail (r : FixedMemoryRegion) : ℕ :=
  match r.allocations.last? with
  | some chunk => chunk.1 + chunk.2
  | none => r.freeSpaceStart

/-- The region has the live blocks of the heap. -/
structure Represents {lo hi : ℕ} (r : FixedMemoryRegion) (H : Heap lo hi) : Prop where
  live : H.live = r.live
  startAddress : r.startAddress = lo
  regionSize : lo + r.regionSize = hi
  regionEnd : hi < 2 ^ 64 → r.regionEnd + 1 = hi
  positive : ∀ b ∈ r.allocations, 0 < b.2
  freeSpaceStart : lo ≤ r.freeSpaceStart ∧ r.freeSpaceStart ≤ hi

namespace Represents

variable {lo hi : ℕ} {r : FixedMemoryRegion} {H : Heap lo hi}

theorem create {start size : ℕ} (h : 0 < start) :
    (FixedMemoryRegion.create start size).Represents (Heap.empty start (start + size)) where
  live := by
    ext b
    simp [Heap.empty, FixedMemoryRegion.create, OrderedMap.mem_def]
  startAddress := rfl
  regionSize := rfl
  regionEnd := by
    intro hlt
    simp only [FixedMemoryRegion.create, Word.toUInt64]
    omega
  positive := by
    intro b hb
    simp [FixedMemoryRegion.create, OrderedMap.mem_def] at hb
  freeSpaceStart := ⟨le_rfl, Nat.le_add_right start size⟩

theorem inside (h : r.Represents H) {b : ℕ × ℕ} (hb : b ∈ r.allocations) :
    lo ≤ b.1 ∧ b.1 + b.2 ≤ hi :=
  (span_subset_iff (h.positive b hb)).mp (H.inside b (by simpa [h.live] using hb))

theorem apart (h : r.Represents H) {b c : ℕ × ℕ} (hb : b ∈ r.allocations)
    (hc : c ∈ r.allocations) (hlt : b.1 < c.1) : b.1 + b.2 ≤ c.1 := by
  have hne : b ≠ c := by
    rintro rfl
    exact lt_irrefl _ hlt
  have hdisj := H.disjoint (by simpa [h.live] using hb) (by simpa [h.live] using hc) hne
  rcases (disjoint_span_iff (h.positive b hb) (h.positive c hc)).mp hdisj with hle | hle
  · exact hle
  · have := h.positive c hc
    omega

theorem fits_iff (h : r.Represents H) {size align a : ℕ} (hsize : 0 < size) :
    H.Fits size align a ↔ align ∣ a ∧ lo ≤ a ∧ a + size ≤ hi ∧
      ∀ b ∈ r.allocations, b.1 + b.2 ≤ a ∨ a + size ≤ b.1 := by
  rw [Heap.fits_iff (by simpa [h.live] using h.positive) hsize, h.live]
  rfl

/-- Chunks end in the order of their bases. -/
theorem end_le (h : r.Represents H) {b c : ℕ × ℕ} (hb : b ∈ r.allocations)
    (hc : c ∈ r.allocations) (hle : b.1 ≤ c.1) : b.1 + b.2 ≤ c.1 + c.2 := by
  rcases hle.lt_or_eq with hlt | heq
  · have := h.apart hb hc hlt
    omega
  · obtain ⟨base, size⟩ := b
    obtain ⟨base', size'⟩ := c
    obtain rfl : base = base' := heq
    rw [OrderedMap.value_unique hb hc]

/-! ## The free space at the end -/

theorem tail_bounds (h : r.Represents H) : lo ≤ r.tail ∧ r.tail ≤ hi := by
  simp only [tail]
  split
  · rename_i chunk hlast
    have := h.inside (OrderedMap.mem_of_last? hlast)
    omega
  · exact h.freeSpaceStart

/-- The free space at the end lies above all blocks. -/
theorem le_tail (h : r.Represents H) {b : ℕ × ℕ} (hb : b ∈ r.allocations) :
    b.1 + b.2 ≤ r.tail := by
  simp only [tail]
  split
  · rename_i chunk hlast
    exact h.end_le hb (OrderedMap.mem_of_last? hlast) (OrderedMap.le_last hlast hb)
  · rename_i hlast
    rw [OrderedMap.mem_def, OrderedMap.last?_eq_none.mp hlast] at hb
    cases hb

theorem freeSpaceStartNow_eq (h : r.Represents H) (hhi : hi < 2 ^ 64) :
    r.freeSpaceStartNow = r.tail := by
  have htail := h.tail_bounds.2
  cases hlast : r.allocations.last? with
  | none => simp only [freeSpaceStartNow, tail, hlast]
  | some chunk =>
    simp only [tail, hlast] at htail
    have hsum : chunk.1 + chunk.2 < 2 ^ 64 := by omega
    simpa only [freeSpaceStartNow, tail, hlast] using Word.wrap_of_lt hsum

end Represents

/-- The end of a padded block behind an address does not wrap around. -/
theorem wrap_padded {addr size align hi : ℕ} (hle : addr ≤ hi) (halign : 0 < align)
    (hhi : hi + size + align < 2 ^ 64) :
    Word.wrap (addr + size + padding addr align) = addr + padding addr align + size ∧
      Word.wrap (addr + padding addr align) = addr + padding addr align := by
  have hpad := padding_lt addr halign
  constructor
  · rw [Nat.add_right_comm]
    exact Word.wrap_of_lt (by omega)
  · exact Word.wrap_of_lt (by omega)

/-! ## The two attempts -/

/-- There is room between the end of a chunk and the next one. -/
def FragmentFits (size align : ℕ) (chunk next : ℕ × ℕ) : Prop :=
  chunk.1 + chunk.2 + padding (chunk.1 + chunk.2) align + size ≤ next.1

/-- The walk finds the padded end of a chunk with room behind it, if there is one. -/
theorem findFragment_spec {size align hi : ℕ} (halign : 0 < align)
    (hhi : hi + size + align < 2 ^ 64) {chunks : List (ℕ × ℕ)}
    (hchunks : ∀ b ∈ chunks, b.1 + b.2 ≤ hi) :
    (findFragment size align chunks = 0 ∧
        ∀ b c, [b, c] <:+: chunks → ¬ FragmentFits size align b c) ∨
      ∃ b c, [b, c] <:+: chunks ∧ FragmentFits size align b c ∧
        findFragment size align chunks = b.1 + b.2 + padding (b.1 + b.2) align := by
  fun_induction findFragment size align chunks with
  | case1 chunk next rest chunkEnd hroom =>
    have hle := hchunks chunk List.mem_cons_self
    have hend : chunkEnd = chunk.1 + chunk.2 := Word.wrap_of_lt (by omega)
    obtain ⟨hsum, hpadded⟩ := wrap_padded hle halign hhi
    rw [hend, hsum] at hroom
    exact .inr ⟨chunk, next, ⟨[], rest, rfl⟩, hroom, by rw [hend, hpadded]⟩
  | case2 chunk next rest chunkEnd hroom ih =>
    have hle := hchunks chunk List.mem_cons_self
    have hend : chunkEnd = chunk.1 + chunk.2 := Word.wrap_of_lt (by omega)
    rw [hend, (wrap_padded hle halign hhi).1] at hroom
    rcases ih (fun b hb => hchunks b (List.mem_cons_of_mem _ hb)) with
      ⟨hzero, hnone⟩ | ⟨b, c, hbc, hfits, heq⟩
    · refine .inl ⟨hzero, ?_⟩
      intro b c hbc
      rcases List.infix_cons_iff.mp hbc with hprefix | hbc
      · obtain ⟨rfl, htail⟩ := List.cons_prefix_cons.mp hprefix
        obtain ⟨rfl, -⟩ := List.cons_prefix_cons.mp htail
        exact hroom
      · exact hnone b c hbc
    · exact .inr ⟨b, c, List.infix_cons hbc, hfits, heq⟩
  | case3 chunks hshort =>
    refine .inl ⟨rfl, ?_⟩
    intro b c hbc
    have hlen := hbc.length_le
    cases chunks with
    | nil => simp at hlen
    | cons chunk rest =>
      cases rest with
      | nil => simp at hlen
      | cons next rest => exact absurd rfl (hshort chunk next rest)

/-- There is room between the end of the last chunk and the last byte of the region. -/
def EndFits (r : FixedMemoryRegion) (size align : ℕ) : Prop :=
  r.tail + padding r.tail align + size ≤ r.regionEnd

namespace Represents

variable {lo hi : ℕ} {r : FixedMemoryRegion} {H : Heap lo hi} {size align : ℕ}

theorem allocateAtEnd_eq (h : r.Represents H) (halign : 0 < align)
    (hhi : hi + size + align < 2 ^ 64) :
    r.allocateAtEnd size align =
      if r.tail + padding r.tail align + size ≤ r.regionEnd then
        (r.tail + padding r.tail align, r.tail + padding r.tail align + size)
      else (0, r.tail) := by
  have htail := h.tail_bounds.2
  obtain ⟨hsum, hpadded⟩ := wrap_padded htail halign hhi
  have hpad := padding_lt r.tail halign
  have hend : Word.wrap (r.tail + padding r.tail align + size) =
      r.tail + padding r.tail align + size := Word.wrap_of_lt (by omega)
  simp only [allocateAtEnd, h.freeSpaceStartNow_eq (by omega), hsum, hpadded, hend]

/-- **What an allocation finds:** the padded end of the last chunk, if there is room behind
it; else the padded end of a chunk with room before the next one; else nothing. -/
theorem place_cases (h : r.Represents H) (hlo : 0 < lo) (halign : 0 < align)
    (hhi : hi + size + align < 2 ^ 64) :
    (r.EndFits size align ∧ r.place size align = r.tail + padding r.tail align) ∨
      (∃ b c, r.allocations.Neighbours b c ∧ FragmentFits size align b c ∧
        r.place size align = b.1 + b.2 + padding (b.1 + b.2) align) ∨
      (r.place size align = 0 ∧ ¬ r.EndFits size align ∧
        ∀ b c, r.allocations.Neighbours b c → ¬ FragmentFits size align b c) := by
  have htail := h.tail_bounds.1
  by_cases hend : r.EndFits size align
  · have hne : r.tail + padding r.tail align ≠ 0 := by omega
    refine .inl ⟨hend, ?_⟩
    rw [EndFits] at hend
    simp only [place, h.allocateAtEnd_eq halign hhi, if_pos hend, if_neg hne]
  · have hplace : r.place size align = findFragment size align r.allocations.entries := by
      rw [EndFits] at hend
      simp only [place, h.allocateAtEnd_eq halign hhi, if_neg hend, if_true]
    rw [hplace]
    rcases findFragment_spec halign hhi fun b hb => (h.inside hb).2 with
      ⟨hzero, hnone⟩ | hfound
    · exact .inr (.inr ⟨hzero, hend, hnone⟩)
    · exact .inr (.inl hfound)

/-- What an allocation finds fits. -/
theorem fits_place (h : r.Represents H) (hlo : 0 < lo) (hsize : 0 < size) (halign : 0 < align)
    (hhi : hi + size + align < 2 ^ 64) (hne : r.place size align ≠ 0) :
    H.Fits size align (r.place size align) := by
  rw [h.fits_iff hsize]
  rcases h.place_cases hlo halign hhi with
    ⟨hend, hplace⟩ | ⟨b, c, hbc, hfits, hplace⟩ | ⟨hzero, -⟩
  · have hlast := h.regionEnd (by omega)
    have htail := h.tail_bounds.1
    rw [EndFits] at hend
    rw [hplace]
    refine ⟨dvd_add_padding _ halign, by omega, by omega, ?_⟩
    intro d hd
    have := h.le_tail hd
    omega
  · have hb := h.inside hbc.mem_left
    have hc := h.inside hbc.mem_right
    rw [FragmentFits] at hfits
    rw [hplace]
    refine ⟨dvd_add_padding _ halign, by omega, by omega, ?_⟩
    intro d hd
    rcases hbc.le_or_le hd with hle | hle
    · have := h.end_le hd hbc.mem_left hle
      omega
    · omega
  · exact absurd hzero hne

/-! ## The calls -/

/-- **The allocation lemma:** where nothing is found, the process aborts, and elsewhere a
block that fits is added to the heap. -/
theorem allocate_cases (h : r.Represents H) (hlo : 0 < lo) (hsize : 0 < size)
    (halign : 0 < align) (hhi : hi + size + align < 2 ^ 64) :
    (r.place size align = 0 ∧ r.allocate size align = none) ∨
      ∃ (r' : FixedMemoryRegion) (hfits : H.Fits size align (r.place size align)),
        r.allocate size align = some (r.place size align, r') ∧ r'.Represents (H.add hfits) := by
  by_cases hplace : r.place size align = 0
  · exact .inl ⟨hplace, by simp only [allocate, hplace, true_or, or_true, if_true]⟩
  · have hfits := h.fits_place hlo hsize halign hhi hplace
    obtain ⟨haligned, -, -, hapart⟩ := (h.fits_iff hsize).mp hfits
    have htail := h.tail_bounds
    refine .inr ⟨_, hfits, if_neg ?_, ?_⟩
    · have hmod := Nat.mod_eq_zero_of_dvd haligned
      omega
    · constructor
      case live =>
        ext b
        have hbase : b ∈ r.allocations → b.1 ≠ r.place size align := by
          intro hb
          have := h.positive b hb
          have := hapart b hb
          omega
        simp only [Heap.live_add, h.live, Set.mem_insert_iff, mem_live, OrderedMap.mem_insert]
        exact or_congr_right (by simpa using hbase)
      case startAddress => exact h.startAddress
      case regionSize => exact h.regionSize
      case regionEnd => exact h.regionEnd
      case positive =>
        intro b hb
        rcases OrderedMap.mem_insert.mp hb with rfl | ⟨hb, -⟩
        · exact hsize
        · exact h.positive b hb
      case freeSpaceStart =>
        have hlast := h.regionEnd (by omega)
        simp only [h.allocateAtEnd_eq halign hhi]
        split <;> simp only <;> omega

/-- **The release lemma:** the block with the given base is removed. -/
theorem free (h : r.Represents H) (ptr : ℕ) : (r.free ptr).2.Represents (H.remove ptr) where
  live := by
    ext b
    simp [FixedMemoryRegion.free, h.live]
  startAddress := h.startAddress
  regionSize := h.regionSize
  regionEnd := h.regionEnd
  positive := by
    intro b hb
    exact h.positive b (OrderedMap.mem_erase.mp hb).1
  freeSpaceStart := h.freeSpaceStart

end Represents

/-- A release answers whether a block has the given base. -/
theorem free_eq_true (r : FixedMemoryRegion) (ptr : ℕ) :
    (r.free ptr).1 = true ↔ ∃ size, (ptr, size) ∈ r.live := by
  rw [free, decide_eq_true_eq]
  exact OrderedMap.length_erase_lt

end FixedMemoryRegion

/-! ## Runs -/

/-- A request for a block of some size and alignment, in a range far enough from the end of
the address space. -/
def Admissible (regionStart size : ℕ) (_ : Option FixedMemoryRegion) : RegionAction → Prop
  | .allocate n align => 0 < n ∧ 0 < align ∧ regionStart + size + n + align ≤ 2 ^ 64 - 1
  | .free _ => True

instance (regionStart size : ℕ) (s : Option FixedMemoryRegion) :
    (a : RegionAction) → Decidable (Admissible regionStart size s a)
  | .allocate _ _ => inferInstanceAs (Decidable (_ ∧ _))
  | .free _ => .isTrue trivial

variable {regionStart size : ℕ}

/-- **Refinement.** In every reachable state, the region represents a heap that is reached by
heap steps. -/
theorem region_represents (hstart : 0 < regionStart) {r : FixedMemoryRegion}
    (h : (regionMachine regionStart size).Reachable (Admissible regionStart size) (some r)) :
    ∃ H : Heap regionStart (regionStart + size), r.Represents H ∧
      Relation.ReflTransGen Heap.Step (Heap.empty _ _) H := by
  refine h.induction (P := fun s => ∀ r, s = some r →
    ∃ H : Heap regionStart (regionStart + size), r.Represents H ∧
      Relation.ReflTransGen Heap.Step (Heap.empty _ _) H) ?_ ?_ r rfl
  · rintro s rfl r heq
    cases heq
    exact ⟨_, .create hstart, .refl⟩
  · intro s a s' _ hok hs ih r' hr'
    obtain ⟨r, rfl, hr⟩ := Option.map_eq_some_iff.mp hs
    obtain ⟨H, hrep, hsteps⟩ := ih r rfl
    cases a with
    | allocate n align =>
      obtain ⟨hn, halign, hfar⟩ := hok
      rcases hrep.allocate_cases hstart hn halign (by omega) with
        ⟨-, hnone⟩ | ⟨r₁, hfits, hsome, hrep'⟩
      · simp only [hnone, Option.map_none] at hr
        rw [← hr] at hr'
        cases hr'
      · simp only [hsome, Option.map_some] at hr
        rw [← hr, Option.some.injEq] at hr'
        subst hr'
        exact ⟨_, hrep', hsteps.tail (.allocate hfits)⟩
    | free ptr =>
      rw [← hr, Option.some.injEq] at hr'
      subst hr'
      exact ⟨_, hrep.free ptr, hsteps.tail (.free ptr)⟩

/-- The live blocks of a region, and what the calls do to them. -/
structure RegionSound (r : FixedMemoryRegion) : Prop where
  inside : ∀ b ∈ r.live, span b ⊆ Set.Ico r.startAddress (r.startAddress + r.regionSize)
  disjoint : r.live.PairwiseDisjoint span
  /-- A successful allocation returns an aligned base and adds exactly its block. -/
  allocate : ∀ n align, Admissible r.startAddress r.regionSize (some r) (.allocate n align) →
    ∀ p r', r.allocate n align = some (p, r') →
      align ∣ p ∧ (p, n) ∉ r.live ∧ r'.live = insert (p, n) r.live
  /-- A release of the base of a live block removes exactly this block. -/
  free : ∀ p n, (p, n) ∈ r.live → (r.free p).1 = true ∧ (r.free p).2.live = r.live \ {(p, n)}
  /-- Any other release changes nothing. -/
  free_other : ∀ p, (¬ ∃ n, (p, n) ∈ r.live) → r.free p = (false, r)

/-- **Soundness.** In every reachable state, the live blocks lie inside the region and share
no address, and the calls add and remove exactly one block. -/
theorem region_sound (hstart : 0 < regionStart) {r : FixedMemoryRegion}
    (h : (regionMachine regionStart size).Reachable (Admissible regionStart size) (some r)) :
    RegionSound r := by
  obtain ⟨H, hrep, -⟩ := region_represents hstart h
  obtain rfl := hrep.startAddress
  constructor
  case inside =>
    intro b hb
    rw [hrep.regionSize]
    exact H.inside b (hrep.live ▸ hb)
  case disjoint => exact hrep.live ▸ H.disjoint
  case allocate =>
    rintro n align ⟨hn, halign, hfar⟩ p r' hr'
    rw [hrep.regionSize] at hfar
    rcases hrep.allocate_cases hstart hn halign (by omega) with
      ⟨-, hnone⟩ | ⟨r₁, hfits, hsome, hrep'⟩
    · rw [hnone] at hr'
      cases hr'
    · rw [hsome] at hr'
      cases hr'
      refine ⟨hfits.aligned, hrep.live ▸ hfits.not_mem hn, ?_⟩
      rw [← hrep'.live, Heap.live_add, hrep.live]
  case free =>
    intro p n hp
    refine ⟨(r.free_eq_true p).mpr ⟨n, hp⟩, ?_⟩
    rw [← (hrep.free p).live, Heap.live_remove, hrep.live]
    ext ⟨base, m⟩
    have hunique : (base, m) ∈ r.live → base = p → m = n := by
      rintro hb rfl
      exact OrderedMap.value_unique hb hp
    simp only [Set.mem_sep_iff, Set.mem_sdiff, Set.mem_singleton_iff, Prod.mk.injEq]
    apply and_congr_right
    intro hb
    constructor
    · intro hne heq
      exact hne heq.1
    · intro hne heq
      exact hne ⟨heq, hunique hb heq⟩
  case free_other =>
    intro p hp
    have hfalse : (r.free p).1 = false := by
      rw [← Bool.not_eq_true, r.free_eq_true p]
      exact hp
    have hsame : (r.free p).2 = r := by
      simp only [FixedMemoryRegion.free, OrderedMap.erase_eq_self hp]
    exact Prod.ext hfalse hsame

/-- Two allocations, the first of which is released again. -/
theorem region_sound_released : ∃ r : FixedMemoryRegion,
    r.allocations.entries = [(32, 8)] ∧ RegionSound r := by
  obtain ⟨s, hs, hp⟩ := Machine.exists_reachable_of_run (regionMachine 16 64)
    (Admissible 16 64) [.allocate 16 16, .allocate 8 8, .free 16]
    (fun s => s.map (fun r => r.allocations.entries) = some [(32, 8)]) rfl (by decide +kernel)
  obtain ⟨r, rfl, hr⟩ := Option.map_eq_some_iff.mp (of_decide_eq_true hp)
  exact ⟨r, hr, region_sound (by decide) hs⟩

end PhsaRuntime
