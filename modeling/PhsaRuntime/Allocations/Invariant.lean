import PhsaRuntime.Allocations.Moves

/-!
# The books of the regions

The books of the regions and the kernel arguments of the worker are pools of one heap, and
stay so whatever the application passes to `hsa_memory_free`. The regions that the queues and the
signals of the present runtime refer to are there. Each move keeps this.

## Main definitions

* `AllocInv` — the invariant of the moves.
-/

namespace PhsaRuntime

/-- The state within calls and between them. -/
structure AllocInv (s : AllocState) : Prop where
  booked : Booked {b | b ∈ s.heap} s.book
  nodup : ∀ region blocks, s.regions region = some blocks → blocks.Nodup
  counter : s.initialized = true ↔ s.referenceCounter ≠ 0
  regions : s.initialized = true →
    (s.regions s.globalRegion).isSome ∧ (s.regions s.groupRegion).isSome
  closed : s.initialized = false → s.registry = [] ∧ s.groupMemory = none ∧ s.kernargs = none
  registered : ∀ this q, s.queues this = some q → this ∈ s.registry ∧ q.id = this ∧ this ≠ 0
  queueRegion : ∀ this q, s.queues this = some q → (s.regions (s.queueRegion this)).isSome
  /-- A queue does not own the signal of a past runtime. -/
  owned : ∀ this q, s.queues this = some q → q.isDoorbellOwned = true →
    (s.signals q.doorbellSignal).isSome → (s.signalMemory q.doorbellSignal).1 = s.session
  past : ∀ signal, (s.signals signal).isSome → (s.signalMemory signal).1 ≤ s.session
  current : s.initialized = true → ∀ signal, (s.signals signal).isSome →
    (s.signalMemory signal).1 = s.session → (s.regions (s.signalMemory signal).2).isSome
  two : ∀ region, (s.regions region).isSome → region = s.globalRegion ∨ region = s.groupRegion
  deleted : s.initialized = false → ∀ region, s.regions region = none

namespace AllocState

variable {s s' : AllocState} {region ptr value this signal b : ℕ} {i : Option ℕ}

/-! ## Books -/

theorem isSome_freed_regions (r : ℕ) :
    ((s.freed region ptr).regions r).isSome = (s.regions r).isSome := by
  simp only [freed, eraseBlock]
  by_cases hr : r = region
  · rw [hr, Function.update_self, Option.isSome_map]
  · rw [Function.update_of_ne hr]

theorem mem_book_freed (h : AllocInv s) :
    b ∈ (s.freed region ptr).book i ↔ b ∈ s.book i ∧ (i = some region → b ≠ ptr) := by
  cases i with
  | none => simp
  | some r =>
    simp only [mem_book_some, freed, eraseBlock, Option.some.injEq]
    by_cases hr : r = region
    · rw [hr, Function.update_self]
      cases hblocks : s.regions region with
      | none => simp
      | some blocks =>
        simp [(h.nodup region blocks hblocks).mem_erase_iff, and_comm]
    · rw [Function.update_of_ne hr]
      simp [hr]

theorem mem_heap_freed :
    b ∈ (s.freed region ptr).heap ↔ b ∈ s.heap ∧ (ptr ∈ s.book (some region) → b ≠ ptr) := by
  simp only [freed]
  by_cases hptr : ptr ∈ s.book (some region)
  · rw [if_pos (mem_getD_iff.mpr hptr), Finset.mem_erase, forall_prop_of_true hptr, and_comm]
  · rw [if_neg (mt mem_getD_iff.mp hptr), forall_prop_of_false hptr, and_true]

/-- A block that the region has is freed. -/
theorem mem_heap_freed_of_mem (hptr : ptr ∈ s.book (some region)) (c : ℕ) :
    c ∈ (s.freed region ptr).heap ↔ c ∈ s.heap ∧ c ≠ ptr := by
  rw [mem_heap_freed, forall_prop_of_true hptr]

theorem isSome_allocate_regions (r : ℕ) :
    ((s.allocate region b).regions r).isSome = (s.regions r).isSome := by
  rw [allocate]
  split
  · rfl
  · simp only [QueueState.addBlock]
    by_cases hr : r = region
    · rw [hr, Function.update_self, Option.isSome_map]
    · rw [Function.update_of_ne hr]

theorem mem_book_allocate {c : ℕ} (hb : b ≠ 0) (hregion : (s.regions region).isSome) :
    c ∈ (s.allocate region b).book i ↔ i = some region ∧ c = b ∨ c ∈ s.book i := by
  rw [allocate, if_neg hb]
  cases i with
  | none => simp
  | some r =>
    simp only [mem_book_some, QueueState.addBlock, Option.some.injEq]
    by_cases hr : r = region
    · obtain ⟨blocks, hblocks⟩ := Option.isSome_iff_exists.mp hregion
      rw [hr, Function.update_self, hblocks]
      simp
    · rw [Function.update_of_ne hr]
      simp [hr]

theorem mem_heap_allocate {c : ℕ} (hb : b ≠ 0) :
    c ∈ (s.allocate region b).heap ↔ c = b ∨ c ∈ s.heap := by
  rw [allocate, if_neg hb]
  exact Finset.mem_insert

theorem isSome_prepareQueue_regions {allocated : Allocated} (r : ℕ) :
    ((s.prepareQueue allocated).regions r).isSome = (s.regions r).isSome := by
  simp only [prepareQueue, registerSignal, isSome_allocate_regions]

end AllocState

namespace AllocInv

open AllocState

variable {s s' : AllocState} {region ptr value this signal b : ℕ}

/-! ## The moves -/

/-- A region that frees what it has frees a live block. -/
theorem freed (h : AllocInv s) : AllocInv (s.freed region ptr) where
  booked := by
    by_cases hptr : ptr ∈ s.book (some region)
    · refine h.booked.give hptr ?_ ?_ ?_
      · intro c
        simp [mem_heap_freed, hptr]
      · intro i c hi
        simp [mem_book_freed h, hi]
      · intro c
        simp [mem_book_freed h]
    · rw [freed_of_not_mem (by rwa [mem_getD_iff])]
      exact h.booked
  nodup r blocks hblocks := by
    simp only [AllocState.freed, eraseBlock] at hblocks
    by_cases hr : r = region
    · rw [hr, Function.update_self] at hblocks
      obtain ⟨old, hold, rfl⟩ := Option.map_eq_some_iff.mp hblocks
      exact (h.nodup region old hold).erase ptr
    · rw [Function.update_of_ne hr] at hblocks
      exact h.nodup r blocks hblocks
  counter := h.counter
  regions hi := by
    rw [isSome_freed_regions, isSome_freed_regions]
    exact h.regions hi
  closed := h.closed
  registered := h.registered
  queueRegion q hq := by
    simp only [isSome_freed_regions]
    exact h.queueRegion q hq
  owned := h.owned
  past := h.past
  current hi x hx := by
    simp only [isSome_freed_regions]
    exact h.current hi x hx
  two r hr := by
    rw [isSome_freed_regions] at hr
    exact h.two r hr
  deleted hc r := by
    rw [← Option.not_isSome_iff_eq_none, isSome_freed_regions, h.deleted hc r]
    exact Bool.false_ne_true

/-- A region takes a block that is not live. -/
theorem allocate (h : AllocInv s) (hb : b ∉ s.heap) (hregion : (s.regions region).isSome) :
    AllocInv (s.allocate region b) := by
  by_cases hzero : b = 0
  · rwa [AllocState.allocate, if_pos hzero]
  have hold : s.allocate region b =
      { s with toQueueState := s.toQueueState.addBlock region b, heap := insert b s.heap } := by
    rw [AllocState.allocate, if_neg hzero]
  refine ⟨?_, ?_, ?_, ?_, ?_, ?_, ?_, ?_, ?_, ?_, ?_, ?_⟩
  · refine h.booked.take (i := some region) hb (fun c => mem_heap_allocate hzero) ?_
    exact fun i c => mem_book_allocate hzero hregion
  · intro r blocks hblocks
    rw [hold] at hblocks
    simp only [QueueState.addBlock] at hblocks
    by_cases hr : r = region
    · rw [hr, Function.update_self] at hblocks
      obtain ⟨old, hblocks', rfl⟩ := Option.map_eq_some_iff.mp hblocks
      refine List.nodup_cons.mpr ⟨?_, h.nodup region old hblocks'⟩
      intro hmem
      exact hb (h.booked.live (some region) b ⟨old, hblocks', hmem⟩)
    · rw [Function.update_of_ne hr] at hblocks
      exact h.nodup r blocks hblocks
  · rw [hold]
    exact h.counter
  · intro hi
    rw [isSome_allocate_regions, isSome_allocate_regions]
    rw [hold] at hi ⊢
    exact h.regions hi
  · rw [hold]
    exact h.closed
  · rw [hold]
    exact h.registered
  · intro q hq
    simp only [isSome_allocate_regions]
    rw [hold]
    exact h.queueRegion q hq
  · rw [hold]
    exact h.owned
  · rw [hold]
    exact h.past
  · intro hi x hx
    simp only [isSome_allocate_regions]
    rw [hold] at hi hx ⊢
    exact h.current hi x hx
  · intro r hr
    rw [isSome_allocate_regions] at hr
    rw [hold]
    exact h.two r hr
  · intro hc r
    rw [← Option.not_isSome_iff_eq_none, isSome_allocate_regions,
      h.deleted (by rwa [hold] at hc) r]
    exact Bool.false_ne_true

/-- A signal is registered by the present runtime. -/
theorem registerSignal (h : AllocInv s) (hregion : (s.regions region).isSome) (i : ℤ) :
    AllocInv (s.registerSignal value region i) where
  booked := h.booked
  nodup := h.nodup
  counter := h.counter
  regions := h.regions
  closed := h.closed
  registered := h.registered
  queueRegion := h.queueRegion
  owned this q hq howned hsome := by
    simp only [AllocState.registerSignal] at hsome ⊢
    by_cases hd : q.doorbellSignal = value
    · rw [hd, Function.update_self]
    · rw [Function.update_of_ne hd] at hsome ⊢
      exact h.owned this q hq howned hsome
  past x hsome := by
    simp only [AllocState.registerSignal] at hsome ⊢
    by_cases hx : x = value
    · rw [hx, Function.update_self]
    · rw [Function.update_of_ne hx] at hsome ⊢
      exact h.past x hsome
  current hi x hsome hsession := by
    simp only [AllocState.registerSignal] at hsome hsession ⊢
    by_cases hx : x = value
    · rw [hx, Function.update_self]
      exact hregion
    · rw [Function.update_of_ne hx] at hsome hsession ⊢
      exact h.current hi x hsome hsession
  two := h.two
  deleted := h.deleted

/-- The memory of a new queue is allocated. -/
theorem prepareQueue {allocated : Allocated} (h : AllocInv s) (hi : s.initialized = true)
    (hbuffer : allocated.packetBuffer ≠ 0) (hfresh : allocated.packetBuffer ∉ s.heap)
    (hfresh' : allocated.signalValue ∉ s.heap)
    (hne : allocated.packetBuffer ≠ allocated.signalValue) :
    AllocInv (s.prepareQueue allocated) := by
  have hglobal := (h.regions hi).1
  have hbuf := h.allocate hfresh hglobal
  refine (hbuf.allocate ?_ ?_).registerSignal ?_ _
  · rw [mem_heap_allocate hbuffer, not_or]
    exact ⟨Ne.symm hne, hfresh'⟩
  · rwa [isSome_allocate_regions]
  · rwa [isSome_allocate_regions, isSome_allocate_regions]

/-- A signal that is in the registry after a removal was there before. -/
theorem isSome_of_dropSignal {x : ℕ} (hsome : ((s.dropSignal signal).signals x).isSome) :
    (s.signals x).isSome := by
  simp only [AllocState.dropSignal] at hsome
  by_cases hx : x = signal
  · rw [hx, Function.update_self] at hsome
    cases hsome
  · rwa [Function.update_of_ne hx] at hsome

theorem dropSignal (h : AllocInv s) : AllocInv (s.dropSignal signal) where
  booked := h.booked
  nodup := h.nodup
  counter := h.counter
  regions := h.regions
  closed := h.closed
  registered := h.registered
  queueRegion := h.queueRegion
  owned this q hq howned hsome := h.owned this q hq howned (isSome_of_dropSignal hsome)
  past x hsome := h.past x (isSome_of_dropSignal hsome)
  current hi x hsome := h.current hi x (isSome_of_dropSignal hsome)
  two := h.two
  deleted := h.deleted

theorem dropDoorbell (h : AllocInv s) (q : UserModeQueue) : AllocInv (s.dropDoorbell q) := by
  rw [AllocState.dropDoorbell]
  split
  · exact h.freed.dropSignal
  · exact h

/-- A queue is registered, whose doorbell is a signal of the present runtime if it owns it. -/
theorem registerQueue {q : UserModeQueue} (h : AllocInv s) (hi : s.initialized = true)
    (hregion : (s.regions region).isSome) (hid : q.id = this) (hthis : this ≠ 0)
    (howned : q.isDoorbellOwned = true → (s.signals q.doorbellSignal).isSome →
      (s.signalMemory q.doorbellSignal).1 = s.session) (agents : ℕ → Option (List ℕ)) :
    AllocInv (s.registerQueue this region q agents) where
  booked := h.booked
  nodup := h.nodup
  counter := h.counter
  regions := h.regions
  closed hclosed := by
    rw [show s.initialized = false from hclosed] at hi
    cases hi
  registered x p hp := by
    simp only [AllocState.registerQueue] at hp ⊢
    by_cases hx : x = this
    · rw [hx, Function.update_self] at hp
      cases hp
      rw [hx]
      exact ⟨List.mem_cons_self, hid, hthis⟩
    · rw [Function.update_of_ne hx] at hp
      obtain ⟨hmem, hrest⟩ := h.registered x p hp
      exact ⟨List.mem_cons_of_mem _ hmem, hrest⟩
  queueRegion x p hp := by
    simp only [AllocState.registerQueue] at hp ⊢
    by_cases hx : x = this
    · rw [hx, Function.update_self]
      exact hregion
    · rw [Function.update_of_ne hx] at hp ⊢
      exact h.queueRegion x p hp
  owned x p hp hownedp hsome := by
    simp only [AllocState.registerQueue] at hp
    by_cases hx : x = this
    · rw [hx, Function.update_self] at hp
      cases hp
      exact howned hownedp hsome
    · rw [Function.update_of_ne hx] at hp
      exact h.owned x p hp hownedp hsome
  past := h.past
  current := h.current
  two := h.two
  deleted := h.deleted

/-- A queue that is there after a removal was there before. -/
theorem queues_of_dropQueue {x : ℕ} {q : UserModeQueue}
    (hq : (s.dropQueue this).queues x = some q) : s.queues x = some q := by
  simp only [AllocState.dropQueue] at hq
  by_cases hx : x = this
  · rw [hx, Function.update_self] at hq
    cases hq
  · rwa [Function.update_of_ne hx] at hq

theorem dropQueue (h : AllocInv s) : AllocInv (s.dropQueue this) where
  booked := h.booked
  nodup := h.nodup
  counter := h.counter
  regions := h.regions
  closed := h.closed
  registered x q hq := h.registered x q (queues_of_dropQueue hq)
  queueRegion x q hq := h.queueRegion x q (queues_of_dropQueue hq)
  owned x q hq := h.owned x q (queues_of_dropQueue hq)
  past := h.past
  current := h.current
  two := h.two
  deleted := h.deleted

/-- The flag of a queue is set. -/
theorem setDestroyed {q : UserModeQueue} (h : AllocInv s) (hq : s.queues this = some q) :
    AllocInv
      { s with queues := Function.update s.queues this (some { q with destroyed := true }) } := by
  have hold : ∀ x p, Function.update s.queues this (some { q with destroyed := true }) x = some p →
      ∃ p', s.queues x = some p' ∧ p'.id = p.id ∧ p'.isDoorbellOwned = p.isDoorbellOwned ∧
        p'.doorbellSignal = p.doorbellSignal := by
    intro x p hp
    by_cases hx : x = this
    · rw [hx, Function.update_self] at hp
      cases hp
      exact ⟨q, hx ▸ hq, rfl, rfl, rfl⟩
    · rw [Function.update_of_ne hx] at hp
      exact ⟨p, hp, rfl, rfl, rfl⟩
  refine ⟨h.booked, h.nodup, h.counter, h.regions, h.closed, ?_, ?_, ?_, h.past, h.current,
    h.two, h.deleted⟩
  · intro x p hp
    obtain ⟨p', hp', hid, -, -⟩ := hold x p hp
    exact hid ▸ h.registered x p' hp'
  · intro x p hp
    obtain ⟨p', hp', -⟩ := hold x p hp
    exact h.queueRegion x p' hp'
  · intro x p hp
    obtain ⟨p', hp', -, howned, hdoorbell⟩ := hold x p hp
    rw [← howned, ← hdoorbell]
    exact h.owned x p' hp'

theorem setGroupMemory {m : Option ℕ} (h : AllocInv s) (hm : s.initialized = false → m = none) :
    AllocInv { s with groupMemory := m } where
  booked := h.booked
  nodup := h.nodup
  counter := h.counter
  regions := h.regions
  closed hclosed := by
    obtain ⟨hregistry, -, hkernargs⟩ := h.closed hclosed
    exact ⟨hregistry, hm hclosed, hkernargs⟩
  registered := h.registered
  queueRegion := h.queueRegion
  owned := h.owned
  past := h.past
  current := h.current
  two := h.two
  deleted := h.deleted

/-- The worker takes a block for the kernel arguments, gives it back, or forgets it. -/
theorem setKernargs {m : Option ℕ} {heap : Finset ℕ} (h : AllocInv s)
    (hm : s.initialized = false → m = none)
    (hbooked : Booked {b | b ∈ heap} ({ s with heap := heap, kernargs := m } : AllocState).book) :
    AllocInv { s with heap := heap, kernargs := m } where
  booked := hbooked
  nodup := h.nodup
  counter := h.counter
  regions := h.regions
  closed hclosed := by
    obtain ⟨hregistry, hgroup, -⟩ := h.closed hclosed
    exact ⟨hregistry, hgroup, hm hclosed⟩
  registered := h.registered
  queueRegion := h.queueRegion
  owned := h.owned
  past := h.past
  current := h.current
  two := h.two
  deleted := h.deleted

/-- Without a runtime there are no queues. -/
theorem queues_of_closed (h : AllocInv s) (hi : s.initialized = false) (x : ℕ) :
    s.queues x = none := by
  by_contra hsome
  obtain ⟨q, hq⟩ := Option.ne_none_iff_exists'.mp hsome
  have hmem := (h.registered x q hq).1
  rw [(h.closed hi).1] at hmem
  cases hmem

/-- A new runtime has empty regions. -/
theorem begun_regions {g p c r : ℕ} {blocks : List ℕ}
    (hblocks : (s.begun g p c).regions r = some blocks) : blocks = [] := by
  simp only [AllocState.begun, Function.update_apply] at hblocks
  split at hblocks
  · exact (Option.some.inj hblocks).symm
  · split at hblocks
    · exact (Option.some.inj hblocks).symm
    · cases hblocks

theorem begun (h : AllocInv s) (hcounter : s.referenceCounter = 0) (g p c : ℕ) :
    AllocInv (s.begun g p c) := by
  have hi : s.initialized = false := by
    rw [← Bool.not_eq_true, h.counter]
    simp [hcounter]
  have hqueues : ∀ x q, (s.begun g p c).queues x ≠ some q := by
    intro x q hq
    rw [show (s.begun g p c).queues x = s.queues x from rfl, h.queues_of_closed hi x] at hq
    cases hq
  refine ⟨?_, ?_, ?_, ?_, ?_, ?_, ?_, ?_, ?_, ?_, ?_, ?_⟩
  · refine h.booked.close ?_
    intro i b hb
    cases i with
    | none => exact hb
    | some r =>
      obtain ⟨blocks, hblocks, hmem⟩ := hb
      rw [begun_regions hblocks] at hmem
      cases hmem
  · intro r blocks hblocks
    rw [begun_regions hblocks]
    exact List.nodup_nil
  · simp [AllocState.begun]
  · intro _
    simp only [AllocState.begun, Function.update_apply, if_true]
    exact ⟨by split <;> rfl, rfl⟩
  · intro hclosed
    cases hclosed
  · intro x q hq
    exact absurd hq (hqueues x q)
  · intro x q hq
    exact absurd hq (hqueues x q)
  · intro x q hq
    exact absurd hq (hqueues x q)
  · intro x hsome
    exact (h.past x hsome).trans (Nat.le_succ _)
  · intro _ x hsome hsession
    have hpast := h.past x hsome
    simp only [AllocState.begun] at hsession
    omega
  · intro r hr
    simp only [AllocState.begun, Function.update_apply] at hr ⊢
    by_cases hp : r = p
    · exact .inr hp
    · by_cases hg : r = g
      · exact .inl hg
      · simp [hp, hg] at hr
  · intro hclosed
    cases hclosed

/-- The regions are closed, and what they have stays live. -/
theorem finished (h : AllocInv s) (hqueues : ∀ x, s.queues x = none) (hgroup : s.groupMemory = none)
    (hkernargs : s.kernargs = none) : AllocInv s.finished := by
  refine ⟨?_, ?_, ?_, ?_, ?_, ?_, ?_, ?_, h.past, ?_, ?_, ?_⟩
  · refine h.booked.close ?_
    intro i b hb
    cases i with
    | none => exact hb
    | some r =>
      obtain ⟨blocks, hblocks, -⟩ := hb
      cases hblocks
  · intro r blocks hblocks
    cases hblocks
  · simp [AllocState.finished]
  · intro hi
    cases hi
  · intro _
    exact ⟨rfl, hgroup, hkernargs⟩
  · intro x q hq
    rw [show s.finished.queues x = s.queues x from rfl, hqueues] at hq
    cases hq
  · intro x q hq
    rw [show s.finished.queues x = s.queues x from rfl, hqueues] at hq
    cases hq
  · intro x q hq
    rw [show s.finished.queues x = s.queues x from rfl, hqueues] at hq
    cases hq
  · intro hi
    cases hi
  · intro r hr
    cases hr
  · exact fun _ _ => rfl

end AllocInv

end PhsaRuntime
