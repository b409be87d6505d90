import PhsaRuntime.Allocations.Invariant
import PhsaRuntime.QueueCreation.Atomicity

/-!
# What is freed is live

Whatever the application passes to the calls, `std::free` is called with live blocks only. The
calls that do not return are the creations whose allocations fail, the destruction of a queue
that is not there, and the destruction of a signal of a past runtime, whose region is deleted.

## Main definitions

* `Misuse` — the calls that do not return, with what goes wrong.

## Main results

* `perform_eq_error_iff` — which calls do not return.
-/

namespace PhsaRuntime

open AllocState

variable {s s' t : AllocState} {order : List ℕ}

/-! ## The queues of a runtime -/

/-- The queues of the list have been deleted. -/
structure QueuesDeleted (order : List ℕ) (s t : AllocState) : Prop where
  inv : AllocInv t
  queues : ∀ x, t.queues x = if x ∈ order then none else s.queues x
  registry : t.registry = s.registry
  initialized : t.initialized = s.initialized
  session : t.session = s.session
  groupMemory : t.groupMemory = s.groupMemory
  kernargs : t.kernargs = s.kernargs
  signalMemory : t.signalMemory = s.signalMemory
  queueRegion : t.queueRegion = s.queueRegion

/-- One queue is deleted. -/
theorem deleteQueue_deleted {this : ℕ} (h : AllocInv s) (hd : s.deleteQueue this = .ok t) :
    QueuesDeleted [this] s t := by
  obtain ⟨q, -, rfl⟩ := deleteQueue_ok hd
  have hdoorbell : ∀ u : AllocState, (u.dropDoorbell q).queues = u.queues ∧
      (u.dropDoorbell q).registry = u.registry ∧ (u.dropDoorbell q).initialized = u.initialized ∧
      (u.dropDoorbell q).session = u.session ∧ (u.dropDoorbell q).groupMemory = u.groupMemory ∧
      (u.dropDoorbell q).kernargs = u.kernargs ∧
      (u.dropDoorbell q).signalMemory = u.signalMemory ∧
      (u.dropDoorbell q).queueRegion = u.queueRegion := by
    intro u
    rw [dropDoorbell]
    split <;> exact ⟨rfl, rfl, rfl, rfl, rfl, rfl, rfl, rfl⟩
  obtain ⟨hqueues, hregistry, hi, hsession, hgroup, hkernargs, hmemory, hregion⟩ :=
    hdoorbell (s.freed (s.queueRegion this) q.baseAddress)
  refine ⟨(h.freed.dropDoorbell q).dropQueue, ?_, hregistry, hi, hsession, hgroup, hkernargs,
    hmemory, hregion⟩
  intro x
  simp only [dropQueue, hqueues, Function.update_apply, List.mem_singleton]
  rfl

/-- Each queue is deleted in turn. -/
theorem deleteQueues_deleted (h : AllocInv s) (hd : deleteQueues order s = .ok t) :
    QueuesDeleted order s t := by
  induction order generalizing s with
  | nil =>
    cases hd
    exact ⟨h, by simp, rfl, rfl, rfl, rfl, rfl, rfl, rfl⟩
  | cons this order ih =>
    rw [deleteQueues] at hd
    cases hu : s.deleteQueue this with
    | error f =>
      rw [hu] at hd
      cases hd
    | ok u =>
      rw [hu] at hd
      have hone := deleteQueue_deleted h hu
      have hrest := ih hone.inv hd
      refine ⟨hrest.inv, ?_, hrest.registry.trans hone.registry,
        hrest.initialized.trans hone.initialized, hrest.session.trans hone.session,
        hrest.groupMemory.trans hone.groupMemory, hrest.kernargs.trans hone.kernargs,
        hrest.signalMemory.trans hone.signalMemory, hrest.queueRegion.trans hone.queueRegion⟩
      intro x
      rw [hrest.queues, hone.queues]
      by_cases hx : x ∈ order
      · simp [hx]
      · simp [hx]

/-! ## Between calls -/

/-- The state between calls: the registered queues are there. -/
structure AllocSettled (s : AllocState) : Prop extends AllocInv s where
  registryNodup : s.registry.Nodup
  present : ∀ this ∈ s.registry, (s.queues this).isSome

/-- The state before the queues of a runtime are deleted. -/
theorem AllocInv.withoutAgents (h : AllocInv s) (agents : ℕ → Option (List ℕ)) :
    AllocInv { s with agents := agents } :=
  ⟨h.booked, h.nodup, h.counter, h.regions, h.closed, h.registered, h.queueRegion, h.owned,
    h.past, h.current, h.two, h.deleted⟩

namespace AllocSettled

theorem of_same (h : AllocSettled s) (hinv : AllocInv s') (hregistry : s'.registry = s.registry)
    (hqueues : s'.queues = s.queues) : AllocSettled s' where
  toAllocInv := hinv
  registryNodup := hregistry ▸ h.registryNodup
  present := by
    rw [hregistry, hqueues]
    exact h.present

/-- A queue is registered at a new address. -/
theorem registerQueue {this region : ℕ} {q : UserModeQueue} {agents : ℕ → Option (List ℕ)}
    (hregistry : s.registry.Nodup) (hpresent : ∀ x ∈ s.registry, (s.queues x).isSome)
    (hnew : s.queues this = none) (hinv : AllocInv (s.registerQueue this region q agents)) :
    AllocSettled (s.registerQueue this region q agents) where
  toAllocInv := hinv
  registryNodup := by
    refine List.nodup_cons.mpr ⟨?_, hregistry⟩
    intro hmem
    have hsome := hpresent this hmem
    rw [hnew] at hsome
    cases hsome
  present x hx := by
    simp only [AllocState.registerQueue]
    by_cases hthis : x = this
    · rw [hthis, Function.update_self]
      rfl
    · rw [Function.update_of_ne hthis]
      exact hpresent x ((List.mem_cons.mp hx).resolve_left hthis)

/-- The runtime is deleted, and its queues with it. -/
theorem finished {order : List ℕ} {t : AllocState} (h : AllocSettled s)
    (hadm : s.Admits (.shutDown order)) (hcounter : s.referenceCounter = 1)
    (hd : deleteQueues order { s with agents := fun _ => none } = .ok t) :
    AllocSettled t.finished := by
  obtain ⟨hperm, hgroup, hkernargs⟩ := hadm hcounter
  have hdeleted := deleteQueues_deleted (h.withoutAgents _) hd
  have hqueues : ∀ x, t.queues x = none := by
    intro x
    rw [hdeleted.queues]
    split
    · rfl
    · rename_i hx
      by_contra hsome
      obtain ⟨q, hq⟩ := Option.ne_none_iff_exists'.mp hsome
      exact hx (hperm.mem_iff.mpr (h.registered x q hq).1)
  refine ⟨hdeleted.inv.finished hqueues (hdeleted.groupMemory.trans hgroup)
    (hdeleted.kernargs.trans hkernargs), List.nodup_nil, ?_⟩
  intro x hx
  cases hx

/-- A queue with a doorbell of its own. -/
theorem queueCreate {args : QueueArgs} {this : ℕ} {allocated : Allocated} {q : UserModeQueue}
    {agents : ℕ → Option (List ℕ)} (h : AllocSettled s)
    (hadm : s.Admits (.queueCreate args this allocated)) (hi : s.initialized = true)
    (hbuffer : allocated.packetBuffer ≠ 0) (hdoorbell : q.doorbellSignal = allocated.signalValue)
    (hid : q.id = this) :
    AllocSettled ((s.prepareQueue allocated).registerQueue this s.globalRegion q agents) := by
  obtain ⟨hthis, hnew, hfresh, hfresh', hne⟩ := hadm
  have hprepared := h.prepareQueue hi hbuffer hfresh hfresh' fun heq => hbuffer (hne heq)
  refine registerQueue ?_ ?_ ?_ (hprepared.registerQueue ?_ ?_ hid hthis ?_ agents)
  · rw [prepareQueue_registry]
    exact h.registryNodup
  · rw [prepareQueue_registry, prepareQueue_queues]
    exact h.present
  · rwa [prepareQueue_queues]
  · rwa [prepareQueue_initialized]
  · rw [isSome_prepareQueue_regions]
    exact (h.regions hi).1
  · intro _ _
    simp [hdoorbell]

/-- A soft queue, with the doorbell of the application. -/
theorem softQueueCreate {region size type doorbellSignal queue this : ℕ} {allocated : Allocated}
    {q : UserModeQueue} (h : AllocSettled s)
    (hadm : s.Admits (.softQueueCreate region size type doorbellSignal queue this allocated))
    (hi : s.initialized = true) (hregion : (s.regions region).isSome)
    (howned : q.isDoorbellOwned = false) (hid : q.id = this) :
    AllocSettled
      ((s.allocate region allocated.packetBuffer).registerQueue this region q s.agents) := by
  obtain ⟨hthis, hnew, hfresh⟩ := hadm
  have hbuf := h.allocate hfresh hregion
  refine registerQueue ?_ ?_ ?_ (hbuf.registerQueue ?_ ?_ hid hthis ?_ _)
  · rw [allocate_registry]
    exact h.registryNodup
  · rw [allocate_registry, allocate_queues]
    exact h.present
  · rw [allocate_queues, hnew]
  · rwa [allocate_initialized]
  · rwa [isSome_allocate_regions]
  · intro hown
    rw [howned] at hown
    cases hown

theorem setDestroyed {id : ℕ} {q : UserModeQueue} (h : AllocSettled s)
    (hq : s.queues id = some q) : AllocSettled
      { s with queues := Function.update s.queues id (some { q with destroyed := true }) } := by
  refine ⟨h.toAllocInv.setDestroyed hq, h.registryNodup, ?_⟩
  intro x hx
  by_cases hid : x = id
  · simp [hid]
  · simp only [Function.update_of_ne hid]
    exact h.present x hx

/-- The worker has a buffer for the kernel arguments. -/
theorem relocate {buffer : ℕ} (h : AllocSettled s) (hi : s.initialized = true)
    (hnone : s.kernargs = none) (hfresh : buffer ∉ s.heap) : AllocSettled (s.relocate buffer) := by
  refine h.of_same (h.setKernargs ?_ ?_) rfl rfl
  · intro hclosed
    rw [hi] at hclosed
    cases hclosed
  · refine h.booked.take (i := none) hfresh (fun c => by simp) ?_
    intro i c
    cases i with
    | none => simp [hnone, eq_comm]
    | some r => simp

/-- The worker gives the buffer back. -/
theorem freeKernargs {buffer : ℕ} (h : AllocSettled s) (hbuffer : s.kernargs = some buffer) :
    AllocSettled { s with heap := s.heap.erase buffer, kernargs := none } := by
  refine h.of_same (h.setKernargs (fun _ => rfl) ?_) rfl rfl
  refine h.booked.give (i := none) (b := buffer) hbuffer ?_ ?_ ?_
  · intro c
    simp [and_comm]
  · intro i c hi
    cases i with
    | none => exact absurd rfl hi
    | some r => rfl
  · intro c
    simp only [mem_book_none, hbuffer]
    grind

/-- **What a call or a step keeps.** -/
theorem move {a : AllocAction} (h : AllocSettled s) (hadm : s.Admits a) (hmove : AllocMove s a s') :
    AllocSettled s' := by
  have hregions := h.regions
  cases hmove with
  | stay => exact h
  | begun hcounter => exact h.of_same (h.toAllocInv.begun hcounter _ _ _) rfl rfl
  | retain hcounter =>
    refine h.of_same ?_ rfl rfl
    refine { h.toAllocInv with counter := ?_ }
    simpa using h.counter.mpr hcounter
  | release hcounter =>
    refine h.of_same ?_ rfl rfl
    refine { h.toAllocInv with counter := ?_ }
    have hi := h.counter.mpr (by omega)
    simp only [hi, true_iff]
    omega
  | finished hcounter hd => exact h.finished hadm hcounter hd
  | memoryAllocate _ hregion _ =>
    exact h.of_same (h.allocate hadm hregion) allocate_registry allocate_queues
  | memoryFree _ _ _ _ => exact h.of_same h.freed rfl rfl
  | signalCreate _ hi _ =>
    refine h.of_same ((h.allocate hadm (hregions hi).1).registerSignal ?_ _) allocate_registry
      allocate_queues
    rw [isSome_allocate_regions]
    exact (hregions hi).1
  | signalDestroy _ _ _ _ => exact h.of_same h.freed.dropSignal rfl rfl
  | queueCreate hi hbuffer _ _ hdoorbell _ hid => exact h.queueCreate hadm hi hbuffer hdoorbell hid
  | softQueueCreate hi hregion _ _ howned hid =>
    exact h.softQueueCreate hadm hi hregion howned hid
  | queueDestroy hq => exact h.setDestroyed hq
  | groupAllocate =>
    obtain ⟨hi, -, -, hfresh⟩ := hadm
    refine h.of_same ((h.allocate hfresh (hregions hi).2).setGroupMemory ?_) allocate_registry
      allocate_queues
    intro hclosed
    rw [allocate_initialized, hi] at hclosed
    cases hclosed
  | groupFree => exact h.of_same (h.freed.setGroupMemory fun _ => rfl) rfl rfl
  | relocate =>
    obtain ⟨hi, hnone, -, hfresh⟩ := hadm
    exact h.relocate hi hnone hfresh
  | kernargsFree => exact h.freeKernargs hadm
  | interrupt =>
    refine h.of_same ?_ rfl rfl
    refine (h.setGroupMemory fun _ => rfl).setKernargs (fun _ => rfl) (h.booked.close ?_)
    intro i b hb
    cases i with
    | none => cases hb
    | some r => exact hb

end AllocSettled

/-- The state between calls is settled. -/
theorem allocSettled_of_reachable (h : allocMachine.Reachable Machine.always s) :
    AllocSettled s := by
  refine h.induction ?_ ?_
  · rintro s ⟨hi, hcounter, -, hregistry, hqueues, hsignals, hregions, hheap, hgroup, hkernargs⟩
    refine ⟨⟨⟨?_, ?_⟩, ?_, ?_, ?_, ?_, ?_, ?_, ?_, ?_, ?_, ?_, ?_⟩, ?_, ?_⟩
    · intro i b hb
      cases i with
      | none => simp [hkernargs] at hb
      | some r => simp [hregions] at hb
    · intro i j b hb
      cases i with
      | none => simp [hkernargs] at hb
      | some r => simp [hregions] at hb
    all_goals simp [hi, hcounter, hregistry, hqueues, hsignals, hregions, hgroup, hkernargs]
  · intro s a s' _ _ hs ih
    simp only [allocMachine] at hs
    split at hs
    · rename_i hadm
      exact ih.move hadm (allocMove (eq_ok_of_toOption hs))
    · cases hs

/-! ## What returns -/

section Returns

variable {region ptr this signal : ℕ} {q : UserModeQueue}

/-- A region that is there frees no block that is not live. -/
theorem exists_regionFree (h : AllocInv s) (hregion : (s.regions region).isSome) (ptr : ℕ) :
    ∃ r, s.regionFree region ptr = .ok r := by
  obtain ⟨blocks, hblocks⟩ := Option.isSome_iff_exists.mp hregion
  simp only [regionFree, hblocks]
  split
  · rename_i hptr
    have hlive : ptr ∈ s.heap := h.booked.live (some region) ptr ⟨blocks, hblocks, hptr⟩
    rw [stdFree, if_pos hlive]
    exact ⟨_, rfl⟩
  · exact ⟨_, rfl⟩

theorem exists_freePointer (h : AllocInv s) (hi : s.initialized = true) (ptr : ℕ) :
    ∃ t, s.freePointer ptr = .ok t := by
  obtain ⟨hglobal, hgroup⟩ := h.regions hi
  obtain ⟨r, hr⟩ := exists_regionFree h hglobal ptr
  have hinv : AllocInv r.2 := (regionFree_ok hr).1 ▸ h.freed
  have hgroup' : (r.2.regions s.groupRegion).isSome := by
    rwa [(regionFree_ok hr).1, isSome_freed_regions]
  obtain ⟨r', hr'⟩ := exists_regionFree hinv hgroup' ptr
  simp only [freePointer, freePointerLoop, hr, Except.bind]
  split
  · exact ⟨_, rfl⟩
  · simp only [hr', ite_self]
    exact ⟨_, rfl⟩

/-- A signal of the present runtime can be deleted. -/
theorem exists_deleteSignal (h : AllocInv s) (hi : s.initialized = true)
    (hsome : (s.signals signal).isSome) (hsession : (s.signalMemory signal).1 = s.session) :
    ∃ t, s.deleteSignal signal = .ok t := by
  obtain ⟨r, hr⟩ := exists_regionFree h (h.current hi signal hsome hsession) signal
  rw [deleteSignal, if_neg (not_not.mpr hsession), hr]
  exact ⟨_, rfl⟩

/-- A queue can be deleted, with its doorbell. -/
theorem exists_deleteQueue (h : AllocInv s) (hi : s.initialized = true)
    (hq : (s.queues this).isSome) : ∃ t, s.deleteQueue this = .ok t := by
  obtain ⟨q, hq⟩ := Option.isSome_iff_exists.mp hq
  obtain ⟨r, hr⟩ := exists_regionFree h (h.queueRegion this q hq) q.baseAddress
  have hfreed := (regionFree_ok hr).1
  have hdoorbell : ∃ t, r.2.deleteDoorbell q = .ok t := by
    rw [deleteDoorbell]
    split
    · rename_i howned
      rw [Bool.and_eq_true, hfreed] at howned
      rw [hfreed]
      exact exists_deleteSignal h.freed hi howned.2 (h.owned this q hq howned.1 howned.2)
    · exact ⟨_, rfl⟩
  obtain ⟨t, ht⟩ := hdoorbell
  simp only [deleteQueue, hq, hr, Except.bind, ht]
  exact ⟨_, rfl⟩

theorem exists_deleteQueues (h : AllocInv s) (hi : s.initialized = true) (hnodup : order.Nodup)
    (hpresent : ∀ x ∈ order, (s.queues x).isSome) : ∃ t, deleteQueues order s = .ok t := by
  induction order generalizing s with
  | nil => exact ⟨s, rfl⟩
  | cons this order ih =>
    obtain ⟨hnot, hnodup⟩ := List.nodup_cons.mp hnodup
    obtain ⟨u, hu⟩ := exists_deleteQueue h hi (hpresent this List.mem_cons_self)
    have hone := deleteQueue_deleted h hu
    have hrest : ∀ x ∈ order, (u.queues x).isSome := by
      intro x hx
      have hne : x ≠ this := fun heq => hnot (heq ▸ hx)
      rw [hone.queues, if_neg (by simpa using hne)]
      exact hpresent x (List.mem_cons_of_mem _ hx)
    obtain ⟨t, ht⟩ := ih hone.inv (hone.initialized.trans hi) hnodup hrest
    refine ⟨t, ?_⟩
    rw [deleteQueues, hu]
    exact ht

end Returns

/-! ## What does not return -/

/-- The calls that do not return, with what goes wrong. -/
inductive Misuse (s : AllocState) : AllocAction → AllocFault → Prop
  | signalCreate {initialValue : ℤ} {numConsumers consumers signal : ℕ} {allocated : Allocated} :
      FailedAllocation s.toQueueState
        (s.toQueueState.hsaSignalCreate initialValue numConsumers consumers signal allocated) →
      Misuse s (.signalCreate initialValue numConsumers consumers signal allocated)
        (.creation .nullPointer)
  | queueCreate {args : QueueArgs} {this : ℕ} {allocated : Allocated} :
      FailedAllocation s.toQueueState (s.toQueueState.hsaQueueCreate args this allocated) →
      Misuse s (.queueCreate args this allocated) (.creation .nullPointer)
  | softQueueCreate {region size type doorbellSignal queue this : ℕ} {allocated : Allocated} :
      FailedAllocation s.toQueueState (s.toQueueState.hsaSoftQueueCreate region size type
        doorbellSignal queue this allocated) →
      Misuse s (.softQueueCreate region size type doorbellSignal queue this allocated)
        (.creation .nullPointer)
  | queueDestroy {queue : ℕ} : s.initialized = true → queue ≠ 0 → s.queues queue = none →
      Misuse s (.queueDestroy queue) .noQueue
  /-- The signal of a past runtime refers to a region of that runtime. -/
  | signalDestroy {signal : ℕ} : s.initialized = true → signal ≠ 0 → (s.signals signal).isSome →
      (s.signalMemory signal).1 ≠ s.session → Misuse s (.signalDestroy signal) .deletedRegion

section Misuse

variable {f : Fault} {a : AllocAction}

theorem eq_error_of_map {ε α β : Type} {g : α → β} {x : Except ε α} {e : ε}
    (h : x.map g = .error e) : x = .error e := by
  cases x with
  | error e' => exact congrArg _ (Except.error.inj h)
  | ok b => cases h

/-- A signal is not created only if there is no memory for its value. -/
theorem failedAllocation_of_hsaSignalCreate {s : QueueState} {initialValue : ℤ}
    {numConsumers consumers signal : ℕ} {allocated : Allocated}
    (h : s.hsaSignalCreate initialValue numConsumers consumers signal allocated = .error f) :
    FailedAllocation s
      (s.hsaSignalCreate initialValue numConsumers consumers signal allocated) := by
  rw [QueueState.hsaSignalCreate] at h
  split at h
  · cases h
  · rename_i hi
    split at h
    · cases h
    · rename_i hargs
      obtain ⟨hsignal, hconsumers⟩ := not_or.mp hargs
      have hcreate := eq_error_of_map h
      simp only [QueueState.createSignal] at hcreate
      split at hcreate
      · rename_i hvalue
        refine .signal (by simpa using hi) hsignal ?_ hvalue
        exact fun hpos hzero => hconsumers ⟨hpos, hzero⟩
      · cases hcreate

/-- A queue is not created only if there is no memory for its packets or its doorbell. -/
theorem failedAllocation_of_hsaQueueCreate {s : QueueState} {args : QueueArgs} {this : ℕ}
    {allocated : Allocated} (h : s.hsaQueueCreate args this allocated = .error f) :
    FailedAllocation s (s.hsaQueueCreate args this allocated) := by
  rw [QueueState.hsaQueueCreate] at h
  split at h
  · cases h
  · rename_i hi
    split at h
    · cases h
    · rename_i hargs
      split at h
      · cases h
      · rename_i queues hagent
        split at h
        · cases h
        · rename_i hlimit
          split at h
          · cases h
          · rename_i htype
            simp only [Bool.or_eq_true, not_or, decide_eq_true_eq, Bool.not_eq_true] at hargs
            refine .queue (by simpa using hi) ⟨hargs.1, hargs.2, ?_, by simpa using htype⟩ hagent
              (not_le.mp hlimit) ?_
            · rw [hagent]
              rfl
            · by_contra hmemory
              obtain ⟨hbuffer, hvalue⟩ := not_or.mp hmemory
              have hcreate : ∃ t, s.createUserModeQueue this args.size args.type s.globalRegion
                  args.callback (some args.agent) none allocated = .ok t :=
                exists_createUserModeQueue hbuffer hvalue
              obtain ⟨t, ht⟩ := hcreate
              have herror := eq_error_of_map (eq_error_of_map h)
              rw [ht] at herror
              cases herror

/-- A soft queue is not created only if there is no memory for its packets. -/
theorem failedAllocation_of_hsaSoftQueueCreate {s : QueueState}
    {region size type doorbellSignal queue this : ℕ} {allocated : Allocated}
    (h : s.hsaSoftQueueCreate region size type doorbellSignal queue this allocated = .error f) :
    FailedAllocation s
      (s.hsaSoftQueueCreate region size type doorbellSignal queue this allocated) := by
  rw [QueueState.hsaSoftQueueCreate] at h
  split at h
  · cases h
  · rename_i hi
    split at h
    · cases h
    · rename_i htype
      split at h
      · cases h
      · rename_i hargs
        split at h
        · cases h
        · rename_i hobjects
          simp only [Bool.or_eq_true, not_or, decide_eq_true_eq, Bool.not_eq_true,
            Option.isNone_eq_false_iff] at hargs hobjects
          refine .softQueue (by simpa using hi)
            ⟨by omega, hargs.1, hargs.2, hobjects.1, hobjects.2⟩ ?_
          have hcreate := eq_error_of_map h
          simp only [QueueState.createUserModeQueue] at hcreate
          split at hcreate
          · rename_i hbuffer
            exact hbuffer
          · cases hcreate

/-- A misuse does not return. -/
theorem Misuse.eq_error {e : AllocFault} (h : Misuse s a e) : s.perform a = .error e := by
  cases h with
  | signalCreate hfailed =>
    simp only [perform, AllocState.hsaSignalCreate, hfailed.eq_error]
    rfl
  | queueCreate hfailed =>
    simp only [perform, AllocState.hsaQueueCreate, hfailed.eq_error]
    rfl
  | softQueueCreate hfailed =>
    simp only [perform, AllocState.hsaSoftQueueCreate, hfailed.eq_error]
    rfl
  | queueDestroy hi hqueue hnone =>
    simp only [perform, AllocState.hsaQueueDestroy, QueueState.hsaQueueDestroy,
      QueueState.findQueue, hi, hqueue, hnone]
    rfl
  | signalDestroy hi hsignal hsome hsession =>
    rw [Option.isSome_iff_ne_none] at hsome
    simp only [perform, hsaSignalDestroy, hi, hsignal, Option.isNone_iff_eq_none, hsome,
      deleteSignal, if_pos hsession]
    rfl

theorem fault_of_failedAllocation {s : QueueState} {result : Except Fault (HsaStatus × QueueState)}
    (h : FailedAllocation s result) (hf : result = .error f) : f = .nullPointer :=
  Except.error.inj (hf.symm.trans h.eq_error)

theorem misuse_signalCreate {e : AllocFault} {initialValue : ℤ}
    {numConsumers consumers signal : ℕ} {allocated : Allocated}
    (he : s.hsaSignalCreate initialValue numConsumers consumers signal allocated = .error e) :
    Misuse s (.signalCreate initialValue numConsumers consumers signal allocated) e := by
  rw [AllocState.hsaSignalCreate] at he
  split at he
  · rename_i f hf
    have hfailed := failedAllocation_of_hsaSignalCreate hf
    obtain rfl := fault_of_failedAllocation hfailed hf
    cases he
    exact .signalCreate hfailed
  · cases he
  · cases he

theorem misuse_queueCreate {e : AllocFault} {args : QueueArgs} {this : ℕ} {allocated : Allocated}
    (he : s.hsaQueueCreate args this allocated = .error e) :
    Misuse s (.queueCreate args this allocated) e := by
  rw [AllocState.hsaQueueCreate] at he
  split at he
  · rename_i f hf
    have hfailed := failedAllocation_of_hsaQueueCreate hf
    obtain rfl := fault_of_failedAllocation hfailed hf
    cases he
    exact .queueCreate hfailed
  · cases he
  · cases he

theorem misuse_softQueueCreate {e : AllocFault}
    {region size type doorbellSignal queue this : ℕ} {allocated : Allocated}
    (he : s.hsaSoftQueueCreate region size type doorbellSignal queue this allocated = .error e) :
    Misuse s (.softQueueCreate region size type doorbellSignal queue this allocated) e := by
  rw [AllocState.hsaSoftQueueCreate] at he
  split at he
  · rename_i f hf
    have hfailed := failedAllocation_of_hsaSoftQueueCreate hf
    obtain rfl := fault_of_failedAllocation hfailed hf
    cases he
    exact .softQueueCreate hfailed
  · cases he
  · cases he

/-- The queues of a runtime can be deleted. -/
theorem AllocSettled.exists_hsaShutDown {order : List ℕ} (h : AllocSettled s)
    (hadm : s.Admits (.shutDown order)) : ∃ r, s.hsaShutDown order = .ok r := by
  rw [hsaShutDown]
  split
  · exact ⟨_, rfl⟩
  · rename_i hzero
    split
    · rename_i hone
      obtain ⟨hperm, -, -⟩ := hadm hone
      obtain ⟨t, ht⟩ := exists_deleteQueues (h.withoutAgents fun _ => none)
        (h.counter.mpr hzero) (hperm.nodup_iff.mpr h.registryNodup)
        fun x hx => h.present x (hperm.mem_iff.mp hx)
      rw [deleteRuntime, ht]
      exact ⟨_, rfl⟩
    · exact ⟨_, rfl⟩

theorem exists_hsaMemoryFree (h : AllocInv s) (ptr : ℕ) : ∃ r, s.hsaMemoryFree ptr = .ok r := by
  rw [hsaMemoryFree]
  split
  · exact ⟨_, rfl⟩
  · rename_i hi
    split
    · exact ⟨_, rfl⟩
    · obtain ⟨t, ht⟩ := exists_freePointer h (by simpa using hi) ptr
      rw [ht]
      exact ⟨_, rfl⟩

/-- A signal is not destroyed only if it is from a past runtime. -/
theorem misuse_signalDestroy {e : AllocFault} {signal : ℕ} (h : AllocInv s)
    (he : s.hsaSignalDestroy signal = .error e) : Misuse s (.signalDestroy signal) e := by
  rw [hsaSignalDestroy] at he
  split at he
  · cases he
  · rename_i hi
    rw [Bool.not_eq_true, Bool.not_eq_false'] at hi
    split at he
    · cases he
    · rename_i hsignal
      split at he
      · cases he
      · rename_i hsome
        rw [Option.isNone_iff_eq_none, ← ne_eq, ← Option.isSome_iff_ne_none] at hsome
        have hdelete := eq_error_of_map he
        by_cases hsession : (s.signalMemory signal).1 = s.session
        · obtain ⟨t, ht⟩ := exists_deleteSignal h hi hsome hsession
          rw [ht] at hdelete
          cases hdelete
        · rw [deleteSignal, if_pos hsession] at hdelete
          cases hdelete
          exact .signalDestroy hi hsignal hsome hsession

/-- A queue is not destroyed only if it is none. -/
theorem misuse_queueDestroy {e : AllocFault} {queue : ℕ} (h : AllocInv s)
    (he : s.hsaQueueDestroy queue = .error e) : Misuse s (.queueDestroy queue) e := by
  rw [AllocState.hsaQueueDestroy] at he
  split at he
  · rename_i hnone
    cases he
    rw [QueueState.hsaQueueDestroy] at hnone
    split at hnone
    · cases hnone
    · rename_i hi
      rw [Bool.not_eq_true, Bool.not_eq_false'] at hi
      split at hnone
      · cases hnone
      · rename_i hqueue
        cases hq : s.queues queue with
        | none => exact .queueDestroy hi hqueue hq
        | some q =>
          obtain ⟨-, hid, -⟩ := h.registered queue q hq
          simp [QueueState.findQueue, hq, hid, hqueue] at hnone
  · cases he

/-- What does not return is a misuse. -/
theorem AllocSettled.misuse {e : AllocFault} (h : AllocSettled s) (hadm : s.Admits a)
    (he : s.perform a = .error e) : Misuse s a e := by
  cases a with
  | init globalMemRegion groupMemRegion cpuAgent => cases he
  | shutDown order =>
    obtain ⟨r, hr⟩ := h.exists_hsaShutDown hadm
    rw [perform, hr] at he
    cases he
  | memoryAllocate region size ptr block => cases he
  | memoryFree ptr =>
    obtain ⟨r, hr⟩ := exists_hsaMemoryFree h.toAllocInv ptr
    rw [perform, hr] at he
    cases he
  | signalCreate => exact misuse_signalCreate (eq_error_of_map he)
  | signalDestroy => exact misuse_signalDestroy h.toAllocInv (eq_error_of_map he)
  | queueCreate => exact misuse_queueCreate (eq_error_of_map he)
  | softQueueCreate => exact misuse_softQueueCreate (eq_error_of_map he)
  | queueDestroy => exact misuse_queueDestroy h.toAllocInv (eq_error_of_map he)
  | groupAllocate block => cases he
  | groupFree block =>
    obtain ⟨hgroup, -⟩ := hadm
    have hi : s.initialized = true := by
      by_contra hclosed
      have hnone := (h.closed (by simpa using hclosed)).2.1
      rw [hgroup] at hnone
      cases hnone
    obtain ⟨r, hr⟩ := exists_regionFree h.toAllocInv (h.regions hi).2 block
    rw [perform, groupFree, hr] at he
    cases he
  | relocate buffer => cases he
  | kernargsFree buffer =>
    have hlive : buffer ∈ s.heap := h.booked.live none buffer hadm
    rw [perform, kernargsFree, stdFree, if_pos hlive] at he
    cases he
  | interrupt => cases he

/-- **What is freed is live.** In every run, with any pointers, no call and no step of the worker
calls `std::free` with a block that is not live. A call does not return only if an allocation
failed in a creation, if a queue is destroyed that is not there, or if a signal is destroyed that
was made by a past runtime, and then it does not. -/
theorem perform_eq_error_iff (h : allocMachine.Reachable Machine.always s) (hadm : s.Admits a)
    (e : AllocFault) :
    s.perform a ≠ .error .invalidFree ∧ (s.perform a = .error e ↔ Misuse s a e) := by
  have hsettled := allocSettled_of_reachable h
  constructor
  · intro hinvalid
    cases hsettled.misuse hadm hinvalid
  · exact ⟨hsettled.misuse hadm, Misuse.eq_error⟩

/-- The signal at 64 is from the first of two runtimes. -/
theorem perform_eq_error_iff_past : ∃ s, allocMachine.Reachable Machine.always s ∧
    Misuse s (.signalDestroy 64) .deletedRegion := by
  obtain ⟨s, h, hdestroy⟩ := Machine.exists_reachable_of_run allocMachine Machine.always
    [.init 1 2 3, .signalCreate 0 0 0 8 ⟨0, 64⟩, .shutDown [], .init 1 2 3]
    (fun s => match s.perform (.signalDestroy 64) with
      | .error e => e = .deletedRegion
      | .ok _ => false) init_unusedAllocState rfl
  refine ⟨s, h, (perform_eq_error_iff (a := .signalDestroy 64) h trivial .deletedRegion).2.mp ?_⟩
  cases hresult : s.perform (.signalDestroy 64) with
  | error e =>
    rw [hresult] at hdestroy
    exact congrArg _ (of_decide_eq_true hdestroy)
  | ok t =>
    rw [hresult] at hdestroy
    cases hdestroy

end Misuse

end PhsaRuntime
