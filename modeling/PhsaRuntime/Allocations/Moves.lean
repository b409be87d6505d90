import PhsaRuntime.Allocations
import PhsaRuntime.Lib.Pools
import PhsaRuntime.QueueCreation.Effect

/-!
# What the calls do to the memory

Every call and every step of the worker is made of a few moves: a region takes a block or gives
one back, a signal or a queue is registered or removed, and the worker comes to hold a block or
loses it.

## Main definitions

* `AllocState.book` — the blocks of each region, and the kernel arguments of the worker.
* `AllocState.freed` — a block that a region has in its book is given back.
* `AllocMove` — what a call or a step does.

## Main results

* `allocMove` — every call that returns is one of these moves.
-/

namespace PhsaRuntime

namespace AllocState

/-- The blocks of a region, and, for `none`, the kernel arguments of the worker. -/
def book (s : AllocState) : Option ℕ → Set ℕ
  | some region => {b | ∃ blocks, s.regions region = some blocks ∧ b ∈ blocks}
  | none => {b | s.kernargs = some b}

@[simp] theorem mem_book_some {s : AllocState} {region b : ℕ} :
    b ∈ s.book (some region) ↔ ∃ blocks, s.regions region = some blocks ∧ b ∈ blocks := Iff.rfl

@[simp] theorem mem_book_none {s : AllocState} {b : ℕ} :
    b ∈ s.book none ↔ s.kernargs = some b := Iff.rfl

/-! ## Moves -/

/-- The region gives the block back if it is in its book. -/
def freed (region ptr : ℕ) (s : AllocState) : AllocState :=
  { s.eraseBlock region ptr with
    heap := if ptr ∈ (s.regions region).getD [] then s.heap.erase ptr else s.heap }

/-- A signal is registered at `value`, and its memory is in the region. -/
def registerSignal (value region : ℕ) (initialValue : ℤ) (s : AllocState) : AllocState :=
  { s with
    signals := Function.update s.signals value (some initialValue)
    signalMemory := Function.update s.signalMemory value (s.session, region) }

/-- The signal is removed from the registry. -/
def dropSignal (signal : ℕ) (s : AllocState) : AllocState :=
  { s with signals := Function.update s.signals signal none }

/-- A queue is registered at `this`, and its packets are in the region. -/
def registerQueue (this region : ℕ) (q : UserModeQueue) (agents : ℕ → Option (List ℕ))
    (s : AllocState) : AllocState :=
  { s with
    agents := agents, registry := this :: s.registry
    queues := Function.update s.queues this (some q)
    queueRegion := Function.update s.queueRegion this region }

/-- The packets of a new queue are allocated, and its doorbell is made. -/
def prepareQueue (allocated : Allocated) (s : AllocState) : AllocState :=
  ((s.allocate s.globalRegion allocated.packetBuffer).allocate s.globalRegion
    allocated.signalValue).registerSignal allocated.signalValue s.globalRegion (2 ^ 63 - 1)

/-- The queue is no more. -/
def dropQueue (this : ℕ) (s : AllocState) : AllocState :=
  { s with queues := Function.update s.queues this none }

/-- The doorbell of the queue is deleted, if the queue owns it and it is there. -/
def dropDoorbell (q : UserModeQueue) (s : AllocState) : AllocState :=
  if q.isDoorbellOwned && (s.signals q.doorbellSignal).isSome then
    (s.freed (s.signalMemory q.doorbellSignal).2 q.doorbellSignal).dropSignal q.doorbellSignal
  else s

/-- A runtime is made. -/
def begun (globalMemRegion groupMemRegion cpuAgent : ℕ) (s : AllocState) : AllocState :=
  { s with
    initialized := true, referenceCounter := 1, session := s.session + 1
    agents := Function.update (fun _ => none) cpuAgent (some [])
    regions := Function.update (Function.update (fun _ => none) globalMemRegion (some []))
      groupMemRegion (some [])
    globalRegion := globalMemRegion, groupRegion := groupMemRegion }

/-- The runtime is deleted, after its queues. -/
def finished (s : AllocState) : AllocState :=
  { s with
    registry := [], regions := fun _ => none, initialized := false, referenceCounter := 0 }

section Fields

variable {s : AllocState} {region ptr value this signal : ℕ} {initialValue : ℤ}
  {q : UserModeQueue} {agents : ℕ → Option (List ℕ)}

@[simp] theorem freed_registry : (s.freed region ptr).registry = s.registry := rfl
@[simp] theorem freed_queues : (s.freed region ptr).queues = s.queues := rfl
@[simp] theorem freed_queueRegion : (s.freed region ptr).queueRegion = s.queueRegion := rfl
@[simp] theorem freed_signals : (s.freed region ptr).signals = s.signals := rfl
@[simp] theorem freed_signalMemory : (s.freed region ptr).signalMemory = s.signalMemory := rfl
@[simp] theorem freed_session : (s.freed region ptr).session = s.session := rfl
@[simp] theorem freed_initialized : (s.freed region ptr).initialized = s.initialized := rfl
@[simp] theorem freed_referenceCounter :
    (s.freed region ptr).referenceCounter = s.referenceCounter := rfl
@[simp] theorem freed_globalRegion : (s.freed region ptr).globalRegion = s.globalRegion := rfl
@[simp] theorem freed_groupRegion : (s.freed region ptr).groupRegion = s.groupRegion := rfl
@[simp] theorem freed_groupMemory : (s.freed region ptr).groupMemory = s.groupMemory := rfl
@[simp] theorem freed_kernargs : (s.freed region ptr).kernargs = s.kernargs := rfl

@[simp] theorem allocate_registry : (s.allocate region ptr).registry = s.registry := by
  rw [allocate]
  split <;> rfl

@[simp] theorem allocate_queues : (s.allocate region ptr).queues = s.queues := by
  rw [allocate]
  split <;> rfl

@[simp] theorem allocate_queueRegion : (s.allocate region ptr).queueRegion = s.queueRegion := by
  rw [allocate]
  split <;> rfl

@[simp] theorem allocate_signals : (s.allocate region ptr).signals = s.signals := by
  rw [allocate]
  split <;> rfl

@[simp] theorem allocate_signalMemory : (s.allocate region ptr).signalMemory = s.signalMemory := by
  rw [allocate]
  split <;> rfl

@[simp] theorem allocate_session : (s.allocate region ptr).session = s.session := by
  rw [allocate]
  split <;> rfl

@[simp] theorem allocate_initialized : (s.allocate region ptr).initialized = s.initialized := by
  rw [allocate]
  split <;> rfl

@[simp] theorem allocate_groupRegion : (s.allocate region ptr).groupRegion = s.groupRegion := by
  rw [allocate]
  split <;> rfl

@[simp] theorem allocate_groupMemory : (s.allocate region ptr).groupMemory = s.groupMemory := by
  rw [allocate]
  split <;> rfl

@[simp] theorem allocate_kernargs : (s.allocate region ptr).kernargs = s.kernargs := by
  rw [allocate]
  split <;> rfl

variable {allocated : Allocated}

@[simp] theorem prepareQueue_registry : (s.prepareQueue allocated).registry = s.registry := by
  simp [prepareQueue, registerSignal]

@[simp] theorem prepareQueue_queues : (s.prepareQueue allocated).queues = s.queues := by
  simp [prepareQueue, registerSignal]

@[simp] theorem prepareQueue_initialized :
    (s.prepareQueue allocated).initialized = s.initialized := by
  simp [prepareQueue, registerSignal]

@[simp] theorem prepareQueue_session : (s.prepareQueue allocated).session = s.session := by
  simp [prepareQueue, registerSignal]

@[simp] theorem prepareQueue_signals : (s.prepareQueue allocated).signals =
    Function.update s.signals allocated.signalValue (some (2 ^ 63 - 1)) := by
  simp [prepareQueue, registerSignal]

@[simp] theorem prepareQueue_signalMemory : (s.prepareQueue allocated).signalMemory =
    Function.update s.signalMemory allocated.signalValue (s.session, s.globalRegion) := by
  simp [prepareQueue, registerSignal]

end Fields

/-- What the region does not have, it does not give back. -/
theorem freed_of_not_mem {s : AllocState} {region ptr : ℕ}
    (h : ptr ∉ (s.regions region).getD []) : s.freed region ptr = s := by
  have hregions : (s.regions region).map (fun blocks => blocks.erase ptr) = s.regions region := by
    cases hblocks : s.regions region with
    | none => rfl
    | some blocks =>
      rw [hblocks] at h
      exact congrArg some (List.erase_of_not_mem h)
  rw [freed, eraseBlock, hregions, Function.update_eq_self, if_neg h]

theorem mem_getD_iff {s : AllocState} {region ptr : ℕ} :
    ptr ∈ (s.regions region).getD [] ↔ ptr ∈ s.book (some region) := by
  rw [mem_book_some]
  cases s.regions region with
  | none => simp
  | some blocks => simp

/-! ## What returns -/

/-- A region that is there frees what it has. -/
theorem regionFree_ok {s : AllocState} {region ptr : ℕ} {r : Bool × AllocState}
    (h : s.regionFree region ptr = .ok r) :
    r.2 = s.freed region ptr ∧ (r.1 = true ↔ ptr ∈ s.book (some region)) := by
  rw [regionFree] at h
  cases hblocks : s.regions region with
  | none =>
    rw [hblocks] at h
    cases h
  | some blocks =>
    simp only [hblocks] at h
    have hmem : ptr ∈ s.book (some region) ↔ ptr ∈ blocks := by simp [hblocks]
    split at h
    · rename_i hptr
      obtain ⟨t, ht, rfl⟩ := exists_of_map_eq_ok h
      rw [stdFree] at ht
      split at ht
      · cases ht
        refine ⟨?_, by simp [hblocks, hptr]⟩
        simp only [freed, eraseBlock, hblocks, Option.getD_some, if_pos hptr]
      · cases ht
    · rename_i hptr
      cases h
      refine ⟨(freed_of_not_mem ?_).symm, by simp [hblocks, hptr]⟩
      rwa [mem_getD_iff, hmem]

/-- The signal gives its value back to the region it knows. -/
theorem deleteSignal_ok {s t : AllocState} {signal : ℕ} (h : s.deleteSignal signal = .ok t) :
    (s.signalMemory signal).1 = s.session ∧
      t = (s.freed (s.signalMemory signal).2 signal).dropSignal signal := by
  rw [deleteSignal] at h
  split at h
  · cases h
  · rename_i hsession
    obtain ⟨r, hr, rfl⟩ := exists_of_map_eq_ok h
    refine ⟨not_not.mp hsession, ?_⟩
    rw [(regionFree_ok hr).1]
    rfl

theorem deleteDoorbell_ok {s t : AllocState} {q : UserModeQueue}
    (h : s.deleteDoorbell q = .ok t) : t = s.dropDoorbell q := by
  rw [deleteDoorbell] at h
  rw [dropDoorbell]
  split at h
  · rename_i howned
    rw [if_pos howned]
    exact (deleteSignal_ok h).2
  · rename_i howned
    rw [if_neg howned]
    exact (Except.ok.inj h).symm

/-- The queue gives its packets back, and deletes its doorbell. -/
theorem deleteQueue_ok {s t : AllocState} {this : ℕ} (h : s.deleteQueue this = .ok t) :
    ∃ q, s.queues this = some q ∧
      t = ((s.freed (s.queueRegion this) q.baseAddress).dropDoorbell q).dropQueue this := by
  rw [deleteQueue] at h
  cases hq : s.queues this with
  | none =>
    rw [hq] at h
    cases h
  | some q =>
    simp only [hq] at h
    refine ⟨q, rfl, ?_⟩
    cases hfree : s.regionFree (s.queueRegion this) q.baseAddress with
    | error f =>
      rw [hfree] at h
      cases h
    | ok r =>
      rw [hfree] at h
      obtain ⟨u, hu, rfl⟩ := exists_of_map_eq_ok h
      rw [deleteDoorbell_ok hu, (regionFree_ok hfree).1]
      rfl

/-- `freePointer` frees in a region that has the block, if there is one. -/
theorem freePointer_ok {s t : AllocState} {ptr : ℕ} (h : s.freePointer ptr = .ok t) :
    ∃ region, (region = s.globalRegion ∨ region = s.groupRegion) ∧ t = s.freed region ptr ∧
      (ptr ∈ s.book (some s.globalRegion) ∨ ptr ∈ s.book (some s.groupRegion) →
        ptr ∈ s.book (some region)) := by
  simp only [freePointer, freePointerLoop] at h
  cases hglobal : s.regionFree s.globalRegion ptr with
  | error f =>
    rw [hglobal] at h
    cases h
  | ok r =>
    obtain ⟨hr, hfreed⟩ := regionFree_ok hglobal
    simp only [hglobal, Except.bind] at h
    split at h
    · rename_i htrue
      refine ⟨s.globalRegion, .inl rfl, (Except.ok.inj h).symm.trans hr, ?_⟩
      exact fun _ => hfreed.mp htrue
    · rename_i hfalse
      have hglobal' : ptr ∉ s.book (some s.globalRegion) := fun hmem => hfalse (hfreed.mpr hmem)
      have hsame : r.2 = s := by rw [hr, freed_of_not_mem (by rwa [mem_getD_iff])]
      rw [hsame] at h
      cases hgroup : s.regionFree s.groupRegion ptr with
      | error f =>
        rw [hgroup] at h
        cases h
      | ok r' =>
        obtain ⟨hr', -⟩ := regionFree_ok hgroup
        rw [hgroup] at h
        refine ⟨s.groupRegion, .inr rfl, ?_, ?_⟩
        · simp only [ite_self] at h
          exact (Except.ok.inj h).symm.trans hr'
        · exact fun hmem => hmem.resolve_left hglobal'

/-! ## The creations -/

/-- A signal is registered at a block that is allocated. -/
theorem createSignal_eq {s t : QueueState} {region value : ℕ} {initialValue : ℤ}
    (h : s.createSignal region value initialValue = .ok t) :
    value ≠ 0 ∧ t =
      { s.addBlock region value with
        signals := Function.update s.signals value (some initialValue) } := by
  simp only [QueueState.createSignal] at h
  split at h
  · cases h
  · rename_i hvalue
    exact ⟨hvalue, (Except.ok.inj h).symm⟩

/-- A queue with a doorbell of its own. -/
theorem createQueue_eq {s : AllocState} {t : QueueState} {this agent size type : ℕ}
    {queues : List ℕ} {cb : Option ℕ} {allocated : Allocated}
    (h : s.toQueueState.createQueue this agent queues size type cb allocated = .ok t) :
    allocated.packetBuffer ≠ 0 ∧ allocated.signalValue ≠ 0 ∧ ∃ q agents,
      q.baseAddress = allocated.packetBuffer ∧ q.doorbellSignal = allocated.signalValue ∧
      q.isDoorbellOwned = true ∧ q.id = this ∧
      ({ s with toQueueState := t.setId this }.withQueue this s.globalRegion
        allocated.packetBuffer).withSignal allocated.signalValue s.globalRegion =
      (s.prepareQueue allocated).registerQueue this s.globalRegion q agents := by
  obtain ⟨u, hu, rfl⟩ := exists_of_map_eq_ok h
  simp only [QueueState.createUserModeQueue] at hu
  split at hu
  · cases hu
  · rename_i hbuffer
    obtain ⟨v, hv, rfl⟩ := exists_of_map_eq_ok hu
    obtain ⟨hvalue, rfl⟩ := createSignal_eq hv
    refine ⟨hbuffer, hvalue,
      { owner := some agent, cb, size, type, baseAddress := allocated.packetBuffer
        doorbellSignal := allocated.signalValue, isDoorbellOwned := true, id := this
        destroyed := false },
      Function.update s.agents agent (some (queues ++ [this])), rfl, rfl, rfl, rfl, ?_⟩
    simp only [prepareQueue, allocate, if_neg hbuffer, if_neg hvalue, QueueState.setId,
      Function.update_self, Function.update_idem]
    rfl

/-- A queue with the doorbell of someone else. -/
theorem createSoftQueue_eq {s : AllocState} {t : QueueState} {this region size type doorbell : ℕ}
    {allocated : Allocated}
    (h : s.toQueueState.createUserModeQueue this size type region none none (some doorbell)
      allocated = .ok t) :
    allocated.packetBuffer ≠ 0 ∧ ∃ q : UserModeQueue, q.baseAddress = allocated.packetBuffer ∧
      q.isDoorbellOwned = false ∧ q.id = this ∧
      { s with toQueueState := t.setId this }.withQueue this region allocated.packetBuffer =
        (s.allocate region allocated.packetBuffer).registerQueue this region q s.agents := by
  simp only [QueueState.createUserModeQueue] at h
  split at h
  · cases h
  · rename_i hbuffer
    obtain ⟨u, hu, rfl⟩ := exists_of_map_eq_ok h
    cases hu
    refine ⟨hbuffer,
      { owner := none, cb := none, size, type, baseAddress := allocated.packetBuffer
        doorbellSignal := doorbell, isDoorbellOwned := false, id := this
        destroyed := false }, rfl, rfl, rfl, ?_⟩
    simp only [allocate, if_neg hbuffer, QueueState.setId, Function.update_self,
      Function.update_idem]
    rfl

end AllocState

/-! ## What a call or a step does -/

/-- The call is successful. -/
def succeeded : Except AllocFault (HsaStatus × AllocState) → Bool
  | .ok (.success, _) => true
  | _ => false

/-- The call is refused, as far as it takes or frees memory otherwise. Steps of the worker are
never refused. -/
def AllocRefuses (s : AllocState) : AllocAction → Prop
  | .memoryAllocate region size ptr block =>
    (s.hsaMemoryAllocate region size ptr block).1 ≠ .success
  | .memoryFree ptr => s.initialized = false ∨ ptr = 0
  | .signalCreate initialValue numConsumers consumers signal allocated =>
    succeeded (s.hsaSignalCreate initialValue numConsumers consumers signal allocated) = false
  | .signalDestroy signal => s.initialized = false ∨ signal = 0 ∨ s.signals signal = none
  | .init .. | .shutDown .. | .queueCreate .. | .softQueueCreate .. | .queueDestroy .. => True
  | .groupAllocate .. | .groupFree .. | .relocate .. | .kernargsFree .. | .interrupt => False

/-- The moves that calls and steps are made of. -/
inductive AllocMove (s : AllocState) : AllocAction → AllocState → Prop
  | stay {a : AllocAction} : AllocRefuses s a → AllocMove s a s
  | begun {globalMemRegion groupMemRegion cpuAgent : ℕ} : s.referenceCounter = 0 →
      AllocMove s (.init globalMemRegion groupMemRegion cpuAgent)
        (s.begun globalMemRegion groupMemRegion cpuAgent)
  | retain {globalMemRegion groupMemRegion cpuAgent : ℕ} : s.referenceCounter ≠ 0 →
      AllocMove s (.init globalMemRegion groupMemRegion cpuAgent)
        { s with referenceCounter := s.referenceCounter + 1 }
  | release {order : List ℕ} : 1 < s.referenceCounter →
      AllocMove s (.shutDown order) { s with referenceCounter := s.referenceCounter - 1 }
  | finished {order : List ℕ} {t : AllocState} : s.referenceCounter = 1 →
      AllocState.deleteQueues order { s with agents := fun _ => none } = .ok t →
      AllocMove s (.shutDown order) t.finished
  | memoryAllocate {region size ptr block : ℕ} :
      (s.hsaMemoryAllocate region size ptr block).1 = .success →
      (s.regions region).isSome → block ≠ 0 →
      AllocMove s (.memoryAllocate region size ptr block) (s.allocate region block)
  | memoryFree {ptr region : ℕ} : s.initialized = true → ptr ≠ 0 →
      region = s.globalRegion ∨ region = s.groupRegion →
      (ptr ∈ s.book (some s.globalRegion) ∨ ptr ∈ s.book (some s.groupRegion) →
        ptr ∈ s.book (some region)) →
      AllocMove s (.memoryFree ptr) (s.freed region ptr)
  | signalCreate {initialValue : ℤ} {numConsumers consumers signal : ℕ} {allocated : Allocated} :
      succeeded (s.hsaSignalCreate initialValue numConsumers consumers signal allocated) = true →
      s.initialized = true → allocated.signalValue ≠ 0 →
      AllocMove s (.signalCreate initialValue numConsumers consumers signal allocated)
        ((s.allocate s.globalRegion allocated.signalValue).registerSignal allocated.signalValue
          s.globalRegion initialValue)
  | signalDestroy {signal : ℕ} : s.initialized = true → signal ≠ 0 →
      (s.signals signal).isSome →
      (s.signalMemory signal).1 = s.session →
      AllocMove s (.signalDestroy signal)
        ((s.freed (s.signalMemory signal).2 signal).dropSignal signal)
  | queueCreate {args : QueueArgs} {this : ℕ} {allocated : Allocated} {q : UserModeQueue}
      {agents : ℕ → Option (List ℕ)} : s.initialized = true → allocated.packetBuffer ≠ 0 →
      allocated.signalValue ≠ 0 → q.baseAddress = allocated.packetBuffer →
      q.doorbellSignal = allocated.signalValue → q.isDoorbellOwned = true → q.id = this →
      AllocMove s (.queueCreate args this allocated)
        ((s.prepareQueue allocated).registerQueue this s.globalRegion q agents)
  | softQueueCreate {region size type doorbellSignal queue this : ℕ} {allocated : Allocated}
      {q : UserModeQueue} : s.initialized = true → (s.regions region).isSome →
      allocated.packetBuffer ≠ 0 → q.baseAddress = allocated.packetBuffer →
      q.isDoorbellOwned = false → q.id = this →
      AllocMove s (.softQueueCreate region size type doorbellSignal queue this allocated)
        ((s.allocate region allocated.packetBuffer).registerQueue this region q s.agents)
  | queueDestroy {queue id : ℕ} {q : UserModeQueue} : s.queues id = some q →
      AllocMove s (.queueDestroy queue)
        { s with queues := Function.update s.queues id (some { q with destroyed := true }) }
  | groupAllocate {block : ℕ} : AllocMove s (.groupAllocate block) (s.groupAllocate block)
  | groupFree {block : ℕ} : AllocMove s (.groupFree block)
      { s.freed s.groupRegion block with groupMemory := none }
  | relocate {buffer : ℕ} : AllocMove s (.relocate buffer) (s.relocate buffer)
  | kernargsFree {buffer : ℕ} : AllocMove s (.kernargsFree buffer)
      { s with heap := s.heap.erase buffer, kernargs := none }
  | interrupt : AllocMove s .interrupt s.interrupt

namespace AllocState

variable {s s' : AllocState}

theorem hsaInit_move (globalMemRegion groupMemRegion cpuAgent : ℕ) :
    AllocMove s (.init globalMemRegion groupMemRegion cpuAgent)
      (s.hsaInit globalMemRegion groupMemRegion cpuAgent).2 := by
  rw [hsaInit]
  split
  · exact .stay trivial
  · split
    · rename_i hcounter
      exact .begun hcounter
    · rename_i hcounter
      exact .retain hcounter

theorem hsaShutDown_move {order : List ℕ} {status : HsaStatus}
    (h : s.hsaShutDown order = .ok (status, s')) : AllocMove s (.shutDown order) s' := by
  rw [hsaShutDown] at h
  split at h
  · cases h
    exact .stay trivial
  · rename_i hzero
    split at h
    · rename_i hone
      obtain ⟨t, ht, heq⟩ := exists_of_map_eq_ok h
      obtain ⟨u, hu, rfl⟩ := exists_of_map_eq_ok ht
      cases heq
      have hmove := AllocMove.finished hone hu
      exact hmove
    · rename_i hone
      cases h
      exact .release (by omega)

theorem hsaMemoryAllocate_move (region size ptr block : ℕ) :
    AllocMove s (.memoryAllocate region size ptr block)
      (s.hsaMemoryAllocate region size ptr block).2 := by
  by_cases hsuccess : (s.hsaMemoryAllocate region size ptr block).1 = .success
  · have hresult := hsuccess
    rw [hsaMemoryAllocate] at hresult
    -- all results before the last one are errors
    split at hresult
    · cases hresult
    · rename_i hinitialized
      split at hresult
      · cases hresult
      · rename_i hargs
        split at hresult
        · cases hresult
        · rename_i hregion
          split at hresult
          · cases hresult
          · rename_i hsize
            split at hresult
            · cases hresult
            · rename_i hblock
              have hmove := AllocMove.memoryAllocate hsuccess
                (by simpa [Option.isSome_iff_ne_none] using hregion) hblock
              rwa [hsaMemoryAllocate, if_neg hinitialized, if_neg hargs, if_neg hregion,
                if_neg hsize, if_neg hblock]
  · have hsame : (s.hsaMemoryAllocate region size ptr block).2 = s := by
      rw [hsaMemoryAllocate] at hsuccess ⊢
      split_ifs at hsuccess ⊢ <;> first | rfl | exact absurd rfl hsuccess
    rw [hsame]
    exact .stay hsuccess

theorem hsaMemoryFree_move {ptr : ℕ} {status : HsaStatus}
    (h : s.hsaMemoryFree ptr = .ok (status, s')) : AllocMove s (.memoryFree ptr) s' := by
  rw [hsaMemoryFree] at h
  split at h
  · rename_i hinitialized
    cases h
    exact .stay (.inl (by simpa using hinitialized))
  · rename_i hinitialized
    split at h
    · rename_i hptr
      cases h
      exact .stay (.inr hptr)
    · rename_i hptr
      obtain ⟨t, ht, heq⟩ := exists_of_map_eq_ok h
      cases heq
      obtain ⟨region, hregion, rfl, hbook⟩ := freePointer_ok ht
      exact .memoryFree (by simpa using hinitialized) hptr hregion hbook

theorem hsaSignalCreate_move {initialValue : ℤ} {numConsumers consumers signal : ℕ}
    {allocated : Allocated} {status : HsaStatus}
    (h : s.hsaSignalCreate initialValue numConsumers consumers signal allocated =
      .ok (status, s')) :
    AllocMove s (.signalCreate initialValue numConsumers consumers signal allocated) s' := by
  have hresult := h
  rw [hsaSignalCreate] at h
  split at h
  · cases h
  · rename_i t ht
    cases h
    rw [QueueState.hsaSignalCreate] at ht
    split at ht
    · cases ht
    · rename_i hinitialized
      split at ht
      · cases ht
      · obtain ⟨u, hu, heq⟩ := exists_of_map_eq_ok ht
        cases heq
        obtain ⟨hvalue, rfl⟩ := createSignal_eq hu
        have hsuccess : succeeded (s.hsaSignalCreate initialValue numConsumers consumers signal
            allocated) = true := by
          rw [hresult]
          rfl
        have hmove := AllocMove.signalCreate hsuccess (by simpa using hinitialized) hvalue
        rwa [allocate, if_neg hvalue] at hmove
  · rename_i hstatus _
    cases h
    refine .stay ?_
    rw [AllocRefuses, hresult]
    cases status with
    | success => exact (hstatus rfl).elim
    | _ => rfl

theorem hsaSignalDestroy_move {signal : ℕ} {status : HsaStatus}
    (h : s.hsaSignalDestroy signal = .ok (status, s')) :
    AllocMove s (.signalDestroy signal) s' := by
  rw [hsaSignalDestroy] at h
  split at h
  · rename_i hinitialized
    cases h
    exact .stay (.inl (by simpa using hinitialized))
  · rename_i hinitialized
    split at h
    · rename_i hsignal
      cases h
      exact .stay (.inr (.inl hsignal))
    · rename_i hsignal
      split at h
      · rename_i hnone
        cases h
        exact .stay (.inr (.inr (by simpa using hnone)))
      · rename_i hsome
        obtain ⟨t, ht, heq⟩ := exists_of_map_eq_ok h
        cases heq
        obtain ⟨hsession, rfl⟩ := deleteSignal_ok ht
        exact .signalDestroy (by simpa using hinitialized) hsignal
          (by simpa [Option.isSome_iff_ne_none] using hsome) hsession

theorem hsaQueueCreate_move {args : QueueArgs} {this : ℕ} {allocated : Allocated}
    {status : HsaStatus} (h : s.hsaQueueCreate args this allocated = .ok (status, s')) :
    AllocMove s (.queueCreate args this allocated) s' := by
  rw [hsaQueueCreate] at h
  split at h
  · cases h
  · rename_i t ht
    cases h
    rw [QueueState.hsaQueueCreate] at ht
    split at ht
    · cases ht
    · rename_i hinitialized
      split at ht
      · cases ht
      · split at ht
        · cases ht
        · split at ht
          · cases ht
          · split at ht
            · cases ht
            · obtain ⟨u, hu, heq⟩ := exists_of_map_eq_ok ht
              cases heq
              obtain ⟨hbuffer, hvalue, q, agents, hbase, hdoorbell, howned, hid, heq⟩ :=
                createQueue_eq hu
              rw [heq]
              exact .queueCreate (by simpa using hinitialized) hbuffer hvalue hbase hdoorbell
                howned hid
  · cases h
    exact .stay trivial

theorem hsaSoftQueueCreate_move {region size type doorbellSignal queue this : ℕ}
    {allocated : Allocated} {status : HsaStatus}
    (h : s.hsaSoftQueueCreate region size type doorbellSignal queue this allocated =
      .ok (status, s')) :
    AllocMove s (.softQueueCreate region size type doorbellSignal queue this allocated) s' := by
  rw [hsaSoftQueueCreate] at h
  split at h
  · cases h
  · rename_i t ht
    cases h
    rw [QueueState.hsaSoftQueueCreate] at ht
    split at ht
    · cases ht
    · rename_i hinitialized
      split at ht
      · cases ht
      · split at ht
        · cases ht
        · split at ht
          · cases ht
          · rename_i hregion
            obtain ⟨u, hu, heq⟩ := exists_of_map_eq_ok ht
            cases heq
            obtain ⟨hbuffer, q, hbase, howned, hid, heq⟩ := createSoftQueue_eq hu
            rw [heq]
            rw [Bool.or_eq_true, not_or] at hregion
            exact .softQueueCreate (by simpa using hinitialized)
              (by simpa [Option.isSome_iff_ne_none] using hregion.2) hbuffer hbase howned hid
  · cases h
    exact .stay trivial

theorem hsaQueueDestroy_move {queue : ℕ} {status : HsaStatus}
    (h : s.hsaQueueDestroy queue = .ok (status, s')) : AllocMove s (.queueDestroy queue) s' := by
  rw [hsaQueueDestroy] at h
  split at h
  · cases h
  · rename_i t ht
    cases h
    cases hsaQueueDestroy_effect ht with
    | refused _ _ => exact .stay trivial
    | destroyed _ hq _ => exact .queueDestroy hq

/-- **What a call or a step does.** -/
theorem allocMove {a : AllocAction} (h : s.perform a = .ok s') : AllocMove s a s' := by
  cases a with
  | init globalMemRegion groupMemRegion cpuAgent =>
    cases h
    exact hsaInit_move globalMemRegion groupMemRegion cpuAgent
  | shutDown order =>
    obtain ⟨r, hr, rfl⟩ := exists_of_map_eq_ok h
    exact hsaShutDown_move hr
  | memoryAllocate region size ptr block =>
    cases h
    exact hsaMemoryAllocate_move region size ptr block
  | memoryFree ptr =>
    obtain ⟨r, hr, rfl⟩ := exists_of_map_eq_ok h
    exact hsaMemoryFree_move hr
  | signalCreate initialValue numConsumers consumers signal allocated =>
    obtain ⟨r, hr, rfl⟩ := exists_of_map_eq_ok h
    exact hsaSignalCreate_move hr
  | signalDestroy signal =>
    obtain ⟨r, hr, rfl⟩ := exists_of_map_eq_ok h
    exact hsaSignalDestroy_move hr
  | queueCreate args this allocated =>
    obtain ⟨r, hr, rfl⟩ := exists_of_map_eq_ok h
    exact hsaQueueCreate_move hr
  | softQueueCreate region size type doorbellSignal queue this allocated =>
    obtain ⟨r, hr, rfl⟩ := exists_of_map_eq_ok h
    exact hsaSoftQueueCreate_move hr
  | queueDestroy queue =>
    obtain ⟨r, hr, rfl⟩ := exists_of_map_eq_ok h
    exact hsaQueueDestroy_move hr
  | groupAllocate block =>
    cases h
    exact .groupAllocate
  | groupFree block =>
    obtain ⟨r, hr, rfl⟩ := exists_of_map_eq_ok h
    rw [(regionFree_ok hr).1]
    exact .groupFree
  | relocate buffer =>
    cases h
    exact .relocate
  | kernargsFree buffer =>
    obtain ⟨t, ht, rfl⟩ := exists_of_map_eq_ok h
    rw [stdFree] at ht
    split at ht
    · cases ht
      exact .kernargsFree
    · cases ht
  | interrupt =>
    cases h
    exact .interrupt

end AllocState

end PhsaRuntime
