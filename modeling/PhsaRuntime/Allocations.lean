import Mathlib.Data.Finset.Basic
import PhsaRuntime.QueueCreation

/-!
# The memory of the runtime

The two memory regions of a runtime, the signals and the queues that take their memory from
them, and what the application and the worker take and give back, over any number of `hsa_init`
and `hsa_shut_down`. The calls on queues and signals are those of `QueueState`, on the part of
the state that they see.

`std::free` of a block that is not live is a fault, and so is the use of a region that has been
deleted. A signal outlives the runtime it was made in, with a reference to a deleted region, so
that `SignalMemory` also says which runtime the region belongs to. What `posix_memalign` returns
is a parameter, 0 for a failure, and may be any block that is not live.

The calls are taken one at a time. Between them the worker allocates and frees the memory of the
packet that it executes, or is interrupted there and jumps.

## Main definitions

* `AllocState` — the heap, and who has what of it.
* `AllocState.perform` — a call, or a step of the worker.
* `allocMachine` — the calls and the steps, in any order.
-/

namespace PhsaRuntime

/-- What goes wrong in a call. -/
inductive AllocFault
  /-- An allocation failed, and its result is dereferenced. -/
  | creation (f : Fault)
  /-- `std::free` of a block that is not live. -/
  | invalidFree
  | deletedRegion
  /-- There is no `hsa_queue_t` at the address. -/
  | noQueue
  deriving DecidableEq, Repr

/-- The memory of the runtime. -/
structure AllocState extends QueueState where
  referenceCounter : ℕ
  /-- How many runtimes there have been. -/
  session : ℕ
  groupRegion : ℕ
  /-- What `posix_memalign` has returned and `std::free` has not been called with since. -/
  heap : Finset ℕ
  /-- `SignalMemory` of the registered signals, with the runtime it belongs to. -/
  signalMemory : ℕ → ℕ × ℕ
  /-- `Region` of the queues. -/
  queueRegion : ℕ → ℕ
  /-- `GroupMemory` of the packet that the worker executes. -/
  groupMemory : Option ℕ
  /-- The relocated kernel arguments of the packet that the worker executes. -/
  kernargs : Option ℕ

/-- `CPUMemoryRegion::getMaxAllocSize`. -/
def CPUMemoryRegion.getMaxAllocSize : ℕ := 512 * 1024 * 1024

/-- `CPUMemoryRegion::getRuntimeAllocAllowed`. -/
def CPUMemoryRegion.getRuntimeAllocAllowed : Bool := true

namespace AllocState

/-! ## Regions -/

/-- `std::free`. -/
def stdFree (block : ℕ) (s : AllocState) : Except AllocFault AllocState :=
  if block ∈ s.heap then .ok { s with heap := s.heap.erase block } else .error .invalidFree

/-- `CPUMemoryRegion::allocate`; every caller asks for the alignment of a pointer or more. -/
def allocate (region block : ℕ) (s : AllocState) : AllocState :=
  if block = 0 then s
  else { s with toQueueState := s.toQueueState.addBlock region block, heap := insert block s.heap }

/-- `Allocations.erase(Ptr)`. -/
def eraseBlock (region ptr : ℕ) (s : AllocState) : AllocState :=
  { s with
    regions := Function.update s.regions region ((s.regions region).map fun blocks =>
      blocks.erase ptr) }

/-- `CPUMemoryRegion::free`. -/
def regionFree (region ptr : ℕ) (s : AllocState) : Except AllocFault (Bool × AllocState) :=
  match s.regions region with
  | none => .error .deletedRegion
  | some blocks =>
    if ptr ∈ blocks then (s.stdFree ptr).map fun s => (true, s.eraseBlock region ptr)
    else .ok (false, s)

/-- The loop of `Runtime::freePointer` over the regions. -/
def freePointerLoop (ptr : ℕ) : List ℕ → AllocState → Except AllocFault AllocState
  | [], s => .ok s
  | region :: regions, s =>
    (s.regionFree region ptr).bind fun r =>
      if r.1 then .ok r.2 else freePointerLoop ptr regions r.2

/-- `Runtime::freePointer`. -/
def freePointer (ptr : ℕ) (s : AllocState) : Except AllocFault AllocState :=
  freePointerLoop ptr [s.globalRegion, s.groupRegion] s

/-- `hsa_memory_allocate`, which `hsa_amd_memory_pool_allocate` calls with its arguments. -/
def hsaMemoryAllocate (region size ptr block : ℕ) (s : AllocState) : HsaStatus × AllocState :=
  if !s.initialized then (.errorNotInitialized, s)
  else if size = 0 ∨ ptr = 0 then (.errorInvalidArgument, s)
  else if (s.regions region).isNone then (.errorInvalidRegion, s)
  else if size > CPUMemoryRegion.getMaxAllocSize ∨ !CPUMemoryRegion.getRuntimeAllocAllowed then
    (.errorInvalidAllocation, s)
  else if block = 0 then (.errorOutOfResources, s)
  else (.success, s.allocate region block)

/-- `hsa_memory_free`, which `hsa_amd_memory_pool_free` calls with its argument. -/
def hsaMemoryFree (ptr : ℕ) (s : AllocState) : Except AllocFault (HsaStatus × AllocState) :=
  if !s.initialized then .ok (.errorNotInitialized, s)
  else if ptr = 0 then .ok (.errorInvalidArgument, s)
  else (s.freePointer ptr).map fun s => (.success, s)

/-! ## Signals -/

/-- The signal at `value` has taken its memory from the region. -/
def withSignal (value region : ℕ) (s : AllocState) : AllocState :=
  { s with
    heap := insert value s.heap
    signalMemory := Function.update s.signalMemory value (s.session, region) }

/-- `hsa_signal_create`. -/
def hsaSignalCreate (initialValue : ℤ) (numConsumers consumers signal : ℕ)
    (allocated : Allocated) (s : AllocState) : Except AllocFault (HsaStatus × AllocState) :=
  match s.toQueueState.hsaSignalCreate initialValue numConsumers consumers signal allocated with
  | .error f => .error (.creation f)
  | .ok (.success, t) =>
    .ok (.success, { s with toQueueState := t }.withSignal allocated.signalValue s.globalRegion)
  | .ok (status, _) => .ok (status, s)

/-- `GCCBuiltinSignal::~GCCBuiltinSignal` and the removal of the signal from the registry. -/
def deleteSignal (signal : ℕ) (s : AllocState) : Except AllocFault AllocState :=
  if (s.signalMemory signal).1 ≠ s.session then .error .deletedRegion
  else
    (s.regionFree (s.signalMemory signal).2 signal).map fun r =>
      { r.2 with signals := Function.update r.2.signals signal none }

/-- `hsa_signal_destroy`. -/
def hsaSignalDestroy (signal : ℕ) (s : AllocState) : Except AllocFault (HsaStatus × AllocState) :=
  if !s.initialized then .ok (.errorNotInitialized, s)
  else if signal = 0 then .ok (.errorInvalidArgument, s)
  else if (s.signals signal).isNone then .ok (.errorInvalidSignal, s)
  else (s.deleteSignal signal).map fun s => (.success, s)

/-! ## Queues -/

/-- The queue at `this` has taken its packets from the region. -/
def withQueue (this region packetBuffer : ℕ) (s : AllocState) : AllocState :=
  { s with
    heap := insert packetBuffer s.heap
    queueRegion := Function.update s.queueRegion this region }

/-- `hsa_queue_create`, with the new queue at `this`. -/
def hsaQueueCreate (args : QueueArgs) (this : ℕ) (allocated : Allocated) (s : AllocState) :
    Except AllocFault (HsaStatus × AllocState) :=
  match s.toQueueState.hsaQueueCreate args this allocated with
  | .error f => .error (.creation f)
  | .ok (.success, t) =>
    .ok (.success, ({ s with toQueueState := t }.withQueue this s.globalRegion
      allocated.packetBuffer).withSignal allocated.signalValue s.globalRegion)
  | .ok (status, _) => .ok (status, s)

/-- `hsa_soft_queue_create`, with the new queue at `this`. -/
def hsaSoftQueueCreate (region size type doorbellSignal queue this : ℕ) (allocated : Allocated)
    (s : AllocState) : Except AllocFault (HsaStatus × AllocState) :=
  match s.toQueueState.hsaSoftQueueCreate region size type doorbellSignal queue this allocated with
  | .error f => .error (.creation f)
  | .ok (.success, t) =>
    .ok (.success, { s with toQueueState := t }.withQueue this region allocated.packetBuffer)
  | .ok (status, _) => .ok (status, s)

/-- `hsa_queue_destroy`. -/
def hsaQueueDestroy (queue : ℕ) (s : AllocState) : Except AllocFault (HsaStatus × AllocState) :=
  match s.toQueueState.hsaQueueDestroy queue with
  | none => .error .noQueue
  | some (status, t) => .ok (status, { s with toQueueState := t })

/-- `delete Signal::fromHSAObject(..)` for a doorbell that the queue owns. -/
def deleteDoorbell (q : UserModeQueue) (s : AllocState) : Except AllocFault AllocState :=
  -- `fromHSAObject` is null if there is no such signal
  if q.isDoorbellOwned && (s.signals q.doorbellSignal).isSome then
    s.deleteSignal q.doorbellSignal
  else .ok s

/-- `UserModeQueue::~UserModeQueue`, and the release of the object. -/
def deleteQueue (this : ℕ) (s : AllocState) : Except AllocFault AllocState :=
  match s.queues this with
  | none => .error .noQueue
  | some q =>
    (s.regionFree (s.queueRegion this) q.baseAddress).bind fun r =>
      (r.2.deleteDoorbell q).map fun s =>
        { s with queues := Function.update s.queues this none }

/-- `Queue::garbageCollect`, in the order of the hash map. -/
def deleteQueues : List ℕ → AllocState → Except AllocFault AllocState
  | [], s => .ok s
  | this :: order, s => (s.deleteQueue this).bind (deleteQueues order)

/-! ## The runtime -/

/-- `hsa_init`, with the addresses of the regions and of the agent if a runtime is made. -/
def hsaInit (globalMemRegion groupMemRegion cpuAgent : ℕ) (s : AllocState) :
    HsaStatus × AllocState :=
  -- `std::numeric_limits<int32_t>::max()`
  if s.referenceCounter = 2147483647 then (.errorRefcountOverflow, s)
  else if s.referenceCounter = 0 then
    (.success,
      { s with
        initialized := true, referenceCounter := 1, session := s.session + 1
        agents := Function.update (fun _ => none) cpuAgent (some [])
        regions := Function.update (Function.update (fun _ => none) globalMemRegion (some []))
          groupMemRegion (some [])
        globalRegion := globalMemRegion, groupRegion := groupMemRegion })
  else (.success, { s with referenceCounter := s.referenceCounter + 1 })

/-- `Runtime::~Runtime`, once the worker has been joined: signals stay. -/
def deleteRuntime (order : List ℕ) (s : AllocState) : Except AllocFault AllocState :=
  (deleteQueues order { s with agents := fun _ => none }).map fun s =>
    -- `CPUMemoryRegion` has no destructor of its own
    { s with registry := [], regions := fun _ => none }

/-- `hsa_shut_down`. -/
def hsaShutDown (order : List ℕ) (s : AllocState) : Except AllocFault (HsaStatus × AllocState) :=
  if s.referenceCounter = 0 then .ok (.errorNotInitialized, s)
  else if s.referenceCounter = 1 then
    (s.deleteRuntime order).map fun s =>
      (.success, { s with initialized := false, referenceCounter := 0 })
  else .ok (.success, { s with referenceCounter := s.referenceCounter - 1 })

/-! ## The worker -/

/-- `GroupMemoryRegion->allocate` for a dispatch packet. -/
def groupAllocate (block : ℕ) (s : AllocState) : AllocState :=
  { s.allocate s.groupRegion block with groupMemory := if block = 0 then none else some block }

/-- `GroupMemoryRegion->free(GroupMemory)`. -/
def groupFree (block : ℕ) (s : AllocState) : Except AllocFault AllocState :=
  (s.regionFree s.groupRegion block).map fun r => { r.2 with groupMemory := none }

/-- `posix_memalign(&LaunchData.kernarg_addr, ..)`. -/
def relocate (buffer : ℕ) (s : AllocState) : AllocState :=
  { s with heap := insert buffer s.heap, kernargs := some buffer }

/-- `free(LaunchData.kernarg_addr)`. -/
def kernargsFree (buffer : ℕ) (s : AllocState) : Except AllocFault AllocState :=
  (s.stdFree buffer).map fun s => { s with kernargs := none }

/-- `siglongjmp`: what the worker knows of its packet is lost. -/
def interrupt (s : AllocState) : AllocState := { s with groupMemory := none, kernargs := none }

end AllocState

/-! ## Runs -/

/-- The calls, with what the environment adds to them, and the steps of the worker. -/
inductive AllocAction
  | init (globalMemRegion groupMemRegion cpuAgent : ℕ)
  | shutDown (order : List ℕ)
  | memoryAllocate (region size ptr block : ℕ)
  | memoryFree (ptr : ℕ)
  | signalCreate (initialValue : ℤ) (numConsumers consumers signal : ℕ) (allocated : Allocated)
  | signalDestroy (signal : ℕ)
  | queueCreate (args : QueueArgs) (this : ℕ) (allocated : Allocated)
  | softQueueCreate (region size type doorbellSignal queue this : ℕ) (allocated : Allocated)
  | queueDestroy (queue : ℕ)
  | groupAllocate (block : ℕ)
  | groupFree (block : ℕ)
  | relocate (buffer : ℕ)
  | kernargsFree (buffer : ℕ)
  | interrupt
  deriving DecidableEq, Repr

namespace AllocState

/-- The environment may do so: what is new is new, the hash map has the registered queues, and
the worker has left its loop when it is joined. -/
def Admits (s : AllocState) : AllocAction → Prop
  | .init globalMemRegion groupMemRegion _ => globalMemRegion ≠ groupMemRegion
  | .shutDown order =>
    s.referenceCounter = 1 → order.Perm s.registry ∧ s.groupMemory = none ∧ s.kernargs = none
  | .memoryAllocate _ _ _ block => block ∉ s.heap
  | .signalCreate _ _ _ _ allocated => allocated.signalValue ∉ s.heap
  | .queueCreate _ this allocated =>
    this ≠ 0 ∧ s.queues this = none ∧ allocated.packetBuffer ∉ s.heap ∧
      allocated.signalValue ∉ s.heap ∧
      (allocated.packetBuffer = allocated.signalValue → allocated.packetBuffer = 0)
  | .softQueueCreate _ _ _ _ _ this allocated =>
    this ≠ 0 ∧ s.queues this = none ∧ allocated.packetBuffer ∉ s.heap
  | .groupAllocate block =>
    s.initialized = true ∧ s.groupMemory = none ∧ s.kernargs = none ∧ block ∉ s.heap
  | .groupFree block => s.groupMemory = some block ∧ s.kernargs = none
  | .relocate buffer =>
    s.initialized = true ∧ s.kernargs = none ∧ buffer ≠ 0 ∧ buffer ∉ s.heap
  | .kernargsFree buffer => s.kernargs = some buffer
  | .memoryFree _ | .signalDestroy _ | .queueDestroy _ | .interrupt => True

/-- The state after a call or a step. -/
def perform (s : AllocState) : AllocAction → Except AllocFault AllocState
  | .init globalMemRegion groupMemRegion cpuAgent =>
    .ok (s.hsaInit globalMemRegion groupMemRegion cpuAgent).2
  | .shutDown order => (s.hsaShutDown order).map Prod.snd
  | .memoryAllocate region size ptr block => .ok (s.hsaMemoryAllocate region size ptr block).2
  | .memoryFree ptr => (s.hsaMemoryFree ptr).map Prod.snd
  | .signalCreate initialValue numConsumers consumers signal allocated =>
    (s.hsaSignalCreate initialValue numConsumers consumers signal allocated).map Prod.snd
  | .signalDestroy signal => (s.hsaSignalDestroy signal).map Prod.snd
  | .queueCreate args this allocated => (s.hsaQueueCreate args this allocated).map Prod.snd
  | .softQueueCreate region size type doorbellSignal queue this allocated =>
    (s.hsaSoftQueueCreate region size type doorbellSignal queue this allocated).map Prod.snd
  | .queueDestroy queue => (s.hsaQueueDestroy queue).map Prod.snd
  | .groupAllocate block => .ok (s.groupAllocate block)
  | .groupFree block => s.groupFree block
  | .relocate buffer => .ok (s.relocate buffer)
  | .kernargsFree buffer => s.kernargsFree buffer
  | .interrupt => .ok s.interrupt

instance (s : AllocState) (a : AllocAction) : Decidable (s.Admits a) :=
  match a with
  | .init _ _ _ => inferInstanceAs (Decidable (_ ≠ _))
  | .shutDown _ => inferInstanceAs (Decidable (_ → _ ∧ _ ∧ _))
  | .memoryAllocate _ _ _ _ | .signalCreate _ _ _ _ _ => inferInstanceAs (Decidable (_ ∉ _))
  | .queueCreate _ _ _ => inferInstanceAs (Decidable (_ ∧ _ = none ∧ _ ∧ _ ∧ (_ → _)))
  | .softQueueCreate _ _ _ _ _ _ _ => inferInstanceAs (Decidable (_ ∧ _ = none ∧ _))
  | .groupAllocate _ | .relocate _ => inferInstanceAs (Decidable (_ ∧ _ ∧ _ ∧ _))
  | .groupFree _ => inferInstanceAs (Decidable (_ ∧ _))
  | .kernargsFree _ => inferInstanceAs (Decidable (_ = _))
  | .memoryFree _ | .signalDestroy _ | .queueDestroy _ | .interrupt => .isTrue trivial

end AllocState

/-- The calls and the steps of the worker, in any order, from a process that has not used the
runtime. -/
def allocMachine : Machine AllocState AllocAction where
  init s := s.initialized = false ∧ s.referenceCounter = 0 ∧ s.session = 0 ∧ s.registry = [] ∧
    s.queues = (fun _ => none) ∧ s.signals = (fun _ => none) ∧ s.regions = (fun _ => none) ∧
    s.heap = ∅ ∧ s.groupMemory = none ∧ s.kernargs = none
  step a s := if s.Admits a then (s.perform a).toOption else none

/-- A process that has not used the runtime. -/
def unusedAllocState : AllocState :=
  { initialized := false, agents := fun _ => none, registry := [], queues := fun _ => none
    signals := fun _ => none, regions := fun _ => none, globalRegion := 0, referenceCounter := 0
    session := 0, groupRegion := 0, heap := ∅, signalMemory := fun _ => (0, 0)
    queueRegion := fun _ => 0, groupMemory := none, kernargs := none }

theorem init_unusedAllocState : allocMachine.init unusedAllocState :=
  ⟨rfl, rfl, rfl, rfl, rfl, rfl, rfl, rfl, rfl, rfl⟩

end PhsaRuntime
