import Mathlib.Logic.Function.Basic
import PhsaRuntime.DLFinalizedProgram
import PhsaRuntime.HsaStatus
import PhsaRuntime.Lib.Machine
import PhsaRuntime.Packet

/-!
# The creation of queues and signals

The constructor of `UserModeQueue` registers the queue, allocates the packet buffer, stores
the headers, and, if it is given no doorbell, creates a signal, whose constructor allocates and
stores the value. What the allocations return is a parameter, 0 for `NULL`.

An agent has a list of its queues, which is only ever extended. A destroyed queue has a flag.
An `hsa_queue_t` is known by the address of its queue.

## Main definitions

* `UserModeQueue` — a queue, with its callback.
* `hsaQueueCreate`, `hsaSoftQueueCreate`, `hsaSignalCreate`, `hsaQueueDestroy` — the calls.
* `queueMachine` — the calls, in any order.
-/

namespace PhsaRuntime

/-- What the application is told by a callback. -/
structure Invocation where
  /-- The address of the function. -/
  callback : ℕ
  status : Status
  source : ℕ
  data : ℕ
  deriving DecidableEq, Repr

/-- `UserModeQueue`. -/
structure UserModeQueue where
  owner : Option ℕ
  /-- `CB`, empty if it was given by a null pointer. -/
  cb : Option ℕ
  size : ℕ
  type : ℕ
  baseAddress : ℕ
  doorbellSignal : ℕ
  isDoorbellOwned : Bool
  id : ℕ
  destroyed : Bool
  deriving DecidableEq, Repr

/-- `UserModeQueue::ExecuteCallback` of the queue at `this`. -/
def UserModeQueue.executeCallback (q : UserModeQueue) (this : ℕ) (status : Status) :
    Option Invocation :=
  q.cb.map fun callback => { callback, status, source := this, data := 0 }

/-- The queues, the signals and the memory of the runtime. -/
structure QueueState where
  initialized : Bool
  /-- `Agent::Queues` of every agent. -/
  agents : ℕ → Option (List ℕ)
  /-- `Queue::Registry`. -/
  registry : List ℕ
  queues : ℕ → Option UserModeQueue
  /-- The values of the registered signals. -/
  signals : ℕ → Option ℤ
  /-- `Allocations` of every memory region. -/
  regions : ℕ → Option (List ℕ)
  /-- The region of the agents' queues and of the signals. -/
  globalRegion : ℕ

/-- What the allocations of a call return. -/
structure Allocated where
  packetBuffer : ℕ
  signalValue : ℕ
  deriving DecidableEq, Repr

/-- `CPUKernelAgent::getQueuesMax`. -/
def getQueuesMax : ℕ := 1024

/-- `CPUKernelAgent::IsSupportedQueueType`. -/
def isSupportedQueueType (_ : ℕ) : Bool := true

/-- `size == 0 || size & (size - 1) != 0`: the comparison binds first. -/
def isSizeRejected (size : ℕ) : Bool :=
  size = 0 || size &&& (if size - 1 ≠ 0 then 1 else 0) ≠ 0

namespace QueueState

/-- The region has one more live block. -/
def addBlock (s : QueueState) (region block : ℕ) : QueueState :=
  { s with
    regions := Function.update s.regions region ((s.regions region).map fun blocks =>
      block :: blocks) }

/-- `GCCBuiltinSignal::GCCBuiltinSignal`, with the value at `value`. -/
def createSignal (region value : ℕ) (initialValue : ℤ) (s : QueueState) :
    Except Fault QueueState :=
  if value = 0 then .error .nullPointer
  else
    let s := s.addBlock region value
    .ok { s with signals := Function.update s.signals value (some initialValue) }

/-- `S` of the constructor of `UserModeQueue`: a new signal, unless there is one. -/
def createDoorbell (region value : ℕ) (s : QueueState) : Option ℕ → Except Fault QueueState
  | some _ => .ok s
  | none => s.createSignal region value (2 ^ 63 - 1)

/-- `UserModeQueue::UserModeQueue` at `this`; `doorbell` is `none` for a null pointer. -/
def createUserModeQueue (this size type region : ℕ) (cb owner doorbell : Option ℕ)
    (allocated : Allocated) (s : QueueState) : Except Fault QueueState :=
  -- the constructor of the base class
  let s := { s with registry := this :: s.registry }
  if allocated.packetBuffer = 0 then
    -- the loop over the headers
    .error .nullPointer
  else
    let s := s.addBlock region allocated.packetBuffer
    let q : UserModeQueue :=
      { owner, cb, size, type, baseAddress := allocated.packetBuffer
        doorbellSignal := doorbell.getD allocated.signalValue
        isDoorbellOwned := doorbell.isNone, id := 0, destroyed := false }
    (s.createDoorbell region allocated.signalValue doorbell).map fun s =>
      { s with queues := Function.update s.queues this (some q) }

/-- `(*queue)->id = (uint64_t)Q`. -/
def setId (this : ℕ) (s : QueueState) : QueueState :=
  { s with
    queues := Function.update s.queues this ((s.queues this).map fun q => { q with id := this }) }

/-- `CPUKernelAgent::createQueue`. -/
def createQueue (this agent : ℕ) (queues : List ℕ) (size type : ℕ) (cb : Option ℕ)
    (allocated : Allocated) (s : QueueState) : Except Fault QueueState :=
  (s.createUserModeQueue this size type s.globalRegion cb (some agent) none allocated).map fun s =>
    { s with agents := Function.update s.agents agent (some (queues ++ [this])) }

end QueueState

/-- The arguments of `hsa_queue_create`. -/
structure QueueArgs where
  agent : ℕ
  size : ℕ
  type : ℕ
  /-- `none` for a null pointer. -/
  callback : Option ℕ
  data : ℕ
  privateSegmentSize : ℕ
  groupSegmentSize : ℕ
  queue : ℕ
  deriving DecidableEq, Repr

namespace QueueState

/-- `hsa_queue_create`, with the new queue at `this`. -/
def hsaQueueCreate (args : QueueArgs) (this : ℕ) (allocated : Allocated) (s : QueueState) :
    Except Fault (HsaStatus × QueueState) :=
  if !s.initialized then .ok (.errorNotInitialized, s)
  else if args.queue = 0 || isSizeRejected args.size then .ok (.errorInvalidArgument, s)
  else
    match s.agents args.agent with
    | none => .ok (.errorInvalidAgent, s)
    | some queues =>
      if getQueuesMax ≤ queues.length then .ok (.errorOutOfResources, s)
      else if !isSupportedQueueType args.type then .ok (.errorInvalidQueueCreation, s)
      else
        -- `data` is not passed on
        (s.createQueue this args.agent queues args.size args.type args.callback allocated).map
          fun s => (.success, s.setId this)

/-- `hsa_soft_queue_create`, with the new queue at `this`. -/
def hsaSoftQueueCreate (region size type doorbellSignal queue this : ℕ) (allocated : Allocated)
    (s : QueueState) : Except Fault (HsaStatus × QueueState) :=
  if !s.initialized then .ok (.errorNotInitialized, s)
  -- `HSA_QUEUE_TYPE_MULTI` and `HSA_QUEUE_TYPE_SINGLE`
  else if type ≠ 0 ∧ type ≠ 1 then .ok (.errorInvalidArgument, s)
  else if queue = 0 || isSizeRejected size then .ok (.errorInvalidArgument, s)
  else if (s.signals doorbellSignal).isNone || (s.regions region).isNone then
    .ok (.errorInvalidArgument, s)
  else
    (s.createUserModeQueue this size type region none none (some doorbellSignal) allocated).map
      fun s => (.success, s.setId this)

/-- `hsa_signal_create`. -/
def hsaSignalCreate (initialValue : ℤ) (numConsumers consumers signal : ℕ)
    (allocated : Allocated) (s : QueueState) : Except Fault (HsaStatus × QueueState) :=
  if !s.initialized then .ok (.errorNotInitialized, s)
  else if signal = 0 ∨ numConsumers > 0 ∧ consumers = 0 then .ok (.errorInvalidArgument, s)
  else
    (s.createSignal s.globalRegion allocated.signalValue initialValue).map fun s => (.success, s)

/-- `Queue::FindQueue`: what the `id` of an `hsa_queue_t` says. -/
def findQueue (queue : ℕ) (s : QueueState) : Option ℕ := (s.queues queue).map (·.id)

/-- `hsa_queue_destroy`; `none` if there is no `hsa_queue_t` at the address. -/
def hsaQueueDestroy (queue : ℕ) (s : QueueState) : Option (HsaStatus × QueueState) :=
  if !s.initialized then some (.errorNotInitialized, s)
  else if queue = 0 then some (.errorInvalidArgument, s)
  else
    (s.findQueue queue).bind fun id =>
      if id = 0 then some (.errorInvalidQueue, s)
      else
        (s.queues id).map fun q =>
          if q.destroyed then (.errorInvalidQueue, s)
          else
            (.success,
              { s with queues := Function.update s.queues id (some { q with destroyed := true }) })

end QueueState

/-! ## Runs -/

/-- The calls. -/
inductive QueueAction
  | create (args : QueueArgs) (this : ℕ) (allocated : Allocated)
  | createSoft (region size type doorbellSignal queue this : ℕ) (allocated : Allocated)
  | createSignal (initialValue : ℤ) (numConsumers consumers signal : ℕ) (allocated : Allocated)
  | destroy (queue : ℕ)
  deriving DecidableEq, Repr

/-- The status of a call and the state afterwards; `none` where it does not return, and for an
address of a queue that is in use. -/
def queueCall (s : QueueState) : QueueAction → Option (HsaStatus × QueueState)
  | .create args this allocated =>
    if this = 0 ∨ (s.queues this).isSome then none
    else (s.hsaQueueCreate args this allocated).toOption
  | .createSoft region size type doorbellSignal queue this allocated =>
    if this = 0 ∨ (s.queues this).isSome then none
    else (s.hsaSoftQueueCreate region size type doorbellSignal queue this allocated).toOption
  | .createSignal initialValue numConsumers consumers signal allocated =>
    (s.hsaSignalCreate initialValue numConsumers consumers signal allocated).toOption
  | .destroy queue => s.hsaQueueDestroy queue

/-- The calls, in any order, from a runtime without queues. -/
def queueMachine : Machine QueueState QueueAction where
  init s := s.initialized = true ∧ s.registry = [] ∧ s.queues = (fun _ => none) ∧
    ∀ agent queues, s.agents agent = some queues → queues = []
  step a s := (queueCall s a).map Prod.snd

/-- One agent, which is at 1, and one region, which is at 2. -/
def emptyQueueState : QueueState :=
  { initialized := true, agents := Function.update (fun _ => none) 1 (some [])
    registry := [], queues := fun _ => none, signals := fun _ => none
    regions := Function.update (fun _ => none) 2 (some []), globalRegion := 2 }

/-- A queue of one packet, without a callback. -/
def plainArgs : QueueArgs :=
  { agent := 1, size := 1, type := 0, callback := none, data := 0, privateSegmentSize := 0
    groupSegmentSize := 0, queue := 8 }

/-- Both allocations succeed. -/
def someMemory : Allocated := ⟨64, 128⟩

theorem init_emptyQueueState : queueMachine.init emptyQueueState := by
  refine ⟨rfl, rfl, rfl, ?_⟩
  intro agent queues h
  by_cases hagent : agent = 1
  · rw [hagent] at h
    exact (Option.some.inj h).symm
  · simp [emptyQueueState, Function.update_of_ne hagent] at h

end PhsaRuntime
