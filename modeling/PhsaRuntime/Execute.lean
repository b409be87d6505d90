import PhsaRuntime.Agent
import PhsaRuntime.Scan

/-!
# The worker with its queues

The agent machine with the scan as the processing of a queue: `CPUKernelAgent::Execute` as a
whole, with any set of queues, their producers, and signals that anyone may write.

The scan is taken with the mutexes that it acquires and the memory that it allocates. Each
step of the scan comes with the mutex operations before and after it, each of which is a
step of its own; what the worker owns is part of the memory, and stays there when a signal
takes the worker away.

## Main definitions

* `Job` — where the worker is in the processing of a queue.
* `processor` — its steps.
* `executeMachine` — the worker with its queues, their producers and the clients.
-/

namespace PhsaRuntime

/-! ## Mutexes -/

/-- The mutexes that the processing of a queue acquires. -/
inductive Lock
  /-- `HSAObjectMapping<Signal, hsa_signal_t>::RegistryLock`, recursive. -/
  | signalRegistry
  /-- The `RegistryLock` of the symbols, recursive. -/
  | symbolRegistry
  /-- `AllocationsLock` of the group memory region. -/
  | allocations
  deriving DecidableEq, Repr

/-- An operation of a `lock_guard`. -/
inductive LockOp
  | acquire (lock : Lock)
  | release (lock : Lock)
  deriving DecidableEq, Repr

/-- The mutexes the worker owns after an operation; a mutex that is not recursive cannot be
acquired by its owner. -/
def LockOp.apply : LockOp → List Lock → Option (List Lock)
  | .acquire lock, locks =>
    if lock = .allocations ∧ lock ∈ locks then none else some (lock :: locks)
  | .release lock, locks => if lock ∈ locks then some (locks.erase lock) else none

/-- `Signal::fromHSAObject`. -/
def fromHSAObject : List LockOp := [.acquire .signalRegistry, .release .signalRegistry]

/-- `Symbol::fromHandle`. -/
def fromHandle : List LockOp := [.acquire .symbolRegistry, .release .symbolRegistry]

/-- The mutex operations before a step of the scan. -/
def lockOpsBefore (q : Queue) : Pc → List LockOp
  -- `hsa_signal_load_acquire` of the doorbell and of a dependency
  | .sample => fromHSAObject
  | .barrier _ _ slot i =>
    if h : i < 5 then
      if (q.packetBuffer slot).depSignal ⟨i, h⟩ = 0 then [] else fromHSAObject
    else []
  -- the completion signal, then `GroupMemoryRegion->allocate`
  | .dispatch _ slot => fromHSAObject ++
      if (q.packetBuffer slot).groupSegmentSize ≠ 0 then [.acquire .allocations] else []
  | .launch _ _ _ _ => fromHandle
  -- `GroupMemoryRegion->free`
  | .freeGroup _ _ _ groupMemory => if groupMemory.isSome then [.acquire .allocations] else []
  | _ => []

/-- The ends of the `lock_guard` scopes that a step of the scan is in. -/
def lockOpsClosing (q : Queue) : Pc → List LockOp
  | .dispatch _ slot =>
    if (q.packetBuffer slot).groupSegmentSize ≠ 0 then [.release .allocations] else []
  | .freeGroup _ _ _ groupMemory => if groupMemory.isSome then [.release .allocations] else []
  | _ => []

/-- The mutex operations that the outcome of a step brings: the completion signal of a
satisfied barrier. -/
def lockOpsAfter : Pc → Pc → List LockOp
  | .barrier _ _ _ _, .retire _ _ _ => fromHSAObject
  | _, _ => []

/-! ## Memory -/

/-- What the worker shares with others, and what it owns. -/
structure Memory (Q : Type) where
  queue : Q → Queue
  /-- The values of the registered signals. -/
  signal : Handle → Option ℤ
  /-- The mutexes the worker owns. -/
  locks : List Lock
  /-- The blocks of group memory that have not been freed. -/
  groupMemory : List ℕ
  /-- The relocated kernel arguments that have not been freed. -/
  kernargs : List ℕ

/-- What the worker learns from the symbol registry and the allocators. -/
structure Reply where
  kernel : Handle → Option Kernel
  groupMemory : Option ℕ
  kernargBuffer : Option ℕ

/-- The steps of others: the producers of the queues, and anyone who registers, writes or
destroys a signal. -/
inductive External (Q : Type)
  | producer (q : Q) (p : Queue.ProducerAction)
  | signal (h : Handle) (value : Option ℤ)

/-- What a step of the scan may read outside its queue. -/
def Memory.env {Q : Type} (m : Memory Q) (r : Reply) : Env where
  signal := m.signal
  kernel := r.kernel
  groupMemory := r.groupMemory
  kernargBuffer := r.kernargBuffer

/-- The blocks of group memory after a step from `pc` to `pc'`. -/
def groupMemoryAfter (blocks : List ℕ) (pc pc' : Pc) : List ℕ :=
  match pc, pc' with
  | .dispatch _ _, .launch _ _ _ (some block) => block :: blocks
  | .freeGroup _ _ _ (some block), _ => blocks.erase block
  | _, _ => blocks

/-- The relocated kernel arguments after a step from `pc` to `pc'`. -/
def kernargsAfter (buffers : List ℕ) (pc pc' : Pc) : List ℕ :=
  match pc, pc' with
  | .launch _ _ _ _, .running _ _ _ _ (some buffer) => buffer :: buffers
  | .running _ _ _ _ (some buffer), _ => buffers.erase buffer
  | _, _ => buffers

/-- The signals after a step: `CompletionSignal->store(0)`. -/
def signalAfter (signal : Handle → Option ℤ) : Pc → Handle → Option ℤ
  | .complete _ (some h) =>
    if (signal h).isSome then Function.update signal h (some 0) else signal
  | _ => signal

/-! ## The processing of a queue -/

/-- Where the worker is in the processing of a queue: in the mutex operations before its
next step, or, if there are none, at that step; `closing` are the operations that follow it
in any case. -/
structure Job where
  ops : List LockOp
  closing : List LockOp
  pc : Pc

/-- The worker comes to `pc` after some mutex operations. -/
def Job.goto (q : Queue) (ops : List LockOp) (pc : Pc) : Job where
  ops := ops ++ lockOpsBefore q pc
  closing := lockOpsClosing q pc
  pc := pc

/-- How the processing goes on after a step to `pc'`. -/
def jobAfter (q : Queue) (job : Job) : Pc → Progress Job
  | .away => .done
  | .halted why => .dead (.goto q [] (.halted why))
  | pc' => .more (.goto q (job.closing ++ lockOpsAfter job.pc pc') pc')

/-- The processing of a queue by the scan. -/
def processor {Q : Type} [DecidableEq Q] (cfg : Q → Config) :
    Processor Q (Memory Q) Job Reply (External Q) where
  start := { ops := fromHSAObject, closing := [], pc := .sample }
  work r q job m :=
    match job.ops with
    | op :: ops => (op.apply m.locks).map fun locks => ({ m with locks }, .more { job with ops })
    | [] => (workerStep (cfg q) (m.env r) (m.queue q) job.pc).map fun res =>
      ({ m with
          queue := Function.update m.queue q res.1
          signal := signalAfter m.signal job.pc
          groupMemory := groupMemoryAfter m.groupMemory job.pc res.2
          kernargs := kernargsAfter m.kernargs job.pc res.2 },
        jobAfter res.1 job res.2)
  environment
    | .producer q p, m => (Queue.producerStep (cfg q) p (m.queue q)).map fun queue =>
      { m with queue := Function.update m.queue q queue }
    | .signal h value, m => some { m with signal := Function.update m.signal h value }

/-- A step in the processing of a queue: a mutex operation, or a step of the scan. -/
inductive JobMove {Q : Type} [DecidableEq Q] (cfg : Q → Config) (r : Reply) (q : Q) (m : Memory Q) :
    Job → Memory Q → Progress Job → Prop
  | op (op : LockOp) (ops closing : List LockOp) (pc : Pc) (locks : List Lock)
      (happly : op.apply m.locks = some locks) :
      JobMove cfg r q m { ops := op :: ops, closing, pc } { m with locks }
        (.more { ops, closing, pc })
  | scan (closing : List LockOp) (pc pc' : Pc) (queue : Queue)
      (hstep : workerStep (cfg q) (m.env r) (m.queue q) pc = some (queue, pc')) :
      JobMove cfg r q m { ops := [], closing, pc }
        { m with
          queue := Function.update m.queue q queue
          signal := signalAfter m.signal pc
          groupMemory := groupMemoryAfter m.groupMemory pc pc'
          kernargs := kernargsAfter m.kernargs pc pc' }
        (jobAfter queue { ops := [], closing, pc } pc')

theorem jobMove {Q : Type} [DecidableEq Q] {cfg : Q → Config} {r : Reply} {q : Q} {job : Job}
    {m m' : Memory Q} {p : Progress Job} (h : (processor cfg).work r q job m = some (m', p)) :
    JobMove cfg r q m job m' p := by
  obtain ⟨ops, closing, pc⟩ := job
  cases ops with
  | nil =>
    obtain ⟨⟨queue, pc'⟩, hstep, heq⟩ := Option.map_eq_some_iff.mp h
    cases heq
    exact .scan closing pc pc' queue hstep
  | cons op ops =>
    obtain ⟨locks, happly, heq⟩ := Option.map_eq_some_iff.mp h
    cases heq
    exact .op op ops closing pc locks happly

/-- A step from outside: of a producer, or a change of a signal. -/
inductive ExternalMove {Q : Type} [DecidableEq Q] (cfg : Q → Config) (m : Memory Q) :
    External Q → Memory Q → Prop
  | producer (q : Q) (p : Queue.ProducerAction) (queue : Queue)
      (hstep : Queue.producerStep (cfg q) p (m.queue q) = some queue) :
      ExternalMove cfg m (.producer q p) { m with queue := Function.update m.queue q queue }
  | signal (h : Handle) (value : Option ℤ) :
      ExternalMove cfg m (.signal h value) { m with signal := Function.update m.signal h value }

theorem externalMove {Q : Type} [DecidableEq Q] {cfg : Q → Config} {e : External Q}
    {m m' : Memory Q} (h : (processor cfg).environment e m = some m') :
    ExternalMove cfg m e m' := by
  cases e with
  | producer q p =>
    obtain ⟨queue, hstep, rfl⟩ := Option.map_eq_some_iff.mp h
    exact .producer q p queue hstep
  | signal h' value =>
    cases h
    exact .signal h' value

/-- One queue, at a step from outside. -/
theorem ExternalMove.queue_cases {Q : Type} [DecidableEq Q] {cfg : Q → Config} {e : External Q}
    {m m' : Memory Q} (h : ExternalMove cfg m e m') (q : Q) :
    m'.queue q = m.queue q ∨ ∃ p, e = .producer q p ∧
      Queue.producerStep (cfg q) p (m.queue q) = some (m'.queue q) := by
  cases h with
  | signal h value => exact .inl rfl
  | producer q' p queue hstep =>
    by_cases hq : q = q'
    · subst hq
      exact .inr ⟨p, rfl, by simp [hstep]⟩
    · exact .inl (Function.update_of_ne hq ..)

/-! ## The machine -/

/-- The states of the worker with its queues. -/
abbrev ExecState (Q C : Type) := AgentState Q C (Memory Q) Job

/-- The steps of the worker with its queues. -/
abbrev ExecAction (Q C : Type) := AgentAction Q C Reply (External Q)

/-- `CPUKernelAgent::Execute` with its queues, their producers and the clients `C`. -/
def executeMachine {Q : Type} (C : Type) [DecidableEq Q] [DecidableEq C] (cfg : Q → Config) :
    Machine (ExecState Q C) (ExecAction Q C) :=
  agentMachine C (processor cfg) fun m =>
    (∀ q, ∃ buffer, m.queue q = Queue.create buffer) ∧ m.locks = [] ∧
      m.groupMemory = [] ∧ m.kernargs = []

/-- The worker at the step of the scan of `q` at `pc`. -/
def AtStep {Q C : Type} (s : ExecState Q C) (q : Q) (pc : Pc) : Prop :=
  ∃ rest closing, s.worker = .process q rest { ops := [], closing, pc }

/-! ## Concrete runs -/

namespace Exec

/-- The agent after its creation; the signals have the given values. -/
def start (Q C : Type) (signal : Handle → Option ℤ) : ExecState Q C where
  memory :=
    { queue := fun _ => Queue.create fun _ => Scan.emptyPacket, signal, locks := [],
      groupMemory := [], kernargs := [] }
  queues := []
  runningQueue := none
  interruptingTheQueue := false
  inactivated := fun _ => false
  destroyed := fun _ => false
  shutDown := false
  worker := .landing
  client := fun _ => .idle
  pending := []
  setters := []
  returned := []

theorem init_start {Q C : Type} [DecidableEq Q] [DecidableEq C] (cfg : Q → Config)
    (signal : Handle → Option ℤ) : (executeMachine C cfg).init (start Q C signal) :=
  ⟨⟨fun _ => ⟨_, rfl⟩, rfl, rfl, rfl⟩, rfl, rfl, rfl, fun _ => rfl, fun _ => rfl, rfl, rfl,
    fun _ => rfl, rfl, rfl, rfl⟩

/-- Every queue is a MULTI queue of two slots. -/
def config {Q : Type} (_ : Q) : Config := ⟨.multi, 2, by decide, by decide⟩

/-- Every kernel handle is that of an empty kernel, and allocations succeed. -/
def reply : Reply where
  kernel := Scan.quietEnv.kernel
  groupMemory := some 0
  kernargBuffer := some 0

variable {Q C : Type}

/-- The worker takes `n` steps. -/
def work (n : ℕ) : List (ExecAction Q C) := List.replicate n (.worker reply)

/-- A client takes `n` steps. -/
def client (c : C) (n : ℕ) : List (ExecAction Q C) := List.replicate n (.client c)

/-- The steps of one producer for one index, from the reservation to the ring. -/
def submit (q : Q) (i : ℕ) (p : AQLPacket) : List (ExecAction Q C) :=
  [.environment (.producer q .reserve), .environment (.producer q (.proceed i)),
    .environment (.producer q (.fill i p)), .environment (.producer q (.publish i p.header)),
    .environment (.producer q (.ring i))]

/-- A kernel or a callback of the queue `q` is running. -/
def isRunning [DecidableEq Q] (q : Q) (s : ExecState Q C) : Bool :=
  match s.worker with
  | .process q' _ { ops := _, closing := _, pc := .running _ _ _ _ _ } => q' = q
  | _ => false

/-- The worker is about to load the doorbell of the queue `q`. -/
def isSampling [DecidableEq Q] (q : Q) (s : ExecState Q C) : Bool :=
  match s.worker with
  | .process q' _ { ops := [], closing := _, pc := .sample } => q' = q
  | _ => false

theorem atStep_of_isSampling [DecidableEq Q] {q : Q} {s : ExecState Q C}
    (h : isSampling q s = true) : AtStep s q .sample := by
  unfold isSampling at h
  split at h
  · rename_i q' rest closing hw
    obtain rfl : q' = q := of_decide_eq_true h
    exact ⟨rest, closing, hw⟩
  · cases h

end Exec

end PhsaRuntime
