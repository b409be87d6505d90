import PhsaRuntime.Lib.Machine
import Mathlib.Logic.Function.Basic
import Mathlib.Data.List.Basic

/-!
# The worker of an agent and the clients that inactivate its queues

The frame of `CPUKernelAgent::Execute`, from the landing spot to the choice of the next
queue, and `hsa_queue_inactivate` with `Queue::setInactivated` and
`CPUKernelAgent::terminateQueue`, as one machine. The worker and any number of clients
interleave freely; each access to `RunningQueue`, `InterruptingTheQueue` and `Inactivated`
is one step.

What the worker does with the queue it has chosen is a parameter, a `Processor`: its own
program counter, its steps on the memory it shares with others, and the steps of these
others.

A `SIGUSR1` is pending until it is delivered, together with all others that are pending,
and its delivery sends the worker to the landing spot from wherever it is.

## Main definitions

* `Processor` — the processing of one queue.
* `AgentState` — the state of the worker and its clients.
* `agentMachine` — their steps.
-/

namespace PhsaRuntime

/-- How the processing of a queue goes on. -/
inductive Progress (L : Type)
  | more (l : L)
  /-- Done with the queue. -/
  | done
  /-- The thread is gone: `abort()`, or an access without a meaning. -/
  | dead (l : L)

/-- The processing of one queue: `L` is where the worker is in it, `M` the memory, `R` what
the worker learns from outside the memory, `E` the steps of others on the memory. -/
structure Processor (Q M L R E : Type) where
  start : L
  work : R → Q → L → M → Option (M × Progress L)
  environment : E → M → Option M

/-- Where the worker is. The queues of the pass that are still to come are `rest`. -/
inductive Worker (Q L : Type)
  /-- At `InterruptedQueueLandingSpot`, about to store to `RunningQueue`. -/
  | landing
  /-- About to reset `InterruptingTheQueue`. -/
  | landingFlag
  /-- At the head of a pass, `while (!ShutDown)`. -/
  | head
  | getQueues
  /-- About to store `nullptr` to `RunningQueue`. -/
  | pass (queues : List Q)
  /-- About to store the next queue to `RunningQueue`. -/
  | next (rest : List Q)
  /-- About to load `InterruptingTheQueue`. -/
  | test (q : Q) (rest : List Q)
  /-- In `while (true) {}`. -/
  | wait
  | checkInactivated (q : Q) (rest : List Q)
  | checkDestroyed (q : Q) (rest : List Q)
  | process (q : Q) (rest : List Q) (l : L)
  | exited
  | dead (q : Q) (l : L)

/-- Where a client is in `hsa_queue_inactivate`. -/
inductive Client (Q : Type)
  | idle
  | checkDestroyed (q : Q)
  /-- In `setInactivated`, about to store to `Inactivated`. -/
  | storeInactivated (q : Q)
  /-- In `terminateQueue`, about to set `InterruptingTheQueue`. -/
  | storeInterrupting (q : Q)
  /-- About to compare with `RunningQueue`. -/
  | compare (q : Q)
  /-- About to call `pthread_kill`. -/
  | kill (q : Q)
  /-- In `while (Q == RunningQueue) {}`. -/
  | spin (q : Q)
  /-- About to reset `InterruptingTheQueue` and to return; `found` if the queue was running. -/
  | reset (q : Q) (found : Bool)
  deriving DecidableEq

/-- The state of the agent. -/
structure AgentState (Q C M L : Type) where
  memory : M
  queues : List Q
  runningQueue : Option Q
  interruptingTheQueue : Bool
  inactivated : Q → Bool
  destroyed : Q → Bool
  shutDown : Bool
  worker : Worker Q L
  client : C → Client Q
  /-- The signals that have been sent and not delivered: the client and its queue. -/
  pending : List (C × Q)
  /-- The clients that have set `InterruptingTheQueue` since it was last reset. -/
  setters : List C
  /-- The queues for which `hsa_queue_inactivate` has returned successfully. -/
  returned : List Q

/-- The steps of the agent. -/
inductive AgentAction (Q C R E : Type)
  /-- A step of the worker. -/
  | worker (r : R)
  /-- A client calls `hsa_queue_inactivate`. -/
  | call (c : C) (q : Q)
  /-- A step of a client in its call. -/
  | client (c : C)
  /-- The pending `SIGUSR1` is delivered to the worker. -/
  | deliver
  /-- `createQueue` registers a queue. -/
  | register (q : Q)
  /-- `hsa_queue_destroy`. -/
  | destroy (q : Q)
  | shutDown
  /-- A step of others on the memory. -/
  | environment (e : E)

namespace Agent

variable {Q C M L R E : Type} [DecidableEq Q] [DecidableEq C]

/-- Where the worker is after a step in the processing of `q`. -/
def resume (q : Q) (rest : List Q) : Progress L → Worker Q L
  | .more l => .process q rest l
  | .done => .next rest
  | .dead l => .dead q l

/-- One step of `CPUKernelAgent::Execute`. -/
def workerStep (P : Processor Q M L R E) (r : R) (s : AgentState Q C M L) :
    Option (AgentState Q C M L) :=
  match s.worker with
  | .landing => some { s with runningQueue := none, worker := .landingFlag }
  | .landingFlag =>
    some { s with interruptingTheQueue := false, setters := [], worker := .head }
  | .head =>
    if s.shutDown then some { s with shutDown := false, worker := .exited }
    else some { s with worker := .getQueues }
  | .getQueues => some { s with worker := .pass s.queues }
  | .pass queues => some { s with runningQueue := none, worker := .next queues }
  | .next [] => some { s with worker := .head }
  | .next (q :: rest) => some { s with runningQueue := some q, worker := .test q rest }
  | .test q rest =>
    if s.interruptingTheQueue then some { s with worker := .wait }
    else some { s with worker := .checkInactivated q rest }
  | .checkInactivated q rest =>
    if s.inactivated q then some { s with worker := .next rest }
    else some { s with worker := .checkDestroyed q rest }
  | .checkDestroyed q rest =>
    if s.destroyed q then some { s with worker := .next rest }
    else some { s with worker := .process q rest P.start }
  | .process q rest l => (P.work r q l s.memory).map fun res =>
      { s with memory := res.1, worker := resume q rest res.2 }
  | .wait | .exited | .dead _ _ => none

/-- The client `c` goes on to `pc`. -/
def setClient (s : AgentState Q C M L) (c : C) (pc : Client Q) : AgentState Q C M L :=
  { s with client := Function.update s.client c pc }

/-- One step of a client in `hsa_queue_inactivate`. -/
def clientStep (c : C) (s : AgentState Q C M L) : Option (AgentState Q C M L) :=
  match s.client c with
  | .idle => none
  | .checkDestroyed q =>
    some (setClient s c (if s.destroyed q then .idle else .storeInactivated q))
  | .storeInactivated q =>
    some (setClient { s with inactivated := Function.update s.inactivated q true } c
      (.storeInterrupting q))
  | .storeInterrupting q =>
    some (setClient { s with interruptingTheQueue := true, setters := c :: s.setters } c
      (.compare q))
  | .compare q =>
    some (setClient s c (if s.runningQueue = some q then .kill q else .reset q false))
  | .kill q => some (setClient { s with pending := (c, q) :: s.pending } c (.spin q))
  | .spin q =>
    some (setClient s c (if s.runningQueue = some q then .spin q else .reset q true))
  | .reset q _ =>
    some (setClient
      { s with interruptingTheQueue := false, setters := [], returned := q :: s.returned } c
      .idle)

/-- `QueueInterruptionHandler`: back to the landing spot, from anywhere in the thread. -/
def deliver (s : AgentState Q C M L) : Option (AgentState Q C M L) :=
  if s.pending.isEmpty then none
  else match s.worker with
    | .exited | .dead _ _ => none
    | _ => some { s with worker := .landing, pending := [] }

end Agent

open Agent in
/-- The worker and the clients of an agent. At first the worker is at the landing spot, and
no queue is registered. -/
def agentMachine {Q M L R E : Type} (C : Type) [DecidableEq Q] [DecidableEq C]
    (P : Processor Q M L R E) (init : M → Prop) :
    Machine (AgentState Q C M L) (AgentAction Q C R E) where
  init s := init s.memory ∧ s.queues = [] ∧ s.runningQueue = none ∧
    s.interruptingTheQueue = false ∧ (∀ q, s.inactivated q = false) ∧
    (∀ q, s.destroyed q = false) ∧ s.shutDown = false ∧ s.worker = .landing ∧
    (∀ c, s.client c = .idle) ∧ s.pending = [] ∧ s.setters = [] ∧ s.returned = []
  step
    | .worker r, s => workerStep P r s
    | .call c q, s =>
      if s.client c = .idle ∧ q ∈ s.queues then some (setClient s c (.checkDestroyed q))
      else none
    | .client c, s => clientStep c s
    | .deliver, s => deliver s
    | .register q, s =>
      if q ∈ s.queues then none else some { s with queues := s.queues ++ [q] }
    | .destroy q, s =>
      if q ∈ s.queues then some { s with destroyed := Function.update s.destroyed q true }
      else none
    | .shutDown, s => some { s with shutDown := true }
    | .environment e, s => (P.environment e s.memory).map fun m => { s with memory := m }

end PhsaRuntime
