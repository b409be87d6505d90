import PhsaRuntime.Agent
import Mathlib.Data.Fintype.Basic

/-!
# Interrupting a queue

The invariants of the interplay of `Execute` and `terminateQueue`, for any processor and
any number of clients.

* `DeadInv` needs nothing. The client stores `Inactivated` before it loads `RunningQueue`,
  the worker stores `RunningQueue` before it loads `Inactivated`: one of the two sees the
  other.
* `SetterInv` says what has become of a call that found its queue running: as long as
  nobody has reset the flag, its signal is pending or the worker is at the landing spot.
* `KeepInv` holds as long as `InterruptingTheQueue` is not reset under a call that has
  still to send its signal or to see it delivered. Then the signal finds the worker at its
  queue.
-/

set_option linter.unusedSectionVars false

namespace PhsaRuntime

variable {Q C M L R E : Type}

/-! ## Where the worker is -/

/-- The queue that `RunningQueue` points to. -/
def Worker.queue : Worker Q L → Option Q
  | .test q _ | .checkInactivated q _ | .checkDestroyed q _ | .process q _ _ => some q
  | _ => none

/-- About to reset `InterruptingTheQueue`. -/
def Worker.resetting : Worker Q L → Bool
  | .landingFlag => true
  | _ => false

/-- About to load `InterruptingTheQueue`. -/
def Worker.testing : Worker Q L → Bool
  | .test _ _ => true
  | _ => false

/-- In `while (true) {}`. -/
def Worker.waiting : Worker Q L → Bool
  | .wait => true
  | _ => false

/-- The queue for which `InterruptingTheQueue` has been found false. -/
def Worker.tested : Worker Q L → Option Q
  | .checkInactivated q _ | .checkDestroyed q _ | .process q _ _ => some q
  | _ => none

/-- The queue that has been found not to be inactivated. -/
def Worker.entered : Worker Q L → Option Q
  | .checkDestroyed q _ | .process q _ _ => some q
  | _ => none

/-- At the landing spot, before `InterruptingTheQueue` is reset. -/
def Worker.landed : Worker Q L → Bool
  | .landing | .landingFlag => true
  | _ => false

/-- The queue that the worker processes, and where it is in it. -/
def Worker.job : Worker Q L → Option (Q × L)
  | .process q _ l | .dead q l => some (q, l)
  | _ => none

theorem Worker.queue_of_tested {w : Worker Q L} {q : Q} (h : w.tested = some q) :
    w.queue = some q := by
  cases w <;> simp_all [tested, queue]

theorem Worker.tested_of_entered {w : Worker Q L} {q : Q} (h : w.entered = some q) :
    w.tested = some q := by
  cases w <;> simp_all [tested, entered]

/-- The queue whose `Inactivated` the client has set. -/
def Client.stored : Client Q → Option Q
  | .storeInterrupting q | .compare q | .kill q | .spin q | .reset q _ => some q
  | _ => none

/-- The call has compared its queue equal with `RunningQueue`. -/
def Client.found : Client Q → Bool
  | .kill _ | .spin _ => true
  | .reset _ found => found
  | _ => false

/-- The call has sent its signal. -/
def Client.sent : Client Q → Bool
  | .spin _ => true
  | .reset _ found => found
  | _ => false

/-- The call has set `InterruptingTheQueue`, and may still send a signal. -/
def Client.interrupting : Client Q → Bool
  | .compare _ | .kill _ => true
  | _ => false

/-- About to reset `InterruptingTheQueue`. -/
def Client.resetting : Client Q → Bool
  | .reset _ _ => true
  | _ => false

/-! ## What a worker step does -/

/-- What a step of the worker may do, as far as the clients are concerned. -/
structure WorkerEffect (s s' : AgentState Q C M L) : Prop where
  client : s'.client = s.client
  pending : s'.pending = s.pending
  inactivated : s'.inactivated = s.inactivated
  returned : s'.returned = s.returned
  flag : (s'.interruptingTheQueue = s.interruptingTheQueue ∧ s'.setters = s.setters) ∨
    s.worker = .landingFlag ∧ s'.interruptingTheQueue = false ∧ s'.setters = []
  queue : ∀ q, s'.worker.queue = some q →
    s'.runningQueue = some q ∨ s.worker.queue = some q ∧ s'.runningQueue = s.runningQueue
  tested : ∀ q, s'.worker.tested = some q →
    s.worker.tested = some q ∨ s.interruptingTheQueue = false
  entered : ∀ q, s'.worker.entered = some q →
    s.worker.entered = some q ∨ s.inactivated q = false
  moved : s.worker.waiting = false
  waiting : s'.worker.waiting = true →
    s.interruptingTheQueue = true ∧ s.worker.testing = true
  landed : s.worker.landed = true → s'.worker.landed = true ∨ s'.setters = []

theorem workerEffect {P : Processor Q M L R E} {r : R} {s s' : AgentState Q C M L}
    (hs : Agent.workerStep P r s = some s') : WorkerEffect s s' := by
  cases hw : s.worker with
  | wait | exited | dead _ _ =>
    simp only [Agent.workerStep, hw, reduceCtorEq] at hs
  | process q rest l =>
    simp only [Agent.workerStep, hw] at hs
    obtain ⟨⟨m, p⟩, -, rfl⟩ := Option.map_eq_some_iff.mp hs
    cases p <;> constructor <;>
      simp [hw, Agent.resume, Worker.queue, Worker.tested, Worker.entered, Worker.landed,
        Worker.waiting, Worker.testing]
  | head | test _ _ | checkInactivated _ _ | checkDestroyed _ _ =>
    simp only [Agent.workerStep, hw] at hs
    split at hs <;> cases hs <;> constructor <;>
      simp_all [Worker.queue, Worker.tested, Worker.entered, Worker.landed,
        Worker.waiting, Worker.testing]
  | next queues =>
    cases queues <;> simp only [Agent.workerStep, hw, Option.some.injEq] at hs <;> cases hs <;>
      constructor <;> simp [hw, Worker.queue, Worker.tested, Worker.entered, Worker.landed,
        Worker.waiting, Worker.testing]
  | landing | landingFlag | getQueues | pass _ =>
    simp only [Agent.workerStep, hw, Option.some.injEq] at hs
    cases hs
    constructor <;> simp [hw, Worker.queue, Worker.tested, Worker.entered, Worker.landed,
        Worker.waiting, Worker.testing]

variable [DecidableEq Q] [DecidableEq C]

/-! ## What a client step does -/

open Agent in
/-- The steps of a client in its call, with what it has found. -/
inductive ClientMove (c : C) (s : AgentState Q C M L) : AgentState Q C M L → Prop
  | refuse (q : Q) (hc : s.client c = .checkDestroyed q) : ClientMove c s (setClient s c .idle)
  | accept (q : Q) (hc : s.client c = .checkDestroyed q) :
      ClientMove c s (setClient s c (.storeInactivated q))
  | inactivate (q : Q) (hc : s.client c = .storeInactivated q) :
      ClientMove c s (setClient { s with inactivated := Function.update s.inactivated q true } c
        (.storeInterrupting q))
  | interrupt (q : Q) (hc : s.client c = .storeInterrupting q) :
      ClientMove c s (setClient
        { s with interruptingTheQueue := true, setters := c :: s.setters } c (.compare q))
  | hit (q : Q) (hc : s.client c = .compare q) (hr : s.runningQueue = some q) :
      ClientMove c s (setClient s c (.kill q))
  | miss (q : Q) (hc : s.client c = .compare q) (hr : s.runningQueue ≠ some q) :
      ClientMove c s (setClient s c (.reset q false))
  | kill (q : Q) (hc : s.client c = .kill q) :
      ClientMove c s (setClient { s with pending := (c, q) :: s.pending } c (.spin q))
  | stay (q : Q) (hc : s.client c = .spin q) : ClientMove c s (setClient s c (.spin q))
  | leave (q : Q) (hc : s.client c = .spin q) (hr : s.runningQueue ≠ some q) :
      ClientMove c s (setClient s c (.reset q true))
  | finish (q : Q) (found : Bool) (hc : s.client c = .reset q found) :
      ClientMove c s (setClient
        { s with interruptingTheQueue := false, setters := [], returned := q :: s.returned } c
        .idle)

theorem clientMove {c : C} {s s' : AgentState Q C M L} (hs : Agent.clientStep c s = some s') :
    ClientMove c s s' := by
  cases hc : s.client c with
  | idle => simp only [Agent.clientStep, hc, reduceCtorEq] at hs
  | checkDestroyed q =>
    simp only [Agent.clientStep, hc, Option.some.injEq] at hs
    subst hs
    split
    · exact .refuse q hc
    · exact .accept q hc
  | storeInactivated q =>
    simp only [Agent.clientStep, hc, Option.some.injEq] at hs
    exact hs ▸ .inactivate q hc
  | storeInterrupting q =>
    simp only [Agent.clientStep, hc, Option.some.injEq] at hs
    exact hs ▸ .interrupt q hc
  | compare q =>
    simp only [Agent.clientStep, hc, Option.some.injEq] at hs
    subst hs
    split
    · rename_i hr
      exact .hit q hc hr
    · rename_i hr
      exact .miss q hc hr
  | kill q =>
    simp only [Agent.clientStep, hc, Option.some.injEq] at hs
    exact hs ▸ .kill q hc
  | spin q =>
    simp only [Agent.clientStep, hc, Option.some.injEq] at hs
    subst hs
    split
    · exact .stay q hc
    · rename_i hr
      exact .leave q hc hr
  | reset q found =>
    simp only [Agent.clientStep, hc, Option.some.injEq] at hs
    exact hs ▸ .finish q found hc

theorem client_setClient (s : AgentState Q C M L) (c : C) (pc : Client Q) (c' : C) :
    (Agent.setClient s c pc).client c' = if c' = c then pc else s.client c' :=
  Function.update_apply s.client c pc c'

/-! ## What a step of the agent does -/

open Agent in
/-- The steps of the agent: those of the worker and of the clients, the delivery of the
signal, and the ones that neither takes part in. -/
inductive AgentMove (P : Processor Q M L R E) (s : AgentState Q C M L) :
    AgentAction Q C R E → AgentState Q C M L → Prop
  | worker (r : R) (s' : AgentState Q C M L) (hs : workerStep P r s = some s') :
      AgentMove P s (.worker r) s'
  | call (c : C) (q : Q) : AgentMove P s (.call c q) (setClient s c (.checkDestroyed q))
  | client (c : C) (s' : AgentState Q C M L) (hs : clientStep c s = some s') :
      AgentMove P s (.client c) s'
  | deliver (hne : s.pending ≠ []) :
      AgentMove P s .deliver { s with worker := .landing, pending := [] }
  | other (a : AgentAction Q C R E) (m : M) (queues : List Q) (destroyed : Q → Bool)
      (shutDown : Bool) : AgentMove P s a { s with memory := m, queues, destroyed, shutDown }

theorem deliver_eq {s s' : AgentState Q C M L} (hs : Agent.deliver s = some s') :
    s.pending ≠ [] ∧ s' = { s with worker := .landing, pending := [] } := by
  unfold Agent.deliver at hs
  split at hs
  · cases hs
  · rename_i hne
    refine ⟨fun heq => hne (by simp [heq]), ?_⟩
    split at hs <;> cases hs
    rfl

theorem agentMove {P : Processor Q M L R E} {init : M → Prop} {a : AgentAction Q C R E}
    {s s' : AgentState Q C M L} (hs : (agentMachine C P init).step a s = some s') :
    AgentMove P s a s' := by
  cases a with
  | worker r => exact .worker r s' hs
  | call c q =>
    simp only [agentMachine, Option.ite_none_right_eq_some, Option.some.injEq] at hs
    exact hs.2 ▸ .call c q
  | client c => exact .client c s' hs
  | deliver =>
    obtain ⟨hne, rfl⟩ := deliver_eq hs
    exact .deliver hne
  | register q =>
    simp only [agentMachine, Option.ite_none_left_eq_some, Option.some.injEq] at hs
    exact hs.2 ▸ .other _ _ _ _ _
  | destroy q =>
    simp only [agentMachine, Option.ite_none_right_eq_some, Option.some.injEq] at hs
    exact hs.2 ▸ .other _ _ _ _ _
  | shutDown =>
    simp only [agentMachine, Option.some.injEq] at hs
    exact hs ▸ .other _ _ _ _ _
  | environment e =>
    obtain ⟨m, -, rfl⟩ := Option.map_eq_some_iff.mp hs
    exact .other _ _ _ _ _

/-- The steps of the agent, as far as the memory and the worker are concerned. -/
inductive MemoryMove (P : Processor Q M L R E) (s : AgentState Q C M L) :
    AgentAction Q C R E → M → Worker Q L → Prop
  /-- A step in the processing of a queue. -/
  | work (r : R) (q : Q) (rest : List Q) (l : L) (m : M) (p : Progress L)
      (hw : s.worker = .process q rest l) (hp : P.work r q l s.memory = some (m, p)) :
      MemoryMove P s (.worker r) m (Agent.resume q rest p)
  /-- A step of the worker between two queues. -/
  | control (r : R) (w : Worker Q L) (hold : s.worker.job = none)
      (hnew : w.job = none ∨
        ∃ q rest, s.worker = .checkDestroyed q rest ∧ w = .process q rest P.start) :
      MemoryMove P s (.worker r) s.memory w
  | deliver (halive : ∀ q l, s.worker ≠ .dead q l) : MemoryMove P s .deliver s.memory .landing
  | environment (e : E) (m : M) (he : P.environment e s.memory = some m) :
      MemoryMove P s (.environment e) m s.worker
  | other (a : AgentAction Q C R E) : MemoryMove P s a s.memory s.worker

theorem memoryMove_worker {P : Processor Q M L R E} {r : R} {s s' : AgentState Q C M L}
    (hs : Agent.workerStep P r s = some s') :
    MemoryMove P s (.worker r) s'.memory s'.worker := by
  cases hw : s.worker with
  | wait | exited | dead _ _ =>
    simp only [Agent.workerStep, hw, reduceCtorEq] at hs
  | process q rest l =>
    simp only [Agent.workerStep, hw] at hs
    obtain ⟨⟨m, p⟩, hp, rfl⟩ := Option.map_eq_some_iff.mp hs
    exact .work r q rest l m p hw hp
  | checkDestroyed q rest =>
    have hold : s.worker.job = none := by rw [hw]; rfl
    simp only [Agent.workerStep, hw] at hs
    split at hs <;> cases hs
    · exact .control r _ hold (.inl rfl)
    · exact .control r _ hold (.inr ⟨q, rest, hw, rfl⟩)
  | head | test _ _ | checkInactivated _ _ =>
    have hold : s.worker.job = none := by rw [hw]; rfl
    simp only [Agent.workerStep, hw] at hs
    split at hs <;> cases hs <;> exact .control r _ hold (.inl rfl)
  | next queues =>
    have hold : s.worker.job = none := by rw [hw]; rfl
    cases queues <;> simp only [Agent.workerStep, hw, Option.some.injEq] at hs <;> cases hs <;>
      exact .control r _ hold (.inl rfl)
  | landing | landingFlag | getQueues | pass _ =>
    have hold : s.worker.job = none := by rw [hw]; rfl
    simp only [Agent.workerStep, hw, Option.some.injEq] at hs
    cases hs
    exact .control r _ hold (.inl rfl)

/-- Between two queues the worker leaves the memory as it is. -/
theorem memory_control {P : Processor Q M L R E} {r : R} {s s' : AgentState Q C M L}
    (hs : Agent.workerStep P r s = some s') (hw : ∀ q rest l, s.worker ≠ .process q rest l) :
    s'.memory = s.memory := by
  have hmove := memoryMove_worker hs
  generalize s'.memory = m' at hmove ⊢
  generalize s'.worker = w' at hmove
  cases hmove with
  | work r q rest l m p hprocess hp => exact absurd hprocess (hw q rest l)
  | control r w hold hnew => rfl
  | other => rfl

theorem memoryMove {P : Processor Q M L R E} {init : M → Prop} {a : AgentAction Q C R E}
    {s s' : AgentState Q C M L} (hs : (agentMachine C P init).step a s = some s') :
    MemoryMove P s a s'.memory s'.worker := by
  cases a with
  | worker r => exact memoryMove_worker hs
  | client c =>
    have hsame : s'.memory = s.memory ∧ s'.worker = s.worker := by
      cases clientMove hs <;> exact ⟨rfl, rfl⟩
    rw [hsame.1, hsame.2]
    exact .other _
  | deliver =>
    simp only [agentMachine, Agent.deliver] at hs
    split at hs
    · cases hs
    · split at hs <;> cases hs
      rename_i hdead
      exact .deliver hdead
  | environment e =>
    obtain ⟨m, he, rfl⟩ := Option.map_eq_some_iff.mp hs
    exact .environment e m he
  | call c q =>
    simp only [agentMachine, Option.ite_none_right_eq_some, Option.some.injEq] at hs
    exact hs.2 ▸ .other _
  | register q =>
    simp only [agentMachine, Option.ite_none_left_eq_some, Option.some.injEq] at hs
    exact hs.2 ▸ .other _
  | destroy q =>
    simp only [agentMachine, Option.ite_none_right_eq_some, Option.some.injEq] at hs
    exact hs.2 ▸ .other _
  | shutDown =>
    simp only [agentMachine, Option.some.injEq] at hs
    exact hs ▸ .other _

/-! ## A dead queue stays dead -/

/-- A queue whose inactivation has got past its own comparison is not entered any more. -/
structure DeadInv (s : AgentState Q C M L) : Prop where
  running : ∀ q, s.worker.queue = some q → s.runningQueue = some q
  stored : ∀ c q, (s.client c).stored = some q → s.inactivated q = true
  pending : ∀ p ∈ s.pending, s.inactivated p.2 = true
  cleared : ∀ c q found, s.client c = .reset q found → s.worker.entered ≠ some q
  returned : ∀ q ∈ s.returned, s.inactivated q = true ∧ s.worker.entered ≠ some q

theorem DeadInv.workerStep {P : Processor Q M L R E} {r : R} {s s' : AgentState Q C M L}
    (h : DeadInv s) (hs : Agent.workerStep P r s = some s') : DeadInv s' := by
  have he := workerEffect hs
  have hdead : ∀ q, s.inactivated q = true → s.worker.entered ≠ some q →
      s'.worker.entered ≠ some q := by
    intro q hin hne heq
    rcases he.entered q heq with hold | hnot
    · exact hne hold
    · rw [hin] at hnot
      cases hnot
  refine ⟨?_, ?_, ?_, ?_, ?_⟩
  · intro q hq
    rcases he.queue q hq with hrun | ⟨hold, heq⟩
    · exact hrun
    · exact heq.trans (h.running q hold)
  · simpa only [he.client, he.inactivated] using h.stored
  · simpa only [he.pending, he.inactivated] using h.pending
  · intro c q found hc
    rw [he.client] at hc
    exact hdead q (h.stored c q (by rw [hc]; rfl)) (h.cleared c q found hc)
  · intro q hq
    rw [he.returned] at hq
    obtain ⟨hin, hne⟩ := h.returned q hq
    rw [he.inactivated]
    exact ⟨hin, hdead q hin hne⟩

theorem DeadInv.setClient {s : AgentState Q C M L} (h : DeadInv s) (c : C) {pc : Client Q}
    (hstored : ∀ q, pc.stored = some q → s.inactivated q = true)
    (hcleared : ∀ q found, pc = .reset q found → s.worker.entered ≠ some q) :
    DeadInv (Agent.setClient s c pc) := by
  refine ⟨h.running, ?_, h.pending, ?_, h.returned⟩
  · intro c' q hq
    rw [client_setClient] at hq
    split at hq
    · exact hstored q hq
    · exact h.stored c' q hq
  · intro c' q found hc
    rw [client_setClient] at hc
    split at hc
    · exact hcleared q found hc
    · exact h.cleared c' q found hc

theorem DeadInv.inactivate {s : AgentState Q C M L} (h : DeadInv s) (q : Q) :
    DeadInv { s with inactivated := Function.update s.inactivated q true } := by
  have hmono : ∀ q', s.inactivated q' = true →
      Function.update s.inactivated q true q' = true := by
    intro q' hq'
    rw [Function.update_apply]
    split
    · rfl
    · exact hq'
  refine ⟨h.running, ?_, ?_, h.cleared, ?_⟩
  · intro c q' hq'
    exact hmono q' (h.stored c q' hq')
  · intro p hp
    exact hmono p.2 (h.pending p hp)
  · intro q' hq'
    exact ⟨hmono q' (h.returned q' hq').1, (h.returned q' hq').2⟩

/-- `RunningQueue` points to the queue that has been entered. -/
theorem DeadInv.not_entered {s : AgentState Q C M L} (h : DeadInv s) {q : Q}
    (hr : s.runningQueue ≠ some q) : s.worker.entered ≠ some q := by
  intro hq
  exact hr (h.running q (Worker.queue_of_tested (Worker.tested_of_entered hq)))

theorem DeadInv.clientStep {c : C} {s s' : AgentState Q C M L} (h : DeadInv s)
    (hs : Agent.clientStep c s = some s') : DeadInv s' := by
  have hold : ∀ q, (s.client c).stored = some q → s.inactivated q = true := h.stored c
  cases clientMove hs with
  | refuse q hc | accept q hc => exact h.setClient c (by simp [Client.stored]) (by simp)
  | inactivate q hc =>
    refine (h.inactivate q).setClient c ?_ (by simp)
    intro q' hq'
    obtain rfl : q = q' := Option.some.inj hq'
    exact Function.update_self ..
  | interrupt q hc =>
    rw [hc] at hold
    have h' : DeadInv { s with interruptingTheQueue := true, setters := c :: s.setters } :=
      ⟨h.running, h.stored, h.pending, h.cleared, h.returned⟩
    exact h'.setClient c hold (by simp)
  | hit q hc hr =>
    rw [hc] at hold
    exact h.setClient c hold (by simp)
  | miss q hc hr | leave q hc hr =>
    rw [hc] at hold
    refine h.setClient c hold ?_
    intro q' found heq
    cases heq
    exact h.not_entered hr
  | kill q hc =>
    rw [hc] at hold
    have h' : DeadInv { s with pending := (c, q) :: s.pending } := by
      refine ⟨h.running, h.stored, ?_, h.cleared, h.returned⟩
      intro p hp
      rcases List.mem_cons.mp hp with rfl | hp
      · exact hold q rfl
      · exact h.pending p hp
    exact h'.setClient c hold (by simp)
  | stay q hc =>
    rw [hc] at hold
    exact h.setClient c hold (by simp)
  | finish q found hc =>
    have h' : DeadInv
        { s with interruptingTheQueue := false, setters := [], returned := q :: s.returned } := by
      refine ⟨h.running, h.stored, h.pending, h.cleared, ?_⟩
      intro q' hq'
      rcases List.mem_cons.mp hq' with rfl | hq'
      · exact ⟨hold _ (by rw [hc]; rfl), h.cleared c _ found hc⟩
      · exact h.returned q' hq'
    exact h'.setClient c (by simp [Client.stored]) (by simp)

theorem deadInv_of_reachable {P : Processor Q M L R E} {init : M → Prop}
    {ok : AgentState Q C M L → AgentAction Q C R E → Prop} {s : AgentState Q C M L}
    (h : (agentMachine C P init).Reachable ok s) : DeadInv s := by
  refine h.induction ?_ ?_
  · rintro s ⟨-, -, -, -, -, -, -, hw, hc, hpend, -, hret⟩
    refine ⟨?_, ?_, ?_, ?_, ?_⟩
    · simp [hw, Worker.queue]
    · simp [hc, Client.stored]
    · simp [hpend]
    · simp [hc]
    · simp [hret]
  · intro s a s' _ _ hs ih
    cases agentMove hs with
    | worker r _ hs => exact ih.workerStep hs
    | call c q => exact ih.setClient c (by simp [Client.stored]) (by simp)
    | client c _ hs => exact ih.clientStep hs
    | deliver =>
      refine ⟨?_, ih.stored, ?_, ?_, ?_⟩
      · simp [Worker.queue]
      · simp
      · simp [Worker.entered]
      · intro q hq
        exact ⟨(ih.returned q hq).1, by simp [Worker.entered]⟩
    | other => exact ⟨ih.running, ih.stored, ih.pending, ih.cleared, ih.returned⟩

/-! ## What becomes of a signal -/

/-- A call that has set the flag, which nobody has reset since, and that has sent its
signal: the signal is pending or has just been delivered. -/
def SetterInv (s : AgentState Q C M L) : Prop :=
  ∀ c ∈ s.setters, (s.client c).sent = true →
    (∃ q, (c, q) ∈ s.pending) ∨ s.worker.landed = true

theorem SetterInv.workerStep {P : Processor Q M L R E} {r : R} {s s' : AgentState Q C M L}
    (h : SetterInv s) (hs : Agent.workerStep P r s = some s') : SetterInv s' := by
  have he := workerEffect hs
  intro c hc hsent
  rw [he.client] at hsent
  rw [he.pending]
  rcases he.flag with ⟨-, hset⟩ | ⟨-, -, hset⟩
  · rw [hset] at hc
    rcases h c hc hsent with hpend | hland
    · exact .inl hpend
    · rcases he.landed hland with hland | hnil
      · exact .inr hland
      · rw [hset.symm.trans hnil] at hc
        cases hc
  · rw [hset] at hc
    cases hc

theorem SetterInv.setClient {s : AgentState Q C M L} (h : SetterInv s) (c : C)
    {pc : Client Q} (hsent : pc.sent = true → (∃ q, (c, q) ∈ s.pending) ∨
      s.worker.landed = true ∨ (s.client c).sent = true) :
    SetterInv (Agent.setClient s c pc) := by
  intro c' hc' hs
  rw [client_setClient] at hs
  split at hs
  · rename_i heq
    rw [heq] at hc' ⊢
    rcases hsent hs with hpend | hland | hold
    · exact .inl hpend
    · exact .inr hland
    · exact h c hc' hold
  · exact h c' hc' hs

theorem SetterInv.clientStep {c : C} {s s' : AgentState Q C M L} (h : SetterInv s)
    (hs : Agent.clientStep c s = some s') : SetterInv s' := by
  cases clientMove hs with
  | refuse q hc | accept q hc | hit q hc hr | miss q hc hr =>
    exact h.setClient c (by simp [Client.sent])
  | inactivate q hc =>
    exact SetterInv.setClient (s := { s with inactivated := _ }) h c (by simp [Client.sent])
  | interrupt q hc =>
    intro c' hc' hsent
    rw [client_setClient] at hsent
    split at hsent
    · cases hsent
    · rename_i hne
      exact h c' ((List.mem_cons.mp hc').resolve_left hne) hsent
  | kill q hc =>
    have h' : SetterInv { s with pending := (c, q) :: s.pending } := by
      intro c' hc' hsent
      rcases h c' hc' hsent with ⟨q', hpend⟩ | hland
      · exact .inl ⟨q', List.mem_cons_of_mem _ hpend⟩
      · exact .inr hland
    exact h'.setClient c fun _ => .inl ⟨q, List.mem_cons_self⟩
  | stay q hc | leave q hc hr =>
    refine h.setClient c fun _ => .inr (.inr ?_)
    rw [hc]
    rfl
  | finish q found hc => simp [SetterInv, Agent.setClient]

theorem setterInv_of_reachable {P : Processor Q M L R E} {init : M → Prop}
    {ok : AgentState Q C M L → AgentAction Q C R E → Prop} {s : AgentState Q C M L}
    (h : (agentMachine C P init).Reachable ok s) : SetterInv s := by
  refine h.induction ?_ ?_
  · rintro s ⟨-, -, -, -, -, -, -, -, -, -, hset, -⟩
    simp [SetterInv, hset]
  · intro s a s' _ _ hs ih
    cases agentMove hs with
    | worker r _ hs => exact ih.workerStep hs
    | call c q => exact ih.setClient c (by simp [Client.sent])
    | client c _ hs => exact ih.clientStep hs
    | deliver => exact fun c hc hsent => .inr rfl
    | other => exact ih

/-! ## The wait loop -/

/-- The worker waits only for a signal: some call has found its queue running and has still
to send the signal, or a signal is pending. -/
def NotWedged (s : AgentState Q C M L) : Prop :=
  s.worker.waiting = true → (∃ c q, s.client c = .kill q) ∨ s.pending ≠ []

/-- A test that finds `InterruptingTheQueue` set does so because of a call that has found
its queue running. -/
def TestsFound (s : AgentState Q C M L) : AgentAction Q C R E → Prop
  | .worker _ => s.worker.testing = true → s.interruptingTheQueue = true →
      ∃ c ∈ s.setters, (s.client c).found = true
  | _ => True

instance (s : AgentState Q C M L) :
    (a : AgentAction Q C R E) → Decidable (TestsFound s a)
  | .worker _ => inferInstanceAs (Decidable (_ → _ → _))
  | .call _ _ | .client _ | .deliver | .register _ | .destroy _ | .shutDown
  | .environment _ => .isTrue trivial

theorem Client.kill_or_sent {pc : Client Q} (h : pc.found = true) :
    (∃ q, pc = .kill q) ∨ pc.sent = true := by
  cases pc with
  | kill q => exact .inl ⟨q, rfl⟩
  | spin q => exact .inr rfl
  | reset q found => exact .inr h
  | idle | checkDestroyed q | storeInactivated q | storeInterrupting q | compare q => cases h

theorem NotWedged.workerStep {P : Processor Q M L R E} {r : R} {s s' : AgentState Q C M L}
    (hset : SetterInv s) (hok : TestsFound (R := R) (E := E) s (.worker r))
    (hs : Agent.workerStep P r s = some s') : NotWedged s' := by
  have he := workerEffect hs
  intro hwait
  obtain ⟨hflag, htest⟩ := he.waiting hwait
  obtain ⟨c, hc, hfound⟩ := hok htest hflag
  rw [he.client, he.pending]
  rcases Client.kill_or_sent hfound with ⟨q, hkill⟩ | hsent
  · exact .inl ⟨c, q, hkill⟩
  · rcases hset c hc hsent with ⟨q, hpend⟩ | hland
    · exact .inr (List.ne_nil_of_mem hpend)
    · -- a worker at the landing spot is not at the test
      cases hw : s.worker <;> simp [hw, Worker.testing, Worker.landed] at htest hland

theorem NotWedged.clientStep {c : C} {s s' : AgentState Q C M L} (h : NotWedged s)
    (hs : Agent.clientStep c s = some s') : NotWedged s' := by
  have hmove := clientMove hs
  intro hwait
  by_cases hkill : ∃ q, s.client c = .kill q
  · obtain ⟨q, hkill⟩ := hkill
    right
    cases hmove <;> simp_all [Agent.setClient]
  · -- the call that has still to send its signal is another one
    have hworker : s'.worker = s.worker := by cases hmove <;> rfl
    rw [hworker] at hwait
    rcases h hwait with ⟨c', q', hc'⟩ | hpend
    · have hne : c' ≠ c := by
        rintro rfl
        exact hkill ⟨q', hc'⟩
      refine .inl ⟨c', q', ?_⟩
      cases hmove <;> simpa [client_setClient, hne] using hc'
    · right
      cases hmove <;> simp_all [Agent.setClient]

/-- **Inactivation never wedges the worker**, if every test of the flag that finds it set
does so because of a call that has found its queue running. -/
theorem notWedged_of_reachable {P : Processor Q M L R E} {init : M → Prop}
    {s : AgentState Q C M L} (h : (agentMachine C P init).Reachable TestsFound s) :
    NotWedged s := by
  refine h.induction ?_ ?_
  · rintro s ⟨-, -, -, -, -, -, -, hw, -⟩
    simp [NotWedged, hw, Worker.waiting]
  · intro s a s' hr hok hs ih
    cases agentMove hs with
    | worker r _ hs => exact NotWedged.workerStep (setterInv_of_reachable hr) hok hs
    | call c q =>
      intro hwait
      rcases ih hwait with ⟨c', q', hc'⟩ | hpend
      · by_cases hne : c' = c
        · simp only [agentMachine, Option.ite_none_right_eq_some] at hs
          rw [← hne, hc'] at hs
          simp at hs
        · exact .inl ⟨c', q', by simpa [client_setClient, hne] using hc'⟩
      · exact .inr hpend
    | client c _ hs => exact ih.clientStep hs
    | deliver => simp [NotWedged, Worker.waiting]
    | other => exact ih

/-! ## The queue that is interrupted -/

/-- `InterruptingTheQueue` is not reset under another call: neither while a call has still
to compare or to send its signal, nor while a signal is pending, unless the worker is in
the wait loop. -/
def FlagKept (s : AgentState Q C M L) : AgentAction Q C R E → Prop
  | .worker _ => s.worker.resetting = true →
      s.pending = [] ∧ ∀ c, (s.client c).interrupting = false
  | .client c => (s.client c).resetting = true →
      (s.pending = [] ∨ s.worker.waiting = true) ∧ ∀ c, (s.client c).interrupting = false
  | _ => True

instance [Fintype C] (s : AgentState Q C M L) :
    (a : AgentAction Q C R E) → Decidable (FlagKept s a)
  | .worker _ | .client _ => inferInstanceAs (Decidable (_ → _))
  | .call _ _ | .deliver | .register _ | .destroy _ | .shutDown | .environment _ =>
    .isTrue trivial

/-- A call that has set the flag finds it set when it compares and when it sends its
signal, and its signal finds the worker at its queue. -/
structure KeepInv (s : AgentState Q C M L) : Prop where
  compare : ∀ c, (s.client c).interrupting = true → s.interruptingTheQueue = true
  kill : ∀ c q, s.client c = .kill q → ∀ q', s.worker.tested = some q' → q' = q
  pending : ∀ p ∈ s.pending, s.worker.waiting = true ∨
    s.interruptingTheQueue = true ∧ ∀ q', s.worker.tested = some q' → q' = p.2

theorem KeepInv.workerStep {P : Processor Q M L R E} {r : R} {s s' : AgentState Q C M L}
    (h : KeepInv s) (hok : FlagKept (R := R) (E := E) s (.worker r))
    (hs : Agent.workerStep P r s = some s') : KeepInv s' := by
  have he := workerEffect hs
  rcases he.flag with ⟨hflag, -⟩ | ⟨hland, hflag, -⟩
  · have htested : s.interruptingTheQueue = true → ∀ q', s'.worker.tested = some q' →
        s.worker.tested = some q' := by
      intro hset q' hq'
      rcases he.tested q' hq' with hold | hnot
      · exact hold
      · rw [hset] at hnot
        cases hnot
    refine ⟨?_, ?_, ?_⟩
    · simpa only [he.client, hflag] using h.compare
    · intro c q hc q' hq'
      rw [he.client] at hc
      have hset := h.compare c (by rw [hc]; rfl)
      exact h.kill c q hc q' (htested hset q' hq')
    · intro p hp
      rw [he.pending] at hp
      rcases h.pending p hp with hwait | ⟨hset, hq⟩
      · rw [he.moved] at hwait
        cases hwait
      · exact .inr ⟨hflag.trans hset, fun q' hq' => hq q' (htested hset q' hq')⟩
  · obtain ⟨hpend, hnone⟩ := hok (by rw [hland]; rfl)
    refine ⟨?_, ?_, ?_⟩
    · intro c hc
      rw [he.client, hnone c] at hc
      cases hc
    · intro c q hc
      rw [he.client] at hc
      have := hnone c
      rw [hc] at this
      cases this
    · simp [he.pending, hpend]

theorem KeepInv.setClient {s : AgentState Q C M L} (h : KeepInv s) (c : C) {pc : Client Q}
    (hcompare : pc.interrupting = true → s.interruptingTheQueue = true)
    (hkill : ∀ q, pc = .kill q → ∀ q', s.worker.tested = some q' → q' = q) :
    KeepInv (Agent.setClient s c pc) := by
  refine ⟨?_, ?_, h.pending⟩
  · intro c' hc'
    rw [client_setClient] at hc'
    split at hc'
    · exact hcompare hc'
    · exact h.compare c' hc'
  · intro c' q hc'
    rw [client_setClient] at hc'
    split at hc'
    · exact hkill q hc'
    · exact h.kill c' q hc'

theorem KeepInv.clientStep {c : C} {s s' : AgentState Q C M L} (hdead : DeadInv s)
    (h : KeepInv s) (hok : FlagKept (R := R) (E := E) s (.client c))
    (hs : Agent.clientStep c s = some s') : KeepInv s' := by
  have hset : (s.client c).interrupting = true → s.interruptingTheQueue = true := h.compare c
  cases clientMove hs with
  | refuse q hc | accept q hc | miss q hc hr | stay q hc | leave q hc hr =>
    exact h.setClient c (by simp [Client.interrupting]) (by simp)
  | inactivate q hc =>
    have h' : KeepInv { s with inactivated := Function.update s.inactivated q true } :=
      ⟨h.compare, h.kill, h.pending⟩
    exact h'.setClient c (by simp [Client.interrupting]) (by simp)
  | interrupt q hc =>
    have h' : KeepInv { s with interruptingTheQueue := true, setters := c :: s.setters } := by
      refine ⟨fun _ _ => rfl, h.kill, ?_⟩
      intro p hp
      rcases h.pending p hp with hwait | ⟨-, hq⟩
      · exact .inl hwait
      · exact .inr ⟨rfl, hq⟩
    exact h'.setClient c (fun _ => rfl) (by simp)
  | hit q hc hr =>
    refine h.setClient c (fun _ => hset (by rw [hc]; rfl)) ?_
    intro q₁ heq q' hq'
    cases heq
    have hrun := hdead.running q' (Worker.queue_of_tested hq')
    exact Option.some.inj (hrun.symm.trans hr)
  | kill q hc =>
    have h' : KeepInv { s with pending := (c, q) :: s.pending } := by
      refine ⟨h.compare, h.kill, ?_⟩
      intro p hp
      rcases List.mem_cons.mp hp with rfl | hp
      · exact .inr ⟨hset (by rw [hc]; rfl), h.kill c q hc⟩
      · exact h.pending p hp
    exact h'.setClient c (by simp [Client.interrupting]) (by simp)
  | finish q found hc =>
    obtain ⟨hpend, hnone⟩ := hok (by rw [hc]; rfl)
    have h' : KeepInv
        { s with interruptingTheQueue := false, setters := [], returned := q :: s.returned } := by
      refine ⟨?_, h.kill, ?_⟩
      · intro c' hc'
        change (s.client c').interrupting = true at hc'
        rw [hnone c'] at hc'
        cases hc'
      · intro p hp
        rcases hpend with hnil | hwait
        · change p ∈ s.pending at hp
          rw [hnil] at hp
          cases hp
        · exact .inl hwait
    exact h'.setClient c (by simp [Client.interrupting]) (by simp)

theorem keepInv_of_reachable {P : Processor Q M L R E} {init : M → Prop}
    {s : AgentState Q C M L} (h : (agentMachine C P init).Reachable FlagKept s) :
    KeepInv s := by
  refine h.induction ?_ ?_
  · rintro s ⟨-, -, -, -, -, -, -, hw, hc, hpend, -⟩
    refine ⟨?_, ?_, ?_⟩
    · simp [hc, Client.interrupting]
    · simp [hc]
    · simp [hpend]
  · intro s a s' hr hok hs ih
    cases agentMove hs with
    | worker r _ hs => exact ih.workerStep hok hs
    | call c q => exact ih.setClient c (by simp [Client.interrupting]) (by simp)
    | client c _ hs => exact ih.clientStep (deadInv_of_reachable hr) hok hs
    | deliver => exact ⟨ih.compare, by simp [Worker.tested], by simp⟩
    | other => exact ⟨ih.compare, ih.kill, ih.pending⟩

/-- **A signal finds the worker at the queue of its call**, which is inactivated, if the
flag is not reset under another call. -/
theorem processed_of_pending {P : Processor Q M L R E} {init : M → Prop}
    {s : AgentState Q C M L} (h : (agentMachine C P init).Reachable FlagKept s)
    {p : C × Q} (hp : p ∈ s.pending) {q : Q} {rest : List Q} {l : L}
    (hw : s.worker = .process q rest l) : q = p.2 ∧ s.inactivated q = true := by
  have hq : q = p.2 := by
    rcases (keepInv_of_reachable h).pending p hp with hwait | ⟨-, hq⟩
    · rw [hw] at hwait
      cases hwait
    · exact hq q (by rw [hw]; rfl)
  exact ⟨hq, hq ▸ (deadInv_of_reachable h).pending p hp⟩

end PhsaRuntime
