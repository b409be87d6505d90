import PhsaRuntime.Runtime.Sessions
import PhsaRuntime.Execute.Release

/-!
# The workers of the sessions

All sessions share `ShutDown`, but no two of them have a worker at the same time.

## Main results

* `one_worker` — there is at most one worker, and `ShutDown` is set only while it is waited for.
* `session_is_agent` — each session is a run of the agent from its initial state.
* `call_progress` — `hsa_init` and `hsa_shut_down` do not deadlock.
-/

namespace PhsaRuntime

open RuntimeState

/-- The memory of a session at its beginning. -/
def Memory.Fresh {Q : Type} (m : Memory Q) : Prop :=
  (∀ q, ∃ buffer, m.queue q = Queue.create buffer) ∧ m.locks = [] ∧ m.groupMemory = [] ∧
    m.kernargs = []

/-- The threads of a process that uses the runtime, with the worker and its queues. -/
def processMachine {Q : Type} (T : Type) [DecidableEq Q] [DecidableEq T] (cfg : Q → Config) :
    Machine (RuntimeState Q T (Memory Q) Job)
      (RuntimeAction Q T {m : Memory Q // m.Fresh} Reply (External Q)) :=
  runtimeMachine T (processor cfg) Memory.Fresh

/-! ## Concrete runs -/

namespace Process

/-- The memory of a new session. -/
def memory : {m : Memory Unit // m.Fresh} :=
  ⟨(Exec.start Unit Bool fun _ => none).memory, fun _ => ⟨_, rfl⟩, rfl, rfl, rfl⟩

/-- Before the first call of `hsa_init`. -/
def start : RuntimeState Unit Bool (Memory Unit) Job where
  referenceCounter := 0
  runtime := none
  created := 0
  destroyed := fun _ => false
  shutDown := false
  agent := fun _ => .start false memory
  referenceCounterMutex := none
  instanceMutex := none
  thread := fun _ => .idle
  references := 0
  releasing := ∅
  history := []

theorem init_start : (processMachine Bool Exec.config).init start :=
  ⟨rfl, rfl, rfl, rfl, rfl, fun _ => rfl, rfl, fun _ => rfl, rfl, rfl, rfl⟩

variable {R E : Type}

/-- A thread takes `n` steps in the code of the runtime. -/
def thread {N : Type} (m : N) (t : Bool) (n : ℕ) : List (RuntimeAction Unit Bool N R E) :=
  List.replicate n (.thread t m)

end Process

variable {Q T M L R E : Type} [DecidableEq Q] [DecidableEq T] {P : Processor Q M L R E}
  {init : M → Prop}

/-! ## At most one worker -/

namespace RuntimeSessions

variable {x : RuntimeSessions Q T M L} {pc : RuntimePc}

omit [DecidableEq Q] [DecidableEq T] in
/-- All sessions have been deleted but, at most, the last one. -/
theorem SessionInv.gone_or_current (h : x.SessionInv pc) (hpc : pc.locksCounter = true) :
    (∀ k < x.created, x.destroyed k = true) ∨ ∃ k, x.Current k := by
  have hserving : (∃ k, x.Serving k) → ∃ k, x.Current k := by
    rintro ⟨k, hk⟩
    exact ⟨k, hk.toCurrent⟩
  cases pc with
  | idle | lockCounter _ | isInitialized | get | inCall _ => cases hpc
  | check _ | unlockCounter _ _ => exact h.imp (fun hz => hz.2.destroyed) fun hp => hserving hp.2
  | create => exact .inl h.2.destroyed
  | assign k | join k | destroy k => exact .inr ⟨k, h.2.1⟩
  | storeShutDown k => exact .inr ⟨k, h.2.toCurrent⟩
  | assignNull => exact .inl h.2.1
  | lockInstance call =>
    cases call with
    | init => exact .inl h.2.destroyed
    | release => exact .inr (hserving h.2)
  | unlockInstance call =>
    cases call with
    | init => exact .inr (hserving h.2)
    | release => exact .inl h.2.destroyed
  | count call =>
    cases call with
    | init => exact .inr (hserving h.2)
    | release => exact h.imp (fun hz => hz.2.destroyed) fun hm => hserving hm.2

omit [DecidableEq Q] [DecidableEq T] in
/-- `ShutDown` is set only while the worker is waited for. -/
theorem SessionInv.join_of_shutDown (h : x.SessionInv pc) (hpc : pc.locksCounter = true)
    (hflag : x.shutDown = true) :
    ∃ k, pc = .join k ∧ x.Current k ∧ (x.agent k).worker.isExited = false := by
  have hgone : ¬x.Gone := fun hg => by simp [hg.shutDown] at hflag
  have hserving : ¬∃ k, x.Serving k := fun ⟨k, hk⟩ => by simp [hk.shutDown] at hflag
  cases pc with
  | idle | lockCounter _ | isInitialized | get | inCall _ => cases hpc
  | check _ | unlockCounter _ _ =>
    rcases h with hz | hp
    · exact absurd hz.2 hgone
    · exact absurd hp.2 hserving
  | create => exact absurd h.2 hgone
  | storeShutDown k => exact absurd ⟨k, h.2⟩ hserving
  | join k => exact ⟨k, rfl, h.2.1, by simpa [hflag] using h.2.2.2⟩
  | assign k => simp [h.2.2.1] at hflag
  | destroy k => simp [h.2.2.2.1] at hflag
  | assignNull => simp [h.2.2] at hflag
  | lockInstance call | unlockInstance call =>
    cases call <;> first | exact absurd h.2 hgone | exact absurd h.2 hserving
  | count call =>
    cases call with
    | init => exact absurd h.2 hserving
    | release =>
      rcases h with hz | hm
      · exact absurd hz.2 hgone
      · exact absurd hm.2 hserving

end RuntimeSessions

variable {s : RuntimeState Q T M L}

omit [DecidableEq Q] [DecidableEq T] in
theorem RuntimeState.Inv.gone_or_current (h : Inv s) :
    (∀ k < s.created, s.destroyed k = true) ∨ ∃ k, s.Current k := by
  cases hmutex : s.referenceCounterMutex with
  | none =>
    have hsettled : s.SessionInv (.check .init) := h.settled hmutex
    exact hsettled.gone_or_current rfl
  | some t => exact (h.session t).gone_or_current ((h.counter t).mp hmutex)

/-- **At most one worker.** A worker that has not left `Execute` is the one of the last session,
which has not been deleted; and `ShutDown` is set only while a thread that owns both mutexes waits
for just that worker. -/
theorem one_worker (hr : (runtimeMachine T P init).Reachable Machine.always s) :
    (∀ k < s.created, (s.agent k).worker.isExited = false →
      k + 1 = s.created ∧ s.destroyed k = false) ∧
    (s.shutDown = true → ∃ t k, s.thread t = .join k ∧ s.referenceCounterMutex = some t ∧
      s.instanceMutex = some t ∧ k + 1 = s.created ∧ (s.agent k).worker.isExited = false) := by
  have h := inv_of_reachable hr
  constructor
  · intro k hk hworker
    have halive : s.destroyed k = false := by
      by_contra hd
      simp [(h.exited k (by simpa using hd)).2] at hworker
    rcases h.gone_or_current with hall | ⟨j, hj⟩
    · simp [hall k hk] at halive
    · exact ⟨hj.eq hk halive ▸ hj.last, halive⟩
  · intro hflag
    cases hmutex : s.referenceCounterMutex with
    | none =>
      rcases h.settled hmutex with ⟨-, hgone⟩ | ⟨-, k, hk⟩
      · simp [hgone.shutDown] at hflag
      · simp [hk.shutDown] at hflag
    | some t =>
      obtain ⟨k, hpc, hcurrent, hworker⟩ :=
        (h.session t).join_of_shutDown ((h.counter t).mp hmutex) hflag
      refine ⟨t, k, hpc, rfl, (h.lock t).mpr (by rw [hpc]; rfl), hcurrent.last, hworker⟩

/-- The last reference is being given back. -/
theorem one_worker_join : ∃ s : RuntimeState Unit Bool (Memory Unit) Job, s.shutDown = true ∧
    ∃ t k, s.thread t = .join k ∧ s.referenceCounterMutex = some t ∧
      s.instanceMutex = some t ∧ k + 1 = s.created ∧ (s.agent k).worker.isExited = false := by
  obtain ⟨s, hr, hp⟩ := Machine.exists_reachable_of_run (processMachine Bool Exec.config)
    Machine.always
    ([.call true .init] ++ Process.thread Process.memory true 8 ++ [.call true .release] ++
      Process.thread Process.memory true 4) (fun s => s.shutDown) Process.init_start
    (by decide +kernel)
  exact ⟨s, hp, (one_worker hr).2 hp⟩

/-! ## The agents of the sessions -/

section Agents

variable {ok : AgentState Q T M L → AgentAction Q T R E → Prop}

/-- What a session does meets `ok`. -/
def EachSession (ok : AgentState Q T M L → AgentAction Q T R E → Prop) (s : RuntimeState Q T M L) :
    RuntimeAction Q T {m : M // init m} R E → Prop
  | .request t a => ∀ k, s.thread t = .inCall (some k) → ok (s.session k) a
  | .agent k a => ok (s.session k) a
  | .call _ _ | .api _ | .leave _ | .thread _ _ => True

instance [∀ g a, Decidable (ok g a)] (s : RuntimeState Q T M L)
    (a : RuntimeAction Q T {m : M // init m} R E) : Decidable (EachSession ok s a) :=
  match a with
  | .request t a =>
    match h : s.thread t with
    | .inCall (some k) =>
      decidable_of_iff (ok (s.session k) a) (by simp [EachSession, h])
    | .inCall none => .isTrue (by simp [EachSession, h])
    | .idle | .lockCounter _ | .check _ | .lockInstance _ | .create | .assign _ | .storeShutDown _
    | .join _ | .destroy _ | .assignNull | .unlockInstance _ | .count _ | .unlockCounter _ _
    | .isInitialized | .get => .isTrue (by simp [EachSession, h])
  | .agent k a => inferInstanceAs (Decidable (ok (s.session k) a))
  | .call _ _ | .api _ | .leave _ | .thread _ _ => .isTrue trivial

namespace RuntimeState

variable {s' : RuntimeState Q T M L} {a : RuntimeAction Q T {m : M // init m} R E}

/-- The sessions that have not been deleted are runs of the agent. -/
def AgentRuns (P : Processor Q M L R E) (init : M → Prop)
    (ok : AgentState Q T M L → AgentAction Q T R E → Prop) (s : RuntimeState Q T M L) : Prop :=
  ∀ k < s.created, s.destroyed k = false → (agentMachine T P init).Reachable ok (s.session k)

omit [DecidableEq Q] [DecidableEq T] in
theorem Inv.alive_unique (h : Inv s) {j k : ℕ} (hj : j < s.created)
    (hjalive : s.destroyed j = false) (hk : k < s.created) (hkalive : s.destroyed k = false) :
    j = k := by
  rcases h.gone_or_current with hall | ⟨i, hi⟩
  · simp [hall j hj] at hjalive
  · exact (hi.eq hj hjalive).trans (hi.eq hk hkalive).symm

/-- Each step of an agent is one of its own. -/
theorem AgentRuns.agent_step (h : AgentRuns P init ok s) (hinv : Inv s) {k : ℕ}
    {a : AgentAction Q T R E} {g : AgentState Q T M L} (hk : k < s.created)
    (halive : s.destroyed k = false) (hok : ok (s.session k) a)
    (hs : (agentMachine T P init).step a (s.session k) = some g) :
    AgentRuns P init ok
      { s with agent := Function.update s.agent k g, shutDown := g.shutDown } := by
  intro j hj hjalive
  obtain rfl := hinv.alive_unique hj hjalive hk halive
  simp only [session, Function.update_self]
  exact (h j hj hjalive).step hok hs

theorem AgentRuns.thread_step (h : AgentRuns P init ok s) (hinv : Inv s)
    (hshut : ∀ g, ok g .shutDown) {t : T} {m : M} (hm : init m)
    (hs : threadStep t m s = some s') : AgentRuns P init ok s' := by
  have hses := hinv.session t
  have hmove := threadMove hs
  generalize s.thread t = pc at hses hmove
  cases hmove with
  | create =>
    intro j hj hjalive
    have hgone := hses.2
    obtain rfl | hlt : j = s.created ∨ j < s.created := by
      have hj' : j < s.created + 1 := hj
      omega
    · refine .init ?_
      simp [session, AgentState.start, agentMachine, hm, hgone.shutDown]
    · have hdead := hgone.destroyed j hlt
      exact absurd hjalive (by simp [hdead])
  | storeShutDown k =>
    intro j hj hjalive
    exact (h j hj hjalive).step (hshut _) rfl
  | destroy k =>
    intro j hj hjalive
    refine h j hj ?_
    by_cases heq : j = k
    · simp [heq] at hjalive
    · simpa [heq] using hjalive
  | count call => cases call <;> exact h
  | unlockCounter call ok => cases call <;> exact h
  | _ => exact h

theorem AgentRuns.step (h : AgentRuns P init ok s) (hinv : Inv s) (hshut : ∀ g, ok g .shutDown)
    (hok : EachSession ok s a) (hs : (runtimeMachine T P init).step a s = some s') :
    AgentRuns P init ok s' := by
  cases runtimeMove hs with
  | call t call => cases call <;> exact h
  | api | leave => exact h
  | thread t m _ hs => exact h.thread_step hinv hshut m.2 hs
  | request t k a g hin _ halive hg =>
    exact h.agent_step hinv (hinv.known t k hin) halive (hok k hin) hg
  | agent k a g _ hk halive hg => exact h.agent_step hinv hk halive hok hg

theorem agentRuns_of_reachable (hr : (runtimeMachine T P init).Reachable (EachSession ok) s)
    (hshut : ∀ g, ok g .shutDown) : AgentRuns P init ok s := by
  refine hr.induction (P := AgentRuns P init ok) ?_ ?_
  · rintro s ⟨-, -, -, -, hcreated, -⟩ k hk
    omega
  · intro s a s' hr hok hs ih
    exact ih.step (inv_of_reachable hr) hshut hok hs

end RuntimeState

/-- **Each session is a run of the agent**, from the agent's initial state, although all sessions
share `ShutDown`. What holds of every run of the agent whose steps meet a condition holds of every
session of a process if what the sessions do meets the condition. -/
theorem session_is_agent (hr : (runtimeMachine T P init).Reachable (EachSession ok) s)
    (hshut : ∀ g, ok g .shutDown) {k : ℕ} (hk : k < s.created) (halive : s.destroyed k = false) :
    (agentMachine T P init).Reachable ok (s.session k) :=
  agentRuns_of_reachable hr hshut k hk halive

end Agents

/-- The second session of a process; signals are delivered at safe spots only. -/
theorem session_is_agent_second : ∃ s : RuntimeState Unit Bool (Memory Unit) Job,
    s.destroyed 0 = true ∧
      (executeMachine Bool Exec.config).Reachable JumpsSafely (s.session 1) := by
  obtain ⟨s, hr, hp⟩ := Machine.exists_reachable_of_run (processMachine Bool Exec.config)
    (EachSession JumpsSafely)
    ([.call true .init] ++ Process.thread Process.memory true 8 ++ [.call true .release] ++
      Process.thread Process.memory true 4 ++ List.replicate 3 (.agent 0 (.worker Exec.reply)) ++
      Process.thread Process.memory true 6 ++ [.call false .init] ++
      Process.thread Process.memory false 8 ++ [.agent 1 (.worker Exec.reply)])
    (fun s => s.destroyed 0 && (s.created = 2 && s.destroyed 1 = false)) Process.init_start
    (by decide +kernel)
  simp only [Bool.and_eq_true, decide_eq_true_eq] at hp
  exact ⟨s, hp.1, session_is_agent hr (fun _ => trivial) (by simp [hp.2.1]) hp.2.2⟩

/-! ## No deadlock -/

/-- How many steps a thread has left at most in the code of the runtime. -/
def RuntimePc.left : RuntimePc → ℕ
  | .idle | .inCall _ => 0
  | .get | .unlockCounter _ _ => 1
  | .isInitialized | .count _ => 2
  | .unlockInstance _ => 3
  | .assign _ | .assignNull => 4
  | .create | .destroy _ => 5
  | .join _ => 6
  | .storeShutDown _ => 7
  | .lockInstance _ => 8
  | .check _ => 9
  | .lockCounter _ => 10

omit [DecidableEq Q] in
/-- A step of a thread in the code of the runtime brings it nearer to its end, and does not move
the other threads. -/
theorem left_thread_step {s' : RuntimeState Q T M L} {t : T} {m : M}
    (hs : threadStep t m s = some s') :
    (s'.thread t).left < (s.thread t).left ∧ ∀ u ≠ t, s'.thread u = s.thread u := by
  have hmove := threadMove hs
  generalize s.thread t = pc at hmove
  have hother : ∀ pc' : RuntimePc, ∀ u ≠ t, Function.update s.thread t pc' u = s.thread u :=
    fun _ u hu => Function.update_of_ne hu ..
  cases hmove with
  | lockInstance call hfree =>
    refine ⟨?_, hother _⟩
    rw [thread_goto, Function.update_self]
    cases call <;> cases s.runtime <;> simp [RuntimePc.underLock, RuntimePc.left]
  | count call => cases call <;> exact ⟨by simp [RuntimePc.left], hother _⟩
  | unlockCounter call ok => cases call <;> exact ⟨by simp [RuntimePc.left], hother _⟩
  | _ => exact ⟨by simp [RuntimePc.left], hother _⟩

omit [DecidableEq Q] in
/-- Only mutexes and `join` hold a thread up. -/
theorem threadStep_isSome {t : T} {m : M} (hleft : (s.thread t).left ≠ 0)
    (hcounter : ∀ call, s.thread t = .lockCounter call → s.referenceCounterMutex = none)
    (hlock : ∀ call, s.thread t = .lockInstance call → s.instanceMutex = none)
    (hjoin : ∀ k, s.thread t = .join k → (s.agent k).worker.isExited = true) :
    (threadStep t m s).isSome := by
  cases hpc : s.thread t with
  | idle | inCall _ => simp [hpc, RuntimePc.left] at hleft
  | lockCounter call => simp [threadStep, hpc, hcounter call hpc]
  | lockInstance call => simp [threadStep, hpc, hlock call hpc]
  | join k => simp [threadStep, hpc, hjoin k hpc]
  | check call =>
    cases call <;> simp only [threadStep, hpc] <;> split <;> first | rfl | (split <;> rfl)
  | _ => simp [threadStep, hpc]

/-- **No deadlock.** Whenever a thread is in the code of the runtime, that thread or the one it
waits for can take a step, which brings it nearer to the end of its call; or the one that it waits
for has told the worker of the last session to stop, and waits for it. -/
theorem call_progress (hr : (runtimeMachine T P init).Reachable Machine.always s) {t : T}
    (hcall : (s.thread t).left ≠ 0) (m : {m : M // init m}) :
    ∃ u, (u = t ∨ s.referenceCounterMutex = some u) ∧
      ((∃ s', (runtimeMachine T P init).step (.thread u m) s = some s' ∧
          (s'.thread u).left < (s.thread u).left ∧ ∀ v ≠ u, s'.thread v = s.thread v) ∨
        ∃ k, s.thread u = .join k ∧ k + 1 = s.created ∧ s.shutDown = true ∧
          (s.agent k).worker.isExited = false) := by
  have h := inv_of_reachable hr
  have hstep : ∀ u, (threadStep u m.1 s).isSome →
      ∃ s', (runtimeMachine T P init).step (.thread u m) s = some s' ∧
        (s'.thread u).left < (s.thread u).left ∧ ∀ v ≠ u, s'.thread v = s.thread v := by
    intro u hsome
    obtain ⟨s', hs⟩ := Option.isSome_iff_exists.mp hsome
    exact ⟨s', hs, left_thread_step hs⟩
  cases hmutex : s.referenceCounterMutex with
  | none =>
    -- nobody is in a section that the mutex guards: `t` is about to enter one, or needs none
    have hout := h.nobody hmutex t
    refine ⟨t, .inl rfl, .inl (hstep t (threadStep_isSome hcall (fun _ _ => hmutex) ?_ ?_))⟩
    · intro call hpc
      simp [hpc, RuntimePc.locksCounter] at hout
    · intro k hpc
      simp [hpc, RuntimePc.locksCounter] at hout
  | some u =>
    have hin := (h.counter u).mp hmutex
    have hleft : (s.thread u).left ≠ 0 := by
      cases hpc : s.thread u <;> simp_all [RuntimePc.locksCounter, RuntimePc.left]
    refine ⟨u, .inr rfl, ?_⟩
    by_cases hjoin : ∃ k, s.thread u = .join k ∧ (s.agent k).worker.isExited = false
    · obtain ⟨k, hpc, hworker⟩ := hjoin
      have hses := h.session u
      rw [hpc] at hses
      exact .inr ⟨k, hpc, hses.2.1.last, by simp [hses.2.2.2, hworker], hworker⟩
    · refine .inl (hstep u (threadStep_isSome hleft ?_ ?_ ?_))
      · intro call hpc
        simp [hpc, RuntimePc.locksCounter] at hin
      · intro call hpc
        exact h.lock_free (h.others hin) (by rw [hpc]; rfl)
      · intro k hpc
        by_contra hworker
        exact hjoin ⟨k, hpc, by simpa using hworker⟩

/-- A thread waits for a mutex that is owned by one that waits for the worker. -/
theorem call_progress_waiting : ∃ s : RuntimeState Unit Bool (Memory Unit) Job,
    s.thread false = .lockCounter .init ∧ ∃ u, (u = false ∨ s.referenceCounterMutex = some u) ∧
      ((∃ s', (processMachine Bool Exec.config).step (.thread u Process.memory) s = some s' ∧
          (s'.thread u).left < (s.thread u).left ∧ ∀ v ≠ u, s'.thread v = s.thread v) ∨
        ∃ k, s.thread u = .join k ∧ k + 1 = s.created ∧ s.shutDown = true ∧
          (s.agent k).worker.isExited = false) := by
  obtain ⟨s, hr, hp⟩ := Machine.exists_reachable_of_run (processMachine Bool Exec.config)
    Machine.always
    ([.call true .init] ++ Process.thread Process.memory true 8 ++ [.call true .release] ++
      Process.thread Process.memory true 4 ++ [.call false .init])
    (fun s => s.shutDown && s.thread false = .lockCounter .init) Process.init_start
    (by decide +kernel)
  simp only [Bool.and_eq_true, decide_eq_true_eq] at hp
  exact ⟨s, hp.2, call_progress hr (by simp [hp.2, RuntimePc.left]) Process.memory⟩

end PhsaRuntime
