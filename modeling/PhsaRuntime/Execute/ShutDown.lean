import PhsaRuntime.Runtime
import PhsaRuntime.Execute.PassBound

/-!
# The worker leaves after `ShutDown`

Once `ShutDown` is set and no client is in a call, what is left for the worker is the rest of its
pass, with at most one more signal that was sent before. A signal sends it to the landing spot,
from where it comes to the head of a pass, and there it leaves.

## Main results

* `passFree_of_reachable` — what the worker owns in a pass, if signals are delivered at safe spots.
* `LeaveInv.step` — each step of the worker brings it nearer to its end.
-/

namespace PhsaRuntime

open Machine Queue

variable {Q C : Type} [DecidableEq Q] [DecidableEq C] {cfg : Q → Config} {s s' : ExecState Q C}
  {a : ExecAction Q C}

/-! ## What the worker owns in a pass -/

/-- The worker can always finish its pass, if signals are delivered at safe spots. -/
theorem passFree_of_reachable (hr : (executeMachine C cfg).Reachable JumpsSafely s)
    (hin : s.worker.inPass = true) : PassFree [] cfg s.memory s.worker := by
  revert hin
  refine hr.induction (P := fun s => s.worker.inPass = true →
    PassFree [] cfg s.memory s.worker) ?_ ?_
  · rintro s ⟨-, -, -, -, -, -, -, hw, -⟩
    simp [hw, Worker.inPass]
  · intro s a s' hr _ hs ih hin'
    cases hdeliver : isDeliver a with
    | true =>
      cases a with
      | deliver =>
        obtain ⟨-, rfl⟩ := deliver_eq hs
        simp [Worker.inPass] at hin'
      | _ => cases hdeliver
    | false =>
      cases hworker : isWorker a with
      | false =>
        obtain ⟨hw', hlocks⟩ := others_step hdeliver hworker hs
        exact (ih (hw' ▸ hin')).others hw' hlocks
      | true =>
        cases a with
        | worker r =>
          have hring := ringInv_of_reachable (hr.mono fun _ _ _ => trivial)
          by_cases hin : s.worker.inPass = true
          · exact (passLeft_workerStep hring (by simp) hin (ih hin) hs).2 hin'
          · -- a pass begins, where nothing is owned
            have howned := (ownInv_of_reachable hr).between
            cases hw : s.worker with
            | getQueues =>
              simp only [executeMachine, agentMachine, Agent.workerStep, hw,
                Option.some.injEq] at hs
              subst hs
              exact (howned (by rw [hw]; rfl)).locks
            | head =>
              simp only [executeMachine, agentMachine, Agent.workerStep, hw] at hs
              split at hs <;> cases hs <;> cases hin'
            | landing | landingFlag =>
              simp only [executeMachine, agentMachine, Agent.workerStep, hw,
                Option.some.injEq] at hs
              subst hs
              cases hin'
            | wait | exited | dead _ _ =>
              simp only [executeMachine, agentMachine, Agent.workerStep, hw, reduceCtorEq] at hs
            | pass _ | next _ | test _ _ | checkInactivated _ _ | checkDestroyed _ _
            | process _ _ _ => simp [hw, Worker.inPass] at hin
        | _ => cases hworker

/-! ## The flag of the clients -/

section Flag

variable {M L R E : Type} {P : Processor Q M L R E} {init : M → Prop}
  {ok : AgentState Q C M L → AgentAction Q C R E → Prop} {g g' : AgentState Q C M L}

/-- The client has set `InterruptingTheQueue` in its call. -/
def Client.hasSet : Client Q → Bool
  | .compare _ | .kill _ | .spin _ | .reset _ _ => true
  | .idle | .checkDestroyed _ | .storeInactivated _ | .storeInterrupting _ => false

/-- `InterruptingTheQueue` is set by clients that are still in their calls. -/
structure InterruptingInv (g : AgentState Q C M L) : Prop where
  setters : g.interruptingTheQueue = true → g.setters ≠ []
  client : ∀ c ∈ g.setters, (g.client c).hasSet = true

theorem InterruptingInv.setClient (h : InterruptingInv g) {c : C} {pc : Client Q}
    (hpc : pc.hasSet = (g.client c).hasSet) : InterruptingInv (Agent.setClient g c pc) := by
  refine ⟨h.setters, fun c' hc' => ?_⟩
  rw [client_setClient]
  split
  · rename_i heq
    rw [hpc]
    exact h.client c (heq ▸ hc')
  · exact h.client c' hc'

theorem InterruptingInv.clientStep {c : C} (h : InterruptingInv g)
    (hs : Agent.clientStep c g = some g') :
    InterruptingInv g' := by
  cases clientMove hs with
  | refuse q hc | accept q hc | hit q hc hr | miss q hc hr | stay q hc | leave q hc hr =>
    exact h.setClient (by simp [hc, Client.hasSet])
  | inactivate q hc =>
    have h' : InterruptingInv { g with inactivated := Function.update g.inactivated q true } :=
      ⟨h.setters, h.client⟩
    exact h'.setClient (by simp only [hc]; rfl)
  | kill q hc =>
    have h' : InterruptingInv { g with pending := (c, q) :: g.pending } := ⟨h.setters, h.client⟩
    exact h'.setClient (by simp only [hc]; rfl)
  | interrupt q hc =>
    refine ⟨fun _ => List.cons_ne_nil _ _, fun c' hc' => ?_⟩
    rw [client_setClient]
    split
    · rfl
    · rename_i hne
      exact h.client c' ((List.mem_cons.mp hc').resolve_left hne)
  | finish q found hc => exact ⟨by simp [Agent.setClient], by simp [Agent.setClient]⟩

theorem interruptingInv_of_reachable (hr : (agentMachine C P init).Reachable ok g) :
    InterruptingInv g := by
  refine hr.induction (P := InterruptingInv) ?_ ?_
  · rintro g ⟨-, -, -, hflag, -, -, -, -, -, -, hset, -⟩
    exact ⟨by simp [hflag], by simp [hset]⟩
  · intro g a g' _ _ hs ih
    cases a with
    | call c q =>
      simp only [agentMachine, Option.ite_none_right_eq_some, Option.some.injEq] at hs
      obtain ⟨⟨hidle, -⟩, rfl⟩ := hs
      exact ih.setClient (by rw [hidle]; rfl)
    | worker r =>
      have heffect := workerEffect hs
      rcases heffect.flag with ⟨hflag, hset⟩ | ⟨-, hflag, hset⟩
      · exact ⟨by rw [hflag, hset]; exact ih.setters, by rw [heffect.client, hset]; exact ih.client⟩
      · exact ⟨by simp [hflag], by simp [hset]⟩
    | client c => exact ih.clientStep hs
    | deliver =>
      obtain ⟨-, rfl⟩ := deliver_eq hs
      exact ⟨ih.setters, ih.client⟩
    | register _ | destroy _ | shutDown | environment _ =>
      cases agentMove hs
      exact ⟨ih.setters, ih.client⟩

omit [DecidableEq Q] [DecidableEq C] in
/-- While nobody is in `hsa_queue_inactivate`, the flag is not set. -/
theorem InterruptingInv.interrupting (h : InterruptingInv g) (hidle : ∀ c, g.client c = .idle) :
    g.interruptingTheQueue = false := by
  by_contra hflag
  obtain ⟨c, hc⟩ := List.exists_mem_of_ne_nil _ (h.setters (by simpa using hflag))
  have hset := h.client c hc
  simp [hidle c, Client.hasSet] at hset

end Flag

/-! ## The way out -/

/-- How many steps the worker has left at most, without a signal. -/
def Worker.exitLeft (cfg : Q → Config) (queues : List Q) : Worker Q Job → ℕ
  | .landing => 3
  | .landingFlag => 2
  | .head => 1
  | .getQueues => passBound cfg queues + 2
  | .wait | .exited | .dead _ _ => 0
  | .pass qs => (Worker.pass qs).passLeft cfg + 1
  | .next rest => (Worker.next rest).passLeft cfg + 1
  | .test q rest => (Worker.test q rest).passLeft cfg + 1
  | .checkInactivated q rest => (Worker.checkInactivated q rest).passLeft cfg + 1
  | .checkDestroyed q rest => (Worker.checkDestroyed q rest).passLeft cfg + 1
  | .process q rest job => (Worker.process q rest job).passLeft cfg + 1

/-- The same, with the signals that have been sent. -/
def exitLeft (cfg : Q → Config) (s : ExecState Q C) : ℕ :=
  s.worker.exitLeft cfg s.queues + if s.pending.isEmpty then 0 else 3

/-- `ShutDown` is set, and nobody is in a call. -/
structure LeaveInv (cfg : Q → Config) (s : ExecState Q C) : Prop where
  flag : s.shutDown = true
  interrupting : s.interruptingTheQueue = false
  client : ∀ c, s.client c = .idle
  waiting : s.worker.waiting = false
  owned : s.worker = .getQueues → s.memory.locks = []
  free : s.worker.inPass = true → PassFree [] cfg s.memory s.worker

omit [DecidableEq Q] in
theorem exitLeft_of_inPass {queues : List Q} {w : Worker Q Job} (h : w.inPass = true) :
    w.exitLeft cfg queues = w.passLeft cfg + 1 := by
  cases w <;> first | rfl | cases h

omit [DecidableEq C] in
/-- From a pass the worker comes to the head of the next one. -/
theorem inPass_workerStep {r : Reply} (hin : s.worker.inPass = true)
    (hs : Agent.workerStep (processor cfg) r s = some s') :
    s'.shutDown = s.shutDown ∧ (s'.worker.inPass = true ∨ s'.worker = .head ∨
      s'.worker.waiting = true ∨ ∃ q job, s'.worker = .dead q job) := by
  cases hw : s.worker with
  | process q rest job =>
    simp only [Agent.workerStep, hw] at hs
    obtain ⟨⟨m, p⟩, -, rfl⟩ := Option.map_eq_some_iff.mp hs
    cases p <;> simp [Agent.resume, Worker.inPass]
  | pass queues =>
    simp only [Agent.workerStep, hw, Option.some.injEq] at hs
    subst hs
    exact ⟨rfl, .inl rfl⟩
  | next queues =>
    cases queues <;> simp only [Agent.workerStep, hw, Option.some.injEq] at hs <;> subst hs <;>
      simp [Worker.inPass]
  | test q rest | checkInactivated q rest | checkDestroyed q rest =>
    simp only [Agent.workerStep, hw] at hs
    split at hs <;> cases hs <;> simp [Worker.inPass, Worker.waiting]
  | landing | landingFlag | head | getQueues | wait | exited | dead _ _ =>
    simp [hw, Worker.inPass] at hin

/-- In a pass, nobody but the worker changes the flags, and the pass has an end. -/
theorem LeaveInv.pass_step {r : Reply} (h : LeaveInv cfg s)
    (hr : (executeMachine C cfg).Reachable always s) (hin : s.worker.inPass = true)
    (hinterrupting : s'.interruptingTheQueue = false) (hclient : ∀ c, s'.client c = .idle)
    (hwaiting : s'.worker.waiting = false)
    (hs : (executeMachine C cfg).step (.worker r) s = some s') :
    LeaveInv cfg s' ∧ s'.worker.exitLeft cfg s.queues + 1 ≤ s.worker.exitLeft cfg s.queues := by
  obtain ⟨hlt, hfree⟩ :=
    passLeft_workerStep (ringInv_of_reachable hr) (by simp) hin (h.free hin) hs
  obtain ⟨hflag, hto⟩ := inPass_workerStep hin hs
  have hnot : s'.worker ≠ .getQueues := by
    intro hw
    simp [hw, Worker.inPass, Worker.waiting] at hto
  refine ⟨⟨hflag.trans h.flag, hinterrupting, hclient, hwaiting, fun hw => absurd hw hnot,
    hfree⟩, ?_⟩
  rw [exitLeft_of_inPass hin]
  rcases hto with hin' | hhead | hwait | ⟨q, job, hdead⟩
  · rw [exitLeft_of_inPass hin']
    omega
  · simp only [hhead, Worker.exitLeft]
    omega
  · simp [hwaiting] at hwait
  · simp only [hdead, Worker.exitLeft]
    omega

/-- The worker finds its flag at the head of a pass, and leaves. -/
theorem LeaveInv.workerStep {r : Reply} (h : LeaveInv cfg s)
    (hr : (executeMachine C cfg).Reachable always s)
    (hs : (executeMachine C cfg).step (.worker r) s = some s') :
    (s'.worker.isExited = true ∨ LeaveInv cfg s') ∧
      s'.worker.exitLeft cfg s.queues + 1 ≤ s.worker.exitLeft cfg s.queues := by
  have heffect := workerEffect hs
  have hwaiting : s'.worker.waiting = false := by
    by_contra hw
    have hflag := (heffect.waiting (by simpa using hw)).1
    simp [h.interrupting] at hflag
  have hinterrupting : s'.interruptingTheQueue = false := by
    rcases heffect.flag with ⟨hsame, -⟩ | ⟨-, hreset, -⟩
    · exact hsame.trans h.interrupting
    · exact hreset
  have hclient : ∀ c, s'.client c = .idle := fun c => heffect.client ▸ h.client c
  by_cases hin : s.worker.inPass = true
  · obtain ⟨hleave, hlt⟩ := h.pass_step hr hin hinterrupting hclient hwaiting hs
    exact ⟨.inr hleave, hlt⟩
  · cases hw : s.worker with
    | landing =>
      simp only [executeMachine, agentMachine, Agent.workerStep, hw, Option.some.injEq] at hs
      subst hs
      exact ⟨.inr ⟨h.flag, hinterrupting, hclient, rfl, by simp, by simp [Worker.inPass]⟩, by
        simp only [Worker.exitLeft]; omega⟩
    | landingFlag =>
      simp only [executeMachine, agentMachine, Agent.workerStep, hw, Option.some.injEq] at hs
      subst hs
      exact ⟨.inr ⟨h.flag, hinterrupting, hclient, rfl, by simp, by simp [Worker.inPass]⟩, by
        simp only [Worker.exitLeft]; omega⟩
    | head =>
      simp only [executeMachine, agentMachine, Agent.workerStep, hw, h.flag, if_true,
        Option.some.injEq] at hs
      subst hs
      exact ⟨.inl rfl, by simp only [Worker.exitLeft]; omega⟩
    | getQueues =>
      simp only [executeMachine, agentMachine, Agent.workerStep, hw, Option.some.injEq] at hs
      subst hs
      exact ⟨.inr ⟨h.flag, hinterrupting, hclient, rfl, by simp, fun _ => h.owned hw⟩, by
        simp only [Worker.exitLeft, Worker.passLeft]; omega⟩
    | wait | exited | dead _ _ =>
      simp only [executeMachine, agentMachine, Agent.workerStep, hw, reduceCtorEq] at hs
    | pass _ | next _ | test _ _ | checkInactivated _ _ | checkDestroyed _ _ | process _ _ _ =>
      simp [hw, Worker.inPass] at hin

/-- **Each step brings the worker nearer to its end**, unless it is one of others. -/
theorem LeaveInv.step (h : LeaveInv cfg s) (hr : (executeMachine C cfg).Reachable always s)
    (ha : a.isOwn = true) (hs : (executeMachine C cfg).step a s = some s') :
    (s'.worker.isExited = true ∨ LeaveInv cfg s') ∧
      exitLeft cfg s' + (if isWorker a then 1 else 0) ≤ exitLeft cfg s := by
  cases a with
  | worker r =>
    have heffect := workerEffect hs
    have hqueues := (ahead_workerStep hs).1
    obtain ⟨hleave, hlt⟩ := h.workerStep hr hs
    refine ⟨hleave, ?_⟩
    simp only [exitLeft, isWorker, if_true, heffect.pending, hqueues]
    omega
  | deliver =>
    obtain ⟨hpending, rfl⟩ := deliver_eq hs
    refine ⟨.inr ⟨h.flag, h.interrupting, h.client, rfl, by simp, by simp [Worker.inPass]⟩, ?_⟩
    have hsome : s.pending.isEmpty = false := by simpa using hpending
    simp [exitLeft, Worker.exitLeft, isWorker, hsome]
  | environment e =>
    obtain ⟨hw, hlocks⟩ := others_step rfl rfl hs
    obtain ⟨m, -, rfl⟩ := Option.map_eq_some_iff.mp hs
    refine ⟨.inr ⟨h.flag, h.interrupting, h.client, h.waiting, fun hget => ?_, fun hin => ?_⟩, by
      simp [exitLeft, isWorker]⟩
    · exact hlocks.trans (h.owned hget)
    · exact (h.free hin).others hw hlocks
  | call _ _ | client _ | register _ | destroy _ | shutDown => cases ha

/-- The worker is never held up on its way. -/
theorem LeaveInv.enabled (h : LeaveInv cfg s) (hexited : s.worker.isExited = false)
    (hdead : ∀ q job, s.worker ≠ .dead q job) (r : Reply) :
    ((executeMachine C cfg).step (.worker r) s).isSome := by
  by_cases hin : s.worker.inPass = true
  · exact (h.free hin).enabled hin r
  · have hwaiting := h.waiting
    simp only [executeMachine, agentMachine, Agent.workerStep]
    cases hw : s.worker with
    | landing | landingFlag | getQueues => rfl
    | head => simp [h.flag]
    | wait => simp [hw, Worker.waiting] at hwaiting
    | exited => simp [hw, Worker.isExited] at hexited
    | dead q job => exact absurd hw (hdead q job)
    | pass _ | next _ | test _ _ | checkInactivated _ _ | checkDestroyed _ _ | process _ _ _ =>
      simp [hw, Worker.inPass] at hin

/-- When `ShutDown` is set and nobody is in a call, the worker is on its way out. -/
theorem leaveInv_of_reachable (hr : (executeMachine C cfg).Reachable JumpsSafely s)
    (hflag : s.shutDown = true) (hidle : ∀ c, s.client c = .idle)
    (hwaiting : s.worker.waiting = false) : LeaveInv cfg s where
  flag := hflag
  interrupting := (interruptingInv_of_reachable hr).interrupting hidle
  client := hidle
  waiting := hwaiting
  owned hw := ((ownInv_of_reachable hr).between (by rw [hw]; rfl)).locks
  free := passFree_of_reachable hr

end PhsaRuntime
