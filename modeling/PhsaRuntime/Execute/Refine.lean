import PhsaRuntime.Agent.Interrupt
import PhsaRuntime.Execute
import PhsaRuntime.Scan.Safety

/-!
# Every queue of the worker is scanned by the scan machine

The worker with all its queues, seen from one queue, is the scan machine of that queue: the
worker comes to the queue, takes its steps, and is away at all other times. So every result
about the scan machine holds of each queue.

This breaks down only where a signal takes the worker away from the queue in the middle of
its scan, which happens to inactivated queues, and to others if the flag is not kept.

## Main results

* `scan_reachable` — the projection to one queue of a run.
* `scan_reachable_of_flagKept` — the same for every queue that is not inactivated, if the
  flag is kept.
-/

namespace PhsaRuntime

variable {Q C : Type} [DecidableEq Q] [DecidableEq C] {cfg : Q → Config} {q : Q}

/-- Where a worker is, as seen from the queue `q`. -/
def Worker.pcAt (q : Q) (w : Worker Q Job) : Pc :=
  match w.job with
  | some (q', job) => if q' = q then job.pc else .away
  | none => .away

/-- The queue `q` and the worker's position in it. -/
def scanState (q : Q) (s : ExecState Q C) : ScanState where
  queue := s.memory.queue q
  pc := s.worker.pcAt q

/-- The steps of the scan machine, with the step of the agent behind it. -/
inductive Projects (q : Q) : ExecAction Q C → ScanAction → Prop
  | producer (p : Queue.ProducerAction) :
      Projects q (.environment (.producer q p)) (.producer p)
  | enter (r : Reply) : Projects q (.worker r) .enter
  | worker (r : Reply) (env : Env) : Projects q (.worker r) (.worker env)

@[simp] theorem Worker.pcAt_process (q' : Q) (rest : List Q) (job : Job) :
    (Worker.process q' rest job).pcAt q = if q' = q then job.pc else .away := rfl

@[simp] theorem Worker.pcAt_landing : (Worker.landing : Worker Q Job).pcAt q = .away := rfl

theorem Worker.pcAt_of_job {w : Worker Q Job} (h : w.job = none) : w.pcAt q = .away := by
  simp only [pcAt, h]

/-- The position after a step of the scan of `q` is the one the scan machine has. -/
theorem pcAt_resume_self (queue : Queue) (rest : List Q) (job : Job) (pc' : Pc) :
    (Agent.resume q rest (jobAfter queue job pc')).pcAt q = pc' := by
  cases pc' <;> simp [jobAfter, Job.goto, Agent.resume, Worker.pcAt, Worker.job]

theorem pcAt_resume_of_ne {q' : Q} (hne : q' ≠ q) (rest : List Q) (p : Progress Job) :
    (Agent.resume q' rest p).pcAt q = .away := by
  cases p <;> simp [Agent.resume, Worker.pcAt, Worker.job, hne]

omit [DecidableEq C] in
theorem scan_work {r : Reply} {q' : Q} {rest : List Q} {job : Job} {m : Memory Q}
    {p : Progress Job} {s : ExecState Q C} (hw : s.worker = .process q' rest job)
    (hp : (processor cfg).work r q' job s.memory = some (m, p)) :
    (⟨m.queue q, (Agent.resume q' rest p).pcAt q⟩ : ScanState) = scanState q s ∨
      ∃ env, (scanMachine (cfg q)).step (.worker env) (scanState q s) =
        some ⟨m.queue q, (Agent.resume q' rest p).pcAt q⟩ := by
  by_cases hq : q' = q
  · subst hq
    have hstate : scanState q' s = ⟨s.memory.queue q', job.pc⟩ := by
      simp [scanState, hw]
    rw [hstate]
    cases jobMove hp with
    | op op ops closing pc locks happly =>
      left
      simp [Agent.resume]
    | scan closing pc pc' queue hstep =>
      right
      refine ⟨s.memory.env r, ?_⟩
      rw [pcAt_resume_self]
      simp only [scanMachine, hstep, Option.map_some, Function.update_self]
  · left
    have hstate : scanState q s = ⟨s.memory.queue q, .away⟩ := by
      simp [scanState, hw, hq]
    rw [hstate, pcAt_resume_of_ne hq]
    cases jobMove hp with
    | op => rfl
    | scan closing pc pc' queue hstep => simp only [Function.update_of_ne (Ne.symm hq)]

/-- **A step of the agent, seen from one queue**: a step of the scan machine or none. -/
theorem scan_step {a : ExecAction Q C} {s s' : ExecState Q C}
    (hs : (executeMachine C cfg).step a s = some s')
    (hdeliver : a = .deliver → s.worker.pcAt q = .away) :
    scanState q s' = scanState q s ∨ ∃ b, Projects q a b ∧
      (scanMachine (cfg q)).step b (scanState q s) = some (scanState q s') := by
  have hmove := memoryMove hs
  change (⟨s'.memory.queue q, s'.worker.pcAt q⟩ : ScanState) = _ ∨ ∃ b, _ ∧
    _ = some (⟨s'.memory.queue q, s'.worker.pcAt q⟩ : ScanState)
  generalize s'.memory = m' at hmove
  generalize s'.worker = w' at hmove
  cases hmove with
  | work r q' rest job _ p hw hp =>
    rcases scan_work (q := q) hw hp with heq | ⟨env, henv⟩
    · exact .inl heq
    · exact .inr ⟨.worker env, .worker r env, henv⟩
  | control r w hold hnew =>
    have haway : s.worker.pcAt q = .away := Worker.pcAt_of_job hold
    rcases hnew with hnew | ⟨q', rest, -, rfl⟩
    · left
      simp only [scanState, haway, Worker.pcAt_of_job hnew]
    · by_cases hq : q' = q
      · right
        refine ⟨.enter, .enter r, ?_⟩
        simp [scanMachine, scanState, haway, hq, processor]
      · left
        simp [scanState, haway, hq]
  | deliver halive =>
    left
    simp only [scanState, hdeliver rfl, Worker.pcAt_landing]
  | environment e m he =>
    rcases (externalMove he).queue_cases q with heq | ⟨p, rfl, hqueue⟩
    · left
      simp only [scanState, heq]
    · right
      refine ⟨.producer p, .producer p, ?_⟩
      simp only [scanMachine, scanState, hqueue, Option.map_some]
  | other => exact .inl rfl

/-- `Inactivated` is never reset. -/
theorem inactivated_mono {a : ExecAction Q C} {s s' : ExecState Q C}
    (hs : (executeMachine C cfg).step a s = some s') (hin : s'.inactivated q = false) :
    s.inactivated q = false := by
  cases agentMove hs with
  | worker r _ hs => rwa [(workerEffect hs).inactivated] at hin
  | client c _ hs =>
    cases clientMove hs with
    | inactivate q' hc =>
      change Function.update s.inactivated q' true q = false at hin
      rw [Function.update_apply] at hin
      split at hin
      · cases hin
      · exact hin
    | finish | refuse | accept | interrupt | hit | miss | kill | stay | leave => exact hin
  | call | deliver | other => exact hin

/-- **Every queue is scanned by the scan machine**, as long as the worker is not taken away
in the middle of its scan. -/
theorem scan_reachable {ok : ExecState Q C → ExecAction Q C → Prop}
    {okN : ScanState → ScanAction → Prop}
    (hdeliver : ∀ s s', (executeMachine C cfg).Reachable ok s → ok s .deliver →
      (executeMachine C cfg).step .deliver s = some s' → s.inactivated q = false →
      s.worker.pcAt q = .away)
    (hok : ∀ s a b, ok s a → Projects q a b → okN (scanState q s) b)
    {s : ExecState Q C} (h : (executeMachine C cfg).Reachable ok s)
    (hin : s.inactivated q = false) : (scanMachine (cfg q)).Reachable okN (scanState q s) := by
  refine h.simulate (scanState q) (fun s => s.inactivated q = false) ?_ ?_ ?_ hin
  · rintro s ⟨⟨hqueue, -⟩, -, -, -, -, -, -, hw, -⟩
    refine ⟨hqueue q, ?_⟩
    simp only [scanState, hw, Worker.pcAt_landing]
  · intro s a s' hs hin'
    exact inactivated_mono hs hin'
  · intro s a s' hr ha hs hin
    have haway : a = .deliver → s.worker.pcAt q = .away := by
      intro heq
      subst heq
      exact hdeliver s s' hr ha hs hin
    rcases scan_step hs haway with heq | ⟨b, hb, hstep⟩
    · exact .inl heq
    · exact .inr ⟨b, hok s a b ha hb, hstep⟩

/-- If the flag is kept, only inactivated queues are left in the middle of their scan. -/
theorem scan_reachable_of_flagKept {s : ExecState Q C}
    (h : (executeMachine C cfg).Reachable FlagKept s) (hin : s.inactivated q = false) :
    (scanMachine (cfg q)).Reachable Machine.always (scanState q s) := by
  refine scan_reachable ?_ (fun _ _ _ _ _ => trivial) h hin
  intro t t' ht _ hs hact
  obtain ⟨p, hp⟩ := List.exists_mem_of_ne_nil _ (deliver_eq hs).1
  cases hw : t.worker with
  | process q' rest job =>
    rw [Worker.pcAt_process, if_neg]
    rintro rfl
    have hin := (processed_of_pending ht hp hw).2
    rw [hact] at hin
    cases hin
  | dead q' job => simp [executeMachine, agentMachine, Agent.deliver, hw] at hs
  | landing | landingFlag | head | getQueues | pass _ | next _ | test _ _ | wait
  | checkInactivated _ _ | checkDestroyed _ _ | exited => rfl

/-- **The whole worker is safe**: every queue that is not inactivated has the memory safety
and the exactly-once processing of a queue that is scanned alone. -/
theorem execute_safe {s : ExecState Q C}
    (h : (executeMachine C cfg).Reachable FlagKept s) (hin : s.inactivated q = false) :
    QueueSafe (cfg q) (scanState q s) :=
  (scanInv_of_reachable (scan_reachable_of_flagKept h hin)).queueSafe

/-- Two queues, one of which is inactivated in the middle of its scan: the other is safe. -/
theorem execute_safe_interrupted : ∃ s : ExecState Bool Unit,
    (s.memory.queue false).history.processed = [0] ∧ s.inactivated true = true ∧
      s.returned = [true] ∧ QueueSafe (Exec.config false) (scanState false s) := by
  obtain ⟨s, hs, hp⟩ := Machine.exists_reachable_of_run
    (executeMachine Unit Exec.config) FlagKept
    ([.register true, .register false] ++ Exec.submit true 0 Scan.emptyPacket ++
      Exec.submit false 0 Scan.emptyPacket ++ Exec.work 18 ++ [.call () true] ++
      Exec.client () 5 ++ [.deliver] ++ Exec.work 1 ++ Exec.client () 2 ++ Exec.work 30)
    (fun s => (s.memory.queue false).history.processed = [0] && s.inactivated true &&
      s.returned = [true] && s.inactivated false = false)
    (Exec.init_start _ fun _ => none) (by decide +kernel)
  simp only [Bool.and_eq_true, decide_eq_true_eq] at hp
  obtain ⟨⟨⟨hprocessed, hin⟩, hreturned⟩, hactive⟩ := hp
  exact ⟨s, hprocessed, hin, hreturned, execute_safe hs hactive⟩

end PhsaRuntime
