import PhsaRuntime.Agent.Pass
import PhsaRuntime.Execute.Packet

/-!
# How long a pass takes

A pass over the queues, from the store of `nullptr` to `RunningQueue` to the head of the next
pass, takes a number of steps of the worker that is known at its beginning. Producers may reserve
and publish packets all the time: the bounds of the packet loop are loaded once, and a packet is
looked at once in a scan.

The measure counts the steps of the scan by the iterations that the loop has left (`Frame.todo`),
and each step of the scan with the mutex operations around it.

## Main results

* `scanLeft_workerStep` — every step of the scan brings it nearer to its end.
* `pass_ends` — the bound, and that the worker is never held up in a pass.
-/

namespace PhsaRuntime

open Machine Queue

variable {Q C : Type}

/-! ## The measure of a scan -/

/-- The iterations that the packet loop has left. -/
def Frame.todo (f : Frame) : ℕ := min (f.lastIndex + 1) f.currentWriteIndex - f.currentIndex

/-- The packet loop of a queue has no more iterations: one for each slot of a MULTI queue and one
for the packet that `LastIndex` is. The distance to the doorbell of a SINGLE queue, and a size
that is no `int`, are any 64-bit numbers. -/
def loopBound (cfg : Config) : ℕ :=
  if cfg.type = .multi ∧ cfg.size < 2 ^ 31 then cfg.size + 1 else 2 ^ 64

/-- How many steps of the scan are left at most. An iteration is at most ten of them: its head,
the five dependencies of a barrier and the end of their loop, and three for the retirement. -/
def Pc.scanLeft (cfg : Config) : Pc → ℕ
  | .away | .halted _ => 0
  | .sample => 10 * loopBound cfg + 4
  | .loadReadIndex => 10 * loopBound cfg + 3
  | .loadWriteIndex _ => 10 * loopBound cfg + 2
  | .head f => 10 * f.todo + 1
  | .advance f _ => 10 * f.next.todo + 2
  | .barrier _ f _ i => 10 * f.next.todo + (5 - i) + 5
  | .dispatch f _ => 10 * f.next.todo + 8
  | .launch f _ _ _ => 10 * f.next.todo + 7
  | .running f _ _ _ _ => 10 * f.next.todo + 6
  | .freeGroup f _ _ _ => 10 * f.next.todo + 5
  | .retire f _ _ => 10 * f.next.todo + 4
  | .retired f _ _ => 10 * f.next.todo + 3
  | .complete f _ => 10 * f.next.todo + 2

theorem Frame.todo_next {f : Frame} (hle : f.currentIndex ≤ f.lastIndex)
    (hlt : f.currentIndex < f.currentWriteIndex) : f.todo = f.next.todo + 1 := by
  simp only [todo, next]
  omega

@[simp] theorem Frame.todo_next_advance (f : Frame) : f.advance.next.todo = f.next.todo := rfl

theorem lastIndex_le_of_multi {cfg : Config} (htype : cfg.type = .multi)
    (hsize : cfg.size < 2 ^ 31) (doorBell : ℤ) (r : ℕ) :
    lastIndex cfg doorBell r ≤ r + cfg.size := by
  simp only [lastIndex, packetsToCheck, htype, Word.toInt32_of_lt hsize, Word.toUInt64]
  omega

/-- The loop starts with no more iterations than the bound. -/
theorem todo_le_loopBound (cfg : Config) (doorBell : ℤ) (r currentReadIndex : ℕ)
    {currentWriteIndex : ℕ} (hwrite : currentWriteIndex < 2 ^ 64) :
    Frame.todo ⟨currentReadIndex, currentWriteIndex, lastIndex cfg doorBell r, r⟩ ≤
      loopBound cfg := by
  unfold loopBound
  simp only [Frame.todo]
  split
  · rename_i hmulti
    have hle := lastIndex_le_of_multi hmulti.1 hmulti.2 doorBell r
    omega
  · omega

variable {cfg : Config} {env : Env} {x x' : Queue} {f : Frame} {slot : ℕ} {pc pc' : Pc}

theorem scanLeft_examine (x : Queue) (f : Frame) :
    (examine cfg x f).scanLeft cfg < (Pc.head f).scanLeft cfg := by
  have hex := examined cfg x f
  generalize examine cfg x f = pc at hex ⊢
  cases hex with
  | exit | badIndex | unknown => simp [Pc.scanLeft]
  | freed hle hlt | passed hle hlt | barrier _ hle hlt | dispatch hle hlt =>
    have htodo := Frame.todo_next hle hlt
    simp only [Pc.scanLeft]
    omega

theorem scanLeft_settle (kind : Barrier) (i : ℕ) (ok : Bool) :
    (settle env x f slot ok).2.scanLeft cfg < (Pc.barrier kind f slot i).scanLeft cfg := by
  cases ok <;> simp only [settle, Pc.scanLeft] <;> omega

/-- **Every step of the scan brings it nearer to its end.** -/
theorem scanLeft_workerStep (hring : x.RingInv cfg)
    (hs : workerStep cfg env x pc = some (x', pc')) : pc'.scanLeft cfg < pc.scanLeft cfg := by
  cases pc with
  | away | halted => cases hs
  | sample =>
    simp only [workerStep] at hs
    split at hs <;> cases hs
    · exact Nat.succ_pos _
    · exact Nat.lt_succ_self _
  | loadWriteIndex r =>
    cases hs
    have hbound := todo_le_loopBound cfg x.lastHandledDoorBell r r hring.write_lt
    simp only [Pc.scanLeft]
    omega
  | head f =>
    cases hs
    exact scanLeft_examine x f
  | barrier kind f slot i =>
    cases evaluated_step hs with
    | null hi | undecided hi =>
      simp only [Pc.scanLeft]
      omega
    | dead => simp [Pc.scanLeft]
    | decided | exhausted => exact scanLeft_settle kind i _
  | launch f slot completion groupMemory =>
    cases launchMove_step hs with
    | aligned | moved | callback | aborted => simp [Pc.scanLeft]
  | retired f slot completion =>
    simp only [workerStep] at hs
    split at hs <;> cases hs <;> simp [Pc.scanLeft]
  | loadReadIndex | advance | dispatch | running | freeGroup | retire | complete =>
    cases hs
    simp [Pc.scanLeft]

theorem workerStep_isSome_of_left (h : pc.scanLeft cfg ≠ 0) :
    (workerStep cfg env x pc).isSome := by
  cases pc with
  | away | halted => simp [Pc.scanLeft] at h
  | sample | retired =>
    simp only [workerStep]
    split <;> rfl
  | _ => rfl

/-! ## The measure of a pass -/

/-- From the beginning of a pass to the head of the next one. -/
def Worker.inPass {L : Type} : Worker Q L → Bool
  | .pass _ | .next _ | .test _ _ | .checkInactivated _ _ | .checkDestroyed _ _
  | .process _ _ _ => true
  | .landing | .landingFlag | .head | .getQueues | .wait | .exited | .dead _ _ => false

/-- The pass that begins in `s₀`, without interruption. -/
def passMachine (C : Type) [DecidableEq Q] [DecidableEq C] (cfg : Q → Config)
    (s₀ : ExecState Q C) : Machine (ExecState Q C) (ExecAction Q C) where
  init s := s = s₀
  step a s :=
    if s.worker.inPass && !isDeliver a then (executeMachine C cfg).step a s else none

/-- The steps at a queue after the look at its flags: each step of the scan comes with at most
seven mutex operations. -/
def Job.scanLeft (cfg : Config) (job : Job) : ℕ := 8 * job.pc.scanLeft cfg + job.ops.length

/-- The steps from the choice of a queue to the choice of the next one. -/
def visitBound (cfg : Config) : ℕ := 80 * loopBound cfg + 38

/-- The steps of the visits to some queues, and the one that ends the pass. -/
def visitsBound (cfg : Q → Config) (queues : List Q) : ℕ :=
  (queues.map fun q => visitBound (cfg q)).sum + 1

/-- The steps of a pass. -/
def passBound (cfg : Q → Config) (queues : List Q) : ℕ := visitsBound cfg queues + 1

/-- How many steps of the worker a pass has left at most. -/
def Worker.passLeft (cfg : Q → Config) : Worker Q Job → ℕ
  | .pass queues => passBound cfg queues
  | .next queues => visitsBound cfg queues
  | .test q rest => visitBound (cfg q) - 1 + visitsBound cfg rest
  | .checkInactivated q rest => visitBound (cfg q) - 2 + visitsBound cfg rest
  | .checkDestroyed q rest => visitBound (cfg q) - 3 + visitsBound cfg rest
  | .process q rest job => job.scanLeft (cfg q) + visitsBound cfg rest
  | .landing | .landingFlag | .head | .getQueues | .wait | .exited | .dead _ _ => 0

@[simp] theorem visitsBound_nil (cfg : Q → Config) : visitsBound cfg [] = 1 := rfl

@[simp] theorem visitsBound_cons (cfg : Q → Config) (q : Q) (rest : List Q) :
    visitsBound cfg (q :: rest) = visitBound (cfg q) + visitsBound cfg rest := by
  simp [visitsBound, Nat.add_assoc]

/-- What the worker owns in a pass, and the mutex operations that are left, can be performed. -/
structure JobFree (locks : List Lock) (cfg : Config) (m : Memory Q) (job : Job) : Prop where
  free : .allocations ∉ locks
  unhindered : Unhindered locks m job
  closing : job.pc.guarded = false → job.closing = []
  left : job.pc.scanLeft cfg ≠ 0

section Jobs

variable [DecidableEq Q] {cfg : Q → Config} {q : Q} {rest : List Q} {job job' : Job}
  {locks : List Lock} {m m' : Memory Q} {p : Progress Job} {r : Reply}

omit [DecidableEq Q] in
theorem JobFree.goto {c : Config} {ops : List LockOp} (x : Queue) (hfree : .allocations ∉ locks)
    (hops : runOps ops m.locks = some locks) (hleft : pc.scanLeft c ≠ 0) :
    JobFree locks c m (.goto x ops pc) :=
  ⟨hfree, .goto x hops fun _ => hfree, lockOpsClosing_of_not_guarded, hleft⟩

/-- The position after a step of the scan. -/
theorem jobAfter_cases (x : Queue) (job : Job) (pc' : Pc) (c : Config) :
    (jobAfter x job pc' = .done ∧ pc' = .away) ∨
      (∃ job', jobAfter x job pc' = .dead job') ∨
      (jobAfter x job pc' = .more (.goto x (job.closing ++ lockOpsAfter job.pc pc') pc') ∧
        pc'.scanLeft c ≠ 0) := by
  cases pc' with
  | away => exact .inl ⟨rfl, rfl⟩
  | halted why => exact .inr (.inl ⟨_, rfl⟩)
  | _ => exact .inr (.inr ⟨rfl, by simp [Pc.scanLeft]⟩)

/-- What the worker owns where it is in a pass: what it owned at its beginning, and the mutexes
that it still releases. -/
def PassFree (locks : List Lock) (cfg : Q → Config) (m : Memory Q) : Worker Q Job → Prop
  | .process q _ job => JobFree locks (cfg q) m job
  | _ => m.locks = locks

/-- **A step at a queue** brings the worker nearer to the end of the pass. -/
theorem JobFree.work (h : JobFree locks (cfg q) m job) (hring : (m.queue q).RingInv (cfg q))
    (hp : (processor cfg).work r q job m = some (m', p)) :
    (Agent.resume q rest p).passLeft cfg < (Worker.process q rest job).passLeft cfg ∧
      ((Agent.resume q rest p).inPass = true →
        PassFree locks cfg m' (Agent.resume q rest p)) := by
  have hleft := h.left
  cases jobMove hp with
  | op op ops closing pc locks' happly =>
    refine ⟨by simp [Worker.passLeft, Agent.resume, Job.scanLeft], fun _ => ⟨h.free,
      ⟨?_, h.unhindered.closing, h.unhindered.allocates⟩, h.closing, h.left⟩⟩
    have hops := h.unhindered.ops
    simp only [List.cons_append, runOps, happly, Option.bind_some] at hops
    exact hops
  | scan closing pc pc' queue hstep =>
    have hlt := scanLeft_workerStep hring hstep
    have hops : runOps closing m.locks = some locks := h.unhindered.ops
    rcases jobAfter_cases queue { ops := [], closing, pc } pc' (cfg q) with
      ⟨hdone, rfl⟩ | ⟨job', hdead⟩ | ⟨hmore, hleft'⟩
    · rw [hdone]
      obtain rfl : closing = [] := h.closing (not_guarded_of_away hstep)
      refine ⟨?_, fun _ => Option.some.inj hops⟩
      simp only [Worker.passLeft, Agent.resume, Job.scanLeft]
      omega
    · rw [hdead]
      refine ⟨?_, by simp [Agent.resume, Worker.inPass]⟩
      simp only [Worker.passLeft, Agent.resume, Job.scanLeft]
      omega
    · rw [hmore]
      constructor
      · have hclosing : closing.length ≤ 1 := h.unhindered.closing
        have hbefore := length_lockOpsBefore queue pc'
        have hafter := length_lockOpsAfter pc pc'
        simp only [Worker.passLeft, Agent.resume, Job.scanLeft, Job.goto, List.length_append,
          List.length_nil]
        omega
      · intro _
        refine .goto queue h.free ?_ hleft'
        rw [runOps_append, hops, Option.bind_some]
        exact runOps_after_locks pc pc' locks

/-- The worker's next step at a queue is possible. -/
theorem JobFree.enabled (h : JobFree locks (cfg q) m job) (r : Reply) :
    ((processor cfg).work r q job m).isSome := by
  obtain ⟨ops, closing, pc⟩ := job
  cases ops with
  | nil =>
    simp only [processor, Option.isSome_map]
    exact workerStep_isSome_of_left h.left
  | cons op ops =>
    have hops := h.unhindered.ops
    simp only [List.cons_append, runOps] at hops
    obtain ⟨locks', happly, -⟩ := Option.bind_eq_some_iff.mp hops
    simp [processor, happly]

end Jobs

/-! ## The pass -/

section Runs

variable [DecidableEq Q] [DecidableEq C] {cfg : Q → Config} {s₀ s s' : ExecState Q C}
  {a : ExecAction Q C} {tr : List (ExecState Q C × ExecAction Q C)} {locks : List Lock}
  {queues : List Q} {r : Reply}

theorem passMachine_step (h : (passMachine C cfg s₀).step a s = some s') :
    s.worker.inPass = true ∧ isDeliver a = false ∧
      (executeMachine C cfg).step a s = some s' := by
  simp only [passMachine, Option.ite_none_right_eq_some, Bool.and_eq_true,
    Bool.not_eq_true'] at h
  exact ⟨h.1.1, h.1.2, h.2⟩

/-- The pass goes through reachable states. -/
theorem reachable_of_pass {ok : ExecState Q C → ExecAction Q C → Prop}
    (hr : (executeMachine C cfg).Reachable ok s₀) (hrun : (passMachine C cfg s₀).Run tr s)
    (hok : ∀ step ∈ tr, ok step.1 step.2) : (executeMachine C cfg).Reachable ok s := by
  induction hrun with
  | init hs => exact hs ▸ hr
  | step _ hs ih =>
    rw [List.forall_mem_cons] at hok
    exact (ih hok.2).step hok.1 (passMachine_step hs).2.2

omit [DecidableEq C] in
/-- **A step of the worker** brings it nearer to the end of the pass. -/
theorem passLeft_workerStep (hring : ∀ q, (s.memory.queue q).RingInv (cfg q))
    (hfree : Lock.allocations ∉ locks) (hin : s.worker.inPass = true)
    (h : PassFree locks cfg s.memory s.worker)
    (hs : Agent.workerStep (processor cfg) r s = some s') :
    s'.worker.passLeft cfg < s.worker.passLeft cfg ∧
      (s'.worker.inPass = true → PassFree locks cfg s'.memory s'.worker) := by
  cases hw : s.worker with
  | process q rest job =>
    rw [hw] at h
    simp only [Agent.workerStep, hw] at hs
    obtain ⟨⟨m, p⟩, hp, rfl⟩ := Option.map_eq_some_iff.mp hs
    exact JobFree.work h (hring q) hp
  | pass queues =>
    rw [hw] at h
    simp only [Agent.workerStep, hw, Option.some.injEq] at hs
    subst hs
    exact ⟨by simp [Worker.passLeft, passBound], fun _ => h⟩
  | next queues =>
    rw [hw] at h
    cases queues <;> simp only [Agent.workerStep, hw, Option.some.injEq] at hs <;> subst hs
    · exact ⟨by simp [Worker.passLeft], fun _ => h⟩
    · refine ⟨?_, fun _ => h⟩
      simp only [Worker.passLeft, visitsBound_cons, visitBound]
      omega
  | test q rest =>
    rw [hw] at h
    simp only [Agent.workerStep, hw] at hs
    split at hs <;> cases hs <;> refine ⟨?_, fun _ => h⟩ <;>
      simp only [Worker.passLeft, visitBound] <;> omega
  | checkInactivated q rest =>
    rw [hw] at h
    simp only [Agent.workerStep, hw] at hs
    split at hs <;> cases hs <;> refine ⟨?_, fun _ => h⟩ <;>
      simp only [Worker.passLeft, visitBound] <;> omega
  | checkDestroyed q rest =>
    rw [hw] at h
    simp only [Agent.workerStep, hw] at hs
    have hlocks : s.memory.locks = locks := h
    split at hs <;> cases hs
    · refine ⟨?_, fun _ => h⟩
      simp only [Worker.passLeft, visitBound]
      omega
    · refine ⟨?_, fun _ => ⟨hfree, ⟨?_, by simp [processor], by simp [Pc.allocates, processor]⟩,
        fun _ => rfl, Nat.succ_ne_zero _⟩⟩
      · simp only [Worker.passLeft, visitBound, Job.scanLeft, Pc.scanLeft, processor,
          fromHSAObject, List.length_cons, List.length_nil]
        omega
      · rw [hlocks]
        simp [processor, runOps, fromHSAObject, LockOp.apply]
  | landing | landingFlag | head | getQueues | wait | exited | dead =>
    simp [hw, Worker.inPass] at hin

/-- The worker's next step in a pass is possible. -/
theorem PassFree.enabled (h : PassFree locks cfg s.memory s.worker)
    (hin : s.worker.inPass = true) (r : Reply) :
    ((executeMachine C cfg).step (.worker r) s).isSome := by
  simp only [executeMachine, agentMachine, Agent.workerStep]
  cases hw : s.worker with
  | process q rest job =>
    rw [hw] at h
    simp only [Option.isSome_map]
    exact JobFree.enabled h r
  | next queues => cases queues <;> rfl
  | pass => rfl
  | test | checkInactivated | checkDestroyed =>
    simp only
    split <;> rfl
  | landing | landingFlag | head | getQueues | wait | exited | dead =>
    simp [hw, Worker.inPass] at hin

omit [DecidableEq Q] [DecidableEq C] in
/-- Others do not change what the worker owns. -/
theorem PassFree.others (h : PassFree locks cfg s.memory s.worker) (hw : s'.worker = s.worker)
    (hlocks : s'.memory.locks = s.memory.locks) : PassFree locks cfg s'.memory s'.worker := by
  rw [hw]
  cases hjob : s.worker with
  | process q rest job =>
    rw [hjob] at h
    have hops := h.unhindered.ops
    exact ⟨h.free, ⟨by rw [hlocks]; exact hops, h.unhindered.closing, h.unhindered.allocates⟩,
      h.closing, h.left⟩
  | _ =>
    rw [hjob] at h
    exact hlocks.trans h

/-- The invariant of a pass: the steps that have been taken and the ones that are left. -/
theorem pass_inv (hr : (executeMachine C cfg).Reachable always s₀)
    (hw : s₀.worker = .pass queues) (hfree : Lock.allocations ∉ s₀.memory.locks)
    (hrun : (passMachine C cfg s₀).Run tr s) :
    (tr.countP fun step => isWorker step.2) + s.worker.passLeft cfg ≤ passBound cfg queues ∧
      (s.worker.inPass = true → PassFree s₀.memory.locks cfg s.memory s.worker) := by
  induction hrun with
  | init hs =>
    cases hs
    simp [hw, Worker.passLeft, PassFree]
  | @step tr s s' a hrun hs ih =>
    obtain ⟨hin, ha, hstep⟩ := passMachine_step hs
    obtain ⟨hleft, hpass⟩ := ih
    have hreach := reachable_of_pass hr hrun fun _ _ => trivial
    rw [List.countP_cons]
    cases hworker : isWorker a with
    | false =>
      obtain ⟨hw', hlocks⟩ := others_step ha hworker hstep
      refine ⟨by simpa [hw'] using hleft, fun _ => (hpass hin).others hw' hlocks⟩
    | true =>
      cases a with
      | worker r =>
        have hring := ringInv_of_reachable hreach
        obtain ⟨hlt, hpass'⟩ := passLeft_workerStep hring hfree hin (hpass hin) hstep
        refine ⟨?_, hpass'⟩
        simp only [if_true]
        omega
      | _ => cases hworker

/-- The pass that begins in `s`, over the queue `()` alone, with nothing owned. -/
def Exec.isPass (s : ExecState Unit C) : Bool :=
  match s.worker with
  | .pass [()] => s.memory.locks = []
  | _ => false

/-- The worker is at the head of a pass. -/
def Exec.isHead (s : ExecState Q C) : Bool :=
  match s.worker with
  | .head => true
  | _ => false

omit [DecidableEq C] in
theorem Exec.of_isPass {s : ExecState Unit C} (h : Exec.isPass s = true) :
    s.worker = .pass [()] ∧ s.memory.locks = [] := by
  unfold Exec.isPass at h
  split at h
  · rename_i hw
    exact ⟨hw, of_decide_eq_true h⟩
  · cases h

omit [DecidableEq Q] [DecidableEq C] in
theorem Exec.of_isHead {s : ExecState Q C} (h : Exec.isHead s = true) : s.worker = .head := by
  unfold Exec.isHead at h
  split at h
  · assumption
  · cases h

end Runs

end PhsaRuntime
