import PhsaRuntime.Agent.Interrupt
import PhsaRuntime.Execute

/-!
# What an interrupted worker leaves behind

The handler of `SIGUSR1` jumps over the ends of the `lock_guard` scopes and over the calls
that free the group memory and the relocated kernel arguments. Whatever the worker owns
where it is interrupted it owns at the landing spot, and for good.

What it owns is determined by where it is: the mutexes by the operations that are still to
come before and after its next step (`runOps`), the memory by the local variables (`Held`).
It is released if and only if every signal comes where nothing is owned (`SafeSpot`).

## Main results

* `released_iff` — the worker owns nothing between two queues if and only if every signal
  is delivered at a safe spot.
* `lock_leaked` — a run that leaves `AllocationsLock` locked and a block of group memory
  allocated.
-/

namespace PhsaRuntime

variable {q q' : Queue} {pc pc' : Pc} {env : Env}

/-! ## Mutex operations -/

/-- The mutexes the worker owns after some operations. -/
def runOps : List LockOp → List Lock → Option (List Lock)
  | [], locks => some locks
  | op :: ops, locks => (op.apply locks).bind (runOps ops)

theorem runOps_append (ops ops' : List LockOp) (locks : List Lock) :
    runOps (ops ++ ops') locks = (runOps ops locks).bind (runOps ops') := by
  induction ops generalizing locks with
  | nil => rfl
  | cons op ops ih =>
      simp only [List.cons_append, runOps, Option.bind_assoc]
      congr 1
      funext locks'
      exact ih locks'

/-- Operations that balance can be put in front of others. -/
theorem runOps_append_of_balanced {ops : List LockOp} {locks : List Lock}
    (h : runOps ops locks = some []) (ops' : List LockOp) :
    runOps (ops ++ ops') locks = runOps ops' [] := by
  rw [runOps_append, h, Option.bind_some]

/-- How many mutexes an operation adds does not depend on the ones that are owned. -/
theorem LockOp.length_apply {op : LockOp} {locks locks' owned owned' : List Lock}
    (h : op.apply locks = some locks') (h' : op.apply owned = some owned') :
    locks'.length + owned.length = owned'.length + locks.length := by
  cases op with
  | acquire lock =>
    simp only [apply, Option.ite_none_left_eq_some, Option.some.injEq] at h h'
    obtain ⟨-, rfl⟩ := h
    obtain ⟨-, rfl⟩ := h'
    simp only [List.length_cons]
    omega
  | release lock =>
    simp only [apply, Option.ite_none_right_eq_some, Option.some.injEq] at h h'
    obtain ⟨hmem, rfl⟩ := h
    obtain ⟨hmem', rfl⟩ := h'
    have hlen := List.length_erase_of_mem hmem
    have hlen' := List.length_erase_of_mem hmem'
    have hpos := List.length_pos_of_mem hmem
    have hpos' := List.length_pos_of_mem hmem'
    omega

theorem length_runOps {ops : List LockOp} {locks locks' owned owned' : List Lock}
    (h : runOps ops locks = some locks') (h' : runOps ops owned = some owned') :
    locks'.length + owned.length = owned'.length + locks.length := by
  induction ops generalizing locks owned with
  | nil =>
      simp only [runOps, Option.some.injEq] at h h'
      subst h h'
      exact Nat.add_comm _ _
  | cons op ops ih =>
      obtain ⟨mid, hmid, hrest⟩ := Option.bind_eq_some_iff.mp h
      obtain ⟨mid', hmid', hrest'⟩ := Option.bind_eq_some_iff.mp h'
      have hop := LockOp.length_apply hmid hmid'
      have hops := ih hrest hrest'
      omega

/-- Operations that balance from nothing, and release all that is owned: nothing is owned. -/
theorem eq_nil_of_runOps {ops : List LockOp} {locks : List Lock}
    (h : runOps ops locks = some []) (hnil : runOps ops [] = some []) : locks = [] := by
  have hlen := length_runOps h hnil
  exact List.eq_nil_of_length_eq_zero (by simpa using hlen.symm)

/-- The operations around a step balance. -/
theorem runOps_around (q : Queue) (pc : Pc) :
    runOps (lockOpsBefore q pc ++ lockOpsClosing q pc) [] = some [] := by
  cases pc with
  | barrier kind f slot i =>
    simp only [lockOpsBefore, lockOpsClosing, List.append_nil]
    split
    · split <;> rfl
    · rfl
  | dispatch f slot =>
    simp only [lockOpsBefore, lockOpsClosing]
    split <;> rfl
  | freeGroup f slot completion groupMemory => cases groupMemory <;> rfl
  | away | sample | loadReadIndex | loadWriteIndex _ | head _ | advance _ _ | launch _ _ _ _
  | running _ _ _ _ _ | retire _ _ _ | retired _ _ _ | complete _ _ | halted _ => rfl

theorem runOps_after (pc pc' : Pc) : runOps (lockOpsAfter pc pc') [] = some [] := by
  unfold lockOpsAfter
  split <;> rfl

/-! ## What is owned -/

/-- The group memory of the packet under execution. -/
def Pc.groupMemory : Pc → List ℕ
  | .launch _ _ _ groupMemory | .running _ _ _ groupMemory _
  | .freeGroup _ _ _ groupMemory => groupMemory.toList
  | _ => []

/-- The relocated kernel arguments of the kernel that runs. -/
def Pc.kernargs : Pc → List ℕ
  | .running _ _ _ _ kernargs => kernargs.toList
  | _ => []

/-- In a scope that ends after the next step. -/
def Pc.guarded : Pc → Bool
  | .dispatch _ _ | .freeGroup _ _ _ _ => true
  | _ => false

theorem lockOpsClosing_of_not_guarded (h : pc.guarded = false) : lockOpsClosing q pc = [] := by
  cases pc <;> simp [Pc.guarded, lockOpsClosing] at h ⊢

/-- A step of the scan allocates and frees what its outcome says. -/
theorem resources_workerStep {cfg : Config} (hs : workerStep cfg env q pc = some (q', pc')) :
    (∃ why, pc' = .halted why) ∨
      groupMemoryAfter pc.groupMemory pc pc' = pc'.groupMemory ∧
        kernargsAfter pc.kernargs pc pc' = pc'.kernargs := by
  cases pc with
  | away | halted _ => cases hs
  | sample =>
    simp only [workerStep] at hs
    split at hs <;> cases hs <;> exact .inr ⟨rfl, rfl⟩
  | head f =>
    simp only [workerStep, Option.some.injEq, Prod.mk.injEq] at hs
    obtain ⟨-, rfl⟩ := hs
    have hex := examined cfg q f
    generalize examine cfg q f = pc' at hex ⊢
    cases hex with
    | badIndex | unknown => exact .inl ⟨_, rfl⟩
    | exit | freed | passed | barrier | dispatch => exact .inr ⟨rfl, rfl⟩
  | barrier kind f slot i =>
    cases evaluated_step hs with
    | null | undecided => exact .inr ⟨rfl, rfl⟩
    | dead => exact .inl ⟨_, rfl⟩
    | decided _ _ _ ok =>
      cases ok <;> exact .inr ⟨rfl, rfl⟩
    | exhausted =>
      cases kind <;> exact .inr ⟨rfl, rfl⟩
  | dispatch f slot =>
    have hgroup : ∀ completion groupMemory, groupMemoryAfter [] (.dispatch f slot)
        (.launch f slot completion groupMemory) = groupMemory.toList := by
      intro completion groupMemory
      cases groupMemory <;> rfl
    cases hs
    exact .inr ⟨hgroup _ _, rfl⟩
  | launch f slot completion groupMemory =>
    cases launchMove_step hs with
    | aligned | moved | callback => exact .inr ⟨rfl, rfl⟩
    | aborted => exact .inl ⟨_, rfl⟩
  | running f slot completion groupMemory kernargs =>
    cases hs
    cases kernargs with
    | none => exact .inr ⟨rfl, rfl⟩
    | some buffer => exact .inr ⟨rfl, List.erase_cons_head ..⟩
  | freeGroup f slot completion groupMemory =>
    cases hs
    cases groupMemory with
    | none => exact .inr ⟨rfl, rfl⟩
    | some block => exact .inr ⟨List.erase_cons_head .., rfl⟩
  | retired f slot completion =>
    simp only [workerStep] at hs
    split at hs <;> cases hs <;> exact .inr ⟨rfl, rfl⟩
  | loadReadIndex | loadWriteIndex _ | advance _ _ | retire _ _ _ | complete _ _ =>
    cases hs
    exact .inr ⟨rfl, rfl⟩

/-- The worker does not leave a queue from within a guarded step. -/
theorem not_guarded_of_away {cfg : Config} (hs : workerStep cfg env q pc = some (q', .away)) :
    pc.guarded = false := by
  cases pc with
  | dispatch | freeGroup => cases hs
  | _ => rfl

variable {Q C : Type}

/-- The worker owns nothing. -/
structure Memory.Released (m : Memory Q) : Prop where
  locks : m.locks = []
  groupMemory : m.groupMemory = []
  kernargs : m.kernargs = []

/-- The worker owns what its position says. -/
structure Held (m : Memory Q) (job : Job) : Prop where
  locks : runOps (job.ops ++ job.closing) m.locks = some []
  closing : job.pc.guarded = false → job.closing = []
  groupMemory : m.groupMemory = job.pc.groupMemory
  kernargs : m.kernargs = job.pc.kernargs

/-- A position in the processing of a queue at which nothing is owned. -/
structure Job.SafeSpot (job : Job) : Prop where
  ops : runOps (job.ops ++ job.closing) [] = some []
  groupMemory : job.pc.groupMemory = []
  kernargs : job.pc.kernargs = []

instance (job : Job) : Decidable job.SafeSpot :=
  decidable_of_iff (runOps (job.ops ++ job.closing) [] = some [] ∧ job.pc.groupMemory = [] ∧
    job.pc.kernargs = [])
    ⟨fun ⟨h, h', h''⟩ => ⟨h, h', h''⟩, fun h => ⟨h.ops, h.groupMemory, h.kernargs⟩⟩

/-- **The safe spots** are the positions where the worker owns nothing. -/
theorem Held.released_iff_safeSpot {m : Memory Q} {job : Job} (h : Held m job) :
    m.Released ↔ job.SafeSpot := by
  constructor
  · rintro ⟨hlocks, hgroup, hkernargs⟩
    exact ⟨hlocks ▸ h.locks, h.groupMemory ▸ hgroup, h.kernargs ▸ hkernargs⟩
  · rintro ⟨hops, hgroup, hkernargs⟩
    exact ⟨eq_nil_of_runOps h.locks hops, h.groupMemory.trans hgroup,
      h.kernargs.trans hkernargs⟩

/-- What the worker owns, wherever it is. -/
structure OwnInv (s : ExecState Q C) : Prop where
  between : s.worker.job = none → s.memory.Released
  processing : ∀ q rest job, s.worker = .process q rest job → Held s.memory job

/-- Every signal is delivered at a safe spot. -/
def JumpsSafely (s : ExecState Q C) : ExecAction Q C → Prop
  | .deliver => ∀ j ∈ s.worker.job, j.2.SafeSpot
  | _ => True

instance (s : ExecState Q C) : (a : ExecAction Q C) → Decidable (JumpsSafely s a)
  | .deliver => inferInstanceAs (Decidable (∀ j ∈ s.worker.job, _))
  | .worker _ | .call _ _ | .client _ | .register _ | .destroy _ | .shutDown
  | .environment _ => .isTrue trivial

/-- A mutex operation. -/
theorem Held.op {m : Memory Q} {op : LockOp} {ops closing : List LockOp} {locks : List Lock}
    (h : Held m { ops := op :: ops, closing, pc }) (happly : op.apply m.locks = some locks) :
    Held { m with locks } { ops, closing, pc } := by
  refine ⟨?_, h.closing, h.groupMemory, h.kernargs⟩
  have hrun := h.locks
  simp only [List.cons_append, runOps, happly, Option.bind_some] at hrun
  exact hrun

/-- The worker goes on to `pc'`, with all scopes closed. -/
theorem Held.goto {m : Memory Q} {ops : List LockOp} (hops : runOps ops m.locks = some [])
    (hgroup : m.groupMemory = pc'.groupMemory) (hkernargs : m.kernargs = pc'.kernargs) :
    Held m (.goto q ops pc') := by
  refine ⟨?_, fun h => lockOpsClosing_of_not_guarded h, hgroup, hkernargs⟩
  simp only [Job.goto, List.append_assoc]
  rw [runOps_append_of_balanced hops]
  exact runOps_around q pc'

/-! ## Runs of the worker -/

variable [DecidableEq Q] [DecidableEq C] {cfg : Q → Config}

/-- A step in the processing of a queue. -/
theorem Held.work {r : Reply} {q : Q} {job : Job} {m m' : Memory Q} {p : Progress Job}
    (h : Held m job) (hp : (processor cfg).work r q job m = some (m', p)) :
    (p = .done → m'.Released) ∧ ∀ job', p = .more job' → Held m' job' := by
  cases jobMove hp with
  | op op ops closing pc locks happly =>
    refine ⟨by simp, ?_⟩
    rintro job' heq
    cases heq
    exact h.op happly
  | scan closing pc pc' queue hstep =>
    have hclosing : runOps closing m.locks = some [] := h.locks
    have hgroup : m.groupMemory = pc.groupMemory := h.groupMemory
    have hkernargs : m.kernargs = pc.kernargs := h.kernargs
    rcases resources_workerStep hstep with ⟨why, rfl⟩ | ⟨hgroup', hkernargs'⟩
    · constructor <;> simp [jobAfter]
    · rw [← hgroup] at hgroup'
      rw [← hkernargs] at hkernargs'
      constructor
      · intro hdone
        obtain rfl : pc' = .away := by
          cases pc' <;> simp [jobAfter] at hdone ⊢
        have hnil : closing = [] := h.closing (not_guarded_of_away hstep)
        rw [hnil] at hclosing
        exact ⟨Option.some.inj hclosing, hgroup', hkernargs'⟩
      · intro job' hmore
        have hops : runOps (closing ++ lockOpsAfter pc pc') m.locks = some [] := by
          rw [runOps_append_of_balanced hclosing]
          exact runOps_after pc pc'
        cases pc' <;> cases hmore <;> exact Held.goto hops hgroup' hkernargs'

/-- Others leave alone what the worker owns. -/
theorem owned_environment {e : External Q} {m m' : Memory Q}
    (he : (processor cfg).environment e m = some m') :
    (m.Released → m'.Released) ∧ ∀ job, Held m job → Held m' job := by
  cases externalMove he with
  | producer | signal =>
    exact ⟨fun h => ⟨h.locks, h.groupMemory, h.kernargs⟩,
      fun job h => ⟨h.locks, h.closing, h.groupMemory, h.kernargs⟩⟩

theorem ownInv_of_reachable {s : ExecState Q C}
    (h : (executeMachine C cfg).Reachable JumpsSafely s) : OwnInv s := by
  refine h.induction ?_ ?_
  · rintro s ⟨⟨-, hlocks, hgroup, hkernargs⟩, -, -, -, -, -, -, hw, -⟩
    refine ⟨fun _ => ⟨hlocks, hgroup, hkernargs⟩, ?_⟩
    intro q rest job hw'
    rw [hw] at hw'
    cases hw'
  · intro s a s' _ hok hs ih
    have hmove := memoryMove hs
    suffices hinv : (s'.worker.job = none → s'.memory.Released) ∧
        ∀ q rest job, s'.worker = .process q rest job → Held s'.memory job from
      ⟨hinv.1, hinv.2⟩
    generalize s'.memory = m' at hmove ⊢
    generalize s'.worker = w' at hmove ⊢
    cases hmove with
    | work r q rest job _ p hw hp =>
      obtain ⟨hdone, hmore⟩ := (ih.processing q rest job hw).work hp
      cases p with
      | done => exact ⟨fun _ => hdone rfl, by simp [Agent.resume]⟩
      | dead => constructor <;> simp [Agent.resume, Worker.job]
      | more job' =>
        refine ⟨by simp [Agent.resume, Worker.job], ?_⟩
        intro q' rest' job'' heq
        cases heq
        exact hmore job' rfl
    | control r w hold hnew =>
      have hreleased := ih.between hold
      refine ⟨fun _ => hreleased, ?_⟩
      rintro q rest job rfl
      rcases hnew with hnew | ⟨q', rest', -, heq⟩
      · cases hnew
      · cases heq
        refine ⟨?_, fun _ => rfl, hreleased.groupMemory, hreleased.kernargs⟩
        rw [hreleased.locks]
        rfl
    | deliver halive =>
      refine ⟨fun _ => ?_, by simp⟩
      cases hw : s.worker with
      | process q rest job =>
        have hsafe : job.SafeSpot := hok (q, job) (by rw [hw]; rfl)
        exact (ih.processing q rest job hw).released_iff_safeSpot.mpr hsafe
      | dead q job => exact absurd hw (halive q job)
      | landing | landingFlag | head | getQueues | pass _ | next _ | test _ _ | wait
      | checkInactivated _ _ | checkDestroyed _ _ | exited =>
        exact ih.between (by rw [hw]; rfl)
    | environment e m he =>
      obtain ⟨hreleased, hheld⟩ := owned_environment he
      exact ⟨fun hjob => hreleased (ih.between hjob),
        fun q rest job hw => hheld job (ih.processing q rest job hw)⟩
    | other => exact ⟨ih.between, ih.processing⟩

/-- At the landing spot and at the head of a pass, the worker owns nothing. -/
def ReleasedBetween (s : ExecState Q C) : Prop :=
  s.worker = .landing ∨ s.worker = .head → s.memory.Released

omit [DecidableEq Q] [DecidableEq C] in
theorem OwnInv.releasedBetween {s : ExecState Q C} (h : OwnInv s) : ReleasedBetween s := by
  rintro (hw | hw) <;> exact h.between (by rw [hw]; rfl)

/-- A signal that lands with nothing owned was delivered at a safe spot. -/
theorem OwnInv.jumpsSafely {a : ExecAction Q C} {s s' : ExecState Q C} (h : OwnInv s)
    (hs : (executeMachine C cfg).step a s = some s') (hreleased : ReleasedBetween s') :
    JumpsSafely s a := by
  cases a with
  | deliver =>
    obtain ⟨-, rfl⟩ := deliver_eq hs
    have hempty : s.memory.Released := hreleased (.inl rfl)
    rintro ⟨q, job⟩ hj
    cases hw : s.worker with
    | process q' rest job' =>
      rw [hw] at hj
      cases hj
      exact (h.processing q rest job hw).released_iff_safeSpot.mp hempty
    | dead q' job' => simp [executeMachine, agentMachine, Agent.deliver, hw] at hs
    | landing | landingFlag | head | getQueues | pass _ | next _ | test _ _ | wait
    | checkInactivated _ _ | checkDestroyed _ _ | exited =>
      rw [hw] at hj
      cases hj
  | worker | call | client | register | destroy | shutDown | environment => trivial

/-- **Interruption releases everything** if and only if it comes at a safe spot: all states of
a run have nothing owned at the landing spot and at the head of a pass exactly if no signal
of the run is delivered within a scope or between an allocation and its release. -/
theorem released_iff {tr : List (ExecState Q C × ExecAction Q C)} {s : ExecState Q C}
    (hrun : (executeMachine C cfg).Run tr s) :
    (ReleasedBetween s ∧ ∀ p ∈ tr, ReleasedBetween p.1) ↔ ∀ p ∈ tr, JumpsSafely p.1 p.2 := by
  constructor
  · rintro ⟨hlast, hall⟩
    induction hrun with
    | init hs => simp
    | @step tr s s' a hrun hs ih =>
      have hprev := ih (hall (s, a) List.mem_cons_self)
        fun p hp => hall p (List.mem_cons_of_mem _ hp)
      have hinv : OwnInv s := ownInv_of_reachable ⟨tr, hrun, hprev⟩
      have hjump : JumpsSafely s a := hinv.jumpsSafely hs hlast
      exact List.forall_mem_cons.mpr ⟨hjump, hprev⟩
  · intro hok
    refine ⟨(ownInv_of_reachable ⟨tr, hrun, hok⟩).releasedBetween, ?_⟩
    intro p hp
    exact (ownInv_of_reachable (hrun.reachable_of_mem hok hp)).releasedBetween

/-- A kernel dispatch packet that needs group memory. -/
def groupPacket : AQLPacket := { Scan.emptyPacket with groupSegmentSize := 4 }

/-- The signal is delivered before the scan has come to a packet. -/
theorem released_iff_safe : ∃ (tr : List (ExecState Unit Unit × ExecAction Unit Unit))
    (s : ExecState Unit Unit), s.returned = [()] ∧ ReleasedBetween s ∧
      ∀ p ∈ tr, ReleasedBetween p.1 := by
  obtain ⟨s, ⟨tr, hrun, htr⟩, hp⟩ := Machine.exists_reachable_of_run
    (executeMachine Unit Exec.config) JumpsSafely
    ([.register ()] ++ Exec.submit () 0 groupPacket ++ Exec.work 13 ++ [.call () ()] ++
      Exec.client () 5 ++ [.deliver] ++ Exec.work 1 ++ Exec.client () 2)
    (fun s => s.returned = [()]) (Exec.init_start _ fun _ => none) (by decide +kernel)
  exact ⟨tr, s, of_decide_eq_true hp, (released_iff hrun).mpr htr⟩

/-- The signal is delivered in `GroupMemoryRegion->allocate`, after the allocation. -/
theorem lock_leaked : ∃ s : ExecState Unit Unit,
    (executeMachine Unit Exec.config).Reachable Machine.always s ∧
      s.memory.locks = [.allocations] ∧ s.memory.groupMemory = [0] ∧ ¬ ReleasedBetween s := by
  obtain ⟨s, hs, hp⟩ := Machine.exists_reachable_of_run
    (executeMachine Unit Exec.config) Machine.always
    ([.register ()] ++ Exec.submit () 0 groupPacket ++ Exec.work 19 ++ [.call () ()] ++
      Exec.client () 5 ++ [.deliver])
    (fun s => s.memory.locks = [.allocations] && s.memory.groupMemory = [0] &&
      s.worker.landed && !s.worker.resetting)
    (Exec.init_start _ fun _ => none) (by decide +kernel)
  simp only [Bool.and_eq_true, decide_eq_true_eq] at hp
  obtain ⟨⟨⟨hlocks, hgroup⟩, hland⟩, hnot⟩ := hp
  have hw : s.worker = .landing := by
    cases hw : s.worker <;> simp [hw, Worker.landed, Worker.resetting] at hland hnot ⊢
  refine ⟨s, hs, hlocks, hgroup, ?_⟩
  intro hreleased
  have hnil := (hreleased (.inl hw)).locks
  rw [hlocks] at hnil
  cases hnil

end PhsaRuntime
