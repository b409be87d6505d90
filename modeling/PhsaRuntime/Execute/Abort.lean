import PhsaRuntime.Agent.Interrupt
import PhsaRuntime.Execute

/-!
# Packets that kill the worker

The packet loop branches on the packet type. The types of the packets that it knows are tested
first, and whatever is left aborts the process. `IsPacketTypeValid`, with the callback for an
invalid format, comes in the branch of the kernel dispatch packets only, where the type is valid.
The process is also aborted if kernel arguments have to be moved and there is no memory for them.

## Main results

* `aborted_step_iff` — the steps that abort.
* `worker_survives_iff` — the runs in which no packet kills the worker.
-/

namespace PhsaRuntime

open Machine

variable {Q C : Type}

/-- A header that is neither INVALID nor that of a kernel dispatch or a barrier packet. -/
def Foreign (header : BitVec 16) : Prop :=
  packetType header ≠ packetTypeInvalid ∧ packetType header ≠ packetTypeKernelDispatch ∧
    ¬ isBarrier header

instance (header : BitVec 16) : Decidable (Foreign header) :=
  inferInstanceAs (Decidable (_ ∧ _))

/-- The worker has called `abort()`. -/
def Aborted (s : ExecState Q C) : Prop :=
  ∃ q job, s.worker = .dead q job ∧ job.pc = .halted .aborted

/-- The loop is at an index below the write index that it has loaded, whose packet has a type that
it does not know. -/
def ExaminesForeign (cfg : Config) (q : Queue) (f : Frame) : Prop :=
  f.currentIndex ≤ f.lastIndex ∧ f.currentIndex < f.currentWriteIndex ∧
    packetIndex cfg f.currentIndex = some (f.currentIndex % cfg.size) ∧
    Foreign (q.packetBuffer (f.currentIndex % cfg.size)).header

/-- The kernel can be launched, its arguments have to be moved, and there is no memory for
them. -/
def LacksKernargs (env : Env) (groupMemory : Option ℕ) (p : AQLPacket) : Prop :=
  match dispatch (env.kernel p.kernelObject) groupMemory p with
  | .launch k => p.kernargAddress % k.kernargSegmentAlignment ≠ 0 ∧ env.kernargBuffer = none
  | .callback _ => False

/-- The step of the scan examines a packet of an unknown type, or has to move kernel arguments and
gets no memory. -/
def PcKills (cfg : Config) (env : Env) (q : Queue) : Pc → Prop
  | .head f => ExaminesForeign cfg q f
  | .launch _ slot _ groupMemory => LacksKernargs env groupMemory (q.packetBuffer slot)
  | _ => False

/-- The worker takes such a step. -/
def Kills (cfg : Q → Config) (s : ExecState Q C) : ExecAction Q C → Prop
  | .worker r => ∃ j ∈ s.worker.job, j.2.ops = [] ∧
      PcKills (cfg j.1) (s.memory.env r) (s.memory.queue j.1) j.2.pc
  | _ => False

section Decide

instance (cfg : Config) (q : Queue) (f : Frame) : Decidable (ExaminesForeign cfg q f) :=
  inferInstanceAs (Decidable (_ ∧ _))

instance (env : Env) (groupMemory : Option ℕ) (p : AQLPacket) :
    Decidable (LacksKernargs env groupMemory p) := by
  unfold LacksKernargs
  split <;> infer_instance

instance (cfg : Config) (env : Env) (q : Queue) : (pc : Pc) → Decidable (PcKills cfg env q pc)
  | .head f => inferInstanceAs (Decidable (ExaminesForeign cfg q f))
  | .launch _ slot _ groupMemory =>
    inferInstanceAs (Decidable (LacksKernargs env groupMemory (q.packetBuffer slot)))
  | .away | .sample | .loadReadIndex | .loadWriteIndex _ | .advance _ _ | .barrier _ _ _ _
  | .dispatch _ _ | .running _ _ _ _ _ | .freeGroup _ _ _ _ | .retire _ _ _ | .retired _ _ _
  | .complete _ _ | .halted _ => .isFalse id

instance (cfg : Q → Config) (s : ExecState Q C) : (a : ExecAction Q C) → Decidable (Kills cfg s a)
  | .worker _ => inferInstanceAs (Decidable (∃ j ∈ s.worker.job, _))
  | .call _ _ | .client _ | .deliver | .register _ | .destroy _ | .shutDown
  | .environment _ => .isFalse id

end Decide

/-- The worker never calls `abort()`; and where it has examined a packet of an unknown type, it
has called the callback for its format and retired it when it comes to an iteration of the queue
again. -/
structure WorkerSurvives (cfg : Q → Config) (tr : List (ExecState Q C × ExecAction Q C))
    (s : ExecState Q C) : Prop where
  alive : ∀ t ∈ states tr s, ¬ Aborted t
  reported : ∀ later t r earlier q f, tr = later ++ (t, .worker r) :: earlier →
    AtStep t q (.head f) → ExaminesForeign (cfg q) (t.memory.queue q) f →
      ∀ u ∈ states later s, ∀ f', AtStep u q (.head f') →
      (t.memory.queue q).history.callbacks ++ [.errorInvalidPacketFormat] <+:
          (u.memory.queue q).history.callbacks ∧
        (t.memory.queue q).history.tag (f.currentIndex % (cfg q).size) ∈
          (u.memory.queue q).history.processed

/-! ## Steps that abort -/

/-- The head of an iteration aborts at a packet of an unknown type. -/
theorem examine_aborts_iff {cfg : Config} {q : Queue} {f : Frame} :
    examine cfg q f = .halted .aborted ↔ ExaminesForeign cfg q f := by
  unfold ExaminesForeign
  unfold examine
  split
  case isTrue hexit =>
    simp only [reduceCtorEq, false_iff]
    rintro ⟨hle, hlt, -⟩
    omega
  case isFalse hin =>
    obtain ⟨hle, hlt⟩ := not_or.mp hin
    rw [not_lt] at hle
    rw [not_le] at hlt
    cases hindex : packetIndex cfg f.currentIndex with
    | none => simp
    | some slot =>
      obtain rfl := packetIndex_eq hindex
      simp only [hle, hlt, true_and, examineSlot, Foreign, isBarrier, not_or]
      split
      case isTrue hinvalid =>
        simp only [hinvalid, ne_eq, not_true_eq_false, false_and, iff_false]
        split <;> simp
      case isFalse hvalid =>
        split
        case isTrue hand => simp [hand]
        case isFalse hand =>
          split
          case isTrue hor => simp [hor]
          case isFalse hor =>
            split
            case isTrue hkernel => simp [hkernel]
            case isFalse hkernel => simp [hvalid, hand, hor, hkernel]

theorem launch_aborts_iff {env : Env} {q q' : Queue} {f : Frame} {slot : ℕ}
    {completion : Option Handle} {groupMemory : Option ℕ} {pc' : Pc}
    (h : LaunchMove env q f slot completion groupMemory q' pc') :
    pc' = .halted .aborted ↔ LacksKernargs env groupMemory (q.packetBuffer slot) := by
  cases h with
  | aligned k hk haligned => simp [LacksKernargs, hk, haligned]
  | moved k buffer hk _ hbuffer => simp [LacksKernargs, hk, hbuffer]
  | aborted k hk hunaligned hbuffer => simp [LacksKernargs, hk, hunaligned, hbuffer]
  | callback status hstatus => simp [LacksKernargs, hstatus]

theorem evaluate_not_aborts {env : Env} {q q' : Queue} {kind : Barrier} {f : Frame} {slot i : ℕ}
    {pc' : Pc} (h : Evaluated env q kind f slot i q' pc') : pc' ≠ .halted .aborted := by
  have hsettle (ok : Bool) : (settle env q f slot ok).2 ≠ .halted .aborted := by
    cases ok <;> simp [settle]
  cases h with
  | null | dead | undecided => simp
  | decided | exhausted => exact hsettle _

/-- A step of the scan that aborts is one of these two. -/
theorem workerStep_aborts_iff {cfg : Config} {env : Env} {q q' : Queue} {pc pc' : Pc}
    (h : workerStep cfg env q pc = some (q', pc')) :
    pc' = .halted .aborted ↔ PcKills cfg env q pc := by
  cases pc with
  | head f =>
    cases h
    exact examine_aborts_iff
  | launch f slot completion groupMemory => exact launch_aborts_iff (launchMove_step h)
  | barrier kind f slot i => simp [evaluate_not_aborts (evaluated_step h), PcKills]
  | sample | retired =>
    simp only [workerStep] at h
    split at h <;>
    · cases h
      simp [PcKills]
  | away | halted => cases h
  | _ =>
    cases h
    simp [PcKills]

/-! ## Runs -/

variable [DecidableEq Q] [DecidableEq C] {cfg : Q → Config} {s s' : ExecState Q C}
  {a : ExecAction Q C} {tr : List (ExecState Q C × ExecAction Q C)}

omit [DecidableEq Q] [DecidableEq C] in
theorem not_aborted_of_job (h : ∀ q job, s.worker ≠ .dead q job) : ¬ Aborted s := by
  rintro ⟨q, job, hdead, -⟩
  exact h q job hdead

omit [DecidableEq C] in
/-- A step in the processing of a queue. -/
theorem aborted_work_iff {r : Reply} {q : Q} {rest : List Q} {job : Job} {m : Memory Q}
    {p : Progress Job} (hw : s.worker = .process q rest job)
    (hp : (processor cfg).work r q job s.memory = some (m, p)) :
    (∃ q' job', Agent.resume q rest p = .dead q' job' ∧ job'.pc = .halted .aborted) ↔
      Kills cfg s (.worker r) := by
  have hkills : Kills cfg s (.worker r) ↔
      job.ops = [] ∧ PcKills (cfg q) (s.memory.env r) (s.memory.queue q) job.pc := by
    simp [Kills, hw, Worker.job]
  rw [hkills]
  cases jobMove hp with
  | op op ops closing pc locks happly =>
    constructor
    · rintro ⟨q', job', hdead, -⟩
      cases hdead
    · rintro ⟨hnil, -⟩
      cases hnil
  | scan closing pc pc' queue hstep =>
    rw [← workerStep_aborts_iff hstep]
    constructor
    · rintro ⟨q', job', hdead, hpc⟩
      cases pc' <;> cases hdead
      exact ⟨rfl, hpc⟩
    · rintro ⟨-, rfl⟩
      exact ⟨q, _, rfl, rfl⟩

/-- Between two queues the worker does not abort. -/
theorem not_aborted_control {r : Reply} (h : Agent.workerStep (processor cfg) r s = some s')
    (hprocess : ∀ q rest job, s.worker ≠ .process q rest job)
    (hdead : ∀ q job, s.worker ≠ .dead q job) : ¬ Aborted s' := by
  apply not_aborted_of_job
  intro q job
  have hmove := memoryMove_worker h
  generalize s'.memory = m' at hmove
  generalize s'.worker = w' at hmove ⊢
  cases hmove with
  | work r q rest job _ p hw => exact absurd hw (hprocess q rest job)
  | control r w hold hnew =>
    rintro rfl
    rcases hnew with hnew | ⟨_, _, -, hnew⟩ <;> cases hnew
  | other => exact hdead q job

/-- **The steps that abort.** -/
theorem aborted_step_iff (h : (executeMachine C cfg).step a s = some s') :
    Aborted s' ↔ Aborted s ∨ Kills cfg s a := by
  cases a with
  | worker r =>
    cases hw : s.worker with
    | process q rest job =>
      have hnot : ¬ Aborted s := not_aborted_of_job (by simp [hw])
      simp only [executeMachine, agentMachine, Agent.workerStep, hw] at h
      obtain ⟨⟨m, p⟩, hp, rfl⟩ := Option.map_eq_some_iff.mp h
      have hwork := aborted_work_iff hw hp
      simpa [Aborted, hnot, hw] using hwork
    | dead q job => simp [executeMachine, agentMachine, Agent.workerStep, hw] at h
    | _ =>
      have hnot : ¬ Aborted s := not_aborted_of_job (by simp [hw])
      have hnot' : ¬ Aborted s' := not_aborted_control h (by simp [hw]) (by simp [hw])
      have hkills : ¬ Kills cfg s (.worker r) := by simp [Kills, hw, Worker.job]
      simp [hnot, hnot', hkills]
  | deliver =>
    obtain ⟨-, hs'⟩ := deliver_eq h
    have hnot' : ¬ Aborted s' := not_aborted_of_job (by simp [hs'])
    have hnot : ¬ Aborted s := by
      rintro ⟨q, job, hdead, -⟩
      simp [executeMachine, agentMachine, Agent.deliver, hdead] at h
    simp [Kills, hnot, hnot']
  | _ =>
    have hmove := memoryMove h
    change (∃ q job, s'.worker = .dead q job ∧ job.pc = .halted .aborted) ↔ _
    generalize s'.memory = m' at hmove
    generalize s'.worker = w' at hmove ⊢
    cases hmove <;> simp [Aborted, Kills]

theorem alive_iff (hrun : (executeMachine C cfg).Run tr s) :
    (∀ t ∈ states tr s, ¬ Aborted t) ↔ ∀ p ∈ tr, ¬ Kills cfg p.1 p.2 := by
  induction hrun with
  | @init s hinit =>
    have hnot : ¬ Aborted s := not_aborted_of_job (by simp [hinit.2.2.2.2.2.2.2.1])
    simp [states, hnot]
  | @step tr s s' a hrun hstep ih =>
    rw [List.forall_mem_cons, ← ih]
    have hsplit : (∀ t ∈ states ((s, a) :: tr) s', ¬ Aborted t) ↔
        ¬ Aborted s' ∧ ∀ t ∈ states tr s, ¬ Aborted t := List.forall_mem_cons
    rw [hsplit, aborted_step_iff hstep, not_or]
    constructor
    · rintro ⟨⟨-, hkills⟩, halive⟩
      exact ⟨hkills, halive⟩
    · rintro ⟨hkills, halive⟩
      exact ⟨⟨halive s List.mem_cons_self, hkills⟩, halive⟩

/-- A packet without a type: vendor specific. -/
def vendorPacket : AQLPacket := { Scan.emptyPacket with header := 0 }

end PhsaRuntime
