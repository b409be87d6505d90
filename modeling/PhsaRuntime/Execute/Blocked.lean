import PhsaRuntime.Execute.Refine
import PhsaRuntime.Scan.Doorbell
import Mathlib.Data.Fintype.Basic

/-!
# Blocked barriers

A scan that comes to an unsatisfied barrier ends, with the sampled doorbell value as
`LastHandledDoorBell`. Until the doorbell is rung again, the worker skips the queue without
looking at the barrier. So a dependency that becomes 0 in the meantime is noticed only if
another packet is rung.

The worker skips a queue with a satisfied barrier as its oldest packet only if this has
happened (`Overlooked`), or if the packet has not been rung yet (`RingPending`): a ring brings the
doorbell a new value, and a scan ends at barriers only, if the size of the queue fits an `int`.
What is left are the writes to signals.

## Main results

* `never_forgotten` — no barrier is forgotten in a run in which no signal satisfies the
  barrier of a queue that waits for a ring, and no doorbell is loaded while the ring of a barrier
  is pending.
* `barrier_forgotten` — a run in which one is.
-/

namespace PhsaRuntime

open Queue

/-! ## Satisfied barriers -/

instance (p : AQLPacket) (signal : Handle → Option ℤ) (i : Fin 5) :
    Decidable (p.depIsZero signal i) :=
  inferInstanceAs (Decidable (_ ∧ _))

instance (p : AQLPacket) (signal : Handle → Option ℤ) : Decidable (p.conditionHolds signal) :=
  inferInstanceAs (Decidable (_ ∨ _))

/-- The oldest published packet that has not been processed. -/
def Queue.Oldest (q : Queue) (i : ℕ) : Prop := q.Waiting i ∧ ∀ j < i, ¬ q.Waiting j

instance (q : Queue) (i : ℕ) : Decidable (q.Waiting i) :=
  inferInstanceAs (Decidable (_ ∧ _))

instance (q : Queue) (i : ℕ) : Decidable (q.Oldest i) :=
  inferInstanceAs (Decidable (_ ∧ _))

/-- The doorbell still has the value that the last scan sampled, and the barrier at which that
scan ended is satisfied. -/
def Overlooked (q : Queue) (signal : Handle → Option ℤ) : Prop :=
  q.doorbell = q.lastHandledDoorBell ∧
    ∃ b ∈ q.history.stopped, (q.history.packet b).conditionHolds signal

instance (q : Queue) (signal : Handle → Option ℤ) : Decidable (Overlooked q signal) :=
  inferInstanceAs (Decidable (_ ∧ _))

variable {cfg : Config} {q q' : Queue} {f : Frame} {slot : ℕ} {pc pc' : Pc}

/-- A worker step that neither samples the doorbell nor ends a scan at a barrier. -/
theorem not_overlooked_same {signal : Handle → Option ℤ} (h : ¬ Overlooked q signal)
    (hfr : WorkerFrame q q') (hlast : q'.lastHandledDoorBell = q.lastHandledDoorBell)
    (hstop : q'.history.stopped = q.history.stopped) : ¬ Overlooked q' signal := by
  simpa only [Overlooked, hfr.doorbell, hfr.packet, hlast, hstop] using h

/-- A producer cannot make a barrier overlooked. -/
theorem not_overlooked_producerStep (hfits : cfg.FitsInt) {p : ProducerAction}
    {signal : Handle → Option ℤ} (hr : (scanMachine cfg).Reachable (RingsOwn cfg) ⟨q, pc⟩)
    (hok : RingsOwn cfg ⟨q, pc⟩ (.producer p)) (hs : Queue.producerStep cfg p q = some q')
    (h : ¬ Overlooked q signal) : ¬ Overlooked q' signal := by
  have hfr := producerStep_frame (q := q) (scanInv_of_reachable hr).ring hs
  rintro ⟨hdoor, b, hb, hcond⟩
  have hstop : q.history.stopped = some b := hfr.stopped.symm.trans hb
  have hpub : q.Published b := ((stopInv_of_reachable hr).stopped b hstop).1
  rw [hfr.packet_of_published hs hpub] at hcond
  exact h ⟨doorbell_of_producerStep hfits hr hok hs hdoor, b, hstop, hcond⟩

/-! ## The end of a scan at a barrier -/

theorem isBarrier_of_conditionHolds {p : AQLPacket} {signal : Handle → Option ℤ}
    (h : p.conditionHolds signal) : isBarrier p.header :=
  h.imp And.left And.left

/-- A dependency that refutes a barrier-AND is not 0. -/
theorem Barrier.verdict_false {kind : Barrier} {v : ℤ} (h : kind.verdict v = some false) :
    kind = .and ∧ v ≠ 0 := by
  cases kind with
  | and =>
    refine ⟨rfl, ?_⟩
    intro hv
    simp [verdict, hv] at h
  | or =>
    simp only [verdict] at h
    split at h <;> cases h

theorem not_conditionHolds_of_dep {p : AQLPacket} {signal : Handle → Option ℤ}
    (hand : packetType p.header = packetTypeBarrierAnd) {i : Fin 5} (hdep : p.depSignal i ≠ 0)
    {v : ℤ} (hsignal : signal (p.depSignal i) = some v) (hv : v ≠ 0) :
    ¬ p.conditionHolds signal := by
  rintro (⟨-, hall⟩ | ⟨hor, -⟩)
  · have hzero := (hall i hdep).2
    rw [hsignal, Option.some.injEq] at hzero
    exact hv hzero
  · rw [hand] at hor
    cases hor

/-- A barrier packet under examination is the one that was published under its index. -/
theorem packet_tag (hinv : ScanInv cfg ⟨q, pc⟩) (hslot : SlotInv cfg q f slot) :
    q.history.packet (q.history.tag slot) = q.packetBuffer slot := by
  have hring : RingInv cfg q := hinv.ring
  obtain ⟨hw, hmod⟩ := hring.tagged slot hslot.slot_lt hslot.valid
  have hbuf := (hring.slot _ hw).2.2
  rw [hmod] at hbuf
  exact hbuf.symm

theorem not_overlooked_settle {env : Env} (hinv : ScanInv cfg ⟨q, pc⟩)
    (hslot : SlotInv cfg q f slot) {signal : Handle → Option ℤ} (h : ¬ Overlooked q signal)
    {ok : Bool} (hok : ok = false → ¬ (q.packetBuffer slot).conditionHolds signal) :
    ¬ Overlooked (settle env q f slot ok).1 signal := by
  cases ok with
  | true => exact h
  | false =>
    rintro ⟨-, b, hb, hcond⟩
    obtain rfl : q.history.tag slot = b := Option.some.inj hb
    have hpacket := packet_tag hinv hslot
    change (q.history.packet (q.history.tag slot)).conditionHolds signal at hcond
    rw [hpacket] at hcond
    exact hok rfl hcond

/-- An evaluation ends at a barrier that is not satisfied; for a barrier-OR whose
dependencies are read one after the other, this has to be said. -/
theorem not_overlooked_evaluate {env : Env} {kind : Barrier} {i : ℕ}
    (hinv : ScanInv cfg ⟨q, .barrier kind f slot i⟩)
    (hstop : StopInv ⟨q, .barrier kind f slot i⟩) (h : ¬ Overlooked q env.signal)
    (hor : kind = .or → 5 ≤ i → ¬ (q.packetBuffer slot).conditionHolds env.signal)
    (hev : Evaluated env q kind f slot i q' pc') : ¬ Overlooked q' env.signal := by
  have hslot : SlotInv cfg q f slot := hinv.pc
  cases hev with
  | null | dead | undecided => exact h
  | decided hi hdep v ok hsignal hverdict =>
    apply not_overlooked_settle hinv hslot h
    rintro rfl
    obtain ⟨rfl, hv⟩ := Barrier.verdict_false hverdict
    exact not_conditionHolds_of_dep (hstop.kind _ f slot i rfl) hdep hsignal hv
  | exhausted hi =>
    apply not_overlooked_settle hinv hslot h
    intro hexhausted
    cases kind with
    | and => cases hexhausted
    | or => exact hor rfl hi

/-- What the worker does at a queue makes no barrier of it overlooked. -/
theorem not_overlooked_workerStep {env : Env} (hinv : ScanInv cfg ⟨q, pc⟩)
    (hstop : StopInv ⟨q, pc⟩)
    (hor : ∀ f slot i, pc = .barrier .or f slot i → 5 ≤ i →
      ¬ (q.packetBuffer slot).conditionHolds env.signal)
    (hs : workerStep cfg env q pc = some (q', pc')) (h : ¬ Overlooked q env.signal) :
    ¬ Overlooked q' env.signal := by
  have hfr := workerStep_frame hs
  cases pc with
  | away | halted _ => cases hs
  | sample =>
    simp only [workerStep] at hs
    split at hs <;> cases hs
    · exact h
    · rintro ⟨-, b, hb, -⟩
      cases hb
  | barrier kind f slot i =>
    have hor' : kind = .or → 5 ≤ i → ¬ (q.packetBuffer slot).conditionHolds env.signal :=
      fun hkind => hor f slot i (by rw [hkind])
    exact not_overlooked_evaluate hinv hstop h hor' (evaluated_step hs)
  | launch f slot completion groupMemory =>
    cases launchMove_step hs with
    | aligned | moved | callback => exact not_overlooked_same h hfr rfl rfl
    | aborted => exact h
  | retired f slot completion =>
    simp only [workerStep] at hs
    split at hs <;> cases hs <;> exact not_overlooked_same h hfr rfl rfl
  | loadReadIndex | loadWriteIndex _ | head _ | dispatch _ _ | running _ _ _ _ _
  | freeGroup _ _ _ _ | complete _ _ =>
    cases hs
    exact h
  | advance f slot | retire f slot completion =>
    cases hs
    exact not_overlooked_same h hfr rfl rfl

/-! ## Runs of the worker -/

section Runs

variable {Q C : Type} [DecidableEq Q] [DecidableEq C] {cfg : Q → Config}

/-- No barrier of a queue that is not inactivated is overlooked with the given signals. -/
def NoneOverlooked (s : ExecState Q C) (signal : Handle → Option ℤ) : Prop :=
  ∀ q, s.inactivated q = false → ¬ Overlooked (s.memory.queue q) signal

/-- The producer of a barrier packet is between its header store and its ring. -/
def RingPending (q : Queue) : Prop :=
  ∃ i < q.writeIndex, q.producer i = .published ∧ isBarrier (q.history.packet i).header

instance (q : Queue) : Decidable (RingPending q) :=
  inferInstanceAs (Decidable (∃ i < q.writeIndex, _ ∧ _))

/-- The doorbell is not loaded while the ring of a barrier packet is pending, a barrier-OR does not
become satisfied under its evaluation, and no completion signal satisfies the barrier of a queue
that waits for a ring. -/
def WorkerAttends (s : ExecState Q C) (q : Q) : Pc → Prop
  | .sample => ¬ RingPending (s.memory.queue q)
  | .barrier .or _ slot i =>
      5 ≤ i → ¬ ((s.memory.queue q).packetBuffer slot).conditionHolds s.memory.signal
  | .complete f completion =>
      NoneOverlooked s (signalAfter s.memory.signal (.complete f completion))
  | _ => True

/-- Producers follow the doorbell protocol, the worker attends to their barriers, no signal
satisfies the barrier of a queue that waits for a ring, and the worker is taken away from
inactivated queues only. -/
def Attended (cfg : Q → Config) (s : ExecState Q C) : ExecAction Q C → Prop
  | .worker _ => ∀ j ∈ s.worker.job, j.2.ops = [] → WorkerAttends s j.1 j.2.pc
  | .environment (.producer q p) => RingsOwn (cfg q) (scanState q s) (.producer p)
  | .environment (.signal h value) => NoneOverlooked s (Function.update s.memory.signal h value)
  | .deliver => ∀ j ∈ s.worker.job, s.inactivated j.1 = true
  | _ => True

section Decide

variable [Fintype Q]

instance (s : ExecState Q C) (signal : Handle → Option ℤ) : Decidable (NoneOverlooked s signal) :=
  inferInstanceAs (Decidable (∀ _, _ → ¬ _))

instance (s : ExecState Q C) (q : Q) : (pc : Pc) → Decidable (WorkerAttends s q pc)
  | .sample => inferInstanceAs (Decidable (¬ RingPending _))
  | .barrier .or _ _ _ => inferInstanceAs (Decidable (_ → ¬ _))
  | .complete _ _ => inferInstanceAs (Decidable (NoneOverlooked _ _))
  | .away | .loadReadIndex | .loadWriteIndex _ | .head _ | .advance _ _ | .barrier .and _ _ _
  | .dispatch _ _ | .launch _ _ _ _ | .running _ _ _ _ _ | .freeGroup _ _ _ _ | .retire _ _ _
  | .retired _ _ _ | .halted _ => .isTrue trivial

instance (s : ExecState Q C) : (a : ExecAction Q C) → Decidable (Attended cfg s a)
  | .worker _ => inferInstanceAs (Decidable (∀ j ∈ s.worker.job, j.2.ops = [] → _))
  | .environment (.producer _ _) => inferInstanceAs (Decidable (RingsOwn _ _ _))
  | .environment (.signal _ _) => inferInstanceAs (Decidable (NoneOverlooked _ _))
  | .deliver => inferInstanceAs (Decidable (∀ j ∈ s.worker.job, _))
  | .call _ _ | .client _ | .register _ | .destroy _ | .shutDown => .isTrue trivial

end Decide

/-- Each queue that is not inactivated is scanned by the scan machine. -/
theorem scan_reachable_of_attended {s : ExecState Q C} {q : Q}
    (h : (executeMachine C cfg).Reachable (Attended cfg) s) (hin : s.inactivated q = false) :
    (scanMachine (cfg q)).Reachable (RingsOwn (cfg q)) (scanState q s) := by
  refine scan_reachable ?_ ?_ h hin
  · intro t t' _ hok hs hact
    cases hw : t.worker with
    | process q' rest job =>
      rw [Worker.pcAt_process, if_neg]
      rintro rfl
      have hin : t.inactivated q' = true := hok (q', job) (by rw [hw]; rfl)
      rw [hact] at hin
      cases hin
    | dead q' job => simp [executeMachine, agentMachine, Agent.deliver, hw] at hs
    | landing | landingFlag | head | getQueues | pass _ | next _ | test _ _ | wait
    | checkInactivated _ _ | checkDestroyed _ _ | exited => rfl
  · intro t a b hok hb
    cases hb with
    | producer p => exact hok
    | enter r | worker r env => exact ⟨fun _ => trivial, fun _ => trivial⟩

omit [DecidableEq C] in
/-- A step of the scan of `q'`, for the barriers of all queues. -/
theorem noneOverlooked_scan {s : ExecState Q C} {q q' : Q} {rest : List Q}
    {closing : List LockOp} {pc pc' : Pc}
    {r : Reply} {queue : Queue}
    (hreach : (scanMachine (cfg q)).Reachable (RingsOwn (cfg q)) (scanState q s))
    (hin : s.inactivated q = false) (hok : WorkerAttends s q' pc)
    (hw : s.worker = .process q' rest { ops := [], closing, pc })
    (hstep : workerStep (cfg q') (s.memory.env r) (s.memory.queue q') pc = some (queue, pc'))
    (h : ¬ Overlooked (s.memory.queue q) s.memory.signal) :
    ¬ Overlooked (Function.update s.memory.queue q' queue q) (signalAfter s.memory.signal pc) := by
  by_cases hcomplete : ∃ f completion, pc = .complete f completion
  · obtain ⟨f, completion, rfl⟩ := hcomplete
    have hsame : Function.update s.memory.queue q' queue = s.memory.queue := by
      cases hstep
      exact Function.update_eq_self ..
    rw [hsame]
    exact hok q hin
  · have hsignal : signalAfter s.memory.signal pc = s.memory.signal := by
      cases pc with
      | complete f completion => exact absurd ⟨f, completion, rfl⟩ hcomplete
      | _ => rfl
    rw [hsignal]
    by_cases hq : q = q'
    · subst hq
      have hstate : scanState q s = ⟨s.memory.queue q, pc⟩ := by simp [scanState, hw]
      rw [hstate] at hreach
      rw [Function.update_self]
      refine not_overlooked_workerStep (scanInv_of_reachable hreach)
        (stopInv_of_reachable hreach) ?_ hstep h
      rintro f slot i rfl hi
      exact hok hi
    · rw [Function.update_of_ne hq]
      exact h

/-- **No barrier is overlooked.** -/
theorem noneOverlooked_of_reachable (hfits : ∀ q, (cfg q).FitsInt) {s : ExecState Q C}
    (h : (executeMachine C cfg).Reachable (Attended cfg) s) :
    NoneOverlooked s s.memory.signal := by
  refine h.induction (P := fun s => NoneOverlooked s s.memory.signal) ?_ ?_
  · rintro s ⟨⟨hqueue, -⟩, -⟩ q -
    obtain ⟨buffer, hbuffer⟩ := hqueue q
    rw [hbuffer]
    rintro ⟨-, b, hb, -⟩
    cases hb
  · intro s a s' hr hok hs ih q hin'
    have hin := inactivated_mono hs hin'
    have hreach := scan_reachable_of_attended hr hin
    have hold := ih q hin
    have hmove := memoryMove hs
    generalize s'.memory = m' at hmove
    generalize s'.worker = w' at hmove
    cases hmove with
    | work r q' rest job _ p hw hp =>
      cases jobMove hp with
      | op => exact hold
      | scan closing pc pc' queue hstep =>
        have hattends : WorkerAttends s q' pc := hok (q', _) (by rw [hw]; rfl) rfl
        exact noneOverlooked_scan hreach hin hattends hw hstep hold
    | control | deliver | other => exact hold
    | environment e m he =>
      cases externalMove he with
      | signal h value => exact hok q hin
      | producer q' p queue hqueue =>
        change ¬ Overlooked (Function.update s.memory.queue q' queue q) s.memory.signal
        by_cases hq : q = q'
        · subst hq
          rw [Function.update_self]
          exact not_overlooked_producerStep (hfits q) hreach hok hqueue hold
        · rw [Function.update_of_ne hq]
          exact hold

/-- A step of the worker that skips a queue because of its doorbell, although the oldest
packet of the queue is a satisfied barrier. -/
def Forgets (s : ExecState Q C) (a : ExecAction Q C) : Prop :=
  ∃ r q i, a = .worker r ∧ AtStep s q .sample ∧ s.inactivated q = false ∧
    s.destroyed q = false ∧
    (s.memory.queue q).doorbell = (s.memory.queue q).lastHandledDoorBell ∧
    (s.memory.queue q).Oldest i ∧
    ((s.memory.queue q).history.packet i).conditionHolds s.memory.signal

/-- The oldest packet of a queue that is skipped, if it has been rung, is the barrier at
which the last scan ended. -/
theorem stopped_of_oldest {cfg : Config} {q : Queue} {i : ℕ} (hfits : cfg.FitsInt)
    (h : (scanMachine cfg).Reachable (RingsOwn cfg) ⟨q, .sample⟩)
    (hskip : q.doorbell = q.lastHandledDoorBell) (hold : q.Oldest i)
    (hrung : q.producer i = .rung) : q.history.stopped = some i := by
  obtain ⟨hwait, hfirst⟩ := hold
  rcases skip_cases hfits h hskip with ⟨hproc, -⟩ | ⟨b, hb, hnot, hle⟩
  · exact absurd (hproc i hrung) hwait.2
  · have hpub : q.Published b := ((stopInv_of_reachable h).stopped b hb).1
    have hbi : b ≤ i := hle i hrung hwait.2
    have hib : ¬ b < i := fun hlt => hfirst b hlt ⟨hpub, hnot⟩
    rw [hb, le_antisymm hbi (not_lt.mp hib)]

theorem not_forgets (hfits : ∀ q, (cfg q).FitsInt) {s : ExecState Q C}
    {a : ExecAction Q C} (hr : (executeMachine C cfg).Reachable (Attended cfg) s)
    (hok : Attended cfg s a) : ¬ Forgets s a := by
  rintro ⟨r, q, i, rfl, ⟨rest, closing, hw⟩, hin, -, hskip, hold, hcond⟩
  have hreach := scan_reachable_of_attended hr hin
  have hstate : scanState q s = ⟨s.memory.queue q, .sample⟩ := by simp [scanState, hw]
  rw [hstate] at hreach
  have hring : RingInv (cfg q) (s.memory.queue q) := (scanInv_of_reachable hreach).ring
  have hattends : WorkerAttends s q .sample := hok (q, _) (by rw [hw]; rfl) rfl
  have hrung : (s.memory.queue q).producer i = .rung := by
    refine hold.1.1.resolve_left fun hpublished => hattends ?_
    exact ⟨i, hring.lt_writeIndex hold.1.1, hpublished, isBarrier_of_conditionHolds hcond⟩
  have hstop := stopped_of_oldest (hfits q) hreach hskip hold hrung
  exact noneOverlooked_of_reachable hfits hr q hin ⟨hskip, i, hstop, hcond⟩

/-- **A blocked barrier is never forgotten** in a run in which no signal satisfies the barrier
of a queue that waits for a ring, no doorbell is loaded while the ring of a barrier is pending, and
all sizes fit an `int`. -/
theorem never_forgotten (hfits : ∀ q, (cfg q).FitsInt)
    {tr : List (ExecState Q C × ExecAction Q C)} {s : ExecState Q C}
    (hrun : (executeMachine C cfg).Run tr s) (hok : ∀ p ∈ tr, Attended cfg p.1 p.2) :
    ∀ p ∈ tr, ¬ Forgets p.1 p.2 := by
  intro p hp
  exact not_forgets hfits (hrun.reachable_of_mem hok hp) (hok p hp)

/-- A barrier-AND that waits for the signal with handle 1. -/
def blockedPacket : AQLPacket := { Scan.barrierPacket with depSignal := fun _ => 1 }

/-- The value of the signal with handle 1 is 1; no other signal is registered. -/
def blockedSignal (h : Handle) : Option ℤ := if h = 1 then some 1 else none

/-- A second packet is rung before the dependency becomes 0: the next scan goes on with the
barrier, and the one after that skips the queue. -/
theorem never_forgotten_rung : ∃ (tr : List (ExecState Unit Unit × ExecAction Unit Unit))
    (s : ExecState Unit Unit), (∀ p ∈ tr, ¬ Forgets p.1 p.2) ∧
      (s.memory.queue ()).history.processed = [0, 1] := by
  obtain ⟨s, ⟨tr, hrun, htr⟩, hp⟩ := Machine.exists_reachable_of_run
    (executeMachine Unit Exec.config) (Attended Exec.config)
    ([.register ()] ++ Exec.submit () 0 blockedPacket ++ Exec.work 18 ++
      Exec.submit () 1 Scan.emptyPacket ++ [.environment (.signal 1 (some 0))] ++ Exec.work 60)
    (fun s => (s.memory.queue ()).history.processed = [0, 1])
    (Exec.init_start _ blockedSignal) (by decide +kernel)
  exact ⟨tr, s, never_forgotten (by decide) hrun htr, of_decide_eq_true hp⟩

/-- The dependency becomes 0 after the scan, and the next pass skips the queue. -/
theorem barrier_forgotten : ∃ (tr : List (ExecState Unit Unit × ExecAction Unit Unit))
    (s : ExecState Unit Unit), (executeMachine Unit Exec.config).Run tr s ∧
      ∃ p ∈ tr, Forgets p.1 p.2 := by
  obtain ⟨s, ⟨tr, hrun, -⟩, hp⟩ := Machine.exists_reachable_of_run
    (executeMachine Unit Exec.config) Machine.always
    ([.register ()] ++ Exec.submit () 0 blockedPacket ++ Exec.work 28 ++
      [.environment (.signal 1 (some 0))])
    (fun s => Exec.isSampling () s && s.inactivated () = false && s.destroyed () = false &&
      (s.memory.queue ()).doorbell = (s.memory.queue ()).lastHandledDoorBell &&
      (s.memory.queue ()).Oldest 0 &&
      ((s.memory.queue ()).history.packet 0).conditionHolds s.memory.signal &&
      ((executeMachine Unit Exec.config).step (.worker Exec.reply) s).isSome)
    (Exec.init_start _ blockedSignal) (by decide +kernel)
  simp only [Bool.and_eq_true, decide_eq_true_eq] at hp
  obtain ⟨⟨⟨⟨⟨⟨hsample, hin⟩, hdestroyed⟩, hskip⟩, hold⟩, hcond⟩, hstep⟩ := hp
  obtain ⟨s', hs'⟩ := Option.isSome_iff_exists.mp hstep
  have hforgets : Forgets s (.worker Exec.reply) :=
    ⟨Exec.reply, (), 0, rfl, Exec.atStep_of_isSampling hsample, hin, hdestroyed, hskip, hold,
      hcond⟩
  exact ⟨_, s', hrun.step hs', _, List.mem_cons_self, hforgets⟩

end Runs

end PhsaRuntime
