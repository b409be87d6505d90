import PhsaRuntime.Agent.Pass
import PhsaRuntime.Execute.Blocked
import PhsaRuntime.Execute.Packet

/-!
# The evaluation of a barrier packet

The dependencies of a barrier packet are read one after the other, while anybody may write them,
and the first one that decides ends the reading. So the outcome depends on the values at different
times; it is the condition of the packet for the values that were read.

## Main results

* `barrier_evaluated` — the packet is completed if and only if the values that were read satisfy
  it; otherwise nothing is changed, and the worker is done with the queue in this pass.
-/

namespace PhsaRuntime

open Machine

variable {Q C : Type}

/-! ## The values that are read -/

/-- The dependency that a step reads, with its value. -/
def dependencyRead [DecidableEq Q] (q : Q) (s : ExecState Q C) :
    ExecAction Q C → Option (Fin 5 × ℤ)
  | .worker _ =>
    match s.worker with
    | .process q' _ { ops := [], closing := _, pc := .barrier _ _ slot i } =>
      if h : q' = q ∧ i < 5 then
        let dep := ((s.memory.queue q).packetBuffer slot).depSignal ⟨i, h.2⟩
        if dep = 0 then none else (s.memory.signal dep).map fun v => (⟨i, h.2⟩, v)
      else none
    | _ => none
  | _ => none

/-- The dependencies of the barrier packets of `q` that are read in a run, latest first. -/
def dependencyReads [DecidableEq Q] (q : Q) (tr : List (ExecState Q C × ExecAction Q C)) :
    List (Fin 5 × ℤ) :=
  tr.filterMap fun step => dependencyRead q step.1 step.2

/-- The condition of a barrier packet for the values that were read: each non-null dependency was
read as 0, or some one was. Null dependencies are not read. -/
def AQLPacket.readsSatisfy (p : AQLPacket) (reads : List (Fin 5 × ℤ)) : Barrier → Prop
  | .and => ∀ i, p.depSignal i ≠ 0 → (i, 0) ∈ reads
  | .or => ∃ i, (i, 0) ∈ reads

/-- As long as the packet is evaluated, its dependencies are live signals. -/
def DependenciesLive (q : Q) (rest : List Q) (kind : Barrier) (f : Frame) (slot : ℕ)
    (p : AQLPacket) (tr : List (ExecState Q C × ExecAction Q C)) : Prop :=
  ∀ t a, (t, a) ∈ tr → ∀ i, Before t q rest (.barrier kind f slot i) →
    ∀ j, p.depSignal j ≠ 0 → (t.memory.signal (p.depSignal j)).isSome

/-! ## The outcome -/

/-- The worker is done with the queue, and its steps have left everything as it was. -/
structure BlockedAt [DecidableEq Q] [DecidableEq C] (cfg : Q → Config) (q : Q) (rest : List Q)
    (tr : List (ExecState Q C × ExecAction Q C)) (s : ExecState Q C) : Prop where
  worker : s.worker = .next rest
  untouched : ∀ t r u, (t, .worker r) ∈ tr →
    (executeMachine C cfg).step (.worker r) t = some u → Untouched t.memory u.memory

/-- What the evaluation of the barrier packet `p` comes to. -/
structure BarrierEvaluated [DecidableEq Q] [DecidableEq C] (cfg : Q → Config) (q : Q)
    (rest : List Q) (kind : Barrier) (slot : ℕ) (p : AQLPacket)
    (tr : List (ExecState Q C × ExecAction Q C)) (s : ExecState Q C) : Prop where
  type : packetType p.header = kind.packetType
  completes_iff : Completes cfg q rest slot p tr s ↔ p.readsSatisfy (dependencyReads q tr) kind
  /-- If a barrier-AND is not satisfied, a dependency has been read that is not 0. -/
  refuted : ¬ p.readsSatisfy (dependencyReads q tr) kind → kind = .and →
    ∃ read ∈ dependencyReads q tr, read.2 ≠ 0
  blocked : ¬ p.readsSatisfy (dependencyReads q tr) kind → BlockedAt cfg q rest tr s
  /-- Until the worker takes the queues of its next pass, it does not come to `q` again. -/
  once : BlockedAt cfg q rest tr s → ∀ tr' s', ((executeMachine C cfg).startingAt s).Run tr' s' →
    (∀ step ∈ tr', step.1.worker ≠ .getQueues) → ∀ rest' pc, ¬ Before s' q rest' pc

/-! ## Runs -/

variable [DecidableEq Q] [DecidableEq C] {cfg : Q → Config} {q : Q} {rest : List Q}
  {s₀ s : ExecState Q C} {tr : List (ExecState Q C × ExecAction Q C)} {kind : Barrier} {f : Frame}
  {slot i : ℕ} {p : AQLPacket} {pc pc' : Pc} {t u : ExecState Q C} {r : Reply} {queue : Queue}
  {earlier later : List (ExecState Q C × ExecAction Q C)}

omit [DecidableEq C] in
theorem dependencyRead_of_atStep (hat : AtStep t q (.barrier kind f slot i))
    (hp : (t.memory.queue q).packetBuffer slot = p) :
    dependencyRead q t (.worker r) =
      if hi : i < 5 then
        if p.depSignal ⟨i, hi⟩ = 0 then none
        else (t.memory.signal (p.depSignal ⟨i, hi⟩)).map fun v => (⟨i, hi⟩, v)
      else none := by
  obtain ⟨rest', closing, hw⟩ := hat
  subst hp
  simp [dependencyRead, hw]

/-- Only a step of the scan reads a dependency. -/
theorem dependencyReads_idle (h : Idle cfg q tr) : dependencyReads q tr = [] := by
  refine List.filterMap_eq_nil_iff.mpr ?_
  rintro ⟨t, a⟩ hmem
  cases a with
  | worker r =>
    have hnot := (h t r hmem).1
    cases hw : t.worker with
    | process q' rest job =>
      obtain ⟨ops, closing, pc⟩ := job
      simp only [dependencyRead, hw]
      split
      · rename_i heq
        cases heq
        rw [dif_neg]
        rintro ⟨rfl, -⟩
        exact hnot _ ⟨rest, _, hw⟩
      · rfl
    | _ => simp [dependencyRead, hw]
  | _ => rfl

/-- The reads of a run, at its first step of the scan. -/
theorem dependencyReads_scanned
    (h : Scanned C cfg q rest pc s₀ tr s t u r queue pc' earlier later) :
    dependencyReads q tr =
      dependencyReads q later ++ (dependencyRead q t (.worker r)).toList := by
  have hidle := dependencyReads_idle h.idle
  simp only [dependencyReads] at hidle
  rw [h.trace, dependencyReads, List.filterMap_append, List.filterMap_cons, hidle]
  cases dependencyRead q t (.worker r) <;> rfl

/-- The evaluation changes nothing. -/
theorem untouched_evaluated
    (h : Scanned C cfg q rest (.barrier kind f slot i) s₀ tr s t u r queue pc' earlier later) :
    Untouched t.memory u.memory := by
  have hsettle : ∀ ok, SameRing (t.memory.queue q)
      (settle (t.memory.env r) (t.memory.queue q) f slot ok).1 := by
    intro ok
    cases ok <;> exact .history _ rfl rfl rfl
  have hsame : SameRing (t.memory.queue q) queue := by
    cases evaluated_step h.workerStep with
    | null | dead | undecided => exact .refl _
    | decided | exhausted => exact hsettle _
  rw [h.memory]
  refine ⟨fun q' => ?_, fun q' => ?_, fun q' => ?_, rfl⟩
  all_goals
    by_cases hq : q' = q
    · subst hq
      simp [Memory.scanned, hsame.packetBuffer, hsame.readIndex, hsame.packetIsProcessed]
    · simp [Memory.scanned, hq]

/-- A run that blocks, from a step of the evaluation on. -/
theorem BlockedAt.scanned (h : BlockedAt cfg q rest later s)
    (hscan : Scanned C cfg q rest (.barrier kind f slot i) s₀ tr s t u r queue pc' earlier later) :
    BlockedAt cfg q rest tr s := by
  refine ⟨h.worker, fun t' r' u' hmem hstep => ?_⟩
  rw [hscan.trace, List.mem_append, List.mem_cons] at hmem
  rcases hmem with hmem | heq | hmem
  · exact h.untouched t' r' u' hmem hstep
  · cases heq
    rw [hscan.step] at hstep
    exact Option.some.inj hstep ▸ untouched_evaluated hscan
  · exact (hscan.idle t' r' hmem).2 u' hstep

/-- The condition for the dependencies from `i` on. -/
def ReadsFrom (p : AQLPacket) (i : ℕ) (reads : List (Fin 5 × ℤ)) : Barrier → Prop
  | .and => ∀ j : Fin 5, i ≤ j → p.depSignal j ≠ 0 → (j, 0) ∈ reads
  | .or => ∃ j, (j, 0) ∈ reads

/-- What has become of the packet at the end of the run. -/
def Settled (cfg : Q → Config) (q : Q) (rest : List Q) (kind : Barrier) (slot i : ℕ)
    (p : AQLPacket) (tr : List (ExecState Q C × ExecAction Q C)) (s : ExecState Q C) : Prop :=
  ReadsFrom p i (dependencyReads q tr) kind ∧ Completes cfg q rest slot p tr s ∨
    ¬ ReadsFrom p i (dependencyReads q tr) kind ∧ BlockedAt cfg q rest tr s ∧
      (kind = .and → ∃ read ∈ dependencyReads q tr, read.2 ≠ 0)

/-- A satisfied barrier is completed. -/
theorem completes_of_settle
    (h : Scanned C cfg q rest (.barrier kind f slot i) s₀ tr s t u r queue pc' earlier later)
    (hp : (t.memory.queue q).packetBuffer slot = p)
    (hsettle : settle (t.memory.env r) (t.memory.queue q) f slot true = (queue, pc'))
    (hend : s.worker.inPacket q = false) : Completes cfg q rest slot p tr s := by
  cases hsettle
  have hdone := (completed h.reachable (h.before rfl) h.run hend).1
  rw [hp] at hdone
  exact hdone.found h

/-- A barrier that is not satisfied ends the scan. -/
theorem blocked_of_settle
    (h : Scanned C cfg q rest (.barrier kind f slot i) s₀ tr s t u r queue pc' earlier later)
    (hsettle : settle (t.memory.env r) (t.memory.queue q) f slot false = (queue, pc')) :
    BlockedAt cfg q rest tr s ∧ later = [] := by
  have haway : pc' = .away := congrArg Prod.snd hsettle.symm
  obtain ⟨closing, hu⟩ := h.worker
  rw [haway] at hu
  obtain ⟨rfl, rfl⟩ := eq_of_not_inPacket h.run (by rw [hu]; rfl)
  have hnil : BlockedAt cfg q rest [] s := ⟨hu, by simp⟩
  exact ⟨hnil.scanned h, rfl⟩

theorem Barrier.verdict_eq_some {v : ℤ} {ok : Bool} (h : kind.verdict v = some ok) :
    kind = .and ∧ v ≠ 0 ∧ ok = false ∨ kind = .or ∧ v = 0 ∧ ok = true := by
  cases kind <;> simpa [verdict, and_comm, eq_comm] using h

theorem Barrier.verdict_eq_none {v : ℤ} (h : kind.verdict v = none) :
    kind = .and ∧ v = 0 ∨ kind = .or ∧ v ≠ 0 := by
  cases kind <;> simpa [verdict] using h

/-- A dependency that does not decide: it is null, or its value is the one that goes on. -/
theorem readsFrom_succ {reads : List (Fin 5 × ℤ)} {read : Option (Fin 5 × ℤ)} (hi : i < 5)
    (hread : p.depSignal ⟨i, hi⟩ = 0 ∧ read = none ∨
      ∃ v, read = some (⟨i, hi⟩, v) ∧ kind.verdict v = none) :
    ReadsFrom p i (reads ++ read.toList) kind ↔ ReadsFrom p (i + 1) reads kind := by
  rcases hread with ⟨hnull, rfl⟩ | ⟨v, rfl, hverdict⟩
  · rw [Option.toList_none, List.append_nil]
    cases kind with
    | or => exact Iff.rfl
    | and =>
      refine ⟨fun h j hj => h j (by omega), fun h j hj hdep => h j ?_ hdep⟩
      rcases Nat.eq_or_lt_of_le hj with heq | hlt
      · have hji : j = ⟨i, hi⟩ := Fin.ext heq.symm
        exact absurd hnull (hji ▸ hdep)
      · exact hlt
  · rw [Option.toList_some]
    rcases Barrier.verdict_eq_none hverdict with ⟨rfl, rfl⟩ | ⟨rfl, hv⟩
    · refine ⟨fun h j hj hdep => ?_, fun h j hj hdep => ?_⟩
      · have hmem := h j (by omega) hdep
        have hne : j ≠ ⟨i, hi⟩ := by
          rintro rfl
          simp only at hj
          omega
        simpa [hne] using hmem
      · rcases Nat.eq_or_lt_of_le hj with heq | hlt
        · have hji : j = ⟨i, hi⟩ := Fin.ext heq.symm
          simp [hji]
        · exact List.mem_append_left _ (h j hlt hdep)
    · simp [ReadsFrom, hv.symm]

/-- The evaluation goes on with the next dependency. -/
theorem settled_succ (hi : i < 5)
    (h : Scanned C cfg q rest (.barrier kind f slot i) s₀ tr s t u r (t.memory.queue q)
      (.barrier kind f slot (i + 1)) earlier later)
    (hread : p.depSignal ⟨i, hi⟩ = 0 ∧ dependencyRead q t (.worker r) = none ∨
      ∃ v, dependencyRead q t (.worker r) = some (⟨i, hi⟩, v) ∧ kind.verdict v = none)
    (hlater : Settled cfg q rest kind slot (i + 1) p later s) :
    Settled cfg q rest kind slot i p tr s := by
  rw [Settled, dependencyReads_scanned h, readsFrom_succ hi hread]
  rcases hlater with ⟨hsatisfied, hdone⟩ | ⟨hnot, hblocked, hrefuted⟩
  · exact .inl ⟨hsatisfied, hdone.scanned h⟩
  · refine .inr ⟨hnot, hblocked.scanned h, fun hand => ?_⟩
    obtain ⟨read, hmem, hne⟩ := hrefuted hand
    exact ⟨read, List.mem_append_left _ hmem, hne⟩

/-- A dependency decides. -/
theorem settled_decided {v : ℤ} {ok : Bool} (hi : i < 5)
    (h : Scanned C cfg q rest (.barrier kind f slot i) s₀ tr s t u r queue pc' earlier later)
    (hp : (t.memory.queue q).packetBuffer slot = p) (hdep : p.depSignal ⟨i, hi⟩ ≠ 0)
    (hread : dependencyRead q t (.worker r) = some (⟨i, hi⟩, v))
    (hverdict : kind.verdict v = some ok)
    (hsettle : settle (t.memory.env r) (t.memory.queue q) f slot ok = (queue, pc'))
    (hend : s.worker.inPacket q = false) : Settled cfg q rest kind slot i p tr s := by
  have hreads := dependencyReads_scanned h
  rw [hread, Option.toList_some] at hreads
  rcases Barrier.verdict_eq_some hverdict with ⟨rfl, hv, rfl⟩ | ⟨rfl, rfl, rfl⟩
  · obtain ⟨hblocked, rfl⟩ := blocked_of_settle h hsettle
    refine .inr ⟨fun hall => hv ?_, hblocked, fun _ => ⟨(⟨i, hi⟩, v), ?_, hv⟩⟩
    · have hmem := hall ⟨i, hi⟩ le_rfl hdep
      rw [hreads] at hmem
      simpa [dependencyReads, eq_comm] using hmem
    · rw [hreads]
      exact List.mem_append_right _ List.mem_cons_self
  · refine .inl ⟨⟨⟨i, hi⟩, ?_⟩, completes_of_settle h hp hsettle hend⟩
    rw [hreads]
    exact List.mem_append_right _ List.mem_cons_self

/-- No dependency has decided. -/
theorem settled_exhausted (hi : 5 ≤ i)
    (h : Scanned C cfg q rest (.barrier kind f slot i) s₀ tr s t u r queue pc' earlier later)
    (hp : (t.memory.queue q).packetBuffer slot = p)
    (hread : dependencyRead q t (.worker r) = none)
    (hsettle : settle (t.memory.env r) (t.memory.queue q) f slot kind.exhausted = (queue, pc'))
    (hend : s.worker.inPacket q = false) : Settled cfg q rest kind slot i p tr s := by
  cases kind with
  | and =>
    refine .inl ⟨fun j hj => ?_, completes_of_settle h hp hsettle hend⟩
    omega
  | or =>
    obtain ⟨hblocked, rfl⟩ := blocked_of_settle h hsettle
    refine .inr ⟨?_, hblocked, by simp⟩
    rw [dependencyReads_scanned h, hread]
    simp [ReadsFrom, dependencyReads]

/-- **The evaluation** from dependency `i` on. -/
theorem evaluated_from (hr : (executeMachine C cfg).Reachable always s₀)
    (hbefore : Before s₀ q rest (.barrier kind f slot i))
    (hp : (s₀.memory.queue q).packetBuffer slot = p)
    (hrun : (packetMachine C cfg q s₀).Run tr s) (hend : s.worker.inPacket q = false)
    (hlive : DependenciesLive q rest kind f slot p tr) :
    Settled cfg q rest kind slot i p tr s := by
  induction hn : 5 - i using Nat.strong_induction_on generalizing i s₀ tr with
  | h n ih =>
    obtain ⟨t, u, r, queue, pc', earlier, later, h⟩ := exists_scan hr hbefore rfl hrun hend
    have hvalid := (hbefore.branch hr rfl).1
    have hpt : (t.memory.queue q).packetBuffer slot = p :=
      ((h.waits.queue.slot slot hvalid).1).trans hp
    have hread := dependencyRead_of_atStep (r := r) h.atStep hpt
    -- the rest of the evaluation, where this dependency does not decide
    have hrest : ∀ hi : i < 5, queue = t.memory.queue q → pc' = .barrier kind f slot (i + 1) →
        Settled cfg q rest kind slot (i + 1) p later s := by
      rintro hi rfl rfl
      refine ih (5 - (i + 1)) (by omega) h.reachable (h.before rfl) ?_ h.run ?_ rfl
      · rw [h.memory]
        simpa [Memory.scanned] using hpt
      · intro t' a hmem j hbefore'
        refine hlive t' a ?_ j hbefore'
        rw [h.trace]
        exact List.mem_append_left _ hmem
    have hev := evaluated_step h.workerStep
    cases hev with
    | null hi hdep =>
      rw [hpt] at hdep
      refine settled_succ hi h (.inl ⟨hdep, ?_⟩) (hrest hi rfl rfl)
      rw [hread, dif_pos hi, if_pos hdep]
    | dead hi hdep hsignal =>
      rw [hpt] at hdep hsignal
      obtain ⟨closing, hw⟩ := h.job
      have hmem : (t, .worker r) ∈ tr := by simp [h.trace]
      have hsome := hlive t _ hmem i ⟨[], closing, hw⟩ _ hdep
      change t.memory.signal _ = none at hsignal
      rw [hsignal] at hsome
      cases hsome
    | undecided hi hdep v hsignal hverdict =>
      rw [hpt] at hdep hsignal
      refine settled_succ hi h (.inr ⟨v, ?_, hverdict⟩) (hrest hi rfl rfl)
      change t.memory.signal _ = some v at hsignal
      rw [hread, dif_pos hi, if_neg hdep, hsignal, Option.map_some]
    | decided hi hdep v ok hsignal hverdict =>
      rw [hpt] at hdep hsignal
      change t.memory.signal _ = some v at hsignal
      rw [dif_pos hi, if_neg hdep, hsignal, Option.map_some] at hread
      exact settled_decided hi h hpt hdep hread hverdict rfl hend
    | exhausted hi =>
      rw [dif_neg (not_lt.mpr hi)] at hread
      exact settled_exhausted hi h hpt hread rfl hend

theorem readsFrom_zero {reads : List (Fin 5 × ℤ)} :
    ReadsFrom p 0 reads kind ↔ p.readsSatisfy reads kind := by
  cases kind <;> simp [ReadsFrom, AQLPacket.readsSatisfy]

/-- A packet that is completed does not block. -/
theorem Completes.not_blockedAt (h : Completes cfg q rest slot p tr s) :
    ¬ BlockedAt cfg q rest tr s := by
  rintro ⟨hw, -⟩
  obtain ⟨_, _, -, _, _, _, _, _, _, _, _, _, h⟩ := h
  obtain ⟨ops, closing, hs⟩ := h.head
  rw [hs] at hw
  cases hw

/-- In the rest of the pass the worker does not come to the queue again. -/
theorem not_before_of_pass (hr : (executeMachine C cfg).Reachable always s₀)
    (hbefore : Before s₀ q rest pc) (hs : s.worker = .next rest)
    {tr' : List (ExecState Q C × ExecAction Q C)} {s' : ExecState Q C}
    (hrun : ((executeMachine C cfg).startingAt s).Run tr' s')
    (hpass : ∀ step ∈ tr', step.1.worker ≠ .getQueues) {rest' : List Q} {pc' : Pc} :
    ¬ Before s' q rest' pc' := by
  rintro ⟨ops', closing', hw'⟩
  obtain ⟨ops, closing, hw⟩ := hbefore
  have hnodup := nodup_ahead hr
  have hahead := ahead_of_pass hrun hpass
  rw [hw, Worker.ahead, List.nodup_cons] at hnodup
  rw [hw', hs] at hahead
  exact hnodup.1 (hahead.subset List.mem_cons_self)

/-- **The evaluation of a barrier packet.** It comes to an end, and whatever values the
dependencies take in the meantime, the packet is completed if and only if the values that were
read satisfy it. -/
theorem barrier_evaluated (hr : (executeMachine C cfg).Reachable always s₀)
    (harrives : Arrives s₀ q rest (.barrier kind f slot 0)) :
    Finishes C cfg q s₀ ∧ ∀ tr s, (packetMachine C cfg q s₀).Run tr s →
      s.worker.inPacket q = false →
      DependenciesLive q rest kind f slot ((s₀.memory.queue q).packetBuffer slot) tr →
      BarrierEvaluated cfg q rest kind slot ((s₀.memory.queue q).packetBuffer slot) tr s := by
  refine ⟨finishes harrives (by simp [Pc.allocates]), fun tr s hrun hend hlive => ?_⟩
  have htype := (harrives.before.branch hr rfl).2
  have honce : BlockedAt cfg q rest tr s → ∀ tr' s',
      ((executeMachine C cfg).startingAt s).Run tr' s' →
      (∀ step ∈ tr', step.1.worker ≠ .getQueues) → ∀ rest' pc, ¬ Before s' q rest' pc :=
    fun hblocked _ _ hrun' hpass _ _ =>
      not_before_of_pass hr harrives.before hblocked.worker hrun' hpass
  have hsettled := evaluated_from hr harrives.before rfl hrun hend hlive
  rw [Settled, readsFrom_zero] at hsettled
  rcases hsettled with ⟨hsatisfied, hdone⟩ | ⟨hnot, hblocked, hrefuted⟩
  · exact ⟨htype, iff_of_true hdone hsatisfied, fun h => absurd hsatisfied h,
      fun h => absurd hsatisfied h, honce⟩
  · exact ⟨htype, iff_of_false (fun h => h.not_blockedAt hblocked) hnot, fun _ => hrefuted,
      fun _ => hblocked, honce⟩

/-- The worker has come to the barrier-AND packet in slot 0. -/
def isAtBarrier (s : ExecState Unit Unit) : Bool :=
  match Exec.arrival () s with
  | some (_, .barrier .and _ 0 0) => true
  | _ => false

/-- The packet is left, and its dependencies have been read as 0. -/
def isRead (tr : List (ExecState Unit Unit × ExecAction Unit Unit)) (s : ExecState Unit Unit) :
    Bool :=
  !s.worker.inPacket () && (tr.all fun step => (step.1.memory.signal 1).isSome) &&
    dependencyReads () tr = [(4, 0), (3, 0), (2, 0), (1, 0), (0, 0)]

/-- Every dependency is the signal with the handle 1. It becomes 0 when the worker has come to the
packet, and is read five times. -/
theorem barrier_evaluated_late : ∃ (s₀ s : ExecState Unit Unit) (rest : List Unit)
    (tr : List (ExecState Unit Unit × ExecAction Unit Unit)),
    BarrierEvaluated Exec.config () rest .and 0 ((s₀.memory.queue ()).packetBuffer 0) tr s ∧
      s₀.memory.signal 1 = some 1 ∧
      dependencyReads () tr = [(4, 0), (3, 0), (2, 0), (1, 0), (0, 0)] := by
  obtain ⟨s₀, hr, hp⟩ := Machine.exists_reachable_of_run (executeMachine Unit Exec.config)
    Machine.always ([.register ()] ++ Exec.submit () 0 blockedPacket ++ Exec.work 15)
    (fun s₀ => isAtBarrier s₀ && s₀.memory.signal 1 = some 1 &&
      (∀ j, ((s₀.memory.queue ()).packetBuffer 0).depSignal j = 1) &&
      ((packetMachine Unit Exec.config () s₀).trace
        ([.environment (.signal 1 (some 0))] ++ Exec.work 21) [] s₀).any fun r =>
          isRead r.1 r.2)
    (Exec.init_start _ blockedSignal) (by decide +kernel)
  simp only [Bool.and_eq_true, decide_eq_true_eq] at hp
  obtain ⟨⟨⟨hat, hone⟩, hdep⟩, hany⟩ := hp
  obtain ⟨tr, s, hrun, hp⟩ :=
    exists_run_of_trace (packetMachine Unit Exec.config () s₀) _ isRead rfl hany
  simp only [isRead, Bool.and_eq_true, Bool.not_eq_true', List.all_eq_true, decide_eq_true_eq] at hp
  obtain ⟨⟨hend, hlive⟩, hreads⟩ := hp
  unfold isAtBarrier at hat
  split at hat
  · rename_i rest f harrival
    have harrives := Exec.arrives_of_arrival harrival
    refine ⟨s₀, s, rest, tr, (barrier_evaluated hr harrives).2 tr s hrun hend ?_, hone, hreads⟩
    intro t a hmem i _ j _
    rw [hdep j]
    exact hlive (t, a) hmem
  · cases hat

end PhsaRuntime
