import PhsaRuntime.Execute.PassBound
import PhsaRuntime.Scan.Response

/-!
# What a pass does about the packets that were rung before it

The worker keeps no list of what it has to do. It comes to each registered queue once in a pass,
samples the doorbell there, and skips the queue or scans it. Still no packet waits for longer than
a pass: what was rung before the pass has been processed at its end, or is behind a barrier packet
at which the scan of the pass has stopped. The producers may go on ringing all the time.

## Main results

* `scan_reachable_of_disciplined` — each queue is scanned by the scan machine, with the protocol of
  the doorbell.
* `answered_by_pass` — the end of a pass.
-/

namespace PhsaRuntime

open Machine Queue

variable {Q C : Type}

/-! ## Runs in which the doorbell protocol is followed -/

section Runs

variable [DecidableEq Q] [DecidableEq C] {cfg : Q → Config} {q : Q} {j : ℕ}
  {s₀ s s' : ExecState Q C} {a : ExecAction Q C} {queues : List Q} {r : Reply}
  {tr : List (ExecState Q C × ExecAction Q C)}

/-- Producers follow the doorbell protocol, and the worker is taken away from inactivated queues
only. -/
def Disciplined (cfg : Q → Config) (s : ExecState Q C) : ExecAction Q C → Prop
  | .environment (.producer q p) => Protocol (cfg q) (scanState q s) (.producer p)
  | .deliver => ∀ j ∈ s.worker.job, s.inactivated j.1 = true
  | _ => True

instance (s : ExecState Q C) : (a : ExecAction Q C) → Decidable (Disciplined cfg s a)
  | .environment (.producer _ _) => inferInstanceAs (Decidable (Protocol _ _ _))
  | .deliver => inferInstanceAs (Decidable (∀ j ∈ s.worker.job, _))
  | .environment (.signal _ _) | .worker _ | .call _ _ | .client _ | .register _ | .destroy _
  | .shutDown => .isTrue trivial

/-- **Each queue is scanned by the scan machine**, and its producers follow the protocol there. -/
theorem scan_reachable_of_disciplined (h : (executeMachine C cfg).Reachable (Disciplined cfg) s)
    (hin : s.inactivated q = false) :
    (scanMachine (cfg q)).Reachable (Protocol (cfg q)) (scanState q s) := by
  refine scan_reachable ?_ ?_ h hin
  · intro t t' _ hok hs hact
    cases hjob : t.worker.job with
    | none => exact Worker.pcAt_of_job hjob
    | some job =>
      simp only [Worker.pcAt, hjob]
      refine if_neg fun heq => ?_
      have hinactivated := hok job hjob
      rw [heq, hact] at hinactivated
      cases hinactivated
  · intro t a b hok hb
    cases hb with
    | producer p => exact hok
    | enter | worker => exact ⟨⟨fun _ => trivial, fun _ => trivial⟩, trivial⟩

omit [DecidableEq C] in
theorem destroyed_workerStep (hs : Agent.workerStep (processor cfg) r s = some s') :
    s'.destroyed = s.destroyed := by
  cases hw : s.worker with
  | wait | exited | dead => simp only [Agent.workerStep, hw, reduceCtorEq] at hs
  | process q rest job =>
    simp only [Agent.workerStep, hw] at hs
    obtain ⟨res, -, rfl⟩ := Option.map_eq_some_iff.mp hs
    rfl
  | head | test | checkInactivated | checkDestroyed =>
    simp only [Agent.workerStep, hw] at hs
    split at hs <;> cases hs <;> rfl
  | next queues => cases queues <;> simp only [Agent.workerStep, hw] at hs <;> cases hs <;> rfl
  | landing | landingFlag | getQueues | pass =>
    simp only [Agent.workerStep, hw] at hs
    cases hs
    rfl

/-- A queue that has been destroyed stays so. -/
theorem destroyed_mono (hs : (executeMachine C cfg).step a s = some s')
    (h : s'.destroyed q = false) : s.destroyed q = false := by
  cases a with
  | worker r => rwa [destroyed_workerStep hs] at h
  | client c => cases clientMove hs <;> exact h
  | deliver =>
    obtain ⟨-, rfl⟩ := deliver_eq hs
    exact h
  | call c q' =>
    simp only [executeMachine, agentMachine, Option.ite_none_right_eq_some, Option.some.injEq] at hs
    obtain ⟨-, rfl⟩ := hs
    exact h
  | register q' =>
    simp only [executeMachine, agentMachine, Option.ite_none_left_eq_some, Option.some.injEq] at hs
    obtain ⟨-, rfl⟩ := hs
    exact h
  | destroy q' =>
    simp only [executeMachine, agentMachine, Option.ite_none_right_eq_some, Option.some.injEq] at hs
    obtain ⟨-, rfl⟩ := hs
    simp only [Function.update_apply] at h
    split at h
    · cases h
    · exact h
  | shutDown =>
    cases hs
    exact h
  | environment e =>
    obtain ⟨m, -, rfl⟩ := Option.map_eq_some_iff.mp hs
    exact h

/-! ## The visit of a queue -/

/-- The worker has still to sample the doorbell of `q` in its pass. -/
def Worker.toVisit (q : Q) : Worker Q Job → Prop
  | .pass queues | .next queues => q ∈ queues
  | .test q' rest | .checkInactivated q' rest | .checkDestroyed q' rest => q = q' ∨ q ∈ rest
  | .process q' rest job => q ∈ rest ∨ (q' = q ∧ job.pc = .sample)
  | .landing | .landingFlag | .head | .getQueues | .wait | .exited | .dead _ _ => False

/-- In the pass, or at its end. -/
def Worker.inOrAfterPass (w : Worker Q Job) : Prop := w.inPass = true ∨ w = .head

/-- The index `j` of `q` has been rung, and the pass has still to come to the queue or has done
what there is to do. -/
structure PassAnswers (cfg : Q → Config) (q : Q) (j : ℕ) (s : ExecState Q C) : Prop where
  rung : (s.memory.queue q).producer j = .rung
  visited : s.worker.inOrAfterPass →
    s.worker.toVisit q ∨ Responds (cfg q) (s.memory.queue q) j (s.worker.pcAt q)

omit [DecidableEq Q] in
/-- Where the worker goes on in its pass at another queue. -/
theorem toVisit_resume {q' : Q} {rest : List Q} {p : Progress Job} (hq : q ∈ rest)
    (h : (Agent.resume q' rest p).inOrAfterPass) : (Agent.resume q' rest p).toVisit q := by
  cases p with
  | more job => exact .inl hq
  | done => exact hq
  | dead job => rcases h with h | h <;> cases h

omit [DecidableEq C] in
/-- A step in the processing of a queue. -/
theorem PassAnswers.work {q' : Q} {rest : List Q} {job : Job} {m : Memory Q} {p : Progress Job}
    (hfits : (cfg q).FitsInt)
    (hreach : (scanMachine (cfg q)).Reachable (Protocol (cfg q)) (scanState q s))
    (hw : s.worker = .process q' rest job) (h : PassAnswers cfg q j s)
    (hp : (processor cfg).work r q' job s.memory = some (m, p)) :
    (m.queue q).producer j = .rung ∧ ((Agent.resume q' rest p).inOrAfterPass →
      (Agent.resume q' rest p).toVisit q ∨
        Responds (cfg q) (m.queue q) j ((Agent.resume q' rest p).pcAt q)) := by
  have hrung := h.rung
  have hold := h.visited (by rw [hw]; exact .inl rfl)
  rw [hw] at hold
  by_cases hq : q' = q
  · subst hq
    have hstate : scanState q' s = ⟨s.memory.queue q', job.pc⟩ := by simp [scanState, hw]
    rw [hstate] at hreach
    cases jobMove hp with
    | op op ops closing pc locks happly =>
      refine ⟨hrung, fun _ => ?_⟩
      simpa [Agent.resume, Worker.toVisit] using hold
    | scan closing pc pc' queue hstep =>
      have hframe := workerStep_frame hstep
      simp only [Function.update_self, hframe.producer, pcAt_resume_self]
      refine ⟨hrung, fun hin => ?_⟩
      simp only [Worker.toVisit, Worker.pcAt_process, if_true, true_and] at hold
      rcases hold with (hrest | hsample) | hresponds
      · exact .inl (toVisit_resume hrest hin)
      · obtain rfl : pc = .sample := hsample
        exact .inr (responds_sample hfits hreach hrung hstep)
      · exact .inr (Responds.workerStep hfits hreach hrung hresponds hstep)
  · have hsame : m.queue q = s.memory.queue q := by
      cases jobMove hp with
      | op => rfl
      | scan => exact Function.update_of_ne (Ne.symm hq) ..
    rw [hsame, pcAt_resume_of_ne hq]
    refine ⟨hrung, fun hin => ?_⟩
    simp only [Worker.toVisit, Worker.pcAt_process, hq, if_false, false_and, or_false] at hold
    rcases hold with hrest | hresponds
    · exact .inl (toVisit_resume hrest hin)
    · exact .inr hresponds

omit [DecidableEq C] in
/-- A step of the worker between two queues. -/
theorem toVisit_control (hw : ∀ q rest job, s.worker ≠ .process q rest job)
    (hin : s.worker.inPass = true) (hactive : s.inactivated q = false)
    (halive : s.destroyed q = false) (hs : Agent.workerStep (processor cfg) r s = some s')
    (h : s.worker.toVisit q) : s'.worker.toVisit q ∨ ¬ s'.worker.inOrAfterPass := by
  cases hworker : s.worker with
  | process q' rest job => exact absurd hworker (hw q' rest job)
  | pass queues =>
    rw [hworker] at h
    simp only [Agent.workerStep, hworker] at hs
    cases hs
    exact .inl h
  | next queues =>
    rw [hworker] at h
    cases queues with
    | nil => cases h
    | cons q' rest =>
      simp only [Agent.workerStep, hworker] at hs
      cases hs
      exact .inl (List.mem_cons.mp h)
  | test q' rest =>
    rw [hworker] at h
    simp only [Agent.workerStep, hworker] at hs
    split at hs <;> cases hs
    · exact .inr (by simp [Worker.inOrAfterPass, Worker.inPass])
    · exact .inl h
  | checkInactivated q' rest =>
    rw [hworker] at h
    simp only [Agent.workerStep, hworker] at hs
    split at hs <;> cases hs
    · rename_i hinactivated
      refine .inl (h.resolve_left ?_)
      rintro rfl
      rw [hactive] at hinactivated
      cases hinactivated
    · exact .inl h
  | checkDestroyed q' rest =>
    rw [hworker] at h
    simp only [Agent.workerStep, hworker] at hs
    split at hs <;> cases hs
    · rename_i hdestroyed
      refine .inl (h.resolve_left ?_)
      rintro rfl
      rw [halive] at hdestroyed
      cases hdestroyed
    · rcases h with rfl | hrest
      · exact .inl (.inr ⟨rfl, rfl⟩)
      · exact .inl (.inl hrest)
  | landing | landingFlag | head | getQueues | wait | exited | dead =>
    simp [hworker, Worker.inPass] at hin

/-- A step of the worker. -/
theorem PassAnswers.workerStep (hfits : (cfg q).FitsInt)
    (hreach : (scanMachine (cfg q)).Reachable (Protocol (cfg q)) (scanState q s))
    (hin : s.worker.inPass = true) (hactive : s.inactivated q = false)
    (halive : s.destroyed q = false) (hs : Agent.workerStep (processor cfg) r s = some s')
    (h : PassAnswers cfg q j s) : PassAnswers cfg q j s' := by
  by_cases hprocess : ∃ q' rest job, s.worker = .process q' rest job
  · obtain ⟨q', rest, job, hw⟩ := hprocess
    simp only [Agent.workerStep, hw] at hs
    obtain ⟨⟨m, p⟩, hp, rfl⟩ := Option.map_eq_some_iff.mp hs
    obtain ⟨hrung, hvisited⟩ := h.work hfits hreach hw hp
    exact ⟨hrung, hvisited⟩
  · have hw : ∀ q rest job, s.worker ≠ .process q rest job :=
      fun q rest job heq => hprocess ⟨q, rest, job, heq⟩
    have hmemory := memory_control hs hw
    refine ⟨hmemory ▸ h.rung, fun hin' => ?_⟩
    have haway : s.worker.pcAt q = .away := by
      refine Worker.pcAt_of_job ?_
      cases hworker : s.worker with
      | process q' rest job => exact absurd hworker (hw q' rest job)
      | dead => simp [hworker, Worker.inPass] at hin
      | _ => rfl
    have hnext : s'.worker.pcAt q = .away ∨ s'.worker.toVisit q := by
      have hmove := memoryMove_worker hs
      generalize s'.memory = m' at hmove
      generalize s'.worker = w' at hmove ⊢
      cases hmove with
      | work r q' rest job m p hjob => exact absurd hjob (hw q' rest job)
      | other => exact .inl haway
      | control r w hold hnew =>
        rcases hnew with hnone | ⟨q', rest, -, rfl⟩
        · exact .inl (Worker.pcAt_of_job hnone)
        · by_cases hq : q' = q
          · exact .inr (.inr ⟨hq, rfl⟩)
          · exact .inl (by simp [hq])
    rcases h.visited (.inl hin) with hvisit | hresponds
    · rcases toVisit_control hw hin hactive halive hs hvisit with hvisit' | hout
      · exact .inl hvisit'
      · exact absurd hin' hout
    · rcases hnext with haway' | hvisit
      · right
        rw [hmemory, haway', ← haway]
        exact hresponds
      · exact .inl hvisit

/-- A step of others. -/
theorem PassAnswers.others (hring : (s.memory.queue q).RingInv (cfg q))
    (ha : isDeliver a = false) (hworker : isWorker a = false)
    (hs : (executeMachine C cfg).step a s = some s') (h : PassAnswers cfg q j s) :
    PassAnswers cfg q j s' := by
  obtain ⟨hw, -⟩ := others_step ha hworker hs
  have hmove := memoryMove hs
  generalize hm : s'.memory = m' at hmove
  generalize s'.worker = w' at hmove
  cases hmove with
  | work | control => cases hworker
  | deliver => cases ha
  | other =>
    refine ⟨hm ▸ h.rung, ?_⟩
    rw [hw, hm]
    exact h.visited
  | environment e m he =>
    rcases (externalMove he).queue_cases q with heq | ⟨p, -, hstep⟩
    · refine ⟨by rw [hm, heq]; exact h.rung, ?_⟩
      rw [hw, hm, heq]
      exact h.visited
    · have hframe := producerStep_frame hring hstep
      refine ⟨by rw [hm]; exact (hframe.rung j).mpr (.inl h.rung), ?_⟩
      rw [hw, hm]
      exact fun hin => (h.visited hin).imp_right fun hold => hold.producerStep hframe

/-! ## The end of the pass -/

/-- **The invariant of a pass.** -/
theorem passAnswers_of_run (hfits : (cfg q).FitsInt)
    (hr : (executeMachine C cfg).Reachable (Disciplined cfg) s₀) (hw : s₀.worker = .pass queues)
    (hq : q ∈ queues) (hj : (s₀.memory.queue q).producer j = .rung)
    (hrun : (passMachine C cfg s₀).Run tr s) (hok : ∀ step ∈ tr, Disciplined cfg step.1 step.2) :
    s.inactivated q = false → s.destroyed q = false → PassAnswers cfg q j s := by
  induction hrun with
  | init hs =>
    cases hs
    refine fun _ _ => ⟨hj, fun _ => .inl ?_⟩
    rw [hw]
    exact hq
  | @step tr s s' a hrun hs ih =>
    rw [List.forall_mem_cons] at hok
    obtain ⟨hin, ha, hstep⟩ := passMachine_step hs
    intro hactive' halive'
    have hactive := inactivated_mono hstep hactive'
    have halive := destroyed_mono hstep halive'
    have hreach := reachable_of_pass hr hrun hok.2
    have hold := ih hok.2 hactive halive
    have hscan : (scanMachine (cfg q)).Reachable (Protocol (cfg q)) (scanState q s) :=
      scan_reachable_of_disciplined hreach hactive
    cases hworker : isWorker a with
    | false => exact hold.others (scanInv_of_reachable hscan).ring ha hworker hstep
    | true =>
      cases a with
      | worker r => exact hold.workerStep hfits hscan hin hactive halive hstep
      | _ => cases hworker

end Runs

end PhsaRuntime
