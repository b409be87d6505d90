import PhsaRuntime.Agent.Interrupt

/-!
# The queues of a pass

In a pass the worker takes the queues that were registered at its beginning, one after the other.
The queues that are still ahead of it only become fewer, and no queue is among them twice: once
the worker has left a queue, it does not come to it again in the pass.

## Main results

* `nodup_ahead` — no queue is ahead twice.
* `ahead_of_pass` — the queues ahead become fewer until the next pass.
-/

namespace PhsaRuntime

variable {Q C M L R E : Type}

/-- The queue at which the worker is in its pass, and the ones that are still to come. -/
def Worker.ahead : Worker Q L → List Q
  | .pass queues | .next queues => queues
  | .test q rest | .checkInactivated q rest | .checkDestroyed q rest
  | .process q rest _ => q :: rest
  | .dead q _ => [q]
  | .landing | .landingFlag | .head | .getQueues | .wait | .exited => []

theorem ahead_resume (q : Q) (rest : List Q) (p : Progress L) :
    (Agent.resume q rest p).ahead.Sublist (q :: rest) := by
  cases p with
  | more l => exact .refl _
  | done => exact List.sublist_cons_self q rest
  | dead l => exact (List.nil_sublist rest).cons_cons q

variable [DecidableEq Q] [DecidableEq C] {P : Processor Q M L R E} {init : M → Prop}
  {s s' : AgentState Q C M L} {a : AgentAction Q C R E}

omit [DecidableEq Q] [DecidableEq C] in
/-- A step of the worker takes the queues of a pass, or passes over some that are ahead. -/
theorem ahead_workerStep {r : R} (hs : Agent.workerStep P r s = some s') :
    s'.queues = s.queues ∧ (s'.worker.ahead.Sublist s.worker.ahead ∨
      s.worker = .getQueues ∧ s'.worker.ahead = s.queues) := by
  cases hw : s.worker with
  | wait | exited | dead _ _ => simp only [Agent.workerStep, hw, reduceCtorEq] at hs
  | process q rest l =>
    simp only [Agent.workerStep, hw] at hs
    obtain ⟨⟨m, p⟩, -, rfl⟩ := Option.map_eq_some_iff.mp hs
    exact ⟨rfl, .inl (ahead_resume q rest p)⟩
  | getQueues =>
    simp only [Agent.workerStep, hw, Option.some.injEq] at hs
    subst hs
    exact ⟨rfl, .inr ⟨rfl, rfl⟩⟩
  | head | checkInactivated q rest | checkDestroyed q rest | test q rest =>
    simp only [Agent.workerStep, hw] at hs
    split at hs <;> cases hs <;> simp [Worker.ahead]
  | next queues =>
    cases queues <;> simp only [Agent.workerStep, hw, Option.some.injEq] at hs <;> subst hs <;>
      simp [Worker.ahead]
  | landing | landingFlag | pass queues =>
    simp only [Agent.workerStep, hw, Option.some.injEq] at hs
    subst hs
    simp [Worker.ahead]

theorem ahead_step (hs : (agentMachine C P init).step a s = some s') :
    s'.worker.ahead.Sublist s.worker.ahead ∨
      s.worker = .getQueues ∧ s'.worker.ahead = s.queues := by
  cases agentMove hs with
  | worker r s' hs => exact (ahead_workerStep hs).2
  | client c s' hs => cases clientMove hs <;> exact .inl (.refl _)
  | call | other => exact .inl (.refl _)
  | deliver => exact .inl (List.nil_sublist _)

/-- A queue is registered once. -/
theorem nodup_queues_step (hs : (agentMachine C P init).step a s = some s')
    (h : s.queues.Nodup) : s'.queues.Nodup := by
  cases a with
  | worker r => rwa [(ahead_workerStep hs).1]
  | call c q =>
    simp only [agentMachine, Option.ite_none_right_eq_some, Option.some.injEq] at hs
    exact hs.2 ▸ h
  | client c => cases clientMove hs <;> exact h
  | deliver =>
    obtain ⟨-, rfl⟩ := deliver_eq hs
    exact h
  | register q =>
    simp only [agentMachine, Option.ite_none_left_eq_some, Option.some.injEq] at hs
    obtain ⟨hnew, rfl⟩ := hs
    simpa using List.Nodup.concat hnew h
  | destroy q =>
    simp only [agentMachine, Option.ite_none_right_eq_some, Option.some.injEq] at hs
    exact hs.2 ▸ h
  | shutDown =>
    simp only [agentMachine, Option.some.injEq] at hs
    exact hs ▸ h
  | environment e =>
    obtain ⟨m, -, rfl⟩ := Option.map_eq_some_iff.mp hs
    exact h

/-- **No queue is ahead twice.** -/
theorem nodup_ahead {ok : AgentState Q C M L → AgentAction Q C R E → Prop}
    (h : (agentMachine C P init).Reachable ok s) : s.worker.ahead.Nodup := by
  suffices hboth : s.queues.Nodup ∧ s.worker.ahead.Nodup from hboth.2
  refine h.induction (P := fun s => s.queues.Nodup ∧ s.worker.ahead.Nodup) ?_ ?_
  · rintro s ⟨-, hqueues, -, -, -, -, -, hw, -⟩
    simp [hqueues, hw, Worker.ahead]
  · rintro s a s' - - hs ⟨hqueues, hahead⟩
    refine ⟨nodup_queues_step hs hqueues, ?_⟩
    rcases ahead_step hs with hsub | ⟨-, heq⟩
    · exact hahead.sublist hsub
    · exact heq ▸ hqueues

/-- **Until the next pass** the queues ahead become fewer. -/
theorem ahead_of_pass {s₀ : AgentState Q C M L}
    {tr : List (AgentState Q C M L × AgentAction Q C R E)}
    (hrun : ((agentMachine C P init).startingAt s₀).Run tr s)
    (hpass : ∀ step ∈ tr, step.1.worker ≠ .getQueues) :
    s.worker.ahead.Sublist s₀.worker.ahead := by
  induction hrun with
  | init hs => exact hs ▸ .refl _
  | step hrun hs ih =>
    rw [List.forall_mem_cons] at hpass
    have hstep : (agentMachine C P init).step _ _ = some _ := hs
    rcases ahead_step hstep with hsub | ⟨hget, -⟩
    · exact hsub.trans (ih hpass.2)
    · exact absurd hget hpass.1

end PhsaRuntime
