import PhsaRuntime.Agent.Interrupt
import PhsaRuntime.Execute

/-!
# Inactivating the queues of the worker

What `hsa_queue_inactivate` guarantees when it interrupts the real scan: the results about
`Execute` and `terminateQueue` for any processor, at the processor that works on packets.

## Main results

* `not_wedged` — the worker waits for a signal that comes, if every test of
  `InterruptingTheQueue` that finds it set does so because of a call that has found its
  queue running. `worker_wedged` is a run in which one client alone stops the worker.
* `inactivated_dead` — a queue is dead once its inactivation has returned.
* `interrupts_own` — a signal interrupts the queue of its call, if the flag is not reset
  under a call that needs it. In `interrupts_other` a client interrupts the next queue.
-/

namespace PhsaRuntime

variable {Q C : Type} [DecidableEq Q] [DecidableEq C] {cfg : Q → Config} {q : Q}

/-! ## The wait loop -/

/-- **Inactivation never wedges the worker**, as long as the worker finds the flag set only
by calls for the queue it is at. -/
theorem not_wedged {s : ExecState Q C} (h : (executeMachine C cfg).Reachable TestsFound s) :
    NotWedged s ∧ (s.worker.waiting = true → (∀ c, s.client c = .idle) → s.pending ≠ []) := by
  have hwait : NotWedged s := notWedged_of_reachable h
  refine ⟨hwait, ?_⟩
  intro hw hidle
  rcases hwait hw with ⟨c, q, hc⟩ | hpend
  · rw [hidle c] at hc
    cases hc
  · exact hpend

/-- The worker has come to the test of its first queue, and the client's call finds it
there: the worker waits, and the signal is pending. -/
theorem not_wedged_found : ∃ s : ExecState Unit Unit, s.worker.waiting = true ∧ NotWedged s := by
  obtain ⟨s, hs, hp⟩ := Machine.exists_reachable_of_run
    (executeMachine Unit Exec.config) TestsFound
    ([.register ()] ++ Exec.work 6 ++ [.call () ()] ++ Exec.client () 5 ++ Exec.work 1)
    (fun s => s.worker.waiting) (Exec.init_start _ fun _ => none) (by decide +kernel)
  exact ⟨s, hp, (not_wedged hs).1⟩

/-- One client, one queue. The client sets the flag and finds that its queue is not running;
then the worker comes to the queue and waits; the client resets the flag and returns. -/
theorem worker_wedged : ∃ s : ExecState Unit Unit,
    (executeMachine Unit Exec.config).Reachable Machine.always s ∧ s.worker.waiting = true ∧
      (∀ c, s.client c = .idle) ∧ s.pending = [] ∧ ¬ NotWedged s := by
  obtain ⟨s, hs, hp⟩ := Machine.exists_reachable_of_run
    (executeMachine Unit Exec.config) Machine.always
    ([.register ()] ++ Exec.work 5 ++ [.call () ()] ++ Exec.client () 4 ++ Exec.work 2 ++
      Exec.client () 1)
    (fun s => s.worker.waiting && s.client () = .idle && s.pending.isEmpty)
    (Exec.init_start _ fun _ => none) (by decide +kernel)
  simp only [Bool.and_eq_true, decide_eq_true_eq, List.isEmpty_iff] at hp
  obtain ⟨⟨hwait, hidle⟩, hpend⟩ := hp
  refine ⟨s, hs, hwait, fun _ => hidle, hpend, ?_⟩
  intro hnot
  rcases hnot hwait with ⟨c, q, hc⟩ | hne
  · have hc : s.client () = .kill q := hc
    rw [hidle] at hc
    cases hc
  · exact hne hpend

/-! ## A dead queue -/

/-- What has been done with the packets of a queue is the same. -/
structure SameWork (h h' : History) : Prop where
  launches : h'.launches = h.launches
  callbacks : h'.callbacks = h.callbacks
  processed : h'.processed = h.processed

theorem SameWork.refl (h : History) : SameWork h h := ⟨rfl, rfl, rfl⟩

theorem SameWork.trans {h₁ h₂ h₃ : History} (h : SameWork h₁ h₂) (h' : SameWork h₂ h₃) :
    SameWork h₁ h₃ :=
  ⟨h'.launches.trans h.launches, h'.callbacks.trans h.callbacks,
    h'.processed.trans h.processed⟩

theorem sameWork_producerStep {cfg : Config} {p : Queue.ProducerAction} {q q' : Queue}
    (hs : Queue.producerStep cfg p q = some q') : SameWork q.history q'.history := by
  cases p <;> simp only [Queue.producerStep, Option.ite_none_right_eq_some,
    Option.some.injEq] at hs <;> obtain ⟨-, rfl⟩ := hs <;> exact ⟨rfl, rfl, rfl⟩

/-- Only the worker at a queue works on its packets. -/
theorem sameWork_step {a : ExecAction Q C} {s s' : ExecState Q C}
    (hs : (executeMachine C cfg).step a s = some s')
    (hq : ∀ rest job, s.worker ≠ .process q rest job) :
    SameWork (s.memory.queue q).history (s'.memory.queue q).history := by
  have hmove := memoryMove hs
  generalize s'.memory = m' at hmove
  generalize s'.worker = w' at hmove
  cases hmove with
  | work r q' rest job _ p hw hp =>
    have hne : q ≠ q' := by
      rintro rfl
      exact hq rest job hw
    cases jobMove hp with
    | op => exact .refl _
    | scan closing pc pc' queue hstep =>
      simpa only [Function.update_of_ne hne] using SameWork.refl _
  | control | deliver | other => exact .refl _
  | environment e m he =>
    rcases (externalMove he).queue_cases q with heq | ⟨p, -, hqueue⟩
    · rw [heq]
      exact .refl _
    · exact sameWork_producerStep hqueue

theorem returned_mono {a : ExecAction Q C} {s s' : ExecState Q C}
    (hs : (executeMachine C cfg).step a s = some s') (hq : q ∈ s.returned) :
    q ∈ s'.returned := by
  cases agentMove hs with
  | worker r _ hs =>
    rw [(workerEffect hs).returned]
    exact hq
  | client c _ hs =>
    cases clientMove hs with
    | finish q' found hc => exact List.mem_cons_of_mem _ hq
    | refuse | accept | inactivate | interrupt | hit | miss | kill | stay | leave => exact hq
  | call | deliver | other => exact hq

/-- **After `hsa_queue_inactivate` has returned, the queue is dead.** The worker is not at
it, and no later step launches or completes a packet of it. -/
theorem inactivated_dead {s s' : ExecState Q C}
    (h : (executeMachine C cfg).Reachable Machine.always s) (hq : q ∈ s.returned)
    (hl : (executeMachine C cfg).Leads s s') :
    (∀ rest job, s'.worker ≠ .process q rest job) ∧
      SameWork (s.memory.queue q).history (s'.memory.queue q).history := by
  have hdead : ∀ t : ExecState Q C, (executeMachine C cfg).Reachable Machine.always t →
      q ∈ t.returned → ∀ rest job, t.worker ≠ .process q rest job := by
    intro t ht hmem rest job hw
    exact ((deadInv_of_reachable ht).returned q hmem).2 (by rw [hw]; rfl)
  have hstep : ∀ t a t', (executeMachine C cfg).Reachable Machine.always t →
      (executeMachine C cfg).step a t = some t' →
      (q ∈ t.returned ∧ SameWork (s.memory.queue q).history (t.memory.queue q).history) →
      q ∈ t'.returned ∧ SameWork (s.memory.queue q).history (t'.memory.queue q).history := by
    intro t a t' ht hs hold
    obtain ⟨hmem, hsame⟩ := hold
    exact ⟨returned_mono hs hmem, hsame.trans (sameWork_step hs (hdead t ht hmem))⟩
  obtain ⟨hr, hmem, hsame⟩ := h.leads_induction ⟨hq, .refl _⟩ hstep hl
  exact ⟨hdead s' hr hmem, hsame⟩

/-- A queue with a packet that is inactivated before the worker comes to it. -/
theorem inactivated_dead_packet : ∃ s : ExecState Unit Unit,
    (s.memory.queue ()).doorbell = 0 ∧ ∀ rest job, s.worker ≠ .process () rest job := by
  obtain ⟨s, hs, hp⟩ := Machine.exists_reachable_of_run
    (executeMachine Unit Exec.config) Machine.always
    ([.register ()] ++ Exec.submit () 0 Scan.emptyPacket ++ [.call () ()] ++
      Exec.client () 5 ++ Exec.work 8)
    (fun s => decide (() ∈ s.returned) && decide ((s.memory.queue ()).doorbell = 0))
    (Exec.init_start _ fun _ => none) (by decide +kernel)
  simp only [Bool.and_eq_true, decide_eq_true_eq] at hp
  exact ⟨s, hp.2, (inactivated_dead hs hp.1 .refl).1⟩

/-! ## The packet that is interrupted -/

/-- The worker is at a packet. -/
def Pc.atPacket : Pc → Bool
  | .barrier _ _ _ _ | .dispatch _ _ | .launch _ _ _ _ | .running _ _ _ _ _
  | .freeGroup _ _ _ _ | .retire _ _ _ | .retired _ _ _ | .complete _ _ => true
  | .away | .sample | .loadReadIndex | .loadWriteIndex _ | .head _ | .advance _ _
  | .halted _ => false

/-- A signal that is delivered now interrupts no packet but one of the queue of its call,
and that queue is inactivated. -/
def InterruptsOwn (s : ExecState Q C) : Prop :=
  ∀ p ∈ s.pending, ∀ q rest job, s.worker = .process q rest job →
    job.pc.atPacket = true → q = p.2 ∧ s.inactivated q = true

/-- **Inactivation interrupts only its own queue**, as long as the flag is not reset under
another call. -/
theorem interrupts_own {s : ExecState Q C}
    (h : (executeMachine C cfg).Reachable FlagKept s) : InterruptsOwn s := by
  intro p hp q rest job hw _
  exact processed_of_pending h hp hw

/-- The signal is sent while the worker is at the queue of the call. -/
theorem interrupts_own_sent : ∃ s : ExecState Bool Unit, s.pending ≠ [] ∧ InterruptsOwn s := by
  obtain ⟨s, hs, hp⟩ := Machine.exists_reachable_of_run
    (executeMachine Unit Exec.config) FlagKept
    ([.register false, .register true] ++ Exec.work 9 ++ [.call () false] ++ Exec.client () 5)
    (fun s => !s.pending.isEmpty && s.worker.job.isSome)
    (Exec.init_start _ fun _ => none) (by decide +kernel)
  simp only [Bool.and_eq_true, Bool.not_eq_true', List.isEmpty_eq_false_iff] at hp
  exact ⟨s, hp.1, interrupts_own hs⟩

/-- One client, two queues. The signal for the first queue is sent while the worker is at
it; the worker goes on to the second queue, the client sees that and resets the flag before
the worker tests it; the kernel of the second queue is running when the signal arrives. -/
theorem interrupts_other : ∃ s : ExecState Bool Unit,
    (executeMachine Unit Exec.config).Reachable Machine.always s ∧
      s.inactivated true = false ∧ ¬ InterruptsOwn s := by
  obtain ⟨s, hs, hp⟩ := Machine.exists_reachable_of_run
    (executeMachine Unit Exec.config) Machine.always
    ([.register false, .register true] ++ Exec.submit true 0 Scan.emptyPacket ++
      Exec.work 9 ++ [.call () false] ++ Exec.client () 5 ++ Exec.work 4 ++
      Exec.client () 2 ++ Exec.work 15)
    (fun s => s.inactivated true = false && !s.pending.isEmpty && Exec.isRunning true s)
    (Exec.init_start _ fun _ => none) (by decide +kernel)
  simp only [Bool.and_eq_true, decide_eq_true_eq, Bool.not_eq_true',
    List.isEmpty_eq_false_iff] at hp
  obtain ⟨⟨hact, hpend⟩, hrun⟩ := hp
  obtain ⟨p, hmem⟩ := List.exists_mem_of_ne_nil _ hpend
  refine ⟨s, hs, hact, ?_⟩
  intro hown
  unfold Exec.isRunning at hrun
  split at hrun
  · rename_i q rest ops closing f slot completion groupMemory kernargs hw
    obtain rfl : q = true := of_decide_eq_true hrun
    have hin := (hown p hmem true rest _ hw rfl).2
    rw [hact] at hin
    cases hin
  · cases hrun

end PhsaRuntime
