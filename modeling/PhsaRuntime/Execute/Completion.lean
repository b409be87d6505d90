import PhsaRuntime.Agent.Interrupt
import PhsaRuntime.Execute
import PhsaRuntime.Scan.Invariant

/-!
# Shared completion signals

A signal that several packets name as their completion signal and nobody else writes. After
the retirement of a packet the worker stores 0 to its completion signal, whatever its value is,
so that the value counts the packets that are left exactly as long as every such store finds
the value 1 (`accounted_iff`).

## Main results

* `accounted_iff` — when the value of a signal is its initial value less the completed packets.
* `completion_early` — a run in which it is 0 after the first of two packets.
-/

namespace PhsaRuntime

variable {Q C : Type} {h : Handle} {n v : ℤ}

/-! ## Completions -/

/-- The next step of the scan is the store to the completion signal `h`. -/
def Job.completes (h : Handle) (job : Job) : Bool :=
  match job.ops, job.pc with
  | [], .complete _ (some h') => h' = h
  | _, _ => false

/-- The step completes a packet whose completion signal is `h`. -/
def completes (h : Handle) (s : ExecState Q C) : ExecAction Q C → Bool
  | .worker _ =>
    match s.worker with
    | .process _ _ job => job.completes h
    | _ => false
  | _ => false

/-- How many packets with the completion signal `h` have been completed. -/
def completions (h : Handle) (tr : List (ExecState Q C × ExecAction Q C)) : ℕ :=
  tr.countP fun step => completes h step.1 step.2

/-- Somebody other than the worker writes the signal `h`. -/
def writesSignal (h : Handle) : ExecAction Q C → Bool
  | .environment (.signal h' _) => h' = h
  | _ => false

/-- After `k` completions the signal has the value `n - k`, and whoever waits for 0 waits for
all `n`. -/
def Accounted (h : Handle) (n : ℤ) (k : ℕ) (s : ExecState Q C) : Prop :=
  s.memory.signal h = some (n - k) ∧ (s.memory.signal h = some 0 → (k : ℤ) = n)

/-- The completions are accounted for in every state of a run. -/
def AccountedAlong (h : Handle) (n : ℤ) :
    List (ExecState Q C × ExecAction Q C) → ExecState Q C → Prop
  | [], s => Accounted h n 0 s
  | step :: tr, s => Accounted h n (completions h (step :: tr)) s ∧ AccountedAlong h n tr step.1

variable [DecidableEq Q] [DecidableEq C] {cfg : Q → Config}

/-- The runs of the worker from the creation of the signal `h` with the value `n` on. -/
def signalMachine (C : Type) [DecidableEq C] (cfg : Q → Config) (h : Handle) (n : ℤ) :
    Machine (ExecState Q C) (ExecAction Q C) :=
  { executeMachine C cfg with
    init := fun s => (executeMachine C cfg).Reachable Machine.always s ∧
      s.memory.signal h = some n }

/-! ## The value of the signal -/

/-- A step of the scan stores 0 to the completion signal, and leaves every other signal as it
is. -/
theorem signalAfter_eq (signal : Handle → Option ℤ) {closing : List LockOp} {pc : Pc}
    (hv : signal h = some v) :
    signalAfter signal pc h =
      some (if Job.completes h { ops := [], closing, pc } then 0 else v) := by
  unfold signalAfter
  split
  · rename_i f h'
    by_cases heq : h' = h
    · subst heq
      simp [Job.completes, hv]
    · have hne : h ≠ h' := fun h => heq h.symm
      simp only [Job.completes, heq, decide_false, Bool.false_eq_true, if_false]
      split
      · rw [Function.update_of_ne hne, hv]
      · exact hv
  · rename_i hnot
    have hfalse : Job.completes h { ops := [], closing, pc } = false := by
      unfold Job.completes
      split
      · rename_i f h' _ hpc
        exact absurd hpc (hnot f h')
      · rfl
    rw [hfalse, hv]
    rfl

/-- A step in the processing of a queue. -/
theorem signal_work {r : Reply} {q : Q} {job : Job} {m m' : Memory Q} {p : Progress Job}
    (hp : (processor cfg).work r q job m = some (m', p)) (hv : m.signal h = some v) :
    m'.signal h = some (if job.completes h then 0 else v) := by
  cases jobMove hp with
  | op op ops closing pc locks happly => exact hv
  | scan closing pc pc' queue hstep => exact signalAfter_eq m.signal hv

/-- **The store.** A step that completes a packet leaves 0, and no other step changes the
signal. -/
theorem signal_step {s s' : ExecState Q C} {a : ExecAction Q C}
    (hs : (executeMachine C cfg).step a s = some s') (hquiet : writesSignal h a = false)
    (hv : s.memory.signal h = some v) :
    s'.memory.signal h = some (if completes h s a then 0 else v) := by
  cases a with
  | worker r =>
    cases hw : s.worker with
    | process q rest job =>
      simp only [executeMachine, agentMachine, Agent.workerStep, hw] at hs
      obtain ⟨⟨m, p⟩, hp, rfl⟩ := Option.map_eq_some_iff.mp hs
      simp only [completes, hw]
      exact signal_work hp hv
    | _ =>
      have hmemory : s'.memory = s.memory := memory_control hs (by simp [hw])
      rw [hmemory, hv]
      simp [completes, hw]
  | environment e =>
    obtain ⟨m, he, rfl⟩ := Option.map_eq_some_iff.mp hs
    cases externalMove he with
    | producer => exact hv
    | signal h' value =>
      have hne : h ≠ h' := by
        rintro rfl
        simp [writesSignal] at hquiet
      exact (Function.update_of_ne hne ..).trans hv
  | _ =>
    have hmove := memoryMove hs
    generalize s'.memory = m' at hmove ⊢
    generalize s'.worker = w' at hmove
    cases hmove
    all_goals exact hv

/-! ## The account -/

omit [DecidableEq Q] [DecidableEq C] in
theorem completions_cons (s : ExecState Q C) (a : ExecAction Q C)
    (tr : List (ExecState Q C × ExecAction Q C)) :
    completions h ((s, a) :: tr) = completions h tr + if completes h s a then 1 else 0 :=
  List.countP_cons

/-- One step of the account: the value goes down by one exactly if the completed packet finds
the value 1. -/
theorem accounted_step {s s' : ExecState Q C} {a : ExecAction Q C} {k : ℕ}
    (hs : (executeMachine C cfg).step a s = some s') (hquiet : writesSignal h a = false)
    (hacc : Accounted h n k s) :
    Accounted h n (k + if completes h s a then 1 else 0) s' ↔
      (completes h s a = true → s.memory.signal h = some 1) := by
  obtain ⟨hv, hzero⟩ := hacc
  have hv' := signal_step hs hquiet hv
  cases hc : completes h s a with
  | false =>
    simp only [hc, Bool.false_eq_true, if_false] at hv' ⊢
    have hzero' : s'.memory.signal h = some 0 → (k : ℤ) = n := by rwa [hv', ← hv]
    exact iff_of_true ⟨hv', hzero'⟩ (by simp)
  | true =>
    simp only [hc, if_true] at hv' ⊢
    rw [Accounted, hv', hv]
    simp only [Option.some.injEq, forall_const]
    push_cast
    omega

omit [DecidableEq Q] [DecidableEq C] in
theorem AccountedAlong.accounted {tr : List (ExecState Q C × ExecAction Q C)} {s : ExecState Q C}
    (hacc : AccountedAlong h n tr s) : Accounted h n (completions h tr) s := by
  cases tr with
  | nil => exact hacc
  | cons step tr => exact hacc.1

/-- After the first completion the value is 0. -/
theorem signal_of_run {tr : List (ExecState Q C × ExecAction Q C)} {s : ExecState Q C}
    (hrun : (signalMachine C cfg h n).Run tr s)
    (hquiet : ∀ step ∈ tr, writesSignal h step.2 = false) :
    s.memory.signal h = some (if completions h tr = 0 then n else 0) := by
  induction hrun with
  | init hs => exact hs.2
  | @step tr s s' a hrun hs ih =>
    rw [List.forall_mem_cons] at hquiet
    rw [signal_step hs hquiet.1 (ih hquiet.2), completions_cons]
    cases completes h s a <;> simp

theorem accounted_iff_completions {tr : List (ExecState Q C × ExecAction Q C)}
    {s : ExecState Q C} (hrun : (signalMachine C cfg h n).Run tr s)
    (hquiet : ∀ step ∈ tr, writesSignal h step.2 = false) :
    Accounted h n (completions h tr) s ↔ completions h tr = 0 ∨ n = completions h tr := by
  rw [Accounted, signal_of_run hrun hquiet]
  split
  · rename_i hnone
    simp [hnone, eq_comm]
  · rename_i hsome
    simp only [hsome, Option.some.injEq, forall_const, false_or]
    omega

/-- **Completion accounting.** In a run from the creation of a signal on, in which only the
worker writes it, every state has the initial value less the completed packets if and only if
every packet that is completed finds the value 1; that is, if none is completed, or one and the
initial value is 1. -/
theorem accounted_iff {tr : List (ExecState Q C × ExecAction Q C)} {s : ExecState Q C}
    (hrun : (signalMachine C cfg h n).Run tr s)
    (hquiet : ∀ step ∈ tr, writesSignal h step.2 = false) :
    (AccountedAlong h n tr s ↔
      ∀ step ∈ tr, completes h step.1 step.2 = true → step.1.memory.signal h = some 1) ∧
    (AccountedAlong h n tr s ↔ completions h tr = 0 ∨ n = 1 ∧ completions h tr = 1) := by
  induction hrun with
  | @init s hs =>
    have hacc : Accounted h n 0 s := by
      simp only [Accounted, hs.2, Nat.cast_zero, sub_zero, Option.some.injEq, true_and]
      exact Eq.symm
    exact ⟨iff_of_true hacc (by simp), iff_of_true hacc (.inl rfl)⟩
  | @step tr s s' a hrun hs ih =>
    have hlast := accounted_iff_completions (hrun.step hs) hquiet
    rw [List.forall_mem_cons] at hquiet ⊢
    obtain ⟨hsteps, hcount⟩ := ih hquiet.2
    constructor
    · rw [← hsteps, AccountedAlong, and_congr_left_iff, completions_cons]
      intro hacc
      exact accounted_step hs hquiet.1 hacc.accounted
    · rw [AccountedAlong, hlast, hcount, completions_cons]
      cases completes h s a with
      | false =>
        simp only [Bool.false_eq_true, if_false]
        omega
      | true =>
        simp only [if_true]
        omega

/-! ## Two packets -/

/-- A kernel dispatch packet whose completion signal has the handle 1. -/
def countedPacket : AQLPacket := { Scan.emptyPacket with completionSignal := 1 }

/-- The signal with the handle 1 has the given value; no other signal is registered. -/
def countedSignal (n : ℤ) (h : Handle) : Option ℤ := if h = 1 then some n else none

theorem init_countedSignal (n : ℤ) : (signalMachine Unit Exec.config 1 n).init
    (Exec.start Unit Unit (countedSignal n)) :=
  ⟨.init (Exec.init_start _ _), rfl⟩

/-- One packet and the initial value 1. -/
theorem accounted_iff_one : ∃ (tr : List (ExecState Unit Unit × ExecAction Unit Unit))
    (s : ExecState Unit Unit), AccountedAlong 1 1 tr s ∧ s.memory.signal 1 = some 0 := by
  obtain ⟨s, ⟨tr, hrun, htr⟩, hp⟩ := Machine.exists_reachable_of_run
    (signalMachine Unit Exec.config 1 1)
    (fun s a => writesSignal 1 a = false ∧ (completes 1 s a = true → s.memory.signal 1 = some 1))
    ([.register ()] ++ Exec.submit () 0 countedPacket ++ Exec.work 40)
    (fun s => s.memory.signal 1 = some 0) (init_countedSignal 1) (by decide +kernel)
  have hacc := accounted_iff hrun fun step hstep => (htr step hstep).1
  exact ⟨tr, s, hacc.1.mpr fun step hstep => (htr step hstep).2, of_decide_eq_true hp⟩

/-- The first of two packets that share the signal is completed: the second one is waiting. -/
def isEarly (s : ExecState Unit Unit) : Bool :=
  (s.memory.queue ()).history.processed = [0] && (s.memory.queue ()).Published 1 &&
    ((s.memory.queue ()).history.packet 1).completionSignal = 1

/-- Two packets and the initial value 2: after the first completion the value is 0, while the
second packet has not been processed. -/
theorem completion_early : ∃ (tr : List (ExecState Unit Unit × ExecAction Unit Unit))
    (s : ExecState Unit Unit), (signalMachine Unit Exec.config 1 2).Run tr s ∧
      (∀ step ∈ tr, writesSignal 1 step.2 = false) ∧ isEarly s = true ∧
      s.memory.signal 1 = some 0 ∧ ¬ AccountedAlong 1 2 tr s := by
  obtain ⟨s, ⟨tr, hrun, htr⟩, hp⟩ := Machine.exists_reachable_of_run
    (signalMachine Unit Exec.config 1 2) (fun _ a => writesSignal 1 a = false)
    ([.register ()] ++ Exec.submit () 0 countedPacket ++ Exec.submit () 1 countedPacket ++
      Exec.work 25)
    (fun s => completes 1 s (.worker Exec.reply) && s.memory.signal 1 = some 2 &&
      ((executeMachine Unit Exec.config).step (.worker Exec.reply) s).any isEarly)
    (init_countedSignal 2) (by decide +kernel)
  simp only [Bool.and_eq_true, decide_eq_true_eq] at hp
  obtain ⟨⟨hcompletes, htwo⟩, hearly⟩ := hp
  obtain ⟨s', hs, hearly⟩ := (Option.any_eq_true _ _).mp hearly
  have hzero := signal_step hs rfl htwo
  rw [hcompletes, if_pos rfl] at hzero
  have hrun' : (signalMachine Unit Exec.config 1 2).Run ((s, .worker Exec.reply) :: tr) s' :=
    hrun.step hs
  refine ⟨_, s', hrun', List.forall_mem_cons.mpr ⟨rfl, htr⟩, hearly, hzero, ?_⟩
  rintro ⟨⟨hvalue, -⟩, hacc⟩
  -- nothing was completed before, so that the value should be 1
  have hbefore := hacc.accounted.1
  rw [completions_cons, hcompletes, hzero] at hvalue
  rw [htwo] at hbefore
  simp only [Option.some.injEq, if_true] at hvalue hbefore
  push_cast at hvalue
  omega

end PhsaRuntime
