import PhsaRuntime.HsaStatus
import PhsaRuntime.Lib.Bytes
import PhsaRuntime.Lib.InsertAll
import PhsaRuntime.Lib.Machine
import PhsaRuntime.Signal.Wait

/-!
# Asynchronous copies

`hsa_amd_memory_async_copy` waits for each of the dependent signals to be 0, without a limit, then
calls `hsa_memory_copy`, whose status it does not look at, and stores 0 to the completion signal.
The calls run in any number of threads. A step of a call is a load of a signal, a reading of the
clock, the copy or the store; between two of them the other threads change the signals, memory and
whether the runtime is initialized in any way.

## Main definitions

* `CopyCall`, `CopyPc` — a call, and where its thread is.
* `asyncCopyMachine` — the calls in any order, with everything else.
* `Observed`, `CopyRight` — a dependent signal has been seen as 0, and what a call that returns has
  to have done.

## Main results

* `observed_of_run` — the copy starts after each of the signals has been seen as 0.
* `async_copy_iff` — exactly when the calls of a run keep their promises.
-/

namespace PhsaRuntime

open Machine

/-- The arguments of `hsa_amd_memory_async_copy` that it looks at. -/
structure CopyCall where
  dst : ℕ
  src : ℕ
  size : ℕ
  depSignals : List ℕ
  completionSignal : ℕ
  deriving DecidableEq, Repr

/-- Where the thread of a call is. -/
inductive CopyPc
  /-- At the start of the wait for a dependent signal. -/
  | startWait (i : ℕ)
  /-- At the load of its value. -/
  | load (i startTime : ℕ)
  /-- At the test of the time and of the value. -/
  | test (i startTime : ℕ) (value : SignalValue)
  | copy
  | store
  | returned (status : HsaStatus)
  deriving DecidableEq, Repr

/-- What the calls share, and the calls, by their threads. The values of the signals are by their
handles. -/
structure CopyState where
  initialized : Bool
  signals : ℕ → Option SignalValue
  memory : Cells Byte
  clock : ℕ
  calls : ℕ → Option (CopyCall × CopyPc)

/-- The steps. -/
inductive CopyAction
  | invoke (id : ℕ) (call : CopyCall)
  | resume (id : ℕ)
  /-- Everything else. -/
  | others (initialized : Bool) (signals : ℕ → Option SignalValue) (memory : Cells Byte)
      (ticks : ℕ)

/-- `hsa_memory_copy`: the status and memory afterwards. -/
def hsaMemoryCopy (initialized : Bool) (dst src size : ℕ) (m : Cells Byte) :
    HsaStatus × Cells Byte :=
  if !initialized then (.errorNotInitialized, m)
  else if dst = 0 ∨ src = 0 ∨ size = 0 then (.errorInvalidArgument, m)
  else (.success, m.write dst (m.read src size))

/-- The head of the loop over the dependent signals. -/
def CopyCall.next (call : CopyCall) (i : ℕ) : CopyPc :=
  if i < call.depSignals.length then .startWait i else .copy

namespace CopyState

/-- The value of a dependent signal. -/
def depValue (call : CopyCall) (i : ℕ) (s : CopyState) : Option SignalValue :=
  call.depSignals[i]?.bind s.signals

/-- The next step of a call; `none` where it dereferences a null pointer. -/
def resume (call : CopyCall) (s : CopyState) : CopyPc → Option (CopyPc × CopyState)
  | .startWait i => some (.load i s.clock, s)
  | .load i startTime =>
    ((s.depValue call i).bind (GCCBuiltinSignal.load .acquire)).map fun loaded =>
      (.test i startTime loaded.1, s)
  | .test i startTime value =>
    if GCCBuiltinSignal.waitEnds (toPredicate .eq 0) (toStdPeriod (2 ^ 64 - 1))
        (s.clock - startTime) value then
      some (call.next (i + 1), s)
    else some (.load i startTime, s)
  | .copy =>
    -- the status is not looked at
    let memory := (hsaMemoryCopy s.initialized call.dst call.src call.size s.memory).2
    some (.store, { s with memory })
  | .store =>
    ((s.signals call.completionSignal).bind (GCCBuiltinSignal.store 0 .relaxed)).map fun value =>
      (.returned .success,
        { s with signals := Function.update s.signals call.completionSignal (some value) })
  | .returned _ => none

/-- The thread of a call is at `pc`. -/
def setPc (id : ℕ) (call : CopyCall) (pc : CopyPc) (s : CopyState) : CopyState :=
  { s with calls := Function.update s.calls id (some (call, pc)) }

end CopyState

/-- The calls in any order, with everything else. A reading of the clock is an `int64_t`. -/
def asyncCopyMachine : Machine CopyState CopyAction where
  init s := s.calls = (fun _ => none) ∧ s.clock < 2 ^ 63
  step a s :=
    match a with
    | .invoke id call =>
      if (s.calls id).isSome then none else some (s.setPc id call (call.next 0))
    | .resume id =>
      (s.calls id).bind fun (call, pc) =>
        (s.resume call pc).map fun (pc, s) => s.setPc id call pc
    | .others initialized signals memory ticks =>
      if s.clock + ticks < 2 ^ 63 then
        some { s with initialized, signals, memory, clock := s.clock + ticks }
      else none

/-! ## What a call promises -/

/-- The call has loaded 0 from the dependent signal. -/
def Observed (tr : List (CopyState × CopyAction)) (id : ℕ) (call : CopyCall) (i : ℕ) : Prop :=
  ∃ t startTime, (t, .resume id) ∈ tr ∧ t.calls id = some (call, .load i startTime) ∧
    t.depValue call i = some 0

/-- The copy of a call is made in a step of the run, from `t`. -/
def CopiesAt (tr : List (CopyState × CopyAction)) (id : ℕ) (call : CopyCall) (t : CopyState) :
    Prop :=
  (t, .resume id) ∈ tr ∧ t.calls id = some (call, .copy)

/-- What a call has done that returns by a step from `s` to `s'`. -/
structure CopyRight (tr : List (CopyState × CopyAction)) (s s' : CopyState) (id : ℕ)
    (call : CopyCall) (status : HsaStatus) : Prop where
  copied : status = .success → ∃ t t', CopiesAt tr id call t ∧
    asyncCopyMachine.step (.resume id) t = some t' ∧
    t'.memory.read call.dst call.size = t.memory.read call.src call.size
  decremented : status = .success → s'.signals call.completionSignal =
    (s.signals call.completionSignal).map fun value => value - 1
  reported : call.dst = 0 ∨ call.src = 0 → 0 < call.size → status ≠ .success ∨
    ∃ value, s'.signals call.completionSignal = some value ∧ value.toInt < 0

/-- What a step of a call promises. -/
structure StepRight (tr : List (CopyState × CopyAction)) (s s' : CopyState) (id : ℕ)
    (call : CopyCall) : Prop where
  /-- The copy starts after every dependent signal has been observed with the value 0. -/
  observed : s.calls id = some (call, .copy) → ∀ i < call.depSignals.length, Observed tr id call i
  /-- No wait ends for its time. -/
  notTimedOut : ∀ i startTime value, s.calls id = some (call, .test i startTime value) →
    s'.calls id ≠ some (call, .load i startTime) → value = 0
  returned : ∀ pc status, s.calls id = some (call, pc) →
    s'.calls id = some (call, .returned status) → CopyRight tr s s' id call status

/-- The steps of all calls keep their promises. -/
def AsyncCopiesRight : List (CopyState × CopyAction) → Prop :=
  Along fun tr s a => ∀ id call pc s', a = .resume id → s.calls id = some (call, pc) →
    asyncCopyMachine.step a s = some s' → StepRight tr s s' id call

/-- The completion signal is 1, and there is nothing to copy, or something that
`hsa_memory_copy` copies or that is there already. -/
def CopyFits (tr : List (CopyState × CopyAction)) (s : CopyState) (id : ℕ) (call : CopyCall) :
    Prop :=
  s.signals call.completionSignal = some 1 ∧ ∃ t, CopiesAt tr id call t ∧
    (call.size = 0 ∨ call.dst ≠ 0 ∧ call.src ≠ 0 ∧ (t.initialized = true ∨
      t.memory.read call.dst call.size = t.memory.read call.src call.size))

/-- Every store to a completion signal finds this. -/
def AsyncCopiesFit : List (CopyState × CopyAction) → Prop :=
  Along fun tr s a => ∀ id call, a = .resume id → s.calls id = some (call, .store) →
    CopyFits tr s id call

variable {tr : List (CopyState × CopyAction)} {s s' t : CopyState} {a : CopyAction} {id : ℕ}
  {call : CopyCall} {pc pc' : CopyPc}

/-! ## The steps of a call -/

/-- What a step of a call does. -/
inductive Resumes (call : CopyCall) (s : CopyState) : CopyPc → CopyPc → CopyState → Prop
  | startWait (i : ℕ) : Resumes call s (.startWait i) (.load i s.clock) s
  | load {i : ℕ} (startTime : ℕ) {value : SignalValue} : s.depValue call i = some value →
      Resumes call s (.load i startTime) (.test i startTime value) s
  | zero (i startTime : ℕ) : Resumes call s (.test i startTime 0) (call.next (i + 1)) s
  | again (i startTime : ℕ) {value : SignalValue} : value ≠ 0 →
      Resumes call s (.test i startTime value) (.load i startTime) s
  | copy : Resumes call s .copy .store
      { s with
        memory := (hsaMemoryCopy s.initialized call.dst call.src call.size s.memory).2 }
  | store {value : SignalValue} : s.signals call.completionSignal = some value →
      Resumes call s .store (.returned .success)
        { s with signals := Function.update s.signals call.completionSignal (some 0) }

/-- A wait without a limit ends for the value only. -/
theorem waitEnds_max {elapsed : ℤ} {value : SignalValue} (h : elapsed < 2 ^ 63) :
    GCCBuiltinSignal.waitEnds (toPredicate .eq 0) (toStdPeriod (2 ^ 64 - 1)) elapsed value =
      decide (value = 0) := by
  have hnot : ¬ elapsed > 2 ^ 63 - 1 := by omega
  rw [GCCBuiltinSignal.waitEnds, toStdPeriod_max, decide_eq_false hnot, Bool.false_or]
  rfl

theorem resume_cases (hclock : s.clock < 2 ^ 63) (h : s.resume call pc = some (pc', t)) :
    Resumes call s pc pc' t := by
  cases pc with
  | startWait i =>
    cases h
    exact .startWait i
  | load i startTime =>
    obtain ⟨loaded, hloaded, heq⟩ := Option.map_eq_some_iff.mp h
    obtain ⟨value, hvalue, hload⟩ := Option.bind_eq_some_iff.mp hloaded
    cases hload
    cases heq
    exact .load startTime hvalue
  | test i startTime value =>
    have helapsed : (s.clock : ℤ) - startTime < 2 ^ 63 := by omega
    simp only [CopyState.resume, waitEnds_max helapsed, decide_eq_true_eq] at h
    split at h
    case isTrue hzero =>
      cases h
      rw [hzero]
      exact .zero i startTime
    case isFalse hne =>
      cases h
      exact .again i startTime hne
  | copy =>
    cases h
    exact .copy
  | store =>
    obtain ⟨value, hvalue, heq⟩ := Option.map_eq_some_iff.mp h
    obtain ⟨current, hcurrent, hstore⟩ := Option.bind_eq_some_iff.mp hvalue
    cases hstore
    cases heq
    exact .store hcurrent
  | returned status => cases h

theorem Resumes.calls (h : Resumes call s pc pc' t) : t.calls = s.calls := by
  cases h <;> rfl

theorem Resumes.clock (h : Resumes call s pc pc' t) : t.clock = s.clock := by
  cases h <;> rfl

/-- A step of a call, from the state of the machine. -/
theorem step_resume (hclock : s.clock < 2 ^ 63) (hcall : s.calls id = some (call, pc))
    (hstep : asyncCopyMachine.step (.resume id) s = some s') :
    ∃ pc' t, Resumes call s pc pc' t ∧ s' = t.setPc id call pc' := by
  simp only [asyncCopyMachine, hcall, Option.bind_some] at hstep
  obtain ⟨⟨pc', t⟩, hresume, rfl⟩ := Option.map_eq_some_iff.mp hstep
  exact ⟨pc', t, resume_cases hclock hresume, rfl⟩

/-! ## The dependent signals -/

/-- The waits that are over. -/
def CopyPc.passed (call : CopyCall) : CopyPc → ℕ
  | .startWait i | .load i _ | .test i _ _ => i
  | .copy | .store | .returned _ => call.depSignals.length

theorem passed_next (i : ℕ) : (call.next i).passed call ≤ i := by
  simp only [CopyCall.next]
  split
  case isTrue => exact le_rfl
  case isFalse hge => exact Nat.not_lt.mp hge

/-- What a call has observed so far. -/
structure CallObserved (tr : List (CopyState × CopyAction)) (id : ℕ) (call : CopyCall)
    (pc : CopyPc) : Prop where
  passed : ∀ i < pc.passed call, Observed tr id call i
  loaded : ∀ i startTime value, pc = .test i startTime value →
    ∃ t, (t, .resume id) ∈ tr ∧ t.calls id = some (call, .load i startTime) ∧
      t.depValue call i = some value

theorem Observed.cons {i : ℕ} {p : CopyState × CopyAction} (h : Observed tr id call i) :
    Observed (p :: tr) id call i := by
  obtain ⟨t, startTime, ht, hload⟩ := h
  exact ⟨t, startTime, List.mem_cons_of_mem p ht, hload⟩

theorem CallObserved.cons {p : CopyState × CopyAction} (h : CallObserved tr id call pc) :
    CallObserved (p :: tr) id call pc where
  passed i hi := (h.passed i hi).cons
  loaded i startTime value heq := by
    obtain ⟨t, ht, hload⟩ := h.loaded i startTime value heq
    exact ⟨t, List.mem_cons_of_mem p ht, hload⟩

theorem next_ne_returned (i : ℕ) (status : HsaStatus) : call.next i ≠ .returned status := by
  simp only [CopyCall.next]
  split <;> simp

/-- Only the step that stores to the completion signal returns. -/
theorem Resumes.of_returned {status : HsaStatus} (h : Resumes call s pc pc' t)
    (hreturned : pc' = .returned status) : pc = .store ∧ status = .success := by
  cases h with
  | zero i => exact absurd hreturned (next_ne_returned (i + 1) status)
  | store =>
    cases hreturned
    exact ⟨rfl, rfl⟩
  | _ => cases hreturned

/-- A step of the call itself. -/
theorem CallObserved.resumes (h : CallObserved tr id call pc)
    (hcall : s.calls id = some (call, pc)) (hresumes : Resumes call s pc pc' t) :
    CallObserved ((s, .resume id) :: tr) id call pc' := by
  have hold := h.cons (p := (s, .resume id))
  cases hresumes with
  | startWait i => exact ⟨hold.passed, fun _ _ _ heq => by cases heq⟩
  | load startTime hvalue =>
    refine ⟨hold.passed, fun i start value heq => ?_⟩
    cases heq
    exact ⟨s, List.mem_cons_self, hcall, hvalue⟩
  | zero i startTime =>
    obtain ⟨u, hu, huload, huvalue⟩ := hold.loaded i startTime 0 rfl
    constructor
    case passed =>
      intro j hj
      rcases Nat.lt_succ_iff_lt_or_eq.mp (hj.trans_le (passed_next (i + 1))) with hlt | rfl
      · exact hold.passed j hlt
      · exact ⟨u, startTime, hu, huload, huvalue⟩
    case loaded =>
      intro j start value heq
      simp only [CopyCall.next] at heq
      split at heq <;> cases heq
  | again i startTime => exact ⟨hold.passed, fun _ _ _ heq => by cases heq⟩
  | copy | store => exact ⟨hold.passed, fun _ _ _ heq => by cases heq⟩

/-- The clock, and what the calls have observed. -/
structure CopyInv (tr : List (CopyState × CopyAction)) (s : CopyState) : Prop where
  clock : s.clock < 2 ^ 63
  calls : ∀ id call pc, s.calls id = some (call, pc) → CallObserved tr id call pc

theorem CopyInv.step (h : CopyInv tr s) (hstep : asyncCopyMachine.step a s = some s') :
    CopyInv ((s, a) :: tr) s' := by
  cases a with
  | invoke id call =>
    simp only [asyncCopyMachine] at hstep
    split at hstep
    · cases hstep
    · cases hstep
      refine ⟨h.clock, fun x c pc hx => ?_⟩
      rcases update_eq_some hx with ⟨rfl, heq⟩ | ⟨-, hx⟩
      · cases heq
        constructor
        · intro i hi
          exact absurd (hi.trans_le (passed_next 0)) (Nat.not_lt_zero i)
        · intro i startTime value heq
          simp only [CopyCall.next] at heq
          split at heq <;> cases heq
      · exact (h.calls x c pc hx).cons
  | resume id =>
    cases hcall : s.calls id with
    | none => simp [asyncCopyMachine, hcall] at hstep
    | some p =>
      obtain ⟨pc', t, hresumes, rfl⟩ := step_resume h.clock hcall hstep
      refine ⟨hresumes.clock ▸ h.clock, fun x c pc hx => ?_⟩
      rcases update_eq_some hx with ⟨rfl, heq⟩ | ⟨-, hx⟩
      · cases heq
        exact (h.calls _ _ _ hcall).resumes hcall hresumes
      · rw [hresumes.calls] at hx
        exact (h.calls x c pc hx).cons
  | others initialized signals memory ticks =>
    simp only [asyncCopyMachine] at hstep
    split at hstep
    · rename_i hclock
      cases hstep
      exact ⟨hclock, fun x c pc hx => (h.calls x c pc hx).cons⟩
    · cases hstep

theorem copyInv (hrun : asyncCopyMachine.Run tr s) : CopyInv tr s := by
  induction hrun with
  | init hinit => exact ⟨hinit.2, fun id call pc hcall => by simp [hinit.1] at hcall⟩
  | step _ hstep ih => exact ih.step hstep

/-- **The copy starts** after each of the dependent signals has been observed with the value 0. -/
theorem observed_of_run (hrun : asyncCopyMachine.Run tr s) (hcall : s.calls id = some (call, .copy))
    {i : ℕ} (hi : i < call.depSignals.length) : Observed tr id call i :=
  ((copyInv hrun).calls id call .copy hcall).passed i hi

/-! ## The copy and the store -/

/-- What the copy leaves at the destination. -/
theorem read_copy {initialized : Bool} {dst src size : ℕ} {m : Cells Byte} (hdst : dst ≠ 0)
    (hsrc : src ≠ 0) (hinit : initialized = true) :
    (hsaMemoryCopy initialized dst src size m).2.read dst size = m.read src size := by
  by_cases hsize : size = 0
  · subst hsize
    rfl
  · have hread : (m.write dst (m.read src size)).read dst size = m.read src size :=
      Cells.read_write_of_length Cells.length_read
    simp [hsaMemoryCopy, hdst, hsrc, hsize, hinit, hread]

theorem read_not_initialized {dst src size : ℕ} {m : Cells Byte} :
    (hsaMemoryCopy false dst src size m).2.read dst size = m.read dst size := by
  simp [hsaMemoryCopy]

/-- A step that makes the copy. -/
theorem step_copy (hcall : t.calls id = some (call, .copy)) :
    ∃ t', asyncCopyMachine.step (.resume id) t = some t' ∧
      t'.memory = (hsaMemoryCopy t.initialized call.dst call.src call.size t.memory).2 := by
  refine ⟨CopyState.setPc id call .store { t with memory := _ }, ?_, rfl⟩
  simp [asyncCopyMachine, hcall, CopyState.resume]

/-- What a call that keeps its promises has found, if it leaves 0 in the completion signal. -/
theorem CopyRight.fits {value : SignalValue} (h : CopyRight tr s s' id call .success)
    (hbefore : s.signals call.completionSignal = some value)
    (hafter : s'.signals call.completionSignal = some 0) : CopyFits tr s id call := by
  obtain ⟨t, t', hcopies, ht', hread⟩ := h.copied rfl
  obtain ⟨u, hu, hmemory⟩ := step_copy hcopies.2
  rw [ht', Option.some.injEq] at hu
  subst hu
  constructor
  · have hdecremented := h.decremented rfl
    simp only [hafter, hbefore, Option.map_some, Option.some.injEq] at hdecremented
    have hone : value = 1 := by bv_omega
    rw [hbefore, hone]
  · refine ⟨t, hcopies, ?_⟩
    by_cases hsize : call.size = 0
    · exact .inl hsize
    · have hnull : ¬ (call.dst = 0 ∨ call.src = 0) := by
        intro hnull
        rcases h.reported hnull (Nat.pos_of_ne_zero hsize) with hne | ⟨v, hv, hneg⟩
        · exact hne rfl
        · rw [hafter, Option.some.injEq] at hv
          rw [← hv] at hneg
          exact absurd hneg (by decide)
      obtain ⟨hdst, hsrc⟩ := not_or.mp hnull
      refine .inr ⟨hdst, hsrc, ?_⟩
      cases hinit : t.initialized with
      | true => exact .inl rfl
      | false =>
        rw [hmemory, hinit, read_not_initialized] at hread
        exact .inr hread

theorem CopyFits.keeps (h : CopyFits tr s id call)
    (hafter : s'.signals call.completionSignal = some 0) :
    CopyRight tr s s' id call .success := by
  obtain ⟨hone, t, hcopies, hfits⟩ := h
  constructor
  case copied =>
    intro _
    obtain ⟨t', ht', hmemory⟩ := step_copy hcopies.2
    refine ⟨t, t', hcopies, ht', ?_⟩
    rcases hfits with hsize | ⟨hdst, hsrc, hinit | hread⟩
    · rw [hsize]
      rfl
    · rw [hmemory, read_copy hdst hsrc hinit]
    · cases hinit : t.initialized with
      | true => rw [hmemory, read_copy hdst hsrc hinit]
      | false => rw [hmemory, hinit, read_not_initialized, hread]
  case decremented =>
    intro _
    rw [hone, hafter]
    rfl
  case reported =>
    intro hnull hsize
    rcases hfits with hzero | ⟨hdst, hsrc, -⟩
    · omega
    · exact absurd hnull (not_or.mpr ⟨hdst, hsrc⟩)

/-- A call that returns keeps its promises exactly if the signal was 1 and the copy could be
made, or was there. -/
theorem copyRight_iff (hclock : s.clock < 2 ^ 63) (hcall : s.calls id = some (call, .store))
    (hstep : asyncCopyMachine.step (.resume id) s = some s') :
    CopyRight tr s s' id call .success ↔ CopyFits tr s id call := by
  obtain ⟨pc', u, hresumes, rfl⟩ := step_resume hclock hcall hstep
  cases hresumes with
  | store hbefore =>
    have hafter : Function.update s.signals call.completionSignal (some 0)
        call.completionSignal = some 0 := Function.update_self ..
    exact ⟨fun h => h.fits hbefore hafter, fun h => h.keeps hafter⟩

/-- A step that is not a store keeps its promises. -/
theorem stepRight_iff (hrun : asyncCopyMachine.Run tr s) (hcall : s.calls id = some (call, pc))
    (hstep : asyncCopyMachine.step (.resume id) s = some s') :
    StepRight tr s s' id call ↔ (pc = .store → CopyFits tr s id call) := by
  have hclock := (copyInv hrun).clock
  obtain ⟨pc', u, hresumes, hs'⟩ := step_resume hclock hcall hstep
  have hcall' : s'.calls id = some (call, pc') := by rw [hs']; exact Function.update_self ..
  constructor
  · rintro h rfl
    rw [← copyRight_iff hclock hcall hstep]
    cases hresumes with
    | store hvalue => exact h.returned .store .success hcall hcall'
  · intro hfits
    constructor
    case observed => exact fun hcopy _ hi => observed_of_run hrun hcopy hi
    case notTimedOut =>
      intro i startTime value htest hends
      rw [hcall, Option.some.injEq, Prod.mk.injEq] at htest
      obtain ⟨-, rfl⟩ := htest
      cases hresumes with
      | zero => rfl
      | again => exact absurd hcall' hends
    case returned =>
      intro pc₁ status hpc₁ hreturned
      rw [hcall', Option.some.injEq, Prod.mk.injEq] at hreturned
      obtain ⟨rfl, rfl⟩ := hresumes.of_returned hreturned.2
      exact (copyRight_iff hclock hcall hstep).mpr (hfits rfl)

/-- **The calls of a run** keep their promises if and only if every store to a completion signal
finds the value 1 there, after a copy that could be made. -/
theorem async_copy_iff (hrun : asyncCopyMachine.Run tr s) :
    AsyncCopiesRight tr ↔ AsyncCopiesFit tr := by
  apply hrun.along_congr
  intro tr s a s' hrun hstep
  constructor
  · rintro h id call rfl hcall
    exact (stepRight_iff hrun hcall hstep).mp (h id call .store s' rfl hcall hstep) rfl
  · rintro h id call pc s'' rfl hcall hs''
    rw [stepRight_iff hrun hcall hs'']
    rintro rfl
    exact h id call rfl hcall

/-! ## Some runs -/

/-- Two bytes at 32, a dependent signal at 8 and the completion signal at 16. -/
def twoBytes (completion : SignalValue) : CopyState where
  initialized := true
  signals := Function.update (Function.update (fun _ => none) 8 (some 0)) 16 (some completion)
  memory i := if i = 32 then 7 else if i = 33 then 9 else 0
  clock := 0
  calls _ := none

/-- Copy them to another address. -/
def copyTwoBytes (dst : ℕ) (depSignals : List ℕ) : CopyCall where
  dst
  src := 32
  size := 2
  depSignals
  completionSignal := 16

/-- The whole call, in one thread. -/
def wholeCall (call : CopyCall) (steps : ℕ) : List CopyAction :=
  .invoke 0 call :: List.replicate steps (.resume 0)

theorem run_of_wholeCall (call : CopyCall) (steps : ℕ) (h : asyncCopyMachine.init s)
    (htrace : asyncCopyMachine.trace (wholeCall call steps) [] s = some (tr, s')) :
    asyncCopyMachine.Run tr s' :=
  run_of_trace (.init h) htrace

theorem fits_of_not_store (h : (s.calls id).map Prod.snd ≠ some .store) (id' : ℕ) (call : CopyCall)
    (ha : CopyAction.resume id = .resume id') (hcall : s.calls id' = some (call, .store)) :
    CopyFits tr s id' call := by
  cases ha
  rw [hcall] at h
  exact absurd rfl h

/-- A copy after one wait. -/
theorem async_copy_two_bytes : ∃ tr s, asyncCopyMachine.Run tr s ∧ tr.length = 6 ∧
    s.memory.read 64 2 = [7, 9] ∧ AsyncCopiesRight tr := by
  have hinit : asyncCopyMachine.init (twoBytes 1) := ⟨rfl, by decide⟩
  have hrun := run_of_wholeCall (copyTwoBytes 64 [8]) 5 hinit rfl
  refine ⟨_, _, hrun, rfl, by decide, (async_copy_iff hrun).mpr ?_⟩
  refine ⟨?_, fits_of_not_store (by decide), fits_of_not_store (by decide),
    fits_of_not_store (by decide), fits_of_not_store (by decide), ?_, trivial⟩
  · rintro id call ha hcall
    cases ha
    cases hcall
    exact ⟨by decide, _, ⟨List.mem_cons_self, rfl⟩, .inr ⟨by decide, by decide, .inl rfl⟩⟩
  · intro id call ha
    cases ha

/-- The last step of a run, if it is a store. -/
theorem copyFits_of_right (hrun : asyncCopyMachine.Run ((s, .resume id) :: tr) s')
    (hcall : s.calls id = some (call, .store)) (h : AsyncCopiesRight ((s, .resume id) :: tr)) :
    CopyFits tr s id call := by
  cases hrun with
  | step hrun hstep =>
    exact (stepRight_iff hrun hcall hstep).mp (h.1 id call .store s' rfl hcall hstep) rfl

/-- The completion signal of two copies is 0 after the first one, and a copy to a null pointer is
a success. -/
theorem async_copy_not_right :
    (∃ tr s, asyncCopyMachine.Run tr s ∧ s.signals 16 = some 0 ∧
      s.calls 0 = some (copyTwoBytes 64 [], .returned .success) ∧ ¬ AsyncCopiesRight tr) ∧
    ∃ tr s, asyncCopyMachine.Run tr s ∧ s.signals 16 = some 0 ∧
      s.calls 0 = some (copyTwoBytes 0 [], .returned .success) ∧ ¬ AsyncCopiesRight tr := by
  constructor
  · have hinit : asyncCopyMachine.init (twoBytes 2) := ⟨rfl, by decide⟩
    have hrun := run_of_wholeCall (copyTwoBytes 64 []) 2 hinit rfl
    refine ⟨_, _, hrun, by decide, by decide, fun hright => ?_⟩
    exact absurd (copyFits_of_right hrun rfl hright).1 (by decide)
  · have hinit : asyncCopyMachine.init (twoBytes 1) := ⟨rfl, by decide⟩
    have hrun := run_of_wholeCall (copyTwoBytes 0 []) 2 hinit rfl
    refine ⟨_, _, hrun, by decide, by decide, fun hright => ?_⟩
    obtain ⟨-, t, -, hsize | ⟨hdst, -⟩⟩ := copyFits_of_right hrun rfl hright
    · exact absurd hsize (by decide)
    · exact hdst rfl

end PhsaRuntime
