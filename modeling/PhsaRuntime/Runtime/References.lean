import PhsaRuntime.Runtime.Workers

/-!
# The reference count

`hsa_init` and `hsa_shut_down` do to the reference count what one atomic step would do, although
the last reference is given back over a dozen steps in which the count is still 1. In that time
`Runtime::isInitialized` says that there is a runtime. What keeps a function of the interface away
from a runtime that is being deleted is the discipline of the clients: nobody calls it without a
reference, or gives the last reference back while it runs.

## Main definitions

* `referenceSpec` — the reference count as a sequential object.
* `KeepsReference` — the discipline of the clients.

## Main results

* `runtime_linearizable` — every history of the two calls is one of the sequential object.
* `call_uses_session` — under the discipline every call works with the session that is served.
-/

namespace PhsaRuntime

open RuntimeState

variable {Q T M L R E : Type} [DecidableEq Q] [DecidableEq T] {P : Processor Q M L R E}
  {init : M → Prop} {s s' : RuntimeState Q T M L}

/-! ## Linearizability -/

/-- What `hsa_init` and `hsa_shut_down` return, and what they do to the reference count. -/
def referenceSpec : RuntimeCall → ℕ → Bool × ℕ
  | .init, count => if count = 2147483647 then (false, count) else (true, count + 1)
  | .release, count => if count = 0 then (false, count) else (true, count - 1)

/-- Where a thread is in a call of the sequential object. -/
def RuntimePc.phase : RuntimePc → AtomicPhase RuntimeCall Bool
  | .idle | .isInitialized | .get | .inCall _ => .idle
  | .lockCounter call | .check call | .lockInstance call | .unlockInstance call | .count call =>
    .called call
  | .create | .assign _ => .called .init
  | .storeShutDown _ | .join _ | .destroy _ | .assignNull => .called .release
  | .unlockCounter call ok => .done call ok

/-- The sequential object in a state of the runtime. -/
def RuntimeState.toAtomic (s : RuntimeState Q T M L) : AtomicState T RuntimeCall Bool ℕ where
  value := s.referenceCounter
  phase := fun t => (s.thread t).phase
  history := s.history

omit [DecidableEq Q] in
theorem phase_goto (s : RuntimeState Q T M L) (t : T) (pc : RuntimePc) :
    (fun u => ((s.goto t pc).thread u).phase) =
      Function.update (fun u => (s.thread u).phase) t pc.phase := by
  ext u
  by_cases hu : u = t
  · subst hu; simp
  · simp [hu]

omit [DecidableEq Q] in
/-- A step after which the sequential object is where it was. -/
theorem toAtomic_goto {s₁ : RuntimeState Q T M L} {t : T} {pc : RuntimePc}
    (hthread : s₁.thread = s.thread) (hcount : s₁.referenceCounter = s.referenceCounter)
    (hhistory : s₁.history = s.history) (hphase : pc.phase = (s.thread t).phase) :
    (s₁.goto t pc).toAtomic = s.toAtomic := by
  have hpc : (fun u => ((s₁.goto t pc).thread u).phase) = fun u => (s.thread u).phase := by
    rw [phase_goto, hthread, hphase, Function.update_eq_self]
  simp only [toAtomic, hpc, history_goto, hhistory, toRuntimeSessions_goto, hcount]

/-- The steps of the sequential object. -/
def referenceMachine (T : Type) [DecidableEq T] :
    Machine (AtomicState T RuntimeCall Bool ℕ) (AtomicAction T RuntimeCall) :=
  atomicMachine referenceSpec fun count => count = 0

omit [DecidableEq Q] in
/-- The call takes effect. -/
theorem commit_step {s₁ : RuntimeState Q T M L} {t : T} {call : RuntimeCall} {ok : Bool}
    (hphase : (s.thread t).phase = .called call) (hthread : s₁.thread = s.thread)
    (hhistory : s₁.history = s.history)
    (hspec : referenceSpec call s.referenceCounter = (ok, s₁.referenceCounter)) :
    (referenceMachine T).step (.commit t) s.toAtomic =
      some (s₁.goto t (.unlockCounter call ok)).toAtomic := by
  rw [referenceMachine, atomic_commit hphase]
  simp only [toAtomic, hspec, phase_goto, hthread, history_goto, hhistory, toRuntimeSessions_goto]
  rfl

omit [DecidableEq Q] in
/-- Every step of a thread is none of the sequential object, or one. -/
theorem toAtomic_thread_step (h : Inv s) {t : T} {m : M} (hs : threadStep t m s = some s') :
    s'.toAtomic = s.toAtomic ∨
      ∃ a, (referenceMachine T).step a s.toAtomic = some s'.toAtomic := by
  have hses := h.session t
  have hmove := threadMove hs
  generalize hpc : s.thread t = pc at hses hmove
  cases hmove with
  | overflow hcount =>
    refine .inr ⟨.commit t, commit_step (by rw [hpc]; rfl) rfl rfl ?_⟩
    simp [referenceSpec, hcount]
  | none hcount =>
    refine .inr ⟨.commit t, commit_step (by rw [hpc]; rfl) rfl rfl ?_⟩
    simp [referenceSpec, hcount]
  | count call =>
    cases call with
    | init =>
      refine .inr ⟨.commit t, commit_step (by rw [hpc]; rfl) rfl rfl ?_⟩
      have hlt := hses.1
      simp only [referenceSpec, if_neg hlt.ne, countCall]
    | release =>
      refine .inr ⟨.commit t, commit_step (by rw [hpc]; rfl) rfl rfl ?_⟩
      have hpos : s.referenceCounter ≠ 0 := by
        rcases hses with ⟨hone, -⟩ | ⟨hmore, -⟩ <;> omega
      simp only [referenceSpec, if_neg hpos, countCall]
  | unlockCounter call ok =>
    refine .inr ⟨.ret t, ?_⟩
    have hphase : s.toAtomic.phase t = .done call ok := congrArg RuntimePc.phase hpc
    rw [referenceMachine, atomic_ret hphase]
    cases call <;> simp only [toAtomic, phase_goto, history_goto, toRuntimeSessions_goto] <;> rfl
  | lockInstance call hfree =>
    refine .inl (toAtomic_goto rfl rfl rfl ?_)
    rw [hpc]
    cases call <;> cases s.runtime <;> rfl
  | _ => exact .inl (toAtomic_goto rfl rfl rfl (by rw [hpc]; rfl))

/-- **Linearizability.** Every history of `hsa_init` and `hsa_shut_down`, with what they have
returned, is one of a counter whose operations take effect at once. -/
theorem runtime_linearizable (hr : (runtimeMachine T P init).Reachable Machine.always s) :
    (referenceMachine T).Reachable Machine.always s.toAtomic := by
  refine hr.simulate toAtomic (fun _ => True) ?_ (fun _ _ _ _ _ => trivial) ?_ trivial
  · rintro s ⟨hcount, -, -, -, -, -, -, hthread, -, -, hhistory⟩
    exact ⟨hcount, fun t => by simp [toAtomic, hthread, RuntimePc.phase], hhistory⟩
  · intro s a s' hr _ hs _
    have h := inv_of_reachable hr
    cases runtimeMove hs with
    | call t call hidle =>
      refine .inr ⟨.call t call, trivial, ?_⟩
      have hphase : s.toAtomic.phase t = .idle := congrArg RuntimePc.phase hidle
      rw [referenceMachine, atomic_call call hphase]
      cases call <;> simp only [toAtomic, phase_goto, history_goto, toRuntimeSessions_goto] <;> rfl
    | api t hidle => exact .inl (toAtomic_goto rfl rfl rfl (by rw [hidle]; rfl))
    | leave t i hin => exact .inl (toAtomic_goto rfl rfl rfl (by rw [hin]; rfl))
    | thread t m _ hs =>
      rcases toAtomic_thread_step h hs with heq | ⟨b, hb⟩
      · exact .inl heq
      · exact .inr ⟨b, trivial, hb⟩
    | request | agent => exact .inl rfl

/-- Two calls of which the one begins and ends within the other. -/
theorem runtime_linearizable_overlap : ∃ s : RuntimeState Unit Bool (Memory Unit) Job,
    s.history = [.ret false .release false, .call false .release, .call true .init] ∧
      (referenceMachine Bool).Reachable Machine.always s.toAtomic := by
  obtain ⟨s, hr, hp⟩ := Machine.exists_reachable_of_run (processMachine Bool Exec.config)
    Machine.always
    ([.call true .init, .call false .release] ++ Process.thread Process.memory false 3)
    (fun s => s.history = [.ret false .release false, .call false .release, .call true .init])
    Process.init_start (by decide +kernel)
  exact ⟨s, of_decide_eq_true hp, runtime_linearizable hr⟩

/-! ## The discipline of the clients -/

/-- Nobody calls a function of the interface without a reference, nor gives the last reference back
while another thread is in one. -/
def KeepsReference (s : RuntimeState Q T M L) : RuntimeAction Q T {m : M // init m} R E → Prop
  | .api _ => 1 ≤ s.references
  | .call _ .release => 1 ≤ s.references ∧ ((∃ u, (s.thread u).inApi = true) → 2 ≤ s.references)
  | _ => True

instance [Fintype T] (s : RuntimeState Q T M L) (a : RuntimeAction Q T {m : M // init m} R E) :
    Decidable (KeepsReference s a) :=
  match a with
  | .api _ => inferInstanceAs (Decidable (1 ≤ _))
  | .call _ .release => inferInstanceAs (Decidable (_ ∧ _))
  | .call _ .init | .leave _ | .thread _ _ | .request _ _ | .agent _ _ => .isTrue trivial

/-- The thread is in `hsa_shut_down`, and the reference count still includes its reference. -/
def RuntimePc.isReleasing : RuntimePc → Bool
  | .lockCounter .release | .check .release | .lockInstance .release | .storeShutDown _ | .join _
  | .destroy _ | .assignNull | .unlockInstance .release | .count .release
  | .unlockCounter .release false => true
  | _ => false

/-- The thread has been counted in `hsa_init`, which has not returned. -/
def RuntimePc.isCounted : RuntimePc → Bool
  | .unlockCounter .init true => true
  | _ => false

/-- The reference count is what the clients have and give back, and what `hsa_init` is about to
hand out. -/
structure ReferenceInv (s : RuntimeState Q T M L) : Prop where
  releasing : ∀ t, t ∈ s.releasing ↔ (s.thread t).isReleasing = true
  count : ∀ t, (s.thread t).isCounted = true →
    s.referenceCounter = s.references + s.releasing.card + 1
  countRest : (∀ t, (s.thread t).isCounted = false) →
    s.referenceCounter = s.references + s.releasing.card
  accepted : ∀ t, s.thread t ≠ .unlockCounter .release false
  api : ∀ t, (s.thread t).inApi = true → 1 ≤ s.references
  runtime : ∀ t i, s.thread t = .inCall i → s.runtime = i

omit [DecidableEq Q] [DecidableEq T] in
theorem ReferenceInv.le (h : ReferenceInv s) :
    s.references + s.releasing.card ≤ s.referenceCounter := by
  by_cases hcounted : ∃ t, (s.thread t).isCounted = true
  · obtain ⟨t, ht⟩ := hcounted
    have heq := h.count t ht
    omega
  · refine (h.countRest fun t => ?_).ge
    by_contra ht
    exact hcounted ⟨t, by simpa using ht⟩

omit [DecidableEq Q] [DecidableEq T] in
/-- A reference that is held keeps the session going. -/
theorem ReferenceInv.serving (h : ReferenceInv s) (hinv : Inv s) (hheld : 1 ≤ s.references) :
    ∃ k, s.Serving k := by
  have hle := h.le
  have hsettled : s.Settled → ∃ k, s.Serving k := fun hset =>
    (hset.resolve_left fun hz => by omega).2
  -- the thread that ends the session would be counted, too
  have hlast : ∀ {t}, (s.thread t).isReleasing = true → s.referenceCounter = 1 → False := by
    intro t ht hone
    have hcard := Finset.card_pos.mpr ⟨t, (h.releasing t).mpr ht⟩
    omega
  cases hmutex : s.referenceCounterMutex with
  | none => exact hsettled (hinv.settled hmutex)
  | some t =>
    have hses := hinv.session t
    have hin := (hinv.counter t).mp hmutex
    cases hpc : s.thread t with
    | idle | lockCounter _ | isInitialized | get | inCall _ =>
      simp [hpc, RuntimePc.locksCounter] at hin
    | check _ | unlockCounter _ _ =>
      rw [hpc] at hses
      exact hsettled hses
    | create | assign _ =>
      rw [hpc] at hses
      have hzero := hses.1
      omega
    | storeShutDown k =>
      rw [hpc] at hses
      exact ⟨k, hses.2⟩
    | join _ | destroy _ | assignNull =>
      rw [hpc] at hses
      exact (hlast (t := t) (by rw [hpc]; rfl) hses.1).elim
    | lockInstance call | unlockInstance call =>
      rw [hpc] at hses
      cases call with
      | init => first | exact hses.2 | (have hzero := hses.1; omega)
      | release => first | exact hses.2 | exact (hlast (t := t) (by rw [hpc]; rfl) hses.1).elim
    | count call =>
      rw [hpc] at hses
      cases call with
      | init => exact hses.2
      | release =>
        rcases hses with hone | hmore
        · exact (hlast (t := t) (by rw [hpc]; rfl) hone.1).elim
        · exact hmore.2

omit [DecidableEq Q] in
/-- A step that leaves the count as it is. -/
theorem ReferenceInv.goto (h : ReferenceInv s) {s₁ : RuntimeState Q T M L} {t : T} {pc : RuntimePc}
    (hthread : s₁.thread = s.thread) (hreleasing : s₁.releasing = s.releasing)
    (hreferences : s₁.references = s.references)
    (hcount : s₁.referenceCounter = s.referenceCounter)
    (hruntime : s₁.runtime = s.runtime ∨ s.references = 0)
    (hrel : pc.isReleasing = (s.thread t).isReleasing)
    (hcounted : pc.isCounted = (s.thread t).isCounted)
    (hrefused : pc ≠ .unlockCounter .release false)
    (hapi : pc.inApi = true → 1 ≤ s.references)
    (hcall : ∀ i, pc = .inCall i → s.runtime = i) : ReferenceInv (s₁.goto t pc) := by
  have hpc : ∀ u, (Function.update s.thread t pc u).isReleasing = (s.thread u).isReleasing ∧
      (Function.update s.thread t pc u).isCounted = (s.thread u).isCounted := by
    intro u
    by_cases hu : u = t
    · subst hu; simp [hrel, hcounted]
    · simp [hu]
  have hin : ∀ u, (Function.update s.thread t pc u).inApi = true → 1 ≤ s.references := by
    intro u
    by_cases hu : u = t
    · subst hu; simpa using hapi
    · simpa [hu] using h.api u
  refine ⟨?_, ?_, ?_, ?_, ?_, ?_⟩
  · intro u
    rw [thread_goto, hthread, (hpc u).1, releasing_goto, hreleasing]
    exact h.releasing u
  · intro u hu
    rw [thread_goto, hthread, (hpc u).2] at hu
    simpa [hcount, hreferences, hreleasing] using h.count u hu
  · intro hnone
    simp only [thread_goto, hthread, (hpc _).2] at hnone
    simpa [hcount, hreferences, hreleasing] using h.countRest hnone
  · intro u
    rw [thread_goto, hthread]
    by_cases hu : u = t
    · subst hu; simpa using hrefused
    · simpa [hu] using h.accepted u
  · intro u hu
    rw [thread_goto, hthread] at hu
    simpa [hreferences] using hin u hu
  · intro u i hu
    rw [thread_goto, hthread] at hu
    have hheld := hin u (by rw [hu]; rfl)
    rw [toRuntimeSessions_goto, hruntime.resolve_right (by omega)]
    by_cases heq : u = t
    · subst heq; exact hcall i (by simpa using hu)
    · exact h.runtime u i (by simpa [heq] using hu)

omit [DecidableEq Q] in
/-- The same, to a place outside of the functions of the interface. -/
theorem ReferenceInv.goto_out (h : ReferenceInv s) {s₁ : RuntimeState Q T M L} {t : T}
    {pc : RuntimePc} (hthread : s₁.thread = s.thread) (hreleasing : s₁.releasing = s.releasing)
    (hreferences : s₁.references = s.references)
    (hcount : s₁.referenceCounter = s.referenceCounter)
    (hruntime : s₁.runtime = s.runtime ∨ s.references = 0)
    (hrel : pc.isReleasing = (s.thread t).isReleasing)
    (hcounted : pc.isCounted = (s.thread t).isCounted)
    (hrefused : pc ≠ .unlockCounter .release false) (hout : pc.inApi = false) :
    ReferenceInv (s₁.goto t pc) := by
  refine h.goto hthread hreleasing hreferences hcount hruntime hrel hcounted hrefused ?_ ?_
  · simp [hout]
  · rintro i rfl
    cases hout

omit [DecidableEq Q] [DecidableEq T] in
/-- The count, while the owner of `ReferenceCounterMutex` has not counted. -/
theorem ReferenceInv.count_owner (h : ReferenceInv s) (hinv : Inv s) {t : T}
    (ht : (s.thread t).locksCounter = true) (hnot : (s.thread t).isCounted = false) :
    s.referenceCounter = s.references + s.releasing.card := by
  refine h.countRest fun u => ?_
  by_cases hu : u = t
  · exact hu ▸ hnot
  · have hout := hinv.others ht u hu
    cases hpc : s.thread u <;> simp_all [RuntimePc.isCounted, RuntimePc.locksCounter]

omit [DecidableEq Q] in
/-- A step that counts, or gives a reference to the clients or takes one from them. -/
theorem ReferenceInv.move (h : ReferenceInv s) {s₁ : RuntimeState Q T M L} {t : T} {pc : RuntimePc}
    (hthread : s₁.thread = s.thread) (hruntime : s₁.runtime = s.runtime)
    (hrefused : pc ≠ .unlockCounter .release false) (hapi : pc.inApi = false)
    (hreleasing : ∀ u, u ∈ s₁.releasing ↔ (Function.update s.thread t pc u).isReleasing = true)
    (hcount : ∀ u, (Function.update s.thread t pc u).isCounted = true →
      s₁.referenceCounter = s₁.references + s₁.releasing.card + 1)
    (hrest : (∀ u, (Function.update s.thread t pc u).isCounted = false) →
      s₁.referenceCounter = s₁.references + s₁.releasing.card)
    (hheld : (∃ u, (s.thread u).inApi = true) → 1 ≤ s₁.references) :
    ReferenceInv (s₁.goto t pc) := by
  refine ⟨?_, ?_, ?_, ?_, ?_, ?_⟩
  · simpa [hthread] using hreleasing
  · simpa [hthread] using hcount
  · simpa [hthread] using hrest
  · intro u
    by_cases hu : u = t
    · subst hu; simpa using hrefused
    · simpa [hthread, hu] using h.accepted u
  · intro u hu
    by_cases heq : u = t
    · subst heq; simp [hapi] at hu
    · exact hheld ⟨u, by simpa [hthread, heq] using hu⟩
  · intro u i hu
    by_cases heq : u = t
    · subst heq
      obtain rfl : pc = .inCall i := by simpa using hu
      cases hapi
    · simpa [hruntime] using h.runtime u i (by simpa [hthread, heq] using hu)

omit [DecidableEq Q] [DecidableEq T] in
/-- Nobody else has been counted and not returned. -/
theorem RuntimeState.Inv.not_counted (hinv : Inv s) {t : T}
    (ht : (s.thread t).locksCounter = true) : ∀ u ≠ t, (s.thread u).isCounted = false := by
  intro u hu
  have hother := hinv.others ht u hu
  cases hu' : s.thread u <;> simp_all [RuntimePc.isCounted, RuntimePc.locksCounter]

omit [DecidableEq Q] in
theorem ReferenceInv.count_step (h : ReferenceInv s) (hinv : Inv s) {t : T} {call : RuntimeCall}
    (hpc : s.thread t = .count call) :
    ReferenceInv ((s.countCall t call).goto t (.unlockCounter call true)) := by
  have hin : (s.thread t).locksCounter = true := by rw [hpc]; rfl
  have hcount := h.count_owner hinv hin (by rw [hpc]; rfl)
  have hheld : (∃ u, (s.thread u).inApi = true) → 1 ≤ s.references := fun ⟨u, hu⟩ => h.api u hu
  cases call with
  | init =>
    refine h.move rfl rfl (by simp) rfl ?_ (fun _ _ => by simp [countCall, hcount]) ?_ hheld
    · intro u
      by_cases hu : u = t
      · subst hu; simp [countCall, h.releasing, hpc, RuntimePc.isReleasing]
      · simp [countCall, hu, h.releasing]
    · intro hnone
      simpa [RuntimePc.isCounted] using hnone t
  | release =>
    have hmem : t ∈ s.releasing := (h.releasing t).mpr (by rw [hpc]; rfl)
    have hcard := Finset.card_erase_add_one hmem
    refine h.move rfl rfl (by simp) rfl ?_ ?_ (fun _ => by simp only [countCall]; omega) hheld
    · intro u
      by_cases hu : u = t
      · subst hu; simp [countCall, RuntimePc.isReleasing]
      · simp [countCall, hu, h.releasing]
    · intro u hu
      by_cases heq : u = t
      · subst heq; simp [RuntimePc.isCounted] at hu
      · simp [heq, hinv.not_counted hin u heq] at hu

omit [DecidableEq Q] in
theorem ReferenceInv.return_step (h : ReferenceInv s) (hinv : Inv s) {t : T} {call : RuntimeCall}
    {ok : Bool} (hpc : s.thread t = .unlockCounter call ok) :
    ReferenceInv ({ s.returnCall t call ok with referenceCounterMutex := none }.goto t .idle) := by
  have hin : (s.thread t).locksCounter = true := by rw [hpc]; rfl
  have hheld : (∃ u, (s.thread u).inApi = true) → 1 ≤ s.references := fun ⟨u, hu⟩ => h.api u hu
  have hnone : ∀ u, (Function.update s.thread t .idle u).isCounted = false := by
    intro u
    by_cases hu : u = t
    · subst hu; simp [RuntimePc.isCounted]
    · simpa [hu] using hinv.not_counted hin u hu
  have hreleasing : t ∉ s.releasing → ∀ u,
      u ∈ s.releasing ↔ (Function.update s.thread t .idle u).isReleasing = true := by
    intro hnot u
    by_cases hu : u = t
    · subst hu; simp [hnot, RuntimePc.isReleasing]
    · simp [hu, h.releasing]
  cases call with
  | init =>
    have hnot : t ∉ s.releasing := by simp [h.releasing, hpc, RuntimePc.isReleasing]
    refine h.move rfl rfl (by simp) rfl (hreleasing hnot) (fun u hu => by simp [hnone] at hu) ?_ ?_
    · intro _
      cases ok with
      | true =>
        have hcount := h.count t (by rw [hpc]; rfl)
        simp only [returnCall, if_true]
        omega
      | false => simpa [returnCall] using h.count_owner hinv hin (by rw [hpc]; rfl)
    · intro hu
      have hle := hheld hu
      cases ok <;> simp only [returnCall, if_true, Bool.false_eq_true, if_false] <;> omega
  | release =>
    cases ok with
    | false => exact absurd hpc (h.accepted t)
    | true =>
      have hnot : t ∉ s.releasing := by simp [h.releasing, hpc, RuntimePc.isReleasing]
      have heq : s.releasing.erase t = s.releasing := Finset.erase_eq_of_notMem hnot
      refine h.move rfl rfl (by simp) rfl ?_ (fun u hu => by simp [hnone] at hu) (fun _ => ?_) hheld
      · simpa only [returnCall, heq] using hreleasing hnot
      · simpa only [returnCall, heq] using h.count_owner hinv hin (by rw [hpc]; rfl)

omit [DecidableEq Q] in
theorem ReferenceInv.thread_step (h : ReferenceInv s) (hinv : Inv s) {t : T} {m : M}
    (hs : threadStep t m s = some s') : ReferenceInv s' := by
  have hses := hinv.session t
  have hmove := threadMove hs
  generalize hpc : s.thread t = pc at hses hmove
  have hle := h.le
  have hapi : (s.thread t).inApi = true → 1 ≤ s.references := h.api t
  have hlast : pc.isReleasing = true → s.referenceCounter = 1 → s.references = 0 := by
    intro hrel hone
    have hcard := Finset.card_pos.mpr ⟨t, (h.releasing t).mpr (hpc ▸ hrel)⟩
    omega
  cases hmove with
  | none hcount =>
    -- a thread that gives back a reference has one
    have hcard := Finset.card_pos.mpr ⟨t, (h.releasing t).mpr (by rw [hpc]; rfl)⟩
    omega
  | count call => exact h.count_step hinv hpc
  | unlockCounter call ok => exact h.return_step hinv hpc
  | assign k =>
    refine h.goto_out rfl rfl rfl rfl (.inr ?_) (by rw [hpc]; rfl) (by rw [hpc]; rfl) (by simp) rfl
    have hzero := hses.1
    omega
  | assignNull =>
    exact h.goto_out rfl rfl rfl rfl (.inr (hlast rfl hses.1)) (by rw [hpc]; rfl)
      (by rw [hpc]; rfl) (by simp) rfl
  | lockInstance call hfree =>
    refine h.goto rfl rfl rfl rfl (.inl rfl) ?_ ?_ ?_ ?_ ?_ <;> rw [hpc] at * <;>
      cases call <;> cases s.runtime <;> simp [RuntimePc.underLock, RuntimePc.isReleasing,
        RuntimePc.isCounted, RuntimePc.inApi]
  | lockCounter call | unlockInstance call =>
    cases call <;> exact h.goto_out rfl rfl rfl rfl (.inl rfl) (by rw [hpc]; rfl)
      (by rw [hpc]; rfl) (by simp) rfl
  | initialized hcount =>
    exact h.goto rfl rfl rfl rfl (.inl rfl) (by rw [hpc]; rfl) (by rw [hpc]; rfl) (by simp)
      (fun _ => hapi (by rw [hpc]; rfl)) (by simp)
  | get =>
    exact h.goto rfl rfl rfl rfl (.inl rfl) (by rw [hpc]; rfl) (by rw [hpc]; rfl) (by simp)
      (fun _ => hapi (by rw [hpc]; rfl)) (fun i hi => RuntimePc.inCall.inj hi)
  | _ =>
    exact h.goto_out rfl rfl rfl rfl (.inl rfl) (by rw [hpc]; rfl) (by rw [hpc]; rfl) (by simp) rfl

omit [DecidableEq Q] in
theorem ReferenceInv.begin_step (h : ReferenceInv s) {t : T} {call : RuntimeCall}
    (hidle : s.thread t = .idle)
    (hok : call = .release →
      1 ≤ s.references ∧ ((∃ u, (s.thread u).inApi = true) → 2 ≤ s.references)) :
    ReferenceInv ((s.beginCall t call).goto t (.lockCounter call)) := by
  have hcounted : ∀ u, (Function.update s.thread t (.lockCounter call) u).isCounted =
      (s.thread u).isCounted := by
    intro u
    by_cases hu : u = t
    · subst hu; simp [hidle, RuntimePc.isCounted]
    · simp [hu]
  cases call with
  | init =>
    exact h.goto_out rfl rfl rfl rfl (.inl rfl) (by rw [hidle]; rfl) (by rw [hidle]; rfl)
      (by simp) rfl
  | release =>
    obtain ⟨hheld, hmore⟩ := hok rfl
    have hnot : t ∉ s.releasing := by simp [h.releasing, hidle, RuntimePc.isReleasing]
    have hcard := Finset.card_insert_of_notMem hnot
    refine h.move rfl rfl (by simp) rfl ?_ ?_ ?_ ?_
    · intro u
      by_cases hu : u = t
      · subst hu; simp [beginCall, RuntimePc.isReleasing]
      · simp [beginCall, hu, h.releasing]
    · intro u hu
      have hcount := h.count u (hcounted u ▸ hu)
      simp only [beginCall, hcard]
      omega
    · intro hnone
      have hcount := h.countRest fun u => hcounted u ▸ hnone u
      simp only [beginCall, hcard]
      omega
    · intro hin
      have htwo := hmore hin
      simp only [beginCall]
      omega

theorem ReferenceInv.step (h : ReferenceInv s) (hinv : Inv s)
    {a : RuntimeAction Q T {m : M // init m} R E} (hok : KeepsReference s a)
    (hs : (runtimeMachine T P init).step a s = some s') : ReferenceInv s' := by
  cases runtimeMove hs with
  | call t call hidle =>
    refine h.begin_step hidle ?_
    rintro rfl
    exact hok
  | api t hidle =>
    exact h.goto rfl rfl rfl rfl (.inl rfl) (by rw [hidle]; rfl) (by rw [hidle]; rfl) (by simp)
      (fun _ => hok) (by simp)
  | leave t i hin =>
    exact h.goto_out rfl rfl rfl rfl (.inl rfl) (by rw [hin]; rfl) (by rw [hin]; rfl) (by simp) rfl
  | thread t m _ hs => exact h.thread_step hinv hs
  | request | agent => exact ⟨h.releasing, h.count, h.countRest, h.accepted, h.api, h.runtime⟩

theorem referenceInv_of_reachable
    (hr : (runtimeMachine T P init).Reachable KeepsReference s) : ReferenceInv s := by
  refine hr.induction (P := ReferenceInv) ?_ fun s a s' hr hok hs ih =>
    ih.step (inv_of_reachable hr) hok hs
  rintro s ⟨hcount, -, -, -, -, -, -, hthread, hreferences, hreleasing, -⟩
  refine ⟨?_, ?_, ?_, ?_, ?_, ?_⟩ <;>
    simp [hthread, hcount, hreferences, hreleasing, RuntimePc.isReleasing, RuntimePc.isCounted,
      RuntimePc.inApi]

/-- **No call without a session.** If the clients keep a reference as long as one of them is in a
function of the interface, then a thread in one finds the runtime initialized, `Runtime::get` gives
it the session that is served, and until the thread returns this session is not shut down: it is
the one `Instance` points to, it has not been deleted, its worker has not left `Execute`, and
`ShutDown` is not set. -/
theorem call_uses_session (hr : (runtimeMachine T P init).Reachable KeepsReference s) {t : T}
    (hin : (s.thread t).inApi = true) :
    ∃ k, s.Serving k ∧ 0 < s.referenceCounter ∧ ∀ i, s.thread t = .inCall i → i = some k := by
  have h := referenceInv_of_reachable hr
  have hheld := h.api t hin
  have hle := h.le
  obtain ⟨k, hk⟩ := h.serving (inv_of_reachable hr) hheld
  refine ⟨k, hk, by omega, fun i hi => ?_⟩
  rw [← hk.runtime, h.runtime t i hi]

/-- A thread without a reference of its own, while another one gives back the second of two. -/
theorem call_uses_session_shared : ∃ s : RuntimeState Unit Bool (Memory Unit) Job,
    s.thread false = .inCall (some 0) ∧ s.thread true = .check .release ∧ ∃ k, s.Serving k ∧
      0 < s.referenceCounter ∧ ∀ i, s.thread false = .inCall i → i = some k := by
  obtain ⟨s, hr, hp⟩ := Machine.exists_reachable_of_run (processMachine Bool Exec.config)
    KeepsReference
    ([.call true .init] ++ Process.thread Process.memory true 8 ++ [.call true .init] ++
      Process.thread Process.memory true 4 ++ [.api false] ++
      Process.thread Process.memory false 2 ++ [.call true .release] ++
      Process.thread Process.memory true 1)
    (fun s => s.thread false = .inCall (some 0) && s.thread true = .check .release)
    Process.init_start (by decide +kernel)
  simp only [Bool.and_eq_true, decide_eq_true_eq] at hp
  exact ⟨s, hp.1, hp.2, call_uses_session hr (by rw [hp.1]; rfl)⟩

end PhsaRuntime
