import PhsaRuntime.Runtime
import PhsaRuntime.Agent.Interrupt

/-!
# The sessions of the runtime follow one another

`ShutDown` is one variable for all sessions, and the worker that sees it resets it. A worker must
therefore never see the flag that is meant for another one. What keeps them apart is that both
mutexes are owned from the moment the flag is set until the worker has been joined.

## Main definitions

* `SessionInv` — what holds of the current session, by where the owner of
  `ReferenceCounterMutex` is.

## Main results

* `inv_of_reachable` — the invariant of the runtime.
-/

namespace PhsaRuntime

open RuntimeState

variable {Q T M L R E : Type}

/-! ## The current session -/

namespace RuntimeSessions

/-- There is no session: all have been deleted. -/
structure Gone (s : RuntimeSessions Q T M L) : Prop where
  destroyed : ∀ k < s.created, s.destroyed k = true
  shutDown : s.shutDown = false
  runtime : s.runtime = none

/-- `k` is the last session, and the only one that has not been deleted. -/
structure Current (s : RuntimeSessions Q T M L) (k : ℕ) : Prop where
  last : k + 1 = s.created
  alive : s.destroyed k = false
  before : ∀ j < k, s.destroyed j = true

/-- The session `k` can be used: its worker is running, and nobody has told it to stop. -/
structure Serving (s : RuntimeSessions Q T M L) (k : ℕ) : Prop extends Current s k where
  runtime : s.runtime = some k
  shutDown : s.shutDown = false
  worker : (s.agent k).worker.isExited = false

theorem Gone.recount {x : RuntimeSessions Q T M L} (h : x.Gone) (n : ℕ) :
    { x with referenceCounter := n }.Gone :=
  ⟨h.destroyed, h.shutDown, h.runtime⟩

theorem Serving.recount {x : RuntimeSessions Q T M L} {k : ℕ} (h : x.Serving k) (n : ℕ) :
    { x with referenceCounter := n }.Serving k :=
  ⟨⟨h.last, h.alive, h.before⟩, h.runtime, h.shutDown, h.worker⟩

/-- What holds while nobody owns `ReferenceCounterMutex`. -/
def Settled (s : RuntimeSessions Q T M L) : Prop :=
  s.referenceCounter = 0 ∧ s.Gone ∨ 0 < s.referenceCounter ∧ ∃ k, s.Serving k

/-- What holds of the current session while the owner of `ReferenceCounterMutex` is at `pc`. -/
def SessionInv (s : RuntimeSessions Q T M L) : RuntimePc → Prop
  | .check _ | .unlockCounter _ _ => s.Settled
  | .lockInstance .init | .create => s.referenceCounter = 0 ∧ s.Gone
  | .assign k => s.referenceCounter = 0 ∧ s.Current k ∧ s.shutDown = false ∧
      (s.agent k).worker.isExited = false
  | .unlockInstance .init => s.referenceCounter = 0 ∧ ∃ k, s.Serving k
  | .count .init => s.referenceCounter < 2147483647 ∧ ∃ k, s.Serving k
  | .lockInstance .release => s.referenceCounter = 1 ∧ ∃ k, s.Serving k
  | .storeShutDown k => s.referenceCounter = 1 ∧ s.Serving k
  -- the worker resets the flag with its last step
  | .join k => s.referenceCounter = 1 ∧ s.Current k ∧ s.runtime = some k ∧
      s.shutDown = !(s.agent k).worker.isExited
  | .destroy k => s.referenceCounter = 1 ∧ s.Current k ∧ s.runtime = some k ∧
      s.shutDown = false ∧ (s.agent k).worker.isExited = true
  | .assignNull => s.referenceCounter = 1 ∧ (∀ k < s.created, s.destroyed k = true) ∧
      s.shutDown = false
  | .unlockInstance .release => s.referenceCounter = 1 ∧ s.Gone
  | .count .release => s.referenceCounter = 1 ∧ s.Gone ∨ 1 < s.referenceCounter ∧ ∃ k, s.Serving k
  | .idle | .lockCounter _ | .isInitialized | .get | .inCall _ => True

end RuntimeSessions

namespace RuntimeState

variable {s s' : RuntimeState Q T M L}

/-- The invariant of the runtime. -/
structure Inv (s : RuntimeState Q T M L) : Prop where
  counter : ∀ t, s.referenceCounterMutex = some t ↔ (s.thread t).locksCounter = true
  lock : ∀ t, s.instanceMutex = some t ↔ (s.thread t).locksInstance = true
  settled : s.referenceCounterMutex = none → s.Settled
  session : ∀ t, s.SessionInv (s.thread t)
  exited : ∀ k, s.destroyed k = true → k < s.created ∧ (s.agent k).worker.isExited = true
  known : ∀ t k, s.thread t = .inCall (some k) → k < s.created
  runtime : ∀ k, s.runtime = some k → k < s.created
  bound : s.referenceCounter ≤ 2147483647

theorem locksCounter_of_locksInstance {pc : RuntimePc} (h : pc.locksInstance = true) :
    pc.locksCounter = true := by
  cases pc <;> first | rfl | cases h

theorem locksInstance_eq_false {pc : RuntimePc} (h : pc.locksCounter = false) :
    pc.locksInstance = false := by
  cases pc <;> first | rfl | cases h

theorem sessionInv_of_outside {x : RuntimeSessions Q T M L} {pc : RuntimePc}
    (h : pc.locksCounter = false) : x.SessionInv pc := by
  cases pc <;> trivial

/-- Nobody but the owner of `ReferenceCounterMutex` is in a section that it guards. -/
theorem Inv.others (h : Inv s) {t : T} (ht : (s.thread t).locksCounter = true) :
    ∀ u ≠ t, (s.thread u).locksCounter = false := by
  intro u hu
  by_contra hlocks
  rw [Bool.not_eq_false] at hlocks
  have htu : some t = some u := ((h.counter t).mpr ht).symm.trans ((h.counter u).mpr hlocks)
  exact hu (Option.some.inj htu).symm

theorem Inv.nobody (h : Inv s) (hfree : s.referenceCounterMutex = none) (u : T) :
    (s.thread u).locksCounter = false := by
  by_contra hlocks
  rw [Bool.not_eq_false] at hlocks
  exact absurd ((h.counter u).mpr hlocks) (by simp [hfree])

variable [DecidableEq T]

/-- A thread that owns no mutex goes on without acquiring one. -/
theorem Inv.outside (h : Inv s) {t : T} {pc : RuntimePc} (ht : (s.thread t).locksCounter = false)
    (hpc : pc.locksCounter = false) (hk : ∀ k, pc = .inCall (some k) → k < s.created) :
    Inv (s.goto t pc) where
  counter u := by
    by_cases hu : u = t
    · subst hu
      simp [hpc, h.counter, ht]
    · simp [hu, h.counter]
  lock u := by
    by_cases hu : u = t
    · subst hu
      simp [locksInstance_eq_false hpc, h.lock, locksInstance_eq_false ht]
    · simp [hu, h.lock]
  settled := h.settled
  session u := by
    by_cases hu : u = t
    · subst hu
      exact sessionInv_of_outside (by simpa using hpc)
    · simpa [hu] using h.session u
  exited := h.exited
  known u k hin := by
    by_cases hu : u = t
    · subst hu
      exact hk k (by simpa using hin)
    · exact h.known u k (by simpa [hu] using hin)
  runtime := h.runtime
  bound := h.bound

/-- A step of the owner of `ReferenceCounterMutex`, or of a thread that acquires it. -/
theorem Inv.owner (h : Inv s) {s₁ : RuntimeState Q T M L} {t : T} {pc : RuntimePc}
    (hown : ∀ u ≠ t, (s.thread u).locksCounter = false) (hthread : s₁.thread = s.thread)
    (hcounter : s₁.referenceCounterMutex = if pc.locksCounter then some t else none)
    (hlock : s₁.instanceMutex = if pc.locksInstance then some t else none)
    (hsettled : pc.locksCounter = true ∨ s₁.Settled) (hsession : s₁.SessionInv pc)
    (hexited : ∀ k, s₁.destroyed k = true →
      k < s₁.created ∧ (s₁.agent k).worker.isExited = true)
    (hcreated : s.created ≤ s₁.created) (hout : pc.inApi = false)
    (hruntime : ∀ k, s₁.runtime = some k → k < s₁.created)
    (hbound : s₁.referenceCounter ≤ 2147483647) : Inv (s₁.goto t pc) where
  counter u := by
    by_cases hu : u = t
    · subst hu
      simp [hcounter]
    · simp [hu, hcounter, hthread, hown u hu, Ne.symm hu]
  lock u := by
    by_cases hu : u = t
    · subst hu
      simp [hlock]
    · simp [hu, hlock, hthread, locksInstance_eq_false (hown u hu), Ne.symm hu]
  settled hnone := by
    refine hsettled.resolve_left fun hlocks => ?_
    simp [hcounter, hlocks] at hnone
  session u := by
    by_cases hu : u = t
    · subst hu
      simpa using hsession
    · exact sessionInv_of_outside (by simpa [hu, hthread] using hown u hu)
  exited := hexited
  known u k hin := by
    by_cases hu : u = t
    · subst hu
      obtain rfl : pc = .inCall (some k) := by simpa using hin
      cases hout
    · exact lt_of_lt_of_le (h.known u k (by simpa [hu, hthread] using hin)) hcreated
  runtime := hruntime
  bound := hbound

theorem Inv.lock_free (h : Inv s) {t : T} (hown : ∀ u ≠ t, (s.thread u).locksCounter = false)
    (ht : (s.thread t).locksInstance = false) : s.instanceMutex = none := by
  refine Option.eq_none_iff_forall_ne_some.mpr fun u hu => ?_
  have hin := (h.lock u).mp hu
  by_cases heq : u = t
  · simp [heq, ht] at hin
  · exact absurd (locksCounter_of_locksInstance hin) (by simp [hown u heq])

/-- A step of the owner of `ReferenceCounterMutex` that leaves the sessions as they are. -/
theorem Inv.advance (h : Inv s) {t : T} {pc : RuntimePc} (ht : (s.thread t).locksCounter = true)
    (hpc : pc.locksCounter = true) (hlock : pc.locksInstance = (s.thread t).locksInstance)
    (hsession : s.SessionInv pc) : Inv (s.goto t pc) := by
  refine h.owner (h.others ht) rfl ?_ ?_ ?_ hsession h.exited le_rfl ?_ h.runtime h.bound
  · simp [hpc, h.counter, ht]
  · by_cases hin : (s.thread t).locksInstance = true
    · simp [hlock, hin, h.lock]
    · rw [hlock, if_neg hin]
      exact h.lock_free (h.others ht) (by simpa using hin)
  · exact .inl hpc
  · cases pc <;> first | rfl | cases hpc

/-- A step of the owner of both mutexes that keeps them. -/
theorem Inv.inside (h : Inv s) {s₁ : RuntimeState Q T M L} {t : T} {pc : RuntimePc}
    (ht : (s.thread t).locksInstance = true) (hthread : s₁.thread = s.thread)
    (hcounter : s₁.referenceCounterMutex = s.referenceCounterMutex)
    (hlock : s₁.instanceMutex = s.instanceMutex) (hpc : pc.locksInstance = true)
    (hsession : s₁.SessionInv pc)
    (hexited : ∀ k, s₁.destroyed k = true →
      k < s₁.created ∧ (s₁.agent k).worker.isExited = true)
    (hcreated : s.created ≤ s₁.created) (hruntime : ∀ k, s₁.runtime = some k → k < s₁.created)
    (hcount : s₁.referenceCounter = s.referenceCounter) : Inv (s₁.goto t pc) := by
  have hlocks := locksCounter_of_locksInstance ht
  have hpclocks := locksCounter_of_locksInstance hpc
  refine h.owner (h.others hlocks) hthread ?_ ?_ (.inl hpclocks) hsession hexited hcreated ?_
    hruntime (hcount.symm ▸ h.bound)
  · rw [hcounter, if_pos hpclocks]
    exact (h.counter t).mpr hlocks
  · rw [hlock, if_pos hpc]
    exact (h.lock t).mpr ht
  · cases pc <;> first | rfl | cases hpc

theorem Inv.lockInstance (h : Inv s) {t : T} {call : RuntimeCall}
    (hpc : s.thread t = .lockInstance call) (hses : s.SessionInv (.lockInstance call)) :
    Inv ({ s with instanceMutex := some t }.goto t (.underLock call s.runtime)) := by
  have hlocks : (s.thread t).locksCounter = true := by rw [hpc]; rfl
  have hmutex := (h.counter t).mpr hlocks
  cases call with
  | init =>
    exact h.owner (h.others hlocks) rfl hmutex rfl (.inl rfl) hses h.exited le_rfl rfl h.runtime
      h.bound
  | release =>
    obtain ⟨hcount, k, hserving⟩ := hses
    rw [hserving.runtime]
    exact h.owner (h.others hlocks) rfl hmutex rfl (.inl rfl) ⟨hcount, hserving⟩ h.exited le_rfl
      rfl h.runtime h.bound

/-- The new session is the current one, its worker is at the start, and no flag is set for it. -/
theorem Inv.create (h : Inv s) {t : T} {m : M} (hpc : s.thread t = .create)
    (hses : s.SessionInv .create) :
    Inv ({ s with
        created := s.created + 1
        agent := Function.update s.agent s.created (.start s.shutDown m) }.goto t
          (.assign s.created)) := by
  obtain ⟨hcount, hgone⟩ := hses
  have hnew : s.destroyed s.created = false := by
    by_contra hd
    exact absurd (h.exited _ (by simpa using hd)).1 (lt_irrefl _)
  refine h.inside (by rw [hpc]; rfl) rfl rfl rfl rfl
    ⟨hcount, ⟨rfl, hnew, hgone.destroyed⟩, hgone.shutDown, ?_⟩ ?_ (Nat.le_succ _) ?_ rfl
  · simp [AgentState.start, Worker.isExited]
  · intro k hk
    obtain ⟨hlt, hexited⟩ := h.exited k hk
    refine ⟨Nat.lt_succ_of_lt hlt, ?_⟩
    simpa [hlt.ne] using hexited
  · intro k hk
    exact Nat.lt_succ_of_lt (h.runtime k hk)

/-- The last session is deleted, and with it all are. -/
theorem Inv.destroy (h : Inv s) {t : T} {k : ℕ} (hpc : s.thread t = .destroy k)
    (hses : s.SessionInv (.destroy k)) :
    Inv ({ s with destroyed := Function.update s.destroyed k true }.goto t .assignNull) := by
  obtain ⟨hcount, hcurrent, -, hflag, hexited⟩ := hses
  have hlast := hcurrent.last
  refine h.inside (by rw [hpc]; rfl) rfl rfl rfl rfl ⟨hcount, ?_, hflag⟩ ?_ le_rfl h.runtime rfl
  · intro j hj
    by_cases hjk : j = k
    · simp [hjk]
    · have hjk' : j < k := by simp only at hj; omega
      simpa [hjk] using hcurrent.before j hjk'
  · intro j hj
    by_cases hjk : j = k
    · subst hjk
      exact ⟨by simp only; omega, hexited⟩
    · exact h.exited j (by simpa [hjk] using hj)

theorem Inv.unlockInstance (h : Inv s) {t : T} {call : RuntimeCall}
    (hpc : s.thread t = .unlockInstance call) (hses : s.SessionInv (.unlockInstance call)) :
    Inv ({ s with instanceMutex := none }.goto t (.count call)) := by
  have hlocks : (s.thread t).locksCounter = true := by rw [hpc]; rfl
  have hmutex := (h.counter t).mpr hlocks
  cases call with
  | init =>
    obtain ⟨hcount, hserving⟩ := hses
    exact h.owner (h.others hlocks) rfl hmutex rfl (.inl rfl)
      ⟨by simp only [hcount]; omega, hserving⟩ h.exited le_rfl rfl h.runtime h.bound
  | release =>
    exact h.owner (h.others hlocks) rfl hmutex rfl (.inl rfl) (.inl hses) h.exited le_rfl rfl
      h.runtime h.bound

/-- The counter changes while `ReferenceCounterMutex` is still owned. -/
theorem Inv.count (h : Inv s) {t : T} {call : RuntimeCall} (hpc : s.thread t = .count call)
    (hses : s.SessionInv (.count call)) :
    Inv ((s.countCall t call).goto t (.unlockCounter call true)) := by
  have hlocks : (s.thread t).locksCounter = true := by rw [hpc]; rfl
  have hmutex := (h.counter t).mpr hlocks
  have hfree := h.lock_free (h.others hlocks) (by rw [hpc]; rfl)
  cases call with
  | init =>
    obtain ⟨hcount, k, hserving⟩ := hses
    exact h.owner (h.others hlocks) rfl hmutex hfree (.inl rfl)
      (.inr ⟨Nat.succ_pos _, k, hserving.recount _⟩) h.exited le_rfl rfl h.runtime hcount
  | release =>
    have hbound := h.bound
    refine h.owner (h.others hlocks) rfl hmutex hfree (.inl rfl) ?_ h.exited le_rfl rfl h.runtime
      (by simp only [countCall]; omega)
    rcases hses with ⟨hcount, hgone⟩ | ⟨hcount, k, hserving⟩
    · exact .inl ⟨by simp [countCall, hcount], hgone.recount _⟩
    · exact .inr ⟨Nat.sub_pos_of_lt hcount, k, hserving.recount _⟩

theorem Inv.unlockCounter (h : Inv s) {t : T} {call : RuntimeCall} {ok : Bool}
    (hpc : s.thread t = .unlockCounter call ok) (hses : s.SessionInv (.unlockCounter call ok)) :
    Inv ({ s.returnCall t call ok with referenceCounterMutex := none }.goto t .idle) := by
  have hlocks : (s.thread t).locksCounter = true := by rw [hpc]; rfl
  have hfree := h.lock_free (h.others hlocks) (by rw [hpc]; rfl)
  cases call <;>
    exact h.owner (h.others hlocks) rfl rfl hfree (.inr hses) trivial h.exited le_rfl rfl
      h.runtime h.bound

theorem Inv.thread_step (h : Inv s) {t : T} {m : M} (hs : threadStep t m s = some s') :
    Inv s' := by
  have hses := h.session t
  have hmove := threadMove hs
  generalize hpc : s.thread t = pc at hses hmove
  cases hmove with
  | lockCounter call hfree =>
    have hown : ∀ u ≠ t, (s.thread u).locksCounter = false := fun u _ => h.nobody hfree u
    exact h.owner hown rfl rfl (h.lock_free hown (by rw [hpc]; rfl)) (.inl rfl) (h.settled hfree)
      h.exited le_rfl rfl h.runtime h.bound
  | overflow hcount => exact h.advance (by rw [hpc]; rfl) rfl (by rw [hpc]; rfl) hses
  | creates hcount =>
    refine h.advance (by rw [hpc]; rfl) rfl (by rw [hpc]; rfl) ⟨hcount, ?_⟩
    exact (hses.resolve_right fun hpos => by omega).2
  | shares hmax hcount =>
    refine h.advance (by rw [hpc]; rfl) rfl (by rw [hpc]; rfl) ⟨?_, ?_⟩
    · exact lt_of_le_of_ne h.bound hmax
    · exact (hses.resolve_left fun hzero => hcount hzero.1).2
  | none hcount => exact h.advance (by rw [hpc]; rfl) rfl (by rw [hpc]; rfl) hses
  | last hcount =>
    refine h.advance (by rw [hpc]; rfl) rfl (by rw [hpc]; rfl) ⟨hcount, ?_⟩
    exact (hses.resolve_left fun hzero => by omega).2
  | more hcount =>
    refine h.advance (by rw [hpc]; rfl) rfl (by rw [hpc]; rfl) (.inr ⟨hcount, ?_⟩)
    exact (hses.resolve_left fun hzero => by omega).2
  | lockInstance call hfree => exact h.lockInstance hpc hses
  | create => exact h.create hpc hses
  | assign k =>
    obtain ⟨hcount, hcurrent, hflag, hworker⟩ := hses
    refine h.inside (by rw [hpc]; rfl) rfl rfl rfl rfl
      ⟨hcount, k, ⟨hcurrent.1, hcurrent.2, hcurrent.3⟩, rfl, hflag, hworker⟩ h.exited le_rfl ?_ rfl
    intro j hj
    cases hj
    exact hcurrent.last ▸ Nat.lt_succ_self k
  | storeShutDown k =>
    obtain ⟨hcount, hserving⟩ := hses
    refine h.inside (by rw [hpc]; rfl) rfl rfl rfl rfl
      ⟨hcount, ⟨hserving.last, hserving.alive, hserving.before⟩, hserving.runtime, ?_⟩ h.exited
      le_rfl h.runtime rfl
    simp [hserving.worker]
  | join k hexited =>
    obtain ⟨hcount, hcurrent, hruntime, hflag⟩ := hses
    refine h.advance (by rw [hpc]; rfl) rfl (by rw [hpc]; rfl)
      ⟨hcount, hcurrent, hruntime, ?_, hexited⟩
    simpa [hexited] using hflag
  | destroy k => exact h.destroy hpc hses
  | assignNull =>
    obtain ⟨hcount, hall, hflag⟩ := hses
    exact h.inside (by rw [hpc]; rfl) rfl rfl rfl rfl ⟨hcount, hall, hflag, rfl⟩ h.exited le_rfl
      (by simp) rfl
  | unlockInstance call => exact h.unlockInstance hpc hses
  | count call => exact h.count hpc hses
  | unlockCounter call ok => exact h.unlockCounter hpc hses
  | initialized hcount => exact h.outside (by rw [hpc]; rfl) rfl (by simp)
  | uninitialized hcount => exact h.outside (by rw [hpc]; rfl) rfl (by simp)
  | get =>
    refine h.outside (by rw [hpc]; rfl) rfl ?_
    intro k hk
    exact h.runtime k (RuntimePc.inCall.inj hk)

end RuntimeState

/-! ## The end of a worker -/

variable {P : Processor Q M L R E} {init : M → Prop}

/-- The worker leaves `Execute` when it sees `ShutDown`, which it then resets. -/
theorem isExited_workerStep {r : R} {g g' : AgentState Q T M L}
    (hs : Agent.workerStep P r g = some g') :
    g'.shutDown = g.shutDown ∧ g'.worker.isExited = g.worker.isExited ∨
      g.shutDown = true ∧ g.worker.isExited = false ∧
        g'.shutDown = false ∧ g'.worker.isExited = true := by
  cases hw : g.worker with
  | wait | exited | dead _ _ => simp only [Agent.workerStep, hw, reduceCtorEq] at hs
  | process q rest l =>
    simp only [Agent.workerStep, hw] at hs
    obtain ⟨⟨m, p⟩, -, rfl⟩ := Option.map_eq_some_iff.mp hs
    cases p <;> simp [Agent.resume, Worker.isExited]
  | next queues =>
    cases queues <;> simp only [Agent.workerStep, hw, Option.some.injEq] at hs <;> subst hs <;>
      simp [Worker.isExited]
  | head | test _ _ | checkInactivated _ _ | checkDestroyed _ _ =>
    simp only [Agent.workerStep, hw] at hs
    split at hs <;> cases hs <;> simp_all [Worker.isExited]
  | landing | landingFlag | getQueues | pass _ =>
    simp only [Agent.workerStep, hw, Option.some.injEq] at hs
    subst hs
    simp [Worker.isExited]

variable [DecidableEq Q] [DecidableEq T]

/-- Only the worker resets `ShutDown`, and with it leaves `Execute`. -/
theorem isExited_step {a : AgentAction Q T R E} {g g' : AgentState Q T M L}
    (hs : (agentMachine T P init).step a g = some g') (ha : a ≠ .shutDown) :
    g'.shutDown = g.shutDown ∧ g'.worker.isExited = g.worker.isExited ∨
      g.shutDown = true ∧ g.worker.isExited = false ∧
        g'.shutDown = false ∧ g'.worker.isExited = true := by
  cases a with
  | worker r => exact isExited_workerStep hs
  | call c q =>
    simp only [agentMachine, Option.ite_none_right_eq_some, Option.some.injEq] at hs
    exact .inl (hs.2 ▸ ⟨rfl, rfl⟩)
  | client c => cases clientMove hs <;> exact .inl ⟨rfl, rfl⟩
  | deliver =>
    simp only [agentMachine, Agent.deliver] at hs
    split at hs
    · cases hs
    · split at hs
      · cases hs
      · cases hs
      · rename_i hexited _
        cases hs
        refine .inl ⟨rfl, ?_⟩
        cases hw : g.worker <;> first | rfl | exact absurd hw hexited
  | register q =>
    simp only [agentMachine, Option.ite_none_left_eq_some, Option.some.injEq] at hs
    exact .inl (hs.2 ▸ ⟨rfl, rfl⟩)
  | destroy q =>
    simp only [agentMachine, Option.ite_none_right_eq_some, Option.some.injEq] at hs
    exact .inl (hs.2 ▸ ⟨rfl, rfl⟩)
  | shutDown => exact absurd rfl ha
  | environment e =>
    obtain ⟨m, -, rfl⟩ := Option.map_eq_some_iff.mp hs
    exact .inl ⟨rfl, rfl⟩

/-! ## A step of an agent -/

namespace RuntimeSessions

variable {x : RuntimeSessions Q T M L} {k : ℕ} {g : AgentState Q T M L}

/-- A session takes a step that leaves the flag and the worker as they are, or in which the worker
leaves. -/
def StepsTo (x : RuntimeSessions Q T M L) (k : ℕ) (g : AgentState Q T M L) : Prop :=
  g.shutDown = x.shutDown ∧ g.worker.isExited = (x.agent k).worker.isExited ∨
    x.shutDown = true ∧ (x.agent k).worker.isExited = false ∧
      g.shutDown = false ∧ g.worker.isExited = true

/-- The sessions after a step of one of them. -/
def afterStep (x : RuntimeSessions Q T M L) (k : ℕ) (g : AgentState Q T M L) :
    RuntimeSessions Q T M L :=
  { x with agent := Function.update x.agent k g, shutDown := g.shutDown }

omit [DecidableEq Q] [DecidableEq T] in
theorem Current.eq {j : ℕ} (h : x.Current j) (hk : k < x.created) (halive : x.destroyed k = false) :
    k = j := by
  by_contra hne
  have hlast := h.last
  have hlt : k < j := by omega
  simp [h.before k hlt] at halive

omit [DecidableEq Q] [DecidableEq T] in
theorem Serving.afterStep {j : ℕ} (h : x.Serving j) (hk : k < x.created)
    (halive : x.destroyed k = false) (hg : x.StepsTo k g) : (x.afterStep k g).Serving j := by
  obtain rfl := h.toCurrent.eq hk halive
  rcases hg with ⟨hflag, hworker⟩ | ⟨hflag, -⟩
  · refine ⟨⟨h.last, h.alive, h.before⟩, h.runtime, ?_, ?_⟩
    · simp [RuntimeSessions.afterStep, hflag, h.shutDown]
    · simp [RuntimeSessions.afterStep, hworker, h.worker]
  · simp [h.shutDown] at hflag

omit [DecidableEq Q] [DecidableEq T] in
theorem SessionInv.afterStep {pc : RuntimePc} (h : x.SessionInv pc) (hk : k < x.created)
    (halive : x.destroyed k = false) (hg : x.StepsTo k g) : (x.afterStep k g).SessionInv pc := by
  have hgone : ¬x.Gone := fun hgone => by simp [hgone.destroyed k hk] at halive
  have hserving : (∃ j, x.Serving j) → ∃ j, (x.afterStep k g).Serving j := by
    rintro ⟨j, hj⟩
    exact ⟨j, hj.afterStep hk halive hg⟩
  have hcurrent : ∀ {j}, x.Current j → (x.afterStep k g).Current j := fun hj =>
    ⟨hj.last, hj.alive, hj.before⟩
  cases pc with
  | idle | lockCounter _ | isInitialized | get | inCall _ => trivial
  | check _ | unlockCounter _ _ =>
    rcases h with hzero | hpos
    · exact absurd hzero.2 hgone
    · exact .inr ⟨hpos.1, hserving hpos.2⟩
  | create => exact absurd h.2 hgone
  | storeShutDown j => exact ⟨h.1, h.2.afterStep hk halive hg⟩
  | assignNull => simp [h.2.1 k hk] at halive
  | lockInstance call | unlockInstance call =>
    cases call with
    | init => first | exact absurd h.2 hgone | exact ⟨h.1, hserving h.2⟩
    | release => first | exact absurd h.2 hgone | exact ⟨h.1, hserving h.2⟩
  | count call =>
    cases call with
    | init => exact ⟨h.1, hserving h.2⟩
    | release =>
      rcases h with hzero | hmore
      · exact absurd hzero.2 hgone
      · exact .inr ⟨hmore.1, hserving hmore.2⟩
  | assign j =>
    obtain ⟨hcount, hcur, hflag, hworker⟩ := h
    obtain rfl := hcur.eq hk halive
    rcases hg with hkeep | hexit
    · exact ⟨hcount, hcurrent hcur, by simp [RuntimeSessions.afterStep, hkeep, hflag],
        by simp [RuntimeSessions.afterStep, hkeep, hworker]⟩
    · simp [hexit.1] at hflag
  | destroy j =>
    obtain ⟨hcount, hcur, hruntime, hflag, hworker⟩ := h
    obtain rfl := hcur.eq hk halive
    rcases hg with hkeep | hexit
    · exact ⟨hcount, hcurrent hcur, hruntime, by simp [RuntimeSessions.afterStep, hkeep, hflag],
        by simp [RuntimeSessions.afterStep, hkeep, hworker]⟩
    · simp [hexit.1] at hflag
  | join j =>
    obtain ⟨hcount, hcur, hruntime, hflag⟩ := h
    obtain rfl := hcur.eq hk halive
    refine ⟨hcount, hcurrent hcur, hruntime, ?_⟩
    rcases hg with hkeep | hexit
    · simp [RuntimeSessions.afterStep, hkeep, hflag]
    · simp [RuntimeSessions.afterStep, hexit]

end RuntimeSessions

namespace RuntimeState

variable {s s' : RuntimeState Q T M L} {a : RuntimeAction Q T {m : M // init m} R E}

omit [DecidableEq Q] [DecidableEq T] in
theorem Inv.agent_step (h : Inv s) {k : ℕ} {g : AgentState Q T M L} (hk : k < s.created)
    (halive : s.destroyed k = false) (hg : s.StepsTo k g) :
    Inv { s with agent := Function.update s.agent k g, shutDown := g.shutDown } where
  counter := h.counter
  lock := h.lock
  settled hfree := by
    have hsettled : s.SessionInv (.check .init) := h.settled hfree
    exact hsettled.afterStep hk halive hg
  session t := (h.session t).afterStep hk halive hg
  exited j hj := by
    have hdead : s.destroyed j = true := hj
    have hne : j ≠ k := fun heq => by simp [← heq, hdead] at halive
    simpa [hne] using h.exited j hj
  known := h.known
  runtime := h.runtime
  bound := h.bound

theorem Inv.step (h : Inv s) (hs : (runtimeMachine T P init).step a s = some s') : Inv s' := by
  cases runtimeMove hs with
  | call t call hidle =>
    have hbegin : Inv (s.beginCall t call) := by
      cases call <;>
        exact ⟨h.counter, h.lock, h.settled, h.session, h.exited, h.known, h.runtime, h.bound⟩
    have hthread : (s.beginCall t call).thread t = .idle := by cases call <;> exact hidle
    exact hbegin.outside (by rw [hthread]; rfl) rfl (by simp)
  | api t hidle => exact h.outside (by rw [hidle]; rfl) rfl (by simp)
  | leave t i hin => exact h.outside (by rw [hin]; rfl) rfl (by simp)
  | thread t m _ hs => exact h.thread_step hs
  | request t k a g hin ha halive hg =>
    refine h.agent_step (h.known t k hin) halive (isExited_step hg ?_)
    rintro rfl
    cases ha
  | agent k a g ha hk halive hg =>
    refine h.agent_step hk halive (isExited_step hg ?_)
    rintro rfl
    cases ha

theorem inv_of_reachable
    {ok : RuntimeState Q T M L → RuntimeAction Q T {m : M // init m} R E → Prop}
    (hr : (runtimeMachine T P init).Reachable ok s) : Inv s := by
  refine hr.induction (P := Inv) ?_ fun s a s' _ _ hs ih => ih.step hs
  rintro s ⟨hcount, hmutex, hlock, hruntime, hcreated, hdestroyed, hflag, hthread, -⟩
  refine ⟨?_, ?_, ?_, ?_, ?_, ?_, ?_, ?_⟩
  · simp [hmutex, hthread, RuntimePc.locksCounter]
  · simp [hlock, hthread, RuntimePc.locksInstance]
  · exact fun _ => .inl ⟨hcount, by simp [hcreated], hflag, hruntime⟩
  · intro t
    rw [hthread t]
    trivial
  · simp [hdestroyed]
  · simp [hthread]
  · simp [hruntime]
  · simp [hcount]

end RuntimeState

end PhsaRuntime
