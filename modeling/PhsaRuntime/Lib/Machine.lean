import Mathlib.Logic.Relation
import Mathlib.Tactic.Common

/-!
# Machines, their runs and their invariants

A `Machine` has a set of initial states and a partial, executable step function:
`step a s` is the state that action `a` leads to from `s`, or `none` where `a` is
not enabled. Nondeterminism is in the choice of the action, so that interleaved
threads are one machine whose actions name the thread that moves.

`Run tr s` is a run that ends in `s`, with the steps it took, latest first, each as
the state before the step and the action. A property of runs is often relative to a
condition on their steps: `Reachable ok s` says that a run all of whose steps meet
`ok` ends in `s`.

## Main results

* `Reachable.induction` — what holds initially and is kept by every allowed step of
  a reachable state holds in every reachable state.
* `Reachable.leads_induction` — the same from any reachable state on.
* `Reachable.simulate` — a map that sends every step to a step, or to no change,
  sends reachable states to reachable states.
* `Run.live_eq` — what a state says to be live is what has been created and not been
  destroyed since.
* `exists_reachable_of_run`, `exists_run_of_trace` — a state found by executing a list
  of actions is reachable, by the steps that are taken.
-/

namespace PhsaRuntime

universe u v u' v'

/-- Initial states and an executable partial step function. -/
structure Machine (σ : Type u) (α : Type v) where
  /-- The states a run may start in. -/
  init : σ → Prop
  /-- The state after an action, `none` where the action is not enabled. -/
  step : α → σ → Option σ

namespace Machine

variable {σ : Type u} {α : Type v} {τ : Type u'} {β : Type v'}

/-- The runs of a machine: the steps taken so far, latest first, and the last state. -/
inductive Run (M : Machine σ α) : List (σ × α) → σ → Prop
  | init {s : σ} : M.init s → Run M [] s
  | step {tr : List (σ × α)} {s s' : σ} {a : α} :
      Run M tr s → M.step a s = some s' → Run M ((s, a) :: tr) s'

/-- The machine from a given state on. -/
def startingAt (M : Machine σ α) (s₀ : σ) : Machine σ α := { M with init := fun s => s = s₀ }

/-- A run all of whose steps meet `ok` ends in `s`. -/
def Reachable (M : Machine σ α) (ok : σ → α → Prop) (s : σ) : Prop :=
  ∃ tr, M.Run tr s ∧ ∀ p ∈ tr, ok p.1 p.2

/-- No condition on the steps. -/
def always (_ : σ) (_ : α) : Prop := True

instance (s : σ) (a : α) : Decidable (always s a) := .isTrue trivial

variable {M : Machine σ α} {ok ok' : σ → α → Prop}

theorem Run.reachable {tr : List (σ × α)} {s : σ} (h : M.Run tr s) : M.Reachable always s :=
  ⟨tr, h, fun _ _ => trivial⟩

namespace Reachable

theorem init {s : σ} (h : M.init s) : M.Reachable ok s :=
  ⟨[], .init h, by simp⟩

theorem step {s s' : σ} {a : α} (h : M.Reachable ok s) (hok : ok s a)
    (hs : M.step a s = some s') : M.Reachable ok s' := by
  obtain ⟨tr, hrun, htr⟩ := h
  refine ⟨(s, a) :: tr, hrun.step hs, ?_⟩
  simpa using ⟨hok, fun t b ht => htr (t, b) ht⟩

/-- **Induction along a run.** The step case may use that its first state is reachable,
so that one invariant can be proved on top of another. -/
theorem induction {P : σ → Prop} (hinit : ∀ s, M.init s → P s)
    (hstep : ∀ s a s', M.Reachable ok s → ok s a → M.step a s = some s' → P s → P s')
    {s : σ} (h : M.Reachable ok s) : P s := by
  obtain ⟨tr, hrun, htr⟩ := h
  induction hrun with
  | init hs => exact hinit _ hs
  | @step tr s s' a hrun hs ih =>
      have hpre : ∀ p ∈ tr, ok p.1 p.2 := fun p hp => htr p (List.mem_cons_of_mem _ hp)
      exact hstep s a s' ⟨tr, hrun, hpre⟩ (htr (s, a) List.mem_cons_self) hs (ih hpre)

/-- Runs that meet a condition meet every weaker one. -/
theorem mono (hok : ∀ s a, ok s a → ok' s a) {s : σ} (h : M.Reachable ok s) :
    M.Reachable ok' s := by
  obtain ⟨tr, hrun, htr⟩ := h
  exact ⟨tr, hrun, fun p hp => hok _ _ (htr p hp)⟩

/-- **Simulation**, as long as `G` holds. If `f` maps initial states to initial states and
every allowed step to a step that is allowed there, or to no change, it maps reachable
states to reachable states. -/
theorem simulate {N : Machine τ β} {okN : τ → β → Prop} (f : σ → τ) (G : σ → Prop)
    (hinit : ∀ s, M.init s → N.init (f s))
    (hG : ∀ s a s', M.step a s = some s' → G s' → G s)
    (hstep : ∀ s a s', M.Reachable ok s → ok s a → M.step a s = some s' → G s →
      f s' = f s ∨ ∃ b, okN (f s) b ∧ N.step b (f s) = some (f s'))
    {s : σ} (h : M.Reachable ok s) : G s → N.Reachable okN (f s) := by
  refine h.induction (P := fun s => G s → N.Reachable okN (f s)) ?_ ?_
  · intro s hs _
    exact .init (hinit s hs)
  · intro s a s' hr hok hs ih hG'
    have hGs := hG s a s' hs hG'
    rcases hstep s a s' hr hok hs hGs with heq | ⟨b, hb, hN⟩
    · exact heq ▸ ih hGs
    · exact (ih hGs).step hb hN

/-- Any number of allowed steps. -/
theorem steps {s s' : σ} (h : M.Reachable ok s)
    (hsteps : Relation.ReflTransGen (fun t t' => ∃ a, ok t a ∧ M.step a t = some t') s s') :
    M.Reachable ok s' := by
  induction hsteps with
  | refl => exact h
  | tail _ hst ih =>
      obtain ⟨a, ha, hs⟩ := hst
      exact ih.step ha hs

/-- **Simulation by several steps.** If `f` maps initial states to initial states, and what
every allowed step does is what some number of steps do that are allowed there, it maps
reachable states to reachable states. -/
theorem simulate_steps {N : Machine τ β} {okN : τ → β → Prop} (f : σ → τ)
    (hinit : ∀ s, M.init s → N.init (f s))
    (hstep : ∀ s a s', M.Reachable ok s → ok s a → M.step a s = some s' →
      Relation.ReflTransGen (fun t t' => ∃ b, okN t b ∧ N.step b t = some t') (f s) (f s'))
    {s : σ} (h : M.Reachable ok s) : N.Reachable okN (f s) := by
  refine h.induction (P := fun s => N.Reachable okN (f s)) ?_ ?_
  · intro s hs
    exact .init (hinit s hs)
  · intro s a s' hr hok hs ih
    exact ih.steps (hstep s a s' hr hok hs)

end Reachable

/-- The states before the steps of a run are reachable. -/
theorem Run.reachable_of_mem {tr : List (σ × α)} {s : σ} (h : M.Run tr s)
    (hok : ∀ p ∈ tr, ok p.1 p.2) {p : σ × α} (hp : p ∈ tr) : M.Reachable ok p.1 := by
  induction h with
  | init _ => cases hp
  | @step tr s s' a hrun _ ih =>
      have hpre : ∀ p ∈ tr, ok p.1 p.2 := fun p hp => hok p (List.mem_cons_of_mem _ hp)
      rcases List.mem_cons.mp hp with rfl | hp
      · exact ⟨tr, hrun, hpre⟩
      · exact ih hpre hp

/-- The states of a run, latest first. -/
def states (tr : List (σ × α)) (s : σ) : List σ := s :: tr.map Prod.fst

/-- All states of a run are reachable. -/
theorem Run.reachable_of_mem_states {tr : List (σ × α)} {s t : σ} (h : M.Run tr s)
    (hok : ∀ p ∈ tr, ok p.1 p.2) (ht : t ∈ states tr s) : M.Reachable ok t := by
  rcases List.mem_cons.mp ht with rfl | ht
  · exact ⟨tr, h, hok⟩
  · obtain ⟨p, hp, rfl⟩ := List.mem_map.mp ht
    exact h.reachable_of_mem hok hp

/-- The state after a step of a run is one of its states. -/
theorem Run.exists_next {tr : List (σ × α)} {s : σ} (h : M.Run tr s) {p : σ × α} (hp : p ∈ tr) :
    ∃ t ∈ states tr s, M.step p.2 p.1 = some t := by
  induction h with
  | init _ => cases hp
  | @step tr s s' a hrun hs ih =>
      rcases List.mem_cons.mp hp with rfl | hp
      · exact ⟨s', List.mem_cons_self, hs⟩
      · obtain ⟨t, ht, hstep⟩ := ih hp
        exact ⟨t, List.mem_cons_of_mem s' ht, hstep⟩

/-- Whether an object is live after the steps of a run: one of them has created it, and no later
one has destroyed it. -/
def aliveAfter {κ : Type*} (creates destroys : σ → α → κ → Bool) : List (σ × α) → κ → Bool
  | [], _ => false
  | (s, a) :: tr, k => creates s a k || (aliveAfter creates destroys tr k && !destroys s a k)

/-- **Lifetimes.** If nothing is live at first and each step changes what is live by what it
creates and destroys, then what is live in a state is what the run to it has left alive. -/
theorem Run.live_eq {κ : Type*} {live : σ → κ → Bool} {creates destroys : σ → α → κ → Bool}
    (hinit : ∀ s k, M.init s → live s k = false)
    (hstep : ∀ s a s' k, M.step a s = some s' →
      live s' k = (creates s a k || (live s k && !destroys s a k)))
    {tr : List (σ × α)} {s : σ} (h : M.Run tr s) (k : κ) :
    live s k = aliveAfter creates destroys tr k := by
  induction h with
  | init hs => exact hinit _ k hs
  | step _ hs ih => rw [hstep _ _ _ k hs, ih, aliveAfter]

/-- The same, if each step changes what is live in this way wherever an allowed run leads. -/
theorem Run.live_eq_of_reachable {κ : Type*} {live : σ → κ → Bool}
    {creates destroys : σ → α → κ → Bool} (hinit : ∀ s k, M.init s → live s k = false)
    (hstep : ∀ s a s' k, M.Reachable ok s → ok s a → M.step a s = some s' →
      live s' k = (creates s a k || (live s k && !destroys s a k)))
    {tr : List (σ × α)} {s : σ} (h : M.Run tr s) (hok : ∀ p ∈ tr, ok p.1 p.2) (k : κ) :
    live s k = aliveAfter creates destroys tr k := by
  induction h with
  | init hs => exact hinit _ k hs
  | @step tr s s' a hrun hs ih =>
      have hpre : ∀ p ∈ tr, ok p.1 p.2 := fun p hp => hok p (List.mem_cons_of_mem _ hp)
      have hlast : ok s a := hok (s, a) List.mem_cons_self
      rw [hstep s a s' k ⟨tr, hrun, hpre⟩ hlast hs, ih hpre, aliveAfter]

/-- Any number of steps lead from one state to the other. -/
def Leads (M : Machine σ α) : σ → σ → Prop :=
  Relation.ReflTransGen fun s s' => ∃ a, M.step a s = some s'

/-- **Induction along the steps after a state.** -/
theorem Reachable.leads_induction {P : σ → Prop} {s s' : σ} (h : M.Reachable always s)
    (hs : P s) (hstep : ∀ t a t', M.Reachable always t → M.step a t = some t' → P t → P t')
    (hl : M.Leads s s') : M.Reachable always s' ∧ P s' := by
  induction hl with
  | refl => exact ⟨h, hs⟩
  | tail _ hst ih =>
      obtain ⟨hr, hP⟩ := ih
      obtain ⟨a, ha⟩ := hst
      exact ⟨hr.step trivial ha, hstep _ a _ hr ha hP⟩

/-- Perform a list of actions in order; `none` where one is not enabled or not allowed. -/
def run (M : Machine σ α) (ok : σ → α → Prop) [∀ s a, Decidable (ok s a)] :
    List α → σ → Option σ
  | [], s => some s
  | a :: as, s => if ok s a then (M.step a s).bind (run M ok as) else none

theorem reachable_of_run [∀ s a, Decidable (ok s a)] {as : List α} {s s' : σ}
    (h : M.Reachable ok s) (hrun : M.run ok as s = some s') : M.Reachable ok s' := by
  induction as generalizing s with
  | nil => simp only [run, Option.some.injEq] at hrun; exact hrun ▸ h
  | cons a as ih =>
      simp only [run] at hrun
      split at hrun
      · rename_i hok
        obtain ⟨t, ht, hrest⟩ := Option.bind_eq_some_iff.mp hrun
        exact ih (h.step hok ht) hrest
      · cases hrun

/-- A state with a decidable property, found by executing a list of actions. -/
theorem exists_reachable_of_run (M : Machine σ α) (ok : σ → α → Prop)
    [∀ s a, Decidable (ok s a)] (as : List α) (p : σ → Bool) {s : σ} (hs : M.init s)
    (h : (M.run ok as s).any p = true) :
    ∃ s', M.Reachable ok s' ∧ p s' = true := by
  cases hrun : M.run ok as s with
  | none => simp [hrun] at h
  | some s' =>
      rw [hrun, Option.any_some] at h
      exact ⟨s', reachable_of_run (.init hs) hrun, h⟩

/-- Perform a list of actions in order, with the steps that are taken. -/
def trace (M : Machine σ α) : List α → List (σ × α) → σ → Option (List (σ × α) × σ)
  | [], tr, s => some (tr, s)
  | a :: as, tr, s => (M.step a s).bind (trace M as ((s, a) :: tr))

theorem run_of_trace {as : List α} {tr tr' : List (σ × α)} {s s' : σ} (h : M.Run tr s)
    (htrace : M.trace as tr s = some (tr', s')) : M.Run tr' s' := by
  induction as generalizing tr s with
  | nil =>
      obtain ⟨rfl, rfl⟩ := Prod.mk.inj (Option.some.inj htrace)
      exact h
  | cons a as ih =>
      obtain ⟨t, ht, hrest⟩ := Option.bind_eq_some_iff.mp htrace
      exact ih (h.step ht) hrest

/-- The actions that are performed. -/
theorem actions_of_trace {as : List α} {tr tr' : List (σ × α)} {s s' : σ}
    (htrace : M.trace as tr s = some (tr', s')) :
    tr'.map Prod.snd = as.reverse ++ tr.map Prod.snd := by
  induction as generalizing tr s with
  | nil =>
      obtain ⟨rfl, rfl⟩ := Prod.mk.inj (Option.some.inj htrace)
      rfl
  | cons a as ih =>
      obtain ⟨t, ht, hrest⟩ := Option.bind_eq_some_iff.mp htrace
      rw [ih hrest]
      simp

/-- A run with a decidable property, found by executing a list of actions. -/
theorem exists_run_of_trace (M : Machine σ α) (as : List α) (p : List (σ × α) → σ → Bool) {s : σ}
    (hs : M.init s) (h : ((M.trace as [] s).any fun r => p r.1 r.2) = true) :
    ∃ tr s', M.Run tr s' ∧ p tr s' = true := by
  obtain ⟨r, htrace, hp⟩ := (Option.any_eq_true _ _).mp h
  exact ⟨r.1, r.2, run_of_trace (.init hs) htrace, hp⟩

/-- The run that consists of the same action, over and over. -/
theorem exists_run_of_replicate (M : Machine σ α) (n : ℕ) (a : α)
    (p : List (σ × α) → σ → Bool) {s : σ} (hs : M.init s)
    (h : ((M.trace (List.replicate n a) [] s).any fun r => p r.1 r.2) = true) :
    ∃ tr s', M.Run tr s' ∧ (∀ step ∈ tr, step.2 = a) ∧ p tr s' = true := by
  obtain ⟨r, htrace, hp⟩ := (Option.any_eq_true _ _).mp h
  refine ⟨r.1, r.2, run_of_trace (.init hs) htrace, fun step hstep => ?_, hp⟩
  have hmem := List.mem_map_of_mem (f := Prod.snd) hstep
  rw [actions_of_trace htrace, List.map_nil, List.append_nil, List.mem_reverse] at hmem
  exact List.eq_of_mem_replicate hmem

/-- Every step of a run has the property, which is also about the steps before it. -/
def Along (P : List (σ × α) → σ → α → Prop) : List (σ × α) → Prop
  | [] => True
  | (s, a) :: tr => P tr s a ∧ Along P tr

theorem Run.along_congr {P R : List (σ × α) → σ → α → Prop} {tr : List (σ × α)} {s : σ}
    (h : M.Run tr s) (hstep : ∀ tr s a s', M.Run tr s → M.step a s = some s' →
      (P tr s a ↔ R tr s a)) : Along P tr ↔ Along R tr := by
  induction h with
  | init _ => exact Iff.rfl
  | step hrun hs ih => exact and_congr (hstep _ _ _ _ hrun hs) ih

end Machine

end PhsaRuntime
