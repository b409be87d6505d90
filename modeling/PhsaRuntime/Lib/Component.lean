import Mathlib.Data.List.Basic
import Mathlib.Tactic.Common

/-!
# Components and what their callers see

A component answers calls: `call a s` is the answer to `a` in the state `s` with the state
afterwards, or `none` where the call does not return. After such a call there are no others.

Two states are *indistinguishable* if every sequence of calls is answered in the same way from
both.

## Main results

* `history_eq_iff` — two components over the same states have the same history if and only if
  they agree on the calls that are made on the way.
* `history_states_eq` — they go through the same states if every call leads to the same state.
* `Indistinguishable.call` — a call leads from indistinguishable states to indistinguishable
  states.
-/

namespace PhsaRuntime

universe u v w

/-- Calls with answers, over an explicit state. -/
structure Component (σ : Type u) (α : Type v) (ρ : Type w) where
  call : α → σ → Option (ρ × σ)

namespace Component

variable {σ : Type u} {α : Type v} {ρ : Type w}

/-- The answers to a sequence of calls, each with the state after the call. -/
def history (C : Component σ α ρ) : List α → σ → List (Option (ρ × σ))
  | [], _ => []
  | a :: as, s =>
    match C.call a s with
    | none => [none]
    | some r => some r :: history C as r.2

/-- The calls of a sequence that are made, each with the state before the call. -/
def calls (C : Component σ α ρ) : List α → σ → List (σ × α)
  | [], _ => []
  | a :: as, s =>
    match C.call a s with
    | none => [(s, a)]
    | some r => (s, a) :: calls C as r.2

/-- What a caller sees of the history. -/
def answers (C : Component σ α ρ) (as : List α) (s : σ) : List (Option ρ) :=
  (C.history as s).map (Option.map Prod.fst)

variable {C D : Component σ α ρ} {ok : α → Prop} {as : List α} {a : α} {s t s' t' : σ} {x y : ρ}

theorem mem_of_mem_calls {p : σ × α} (h : p ∈ C.calls as s) : p.2 ∈ as := by
  induction as generalizing s with
  | nil => cases h
  | cons a as ih =>
    simp only [calls] at h
    split at h
    · rw [List.mem_singleton] at h
      simp [h]
    · rcases List.mem_cons.mp h with rfl | h
      · exact List.mem_cons_self
      · exact List.mem_cons_of_mem a (ih h)

/-- **Histories are compared call by call.** -/
theorem history_eq_iff :
    C.history as s = D.history as s ↔ ∀ p ∈ C.calls as s, C.call p.2 p.1 = D.call p.2 p.1 := by
  induction as generalizing s with
  | nil => simp [history, calls]
  | cons a as ih =>
    cases hC : C.call a s with
    | none =>
      cases hD : D.call a s with
      | none => simp [history, calls, hC, hD]
      | some r => simp [history, calls, hC, hD]
    | some r =>
      cases hD : D.call a s with
      | none => simp [history, calls, hC, hD]
      | some r' =>
        simp only [history, calls, hC, hD, List.cons.injEq, Option.some.injEq, List.mem_cons,
          forall_eq_or_imp]
        -- after a call that is answered in the same way, both go on from the same state
        apply and_congr_right
        rintro rfl
        exact ih

/-- Components whose calls lead to the same states go through the same states. -/
theorem history_states_eq
    (h : ∀ a ∈ as, ∀ s, (C.call a s).map Prod.snd = (D.call a s).map Prod.snd) :
    (C.history as s).map (Option.map Prod.snd) = (D.history as s).map (Option.map Prod.snd) := by
  induction as generalizing s with
  | nil => rfl
  | cons a as ih =>
    have hhead := h a List.mem_cons_self s
    have htail := fun s => ih (s := s) fun b hb => h b (List.mem_cons_of_mem a hb)
    cases hC : C.call a s with
    | none =>
      rw [hC, Option.map_none, eq_comm, Option.map_eq_none_iff] at hhead
      simp only [history, hC, hhead]
    | some r =>
      rw [hC, Option.map_some, eq_comm, Option.map_eq_some_iff] at hhead
      obtain ⟨r', hD, hr⟩ := hhead
      simp only [history, hC, hD, List.map_cons, Option.map_some, hr, htail]

/-! ## Indistinguishable states -/

/-- No sequence of permitted calls is answered differently. -/
def Indistinguishable (C : Component σ α ρ) (ok : α → Prop) (s t : σ) : Prop :=
  ∀ as, (∀ a ∈ as, ok a) → C.answers as s = C.answers as t

theorem Indistinguishable.refl (s : σ) : C.Indistinguishable ok s s := fun _ _ => rfl

theorem Indistinguishable.symm (h : C.Indistinguishable ok s t) : C.Indistinguishable ok t s :=
  fun as has => (h as has).symm

/-- One call is answered in the same way. -/
theorem Indistinguishable.answer (h : C.Indistinguishable ok s t) (ha : ok a) :
    (C.call a s).map Prod.fst = (C.call a t).map Prod.fst := by
  have hone := h [a] (by simpa using ha)
  cases hs : C.call a s with
  | none =>
    cases ht : C.call a t with
    | none => rfl
    | some r => simp [answers, history, hs, ht] at hone
  | some r =>
    cases ht : C.call a t with
    | none => simp [answers, history, hs, ht] at hone
    | some r' => simpa [answers, history, hs, ht] using hone

/-- **A call keeps states indistinguishable.** -/
theorem Indistinguishable.call (h : C.Indistinguishable ok s t) (ha : ok a)
    (hs : C.call a s = some (x, s')) (ht : C.call a t = some (y, t')) :
    C.Indistinguishable ok s' t' := by
  intro as has
  have hcons := h (a :: as) (by simpa using ⟨ha, has⟩)
  simp only [answers, history, hs, ht, List.map_cons, List.cons.injEq] at hcons
  exact hcons.2

end Component

end PhsaRuntime
