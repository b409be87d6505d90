import Mathlib.Data.Finset.Card
import Mathlib.Data.Nat.Find
import Mathlib.Logic.Relation
import PhsaRuntime.Lib.Ring

/-!
# Loops and their termination

A `while` loop is a condition and a body; nothing bounds the number of its iterations. Where the
condition holds of finitely many states only, the loop ends exactly if no state of its run is
reached from itself, and a run with as many iterations as there are such states decides which.

A cursor is a loop that advances an offset by a length that it reads there, in the arithmetic of
a fixed width. Its run comes back to an offset exactly by a length of zero or by a sum that
wraps around.

## Main results

* `Loop.exists_returns_of_run` — a run that is cut off comes back to a state.
* `Loop.ends_iff_forall_not_returns` — the loop ends if it does not return to a state.
* `Loop.cursor_ends_iff` — what the lengths of a cursor must be.
-/

namespace PhsaRuntime

universe u

/-- A `while` loop: its condition and its body. -/
structure Loop (α : Type u) where
  cond : α → Bool
  body : α → α

namespace Loop

variable {α : Type u} (l : Loop α)

/-- An iteration. -/
def Step (a b : α) : Prop := l.cond a = true ∧ l.body a = b

/-- The loop comes from the first state to the second. -/
def Reaches : α → α → Prop := Relation.ReflTransGen l.Step

/-- The loop comes back to the state. -/
def Returns (a : α) : Prop := Relation.TransGen l.Step a a

/-- The loop comes to a state in which the condition does not hold. -/
def Ends (a : α) : Prop := ∃ b, l.Reaches a b ∧ l.cond b = false

/-- The run with at most `n` iterations: the last state, if it ends. -/
def run : ℕ → α → Option α
  | 0, a => if l.cond a then none else some a
  | n + 1, a => if l.cond a then run n (l.body a) else some a

variable {l} {n : ℕ} {a b c : α}

theorem step_rightUnique : Relator.RightUnique l.Step := by
  intro a b c hb hc
  exact hb.2.symm.trans hc.2

theorem Returns.cond (h : l.Returns a) : l.cond a = true := by
  obtain ⟨b, hstep, -⟩ := Relation.TransGen.head'_iff.mp h
  exact hstep.1

theorem Returns.step (h : l.Returns a) (hab : l.Step a b) : l.Returns b := by
  obtain ⟨c, hstep, hc⟩ := Relation.TransGen.head'_iff.mp h
  obtain rfl : c = b := step_rightUnique hstep hab
  exact Relation.TransGen.tail' hc hab

theorem Returns.reaches (h : l.Returns a) (hab : l.Reaches a b) : l.Returns b := by
  induction hab with
  | refl => exact h
  | tail _ hstep ih => exact ih.step hstep

/-- The loop goes on from each state up to the one in which it ends. -/
theorem reaches_end (hb : l.Reaches a b) (hc : l.Reaches a c) (hend : l.cond c = false) :
    l.Reaches b c := by
  rcases Relation.ReflTransGen.total_of_right_unique step_rightUnique hb hc with hbc | hcb
  · exact hbc
  · rcases Relation.ReflTransGen.cases_head hcb with heq | ⟨d, hstep, -⟩
    · rw [heq]
      exact .refl
    · have hcond := hstep.1
      rw [hend] at hcond
      cases hcond

theorem end_unique (hb : l.Reaches a b) (hendb : l.cond b = false) (hc : l.Reaches a c)
    (hendc : l.cond c = false) : b = c := by
  rcases Relation.ReflTransGen.cases_head (reaches_end hb hc hendc) with heq | ⟨d, hstep, -⟩
  · exact heq
  · have hcond := hstep.1
    rw [hendb] at hcond
    cases hcond

/-- A loop that comes back to a state does not end. -/
theorem Returns.not_ends (h : l.Returns b) (hab : l.Reaches a b) : ¬ l.Ends a := by
  rintro ⟨c, hac, hend⟩
  have hcond := (h.reaches (reaches_end hab hac hend)).cond
  rw [hend] at hcond
  cases hcond

/-! ## Runs with a bound -/

theorem run_eq_some (h : l.run n a = some b) : l.Reaches a b ∧ l.cond b = false := by
  induction n generalizing a with
  | zero =>
    cases hcond : l.cond a with
    | true => simp [run, hcond] at h
    | false =>
      simp only [run, hcond, Bool.false_eq_true, if_false, Option.some.injEq] at h
      rw [← h]
      exact ⟨.refl, hcond⟩
  | succ n ih =>
    cases hcond : l.cond a with
    | true =>
      simp only [run, hcond, if_true] at h
      obtain ⟨hreaches, hend⟩ := ih h
      exact ⟨.head ⟨hcond, rfl⟩ hreaches, hend⟩
    | false =>
      simp only [run, hcond, Bool.false_eq_true, if_false, Option.some.injEq] at h
      rw [← h]
      exact ⟨.refl, hcond⟩

theorem ends_of_run (h : l.run n a = some b) : l.Ends a := ⟨b, run_eq_some h⟩

/-- The condition holds in all states of a run that is cut off. -/
theorem cond_of_run_eq_none (h : l.run n a = none) {k : ℕ} (hk : k ≤ n) :
    l.cond (l.body^[k] a) = true := by
  induction n generalizing a k with
  | zero =>
    obtain rfl := Nat.le_zero.mp hk
    simpa [run] using h
  | succ n ih =>
    simp only [run] at h
    split at h
    · cases k with
      | zero => assumption
      | succ k => exact ih h (by omega)
    · cases h

/-- The states of a run in which the condition holds up to an iteration. -/
theorem reaches_iterate (hcond : ∀ k < n, l.cond (l.body^[k] a) = true) {i j : ℕ} (hij : i ≤ j)
    (hj : j ≤ n) : l.Reaches (l.body^[i] a) (l.body^[j] a) := by
  induction j, hij using Nat.le_induction with
  | base => exact .refl
  | succ j _ ih =>
    refine .tail (ih (by omega)) ⟨hcond j (by omega), ?_⟩
    rw [Function.iterate_succ_apply']

/-- The iterations that bring the loop to a state. -/
theorem exists_iterate (h : l.Reaches a b) :
    ∃ k, (∀ j < k, l.cond (l.body^[j] a) = true) ∧ l.body^[k] a = b := by
  induction h with
  | refl => exact ⟨0, fun j hj => absurd hj (Nat.not_lt_zero j), rfl⟩
  | @tail b c _ hstep ih =>
    obtain ⟨k, hcond, hk⟩ := ih
    refine ⟨k + 1, ?_, ?_⟩
    · intro j hj
      rcases Nat.lt_or_eq_of_le (Nat.le_of_lt_succ hj) with hlt | heq
      · exact hcond j hlt
      · rw [heq, hk]
        exact hstep.1
    · rw [Function.iterate_succ_apply', hk]
      exact hstep.2

section Finite

variable {states : Finset α}

/-- Among as many iterations as there are states, two come to the same state. -/
theorem exists_iterate_eq (hmem : ∀ k ≤ n, l.body^[k] a ∈ states) (hcard : states.card ≤ n) :
    ∃ i j, i < j ∧ j ≤ n ∧ l.body^[i] a = l.body^[j] a := by
  have hmaps : Set.MapsTo (fun k => l.body^[k] a) (Finset.range (n + 1)) states := by
    intro k hk
    have hk' : k < n + 1 := by simpa using hk
    exact hmem k (by omega)
  have hlt : states.card < (Finset.range (n + 1)).card := by
    rw [Finset.card_range]
    omega
  obtain ⟨i, hi, j, hj, hne, heq⟩ := Finset.exists_ne_map_eq_of_card_lt_of_maps_to hlt hmaps
  have hi' : i < n + 1 := by simpa using hi
  have hj' : j < n + 1 := by simpa using hj
  rcases Nat.lt_or_gt_of_ne hne with hij | hji
  · exact ⟨i, j, hij, by omega, heq⟩
  · exact ⟨j, i, hji, by omega, heq.symm⟩

/-- A run of as many iterations as there are states comes back to one. -/
theorem exists_returns (hcond : ∀ k < n, l.cond (l.body^[k] a) = true)
    (hmem : ∀ k ≤ n, l.body^[k] a ∈ states) (hcard : states.card ≤ n) :
    ∃ b, l.Reaches a b ∧ l.Returns b := by
  obtain ⟨i, j, hij, hj, heq⟩ := exists_iterate_eq hmem hcard
  refine ⟨l.body^[i] a, reaches_iterate hcond (Nat.zero_le i) (by omega), ?_⟩
  have hstep : l.Step (l.body^[i] a) (l.body^[i + 1] a) :=
    ⟨hcond i (by omega), (Function.iterate_succ_apply' ..).symm⟩
  have hrest : l.Reaches (l.body^[i + 1] a) (l.body^[j] a) :=
    reaches_iterate hcond (by omega) (by omega)
  rw [← heq] at hrest
  exact Relation.TransGen.head' hstep hrest

/-- The loop comes to each state in fewer iterations than there are states. -/
theorem exists_iterate_lt (hstates : ∀ b, l.cond b = true → b ∈ states) (hb : b ∈ states)
    (h : l.Reaches a b) :
    ∃ k < states.card, (∀ j < k, l.cond (l.body^[j] a) = true) ∧ l.body^[k] a = b := by
  classical
  have hex := exists_iterate h
  obtain ⟨hcond, hk⟩ := Nat.find_spec hex
  refine ⟨Nat.find hex, ?_, hcond, hk⟩
  by_contra hcard
  have hmem : ∀ j ≤ Nat.find hex, l.body^[j] a ∈ states := by
    intro j hj
    rcases Nat.lt_or_eq_of_le hj with hlt | heq
    · exact hstates _ (hcond j hlt)
    · rwa [heq, hk]
  -- The iterations between two visits of a state can be left out.
  obtain ⟨i, j, hij, hj, heq⟩ := exists_iterate_eq hmem (by omega)
  have hshort : Nat.find hex - j + i < Nat.find hex := by omega
  refine Nat.find_min hex hshort ⟨fun j' hj' => hcond j' (by omega), ?_⟩
  rw [Function.iterate_add_apply, heq, ← Function.iterate_add_apply, Nat.sub_add_cancel hj, hk]

/-- A run that is cut off after as many iterations as there are states comes back to one. -/
theorem exists_returns_of_run (hstates : ∀ b, l.cond b = true → b ∈ states)
    (hcard : states.card ≤ n) (h : l.run n a = none) : ∃ b, l.Reaches a b ∧ l.Returns b := by
  refine exists_returns (fun k hk => cond_of_run_eq_none h hk.le) (fun k hk => ?_) hcard
  exact hstates _ (cond_of_run_eq_none h hk)

/-- A loop on finitely many states ends if it does not come back to one. -/
theorem ends_iff_forall_not_returns (hstates : ∀ b, l.cond b = true → b ∈ states) :
    l.Ends a ↔ ∀ b, l.Reaches a b → ¬ l.Returns b := by
  constructor
  · intro h b hreaches hreturns
    exact hreturns.not_ends hreaches h
  · intro h
    cases hrun : l.run states.card a with
    | none =>
      obtain ⟨b, hreaches, hreturns⟩ := exists_returns_of_run hstates le_rfl hrun
      exact absurd hreturns (h b hreaches)
    | some b => exact ends_of_run hrun

end Finite

/-! ## Cursors -/

/-- The loop that advances a 64-bit offset by the length that it reads there. -/
def cursor (goes : ℕ → Bool) (length : ℕ → ℕ) : Loop ℕ where
  cond := goes
  body b := Word.wrap (b + length b)

variable {goes : ℕ → Bool} {length : ℕ → ℕ} {start : ℕ}

/-- Over lengths that are not zero, a cursor advances up to the first sum that wraps around. -/
theorem cursor_lt_or_wraps {a b : ℕ} (hpos : ∀ c, (cursor goes length).Reaches a c →
    goes c = true → 0 < length c) (h : Relation.TransGen (cursor goes length).Step a b) :
    a < b ∨ ∃ c, (cursor goes length).Reaches a c ∧
      Relation.TransGen (cursor goes length).Step c b ∧ 2 ^ 64 ≤ c + length c := by
  -- The sum of the last iteration wraps around, unless an earlier one does.
  have hlast : ∀ {c d}, (cursor goes length).Reaches a c → (cursor goes length).Step c d →
      c < d ∨ 2 ^ 64 ≤ c + length c := by
    intro c d hreaches hstep
    have hlength := hpos c hreaches hstep.1
    have hnext : Word.wrap (c + length c) = d := hstep.2
    by_cases hwraps : 2 ^ 64 ≤ c + length c
    · exact .inr hwraps
    · rw [Word.wrap_of_lt (by omega)] at hnext
      exact .inl (by omega)
  induction h with
  | single hstep =>
    rcases hlast .refl hstep with hlt | hwraps
    · exact .inl hlt
    · exact .inr ⟨a, .refl, .single hstep, hwraps⟩
  | @tail c d hac hstep ih =>
    obtain hlt | ⟨e, hae, hec, hwraps⟩ := ih
    · rcases hlast hac.to_reflTransGen hstep with hlt' | hwraps
      · exact .inl (by omega)
      · exact .inr ⟨c, hac.to_reflTransGen, .single hstep, hwraps⟩
    · exact .inr ⟨e, hae, hec.tail hstep, hwraps⟩

/-- **The termination of a cursor** whose offsets are bounded: it comes to no length of zero, and
not again to an offset at which the sum wraps around. -/
theorem cursor_ends_iff {bound : ℕ} (hbound : ∀ b, goes b = true → b < bound)
    (hword : bound ≤ 2 ^ 64) :
    (cursor goes length).Ends start ↔ ∀ b, (cursor goes length).Reaches start b → goes b = true →
      0 < length b ∧ (2 ^ 64 ≤ b + length b → ¬ (cursor goes length).Returns b) := by
  have hstates : ∀ b, (cursor goes length).cond b = true → b ∈ Finset.range bound := by
    intro b hb
    exact Finset.mem_range.mpr (hbound b hb)
  rw [ends_iff_forall_not_returns hstates]
  constructor
  · intro h b hreaches hgoes
    refine ⟨Nat.pos_of_ne_zero ?_, fun _ => h b hreaches⟩
    intro hzero
    have hlt : b < 2 ^ 64 := (hbound b hgoes).trans_le hword
    have hstep : (cursor goes length).Step b b := by
      refine ⟨hgoes, ?_⟩
      change Word.wrap (b + length b) = b
      rw [hzero, Nat.add_zero, Word.wrap_of_lt hlt]
    exact h b hreaches (.single hstep)
  · intro h b hreaches hreturns
    have hpos : ∀ c, (cursor goes length).Reaches b c → goes c = true → 0 < length c := by
      intro c hbc hgoes
      exact (h c (hreaches.trans hbc) hgoes).1
    obtain hlt | ⟨c, hbc, hcb, hwraps⟩ := cursor_lt_or_wraps hpos hreturns
    · omega
    · have hc := hreturns.reaches hbc
      exact (h c (hreaches.trans hbc) hc.cond).2 hwraps hc

end Loop

end PhsaRuntime
