import Mathlib.Data.Nat.Find
import PhsaRuntime.Lib.Ring
import PhsaRuntime.Signal

/-!
# Waiting for a signal

`hsa_signal_wait_acquire` and `hsa_signal_wait_relaxed` load the value until it satisfies the
condition or more than the hint has elapsed, which is tested first. The hint is an unsigned number
and a duration a signed one: all hints from 2⁶³ on but the largest one are negative durations, which
have elapsed at once.

## Main definitions

* `Observations` — what a wait observes: the values of the signal, and the clock.
* `hsaSignalWaitAcquire`, `hsaSignalWaitRelaxed` — the waits.

## Main results

* `wait_eq_some_iff` — the iteration in which a wait returns.
* `signal_wait_iff` — exactly when two waits on the same observations respect their hints.
-/

namespace PhsaRuntime

/-- `hsa_signal_condition_t`. -/
inductive SignalCondition
  | eq
  | ne
  | lt
  | gte
  deriving DecidableEq, Repr

/-- `ToPredicate`. -/
def toPredicate (condition : SignalCondition) (compareValue value : SignalValue) : Bool :=
  match condition with
  | .eq => value = compareValue
  | .ne => value ≠ compareValue
  | .lt => value.toInt < compareValue.toInt
  | .gte => value.toInt ≥ compareValue.toInt

/-- `ToStdPeriod`. A duration is an `int64_t`. -/
def toStdPeriod (timeout : ℕ) : ℤ :=
  if timeout = 2 ^ 64 - 1 then 2 ^ 63 - 1 else Word.toInt64 timeout

/-- What a wait observes, by the iterations of its loop. The clock does not go back, and the time
elapsed is a duration. -/
structure Observations where
  value : ℕ → SignalValue
  startTime : ℤ
  now : ℕ → ℤ
  startTime_le : startTime ≤ now 0
  now_le : ∀ i, now i ≤ now (i + 1)
  elapsed_lt : ∀ i, now i - startTime < 2 ^ 63

/-- `Now() - StartTime`. -/
def Observations.elapsed (o : Observations) (i : ℕ) : ℤ := o.now i - o.startTime

namespace GCCBuiltinSignal

/-- The loop ends after an iteration that loads the value. -/
def waitEnds (condition : SignalValue → Bool) (timeout elapsed : ℤ) (value : SignalValue) : Bool :=
  elapsed > timeout || condition value

/-- The loop of `GCCBuiltinSignal::wait` from iteration `i` on, at most `fuel` iterations: the last
iteration and the value that is returned. -/
def waitFrom (condition : SignalValue → Bool) (timeout : ℤ) (mo : MemoryOrder) (o : Observations) :
    ℕ → ℕ → Option (ℕ × SignalValue)
  | _, 0 => none
  | i, fuel + 1 =>
    (load mo (o.value i)).bind fun loaded =>
      if waitEnds condition timeout (o.elapsed i) loaded.1 then some (i, loaded.1)
      else waitFrom condition timeout mo o (i + 1) fuel

/-- `GCCBuiltinSignal::wait`. -/
def wait (condition : SignalValue → Bool) (timeout : ℤ) (mo : MemoryOrder) (o : Observations)
    (fuel : ℕ) : Option (ℕ × SignalValue) :=
  waitFrom condition timeout mo o 0 fuel

end GCCBuiltinSignal

/-- `hsa_signal_wait_acquire`. -/
def hsaSignalWaitAcquire (condition : SignalCondition) (compareValue : SignalValue)
    (timeoutHint : ℕ) (o : Observations) (fuel : ℕ) : Option (ℕ × SignalValue) :=
  GCCBuiltinSignal.wait (toPredicate condition compareValue) (toStdPeriod timeoutHint) .acquire o
    fuel

/-- `hsa_signal_wait_relaxed`. -/
def hsaSignalWaitRelaxed (condition : SignalCondition) (compareValue : SignalValue)
    (timeoutHint : ℕ) (o : Observations) (fuel : ℕ) : Option (ℕ × SignalValue) :=
  GCCBuiltinSignal.wait (toPredicate condition compareValue) (toStdPeriod timeoutHint) .relaxed o
    fuel

/-- What is returned satisfies the condition, or more than the hint has elapsed. -/
def KeepsHint (wait : ℕ → Observations → ℕ → Option (ℕ × SignalValue))
    (condition : SignalValue → Bool) (timeoutHint : ℕ) (o : Observations) : Prop :=
  ∀ fuel i value, wait timeoutHint o fuel = some (i, value) →
    condition value = true ∨ timeoutHint ≠ 2 ^ 64 - 1 ∧ (timeoutHint : ℤ) < o.elapsed i

/-- Where the wait with the larger hint returns, that with the smaller one has returned. -/
def ReturnsNoLater (wait : ℕ → Observations → ℕ → Option (ℕ × SignalValue)) (small large : ℕ)
    (o : Observations) : Prop :=
  ∀ fuel i value, wait large o fuel = some (i, value) →
    ∃ fuel' j value', wait small o fuel' = some (j, value') ∧ j ≤ i

variable {condition : SignalValue → Bool} {timeout : ℤ} {mo : MemoryOrder} {o : Observations}
  {fuel i j : ℕ} {value : SignalValue}

namespace Observations

theorem startTime_le_now (i : ℕ) : o.startTime ≤ o.now i := by
  induction i with
  | zero => exact o.startTime_le
  | succ i ih => exact ih.trans (o.now_le i)

theorem elapsed_nonneg (i : ℕ) : 0 ≤ o.elapsed i := Int.sub_nonneg_of_le (o.startTime_le_now i)

end Observations

/-! ## The loop -/

/-- The loop returns in the first iteration that ends it. -/
theorem waitFrom_eq_some_iff
    (hload : ∀ value, GCCBuiltinSignal.load mo value = some (value, value)) :
    GCCBuiltinSignal.waitFrom condition timeout mo o i fuel = some (j, value) ↔
      i ≤ j ∧ j < i + fuel ∧ value = o.value j ∧
        GCCBuiltinSignal.waitEnds condition timeout (o.elapsed j) (o.value j) = true ∧
        ∀ k, i ≤ k → k < j →
          GCCBuiltinSignal.waitEnds condition timeout (o.elapsed k) (o.value k) = false := by
  induction fuel generalizing i with
  | zero =>
    constructor
    · intro h
      cases h
    · rintro ⟨hle, hlt, -⟩
      omega
  | succ fuel ih =>
    rw [GCCBuiltinSignal.waitFrom, hload, Option.bind_some]
    split
    case isTrue hends =>
      constructor
      · intro h
        cases h
        exact ⟨le_rfl, by omega, rfl, hends, fun k hk hk' => by omega⟩
      · rintro ⟨hle, -, rfl, -, hbefore⟩
        rcases Nat.eq_or_lt_of_le hle with rfl | hlt
        · rfl
        · rw [hbefore i le_rfl hlt] at hends
          cases hends
    case isFalse hgoes =>
      rw [ih]
      constructor
      · rintro ⟨hle, hlt, hvalue, hends, hbefore⟩
        refine ⟨by omega, by omega, hvalue, hends, ?_⟩
        intro k hk hk'
        rcases Nat.eq_or_lt_of_le hk with rfl | hlt
        · exact Bool.not_eq_true _ ▸ hgoes
        · exact hbefore k hlt hk'
      · rintro ⟨hle, hlt, hvalue, hends, hbefore⟩
        have hne : i ≠ j := by
          rintro rfl
          exact hgoes hends
        exact ⟨by omega, by omega, hvalue, hends, fun k hk => hbefore k (by omega)⟩

/-- A wait of one of the two memory orders. -/
def IsSignalWait
    (wait : SignalCondition → SignalValue → ℕ → Observations → ℕ → Option (ℕ × SignalValue)) :
    Prop :=
  wait = hsaSignalWaitAcquire ∨ wait = hsaSignalWaitRelaxed

section Waits

variable {wait : SignalCondition → SignalValue → ℕ → Observations → ℕ → Option (ℕ × SignalValue)}
  {comparison : SignalCondition} {compareValue : SignalValue} {timeoutHint small large : ℕ}

/-- **The iteration in which a wait returns** is the first one that ends the loop. -/
theorem wait_eq_some_iff (hwait : IsSignalWait wait) :
    wait comparison compareValue timeoutHint o fuel = some (i, value) ↔
      i < fuel ∧ value = o.value i ∧
        GCCBuiltinSignal.waitEnds (toPredicate comparison compareValue) (toStdPeriod timeoutHint)
          (o.elapsed i) (o.value i) = true ∧
        ∀ k < i, GCCBuiltinSignal.waitEnds (toPredicate comparison compareValue)
          (toStdPeriod timeoutHint) (o.elapsed k) (o.value k) = false := by
  have hacquire (value : SignalValue) :
    GCCBuiltinSignal.load .acquire value = some (value, value) := rfl
  have hrelaxed (value : SignalValue) :
    GCCBuiltinSignal.load .relaxed value = some (value, value) := rfl
  rcases hwait with rfl | rfl
  · rw [hsaSignalWaitAcquire, GCCBuiltinSignal.wait, waitFrom_eq_some_iff hacquire]
    simp
  · rw [hsaSignalWaitRelaxed, GCCBuiltinSignal.wait, waitFrom_eq_some_iff hrelaxed]
    simp

/-- A wait has returned when an iteration ends the loop. -/
theorem exists_wait_le (hwait : IsSignalWait wait)
    (hends : GCCBuiltinSignal.waitEnds (toPredicate comparison compareValue)
      (toStdPeriod timeoutHint) (o.elapsed i) (o.value i) = true) :
    ∃ fuel j value, wait comparison compareValue timeoutHint o fuel = some (j, value) ∧ j ≤ i := by
  have hexists : ∃ j, GCCBuiltinSignal.waitEnds (toPredicate comparison compareValue)
      (toStdPeriod timeoutHint) (o.elapsed j) (o.value j) = true := ⟨i, hends⟩
  refine ⟨Nat.find hexists + 1, Nat.find hexists, o.value (Nat.find hexists), ?_,
    Nat.find_min' hexists hends⟩
  rw [wait_eq_some_iff hwait]
  refine ⟨Nat.lt_succ_self _, rfl, Nat.find_spec hexists, ?_⟩
  intro k hk
  exact Bool.not_eq_true _ ▸ Nat.find_min hexists hk

/-! ## The hints -/

/-- The hint is a duration that is not negative, or the largest hint, or the wait does not depend on
it. -/
def HintRight (condition : SignalValue → Bool) (timeoutHint : ℕ) (o : Observations) : Prop :=
  timeoutHint < 2 ^ 63 ∨ timeoutHint = 2 ^ 64 - 1 ∨ condition (o.value 0) = true

theorem toStdPeriod_max : toStdPeriod (2 ^ 64 - 1) = 2 ^ 63 - 1 := if_pos rfl

theorem toStdPeriod_of_lt (h : timeoutHint < 2 ^ 63) : toStdPeriod timeoutHint = timeoutHint := by
  rw [toStdPeriod, if_neg (by omega), Word.toInt64_of_lt h]

theorem toStdPeriod_neg (hle : 2 ^ 63 ≤ timeoutHint) (hlt : timeoutHint < 2 ^ 64 - 1) :
    toStdPeriod timeoutHint < 0 := by
  rw [toStdPeriod, if_neg (by omega), Word.toInt64]
  omega

theorem not_timedOut_max (i : ℕ) : ¬ o.elapsed i > toStdPeriod (2 ^ 64 - 1) := by
  have hlt := o.elapsed_lt i
  rw [toStdPeriod_max, Observations.elapsed]
  omega

/-- A hint is kept exactly if it is no negative duration, or the first value that is loaded
satisfies the condition. -/
theorem keepsHint_iff (hwait : IsSignalWait wait) (hlt : timeoutHint < 2 ^ 64) :
    KeepsHint (wait comparison compareValue) (toPredicate comparison compareValue) timeoutHint o ↔
      HintRight (toPredicate comparison compareValue) timeoutHint o := by
  constructor
  · intro h
    by_contra hnot
    obtain ⟨hlarge, hmax, hfirst⟩ := not_or.mp hnot |>.imp_right not_or.mp
    have hnegative : toStdPeriod timeoutHint < 0 := toStdPeriod_neg (by omega) (by omega)
    have hnonneg := o.elapsed_nonneg 0
    have hends : GCCBuiltinSignal.waitEnds (toPredicate comparison compareValue)
        (toStdPeriod timeoutHint) (o.elapsed 0) (o.value 0) = true := by
      rw [GCCBuiltinSignal.waitEnds, decide_eq_true (by omega), Bool.true_or]
    have hreturns : wait comparison compareValue timeoutHint o 1 = some (0, o.value 0) :=
      (wait_eq_some_iff hwait).mpr
        ⟨Nat.one_pos, rfl, hends, fun k hk => absurd hk (Nat.not_lt_zero k)⟩
    rcases h 1 0 _ hreturns with hvalue | ⟨-, helapsed⟩
    · exact hfirst hvalue
    · have hduration := o.elapsed_lt 0
      rw [Observations.elapsed] at helapsed
      omega
  · intro hright fuel i value hreturns
    rw [wait_eq_some_iff hwait] at hreturns
    obtain ⟨-, rfl, hends, hbefore⟩ := hreturns
    rw [GCCBuiltinSignal.waitEnds, Bool.or_eq_true, decide_eq_true_eq] at hends
    rcases hends with htimedOut | hvalue
    · rcases hright with hsmall | rfl | hfirst
      · rw [toStdPeriod_of_lt hsmall] at htimedOut
        exact .inr ⟨by omega, htimedOut⟩
      · exact absurd htimedOut (not_timedOut_max i)
      · -- the first iteration ends the loop already
        rcases Nat.eq_zero_or_pos i with rfl | hpos
        · exact .inl hfirst
        · have hgoes := hbefore 0 hpos
          rw [GCCBuiltinSignal.waitEnds, hfirst, Bool.or_true] at hgoes
          cases hgoes
    · exact .inl hvalue

theorem toStdPeriod_le (hle : small ≤ large) (hlt : large < 2 ^ 64)
    (hsmall : small < 2 ^ 63 ∨ small = 2 ^ 64 - 1) (hlarge : large < 2 ^ 63 ∨ large = 2 ^ 64 - 1) :
    toStdPeriod small ≤ toStdPeriod large := by
  rcases hlarge with hlarge | rfl
  · rw [toStdPeriod_of_lt hlarge, toStdPeriod_of_lt (by omega)]
    exact_mod_cast hle
  · rcases hsmall with hsmall | rfl
    · rw [toStdPeriod_of_lt hsmall, toStdPeriod_max]
      omega
    · exact le_rfl

/-- With two such hints, the wait with the larger one returns no earlier. -/
theorem returnsNoLater (hwait : IsSignalWait wait) (hle : small ≤ large) (hlt : large < 2 ^ 64)
    (hsmall : HintRight (toPredicate comparison compareValue) small o)
    (hlarge : HintRight (toPredicate comparison compareValue) large o) :
    ReturnsNoLater (wait comparison compareValue) small large o := by
  intro fuel i value hreturns
  rw [wait_eq_some_iff hwait] at hreturns
  obtain ⟨-, -, hends, -⟩ := hreturns
  by_cases hfirst : toPredicate comparison compareValue (o.value 0) = true
  · have hends : GCCBuiltinSignal.waitEnds (toPredicate comparison compareValue)
        (toStdPeriod small) (o.elapsed 0) (o.value 0) = true := by
      rw [GCCBuiltinSignal.waitEnds, hfirst, Bool.or_true]
    obtain ⟨fuel', j, value', h, hj⟩ := exists_wait_le hwait hends
    exact ⟨fuel', j, value', h, hj.trans (Nat.zero_le i)⟩
  · have hduration := toStdPeriod_le hle hlt
      (hsmall.imp_right fun h => h.resolve_right hfirst)
      (hlarge.imp_right fun h => h.resolve_right hfirst)
    apply exists_wait_le hwait
    rw [GCCBuiltinSignal.waitEnds, Bool.or_eq_true, decide_eq_true_eq] at hends ⊢
    exact hends.imp_left fun h => hduration.trans_lt h

/-- **Two waits on the same observations** keep their hints, and the one with the larger hint
returns no earlier, if and only if each hint is less than 2⁶³ or the largest one, or the first
value that is loaded satisfies the condition. -/
theorem signal_wait_iff (hwait : IsSignalWait wait) (comparison : SignalCondition)
    (compareValue : SignalValue) (o : Observations) (hle : small ≤ large) (hlt : large < 2 ^ 64) :
    (KeepsHint (wait comparison compareValue) (toPredicate comparison compareValue) small o ∧
      KeepsHint (wait comparison compareValue) (toPredicate comparison compareValue) large o ∧
      ReturnsNoLater (wait comparison compareValue) small large o) ↔
    HintRight (toPredicate comparison compareValue) small o ∧
      HintRight (toPredicate comparison compareValue) large o := by
  rw [keepsHint_iff hwait (hle.trans_lt hlt), keepsHint_iff hwait hlt]
  constructor
  · rintro ⟨hsmall, hlarge, -⟩
    exact ⟨hsmall, hlarge⟩
  · rintro ⟨hsmall, hlarge⟩
    exact ⟨hsmall, hlarge, returnsNoLater hwait hle hlt hsmall hlarge⟩

end Waits

/-- The value stays 1, and an iteration takes one tick. -/
def staysOne : Observations where
  value _ := 1
  startTime := 0
  now i := min i (2 ^ 63 - 1)
  startTime_le := by decide
  now_le i := by omega
  elapsed_lt i := by omega

/-- A hint of five ticks, and none at all. -/
theorem signal_wait_staysOne :
    KeepsHint (hsaSignalWaitAcquire .eq 0) (toPredicate .eq 0) 5 staysOne ∧
      KeepsHint (hsaSignalWaitAcquire .eq 0) (toPredicate .eq 0) (2 ^ 64 - 1) staysOne ∧
      ReturnsNoLater (hsaSignalWaitAcquire .eq 0) 5 (2 ^ 64 - 1) staysOne :=
  (signal_wait_iff (.inl rfl) .eq 0 staysOne (by decide) (by decide)).mpr
    ⟨.inl (by decide), .inr (.inl rfl)⟩

/-- With a hint of 2⁶³ ticks the wait for 0 returns 1 in its first iteration, and with a hint of
five ticks in the seventh one. -/
theorem signal_wait_at_once :
    hsaSignalWaitAcquire .eq 0 (2 ^ 63) staysOne 1 = some (0, 1) ∧
      hsaSignalWaitAcquire .eq 0 5 staysOne 7 = some (6, 1) ∧
      ¬ KeepsHint (hsaSignalWaitAcquire .eq 0) (toPredicate .eq 0) (2 ^ 63) staysOne ∧
      ¬ ReturnsNoLater (hsaSignalWaitAcquire .eq 0) 5 (2 ^ 63) staysOne := by
  have hlarge : hsaSignalWaitAcquire .eq 0 (2 ^ 63) staysOne 1 = some (0, 1) := by decide
  have hsmall : hsaSignalWaitAcquire .eq 0 5 staysOne 7 = some (6, 1) := by decide
  refine ⟨hlarge, hsmall, ?_, ?_⟩
  · rw [keepsHint_iff (.inl rfl) (by decide)]
    rintro (h | h | h) <;> revert h <;> decide
  · intro h
    obtain ⟨fuel, j, value, hreturns, hj⟩ := h 1 0 1 hlarge
    obtain rfl := Nat.le_zero.mp hj
    rw [wait_eq_some_iff (.inl rfl)] at hreturns
    exact absurd hreturns.2.2.1 (by decide)

end PhsaRuntime
