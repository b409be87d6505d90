import Mathlib.Data.Nat.Notation
import Mathlib.Tactic.Common
import Mathlib.Data.Int.ModEq

/-!
# Ring indexes and fixed-width casts

A ring of `n` slots holds a window of `n` consecutive indexes; index `i` lives in
slot `i % n`. Within a window the slot determines the index, and an index at or above
the window start is either the one its slot holds or at least a whole lap ahead of it.

The casts are the ones C++ makes between `uint64_t`, `int64_t` and `int`, as two's
complement on naturals.
-/

namespace PhsaRuntime

namespace Ring

/-- Two indexes of one window with the same slot are equal. -/
theorem index_unique {r n i j : ℕ} (hi : r ≤ i) (hi' : i < r + n) (hj : r ≤ j)
    (hj' : j < r + n) (h : i % n = j % n) : i = j := by
  have hi2 := Nat.div_add_mod i n
  have hj2 := Nat.div_add_mod j n
  rcases Nat.lt_trichotomy (i / n) (j / n) with hlt | heq | hlt
  · have := Nat.mul_le_mul_left n hlt
    rw [Nat.mul_succ] at this
    omega
  · rw [heq] at hi2
    omega
  · have := Nat.mul_le_mul_left n hlt
    rw [Nat.mul_succ] at this
    omega

/-- The indexes of every window have different slots across the wrap of the index at `w`, if and
only if the ring divides the range of the index. -/
theorem slots_distinct_iff_dvd {n w : ℕ} (hn : 0 < n) (hw : n ≤ w) :
    (∀ start < w, ∀ i j, i < j → j < n → (start + i) % w % n ≠ (start + j) % w % n) ↔ n ∣ w := by
  constructor
  · intro h
    by_contra hnot
    have hrem : 0 < w % n := Nat.pos_of_ne_zero fun h0 => hnot (Nat.dvd_of_mod_eq_zero h0)
    have hlt : w % n < n := Nat.mod_lt w hn
    -- the last index before the wrap has the slot of the index `w % n - 1` behind it
    have hbefore : (w - 1 + 0) % w % n = w % n - 1 := by
      have hdiv := Nat.div_add_mod w n
      have hlast : w - 1 = w % n - 1 + n * (w / n) := by omega
      rw [Nat.add_zero, Nat.mod_eq_of_lt (show w - 1 < w by omega)]
      conv_lhs => rw [hlast]
      rw [Nat.add_mul_mod_self_left, Nat.mod_eq_of_lt (by omega)]
    have hbehind : (w - 1 + w % n) % w % n = w % n - 1 := by
      have hsum : w - 1 + w % n = w % n - 1 + w := by omega
      have hmod : (w % n - 1) % w = w % n - 1 := Nat.mod_eq_of_lt (by omega)
      rw [hsum, Nat.add_mod_right, hmod, Nat.mod_eq_of_lt (by omega)]
    exact h (w - 1) (by omega) 0 (w % n) hrem hlt (hbefore.trans hbehind.symm)
  · intro hdvd start _ i j hij hj hslot
    rw [Nat.mod_mod_of_dvd _ hdvd, Nat.mod_mod_of_dvd _ hdvd] at hslot
    have heq := index_unique (r := start) (n := n) (by omega) (by omega) (by omega) (by omega) hslot
    omega

/-- An index at or above the start of a window either is the index its slot holds in the
window, or lies beyond the window. -/
theorem index_eq_or_beyond {r n i c : ℕ} (hi : r ≤ i) (hi' : i < r + n) (hc : r ≤ c)
    (h : i % n = c % n) : i = c ∨ r + n ≤ c := by
  by_cases hlt : c < r + n
  · exact .inl (index_unique hi hi' hc hlt h)
  · exact .inr (by omega)

end Ring

namespace Word

/-- The `int` that a `uint64_t` converts to. -/
def toInt32 (x : ℕ) : ℤ := (x + 2 ^ 31) % 2 ^ 32 - 2 ^ 31

/-- The `int64_t` with the bits of a `uint64_t`. -/
def toInt64 (x : ℕ) : ℤ := (x + 2 ^ 63) % 2 ^ 64 - 2 ^ 63

/-- The `uint64_t` congruent to an integer. -/
def toUInt64 (x : ℤ) : ℕ := (x % 2 ^ 64).toNat

/-- The value of a sum of `uint64_t`s. -/
def wrap (x : ℕ) : ℕ := x % 2 ^ 64

theorem toInt32_of_lt {x : ℕ} (h : x < 2 ^ 31) : toInt32 x = x := by
  simp only [toInt32]
  omega

theorem toInt32_nonneg {x : ℕ} (hx : x < 2 ^ 32) (h : 0 ≤ toInt32 x) : toInt32 x = x := by
  simp only [toInt32] at h ⊢
  omega

theorem toInt64_of_lt {x : ℕ} (h : x < 2 ^ 63) : toInt64 x = x := by
  simp only [toInt64]
  omega

theorem toInt64_inj {x y : ℕ} (hx : x < 2 ^ 64) (hy : y < 2 ^ 64)
    (h : toInt64 x = toInt64 y) : x = y := by
  simp only [toInt64] at h
  omega

theorem wrap_of_lt {x : ℕ} (h : x < 2 ^ 64) : wrap x = x := Nat.mod_eq_of_lt h

theorem toUInt64_of_nonneg {x : ℕ} (h : x < 2 ^ 64) : toUInt64 (x : ℤ) = x := by
  simp only [toUInt64]
  omega

/-- Unsigned subtraction of an index from the doorbell value of a larger one. -/
theorem toUInt64_sub {x y : ℕ} (hx : x < 2 ^ 64) (hy : y ≤ x) :
    toUInt64 (toInt64 x - y) = x - y := by
  simp only [toUInt64, toInt64]
  omega

end Word

end PhsaRuntime
