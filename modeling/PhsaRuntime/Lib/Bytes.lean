import Mathlib.Data.Nat.Digits.Defs
import Mathlib.Data.Nat.Notation
import Mathlib.Data.List.Basic
import Mathlib.Tactic.Common

/-!
# Bytes in memory

Memory as a function of the address, with the reads and writes of a range of cells, and the
scalars that are copied to memory byte by byte, least significant byte first. Consecutive
writes are one write of the concatenation, and a read of a range is the concatenation of the
reads of its parts, so that a layout of several fields is a list of bytes.

## Main definitions

* `Cells.read`, `Cells.write`, `Cells.copyAll`, `Cells.AgreeOutside` — ranges of cells.
* `Scalar` — a type whose values have a fixed number of bytes, with both round trips.
* `Cells.load` — the scalar at an address.
-/

namespace PhsaRuntime

universe u

/-- The contents of each address. -/
abbrev Cells (β : Type u) := ℕ → β

namespace Cells

variable {β : Type u}

/-- The cells of a range. -/
def read (m : Cells β) (a n : ℕ) : List β := (List.range n).map fun i => m (a + i)

/-- Overwrite the range that starts at `a`. -/
def write (m : Cells β) (a : ℕ) (cells : List β) : Cells β :=
  fun i => if a ≤ i then cells[i - a]?.getD (m i) else m i

/-- The memories differ in a range at most. -/
def AgreeOutside (m m' : Cells β) (a n : ℕ) : Prop := ∀ i, i < a ∨ a + n ≤ i → m' i = m i

/-- Some writes, one after the other. -/
def copyAll (m : Cells β) (writes : List (ℕ × List β)) : Cells β :=
  writes.foldl (fun m w => m.write w.1 w.2) m

variable {m : Cells β} {a i n k : ℕ} {xs ys : List β}

@[simp] theorem length_read : (m.read a n).length = n := by
  simp [read]

theorem read_add : m.read a (n + k) = m.read a n ++ m.read (a + n) k := by
  simp [read, List.range_add, Nat.add_assoc, Function.comp_def]

theorem read_take (h : k ≤ n) : (m.read a n).take k = m.read a k := by
  obtain ⟨j, rfl⟩ := Nat.exists_eq_add_of_le h
  rw [read_add, List.take_left' length_read]

@[simp] theorem read_write : (m.write a xs).read a xs.length = xs := by
  apply List.ext_getElem length_read
  intro i hi hi'
  simp [read, write, hi']

theorem read_write_of_length (h : xs.length = n) : (m.write a xs).read a n = xs := by
  rw [← h, read_write]

theorem write_add : m.write a xs (a + i) = xs[i]?.getD (m (a + i)) := by
  rw [write, if_pos (Nat.le_add_right a i), Nat.add_sub_cancel_left]

theorem write_of_lt (h : i < a) : m.write a xs i = m i := if_neg (Nat.not_le.mpr h)

theorem write_singleton {x : β} : m.write a [x] = Function.update m a x := by
  funext i
  by_cases hi : i < a
  · rw [write_of_lt hi, Function.update_of_ne (Nat.ne_of_lt hi)]
  · obtain ⟨j, rfl⟩ := Nat.exists_eq_add_of_le (Nat.not_lt.mp hi)
    rw [write_add]
    cases j with
    | zero => simp
    | succ j => simp

theorem agreeOutside_write : AgreeOutside m (m.write a xs) a xs.length := by
  intro i hi
  rcases hi with hi | hi
  · exact write_of_lt hi
  · obtain ⟨j, rfl⟩ := Nat.exists_eq_add_of_le hi
    rw [Nat.add_assoc, write_add, List.getElem?_eq_none (Nat.le_add_right _ _), Option.getD_none]

/-- A write changes nothing behind the first cells if and only if the others are there
already. -/
theorem agreeOutside_write_iff (h : n ≤ xs.length) :
    AgreeOutside m (m.write a xs) a n ↔ m.read (a + n) (xs.length - n) = xs.drop n := by
  constructor
  · intro hagree
    apply List.ext_getElem
    · rw [length_read, List.length_drop]
    · intro i hi hi'
      rw [length_read] at hi
      have hcell := hagree (a + (n + i)) (.inr (by omega))
      rw [write_add, List.getElem?_eq_getElem (by omega), Option.getD_some] at hcell
      rw [List.getElem_drop, hcell, ← Nat.add_assoc]
      simp [read]
  · intro hread i hi
    rcases hi with hi | hi
    · exact write_of_lt hi
    · obtain ⟨j, rfl⟩ := Nat.exists_eq_add_of_le hi
      have hcell := congrArg (fun cells : List β => cells[j]?) hread
      rw [Nat.add_assoc, write_add]
      simp only [List.getElem?_drop] at hcell
      rw [← hcell]
      by_cases hj : j < xs.length - n
      · simp [read, hj, Nat.add_assoc]
      · simp [read, hj]

theorem write_append : m.write a (xs ++ ys) = (m.write a xs).write (a + xs.length) ys := by
  funext i
  simp only [write]
  by_cases hlo : a + xs.length ≤ i
  · have hle : a ≤ i := by omega
    have hxs : xs.length ≤ i - a := by omega
    rw [if_pos hle, if_pos hlo, if_pos hle, List.getElem?_append_right hxs,
      List.getElem?_eq_none hxs, Nat.sub_sub]
    rfl
  · rw [if_neg hlo]
    split
    · rw [List.getElem?_append_left (by omega)]
    · rfl

/-- Two adjacent ranges with known contents. -/
theorem read_append_iff :
    m.read a (xs ++ ys).length = xs ++ ys ↔
      m.read a xs.length = xs ∧ m.read (a + xs.length) ys.length = ys := by
  rw [List.length_append, read_add]
  constructor
  · intro h
    exact List.append_inj h length_read
  · rintro ⟨hx, hy⟩
    rw [hx, hy]

end Cells

/-! ## Scalars -/

/-- A byte. -/
abbrev Byte := BitVec 8

/-- The `n` bytes of a number, least significant first. -/
def littleEndian : ℕ → ℕ → List Byte
  | 0, _ => []
  | n + 1, x => BitVec.ofNat 8 x :: littleEndian n (x / 256)

/-- The number with the given bytes. -/
def ofLittleEndian (bytes : List Byte) : ℕ := Nat.ofDigits 256 (bytes.map BitVec.toNat)

@[simp] theorem length_littleEndian (n x : ℕ) : (littleEndian n x).length = n := by
  induction n generalizing x with
  | zero => rfl
  | succ n ih => rw [littleEndian, List.length_cons, ih]

theorem littleEndian_add (n k x : ℕ) :
    littleEndian (n + k) x = littleEndian n x ++ littleEndian k (x / 256 ^ n) := by
  induction n generalizing x with
  | zero => simp [littleEndian]
  | succ n ih =>
    rw [Nat.succ_add, littleEndian, ih, littleEndian, List.cons_append, Nat.div_div_eq_div_mul,
      Nat.pow_succ']

/-- The bytes above the last one do not matter. -/
theorem littleEndian_mod (n x : ℕ) : littleEndian n (x % 256 ^ n) = littleEndian n x := by
  induction n generalizing x with
  | zero => rfl
  | succ n ih =>
    have hbyte : BitVec.ofNat 8 (x % 256 ^ (n + 1)) = BitVec.ofNat 8 x := by
      apply BitVec.eq_of_toNat_eq
      rw [BitVec.toNat_ofNat, BitVec.toNat_ofNat, Nat.pow_succ']
      exact Nat.mod_mul_right_mod x 256 (256 ^ n)
    have hrest : x % 256 ^ (n + 1) / 256 = x / 256 % 256 ^ n := by
      rw [Nat.pow_succ']
      exact Nat.mod_mul_right_div_self x 256 (256 ^ n)
    rw [littleEndian, hbyte, hrest, ih, littleEndian]

theorem ofLittleEndian_cons (b : Byte) (bytes : List Byte) :
    ofLittleEndian (b :: bytes) = b.toNat + 256 * ofLittleEndian bytes := by
  simp [ofLittleEndian, Nat.ofDigits_cons]

theorem ofLittleEndian_littleEndian {n x : ℕ} (h : x < 256 ^ n) :
    ofLittleEndian (littleEndian n x) = x := by
  induction n generalizing x with
  | zero =>
    rw [Nat.pow_zero, Nat.lt_one_iff] at h
    rw [h]
    rfl
  | succ n ih =>
    have hdiv : x / 256 < 256 ^ n := by
      rw [Nat.pow_succ] at h
      exact Nat.div_lt_of_lt_mul (by omega)
    rw [littleEndian, ofLittleEndian_cons, ih hdiv, BitVec.toNat_ofNat]
    exact Nat.mod_add_div x 256

theorem littleEndian_ofLittleEndian (bytes : List Byte) :
    littleEndian bytes.length (ofLittleEndian bytes) = bytes := by
  induction bytes with
  | nil => rfl
  | cons b bytes ih =>
    have hb := b.isLt
    have hdiv : (b.toNat + 256 * ofLittleEndian bytes) / 256 = ofLittleEndian bytes := by omega
    have hbyte : BitVec.ofNat 8 (b.toNat + 256 * ofLittleEndian bytes) = b := by
      apply BitVec.eq_of_toNat_eq
      rw [BitVec.toNat_ofNat]
      omega
    rw [List.length_cons, ofLittleEndian_cons, littleEndian, hdiv, ih, hbyte]

theorem ofLittleEndian_lt (bytes : List Byte) : ofLittleEndian bytes < 256 ^ bytes.length := by
  have hlt : ∀ x ∈ bytes.map BitVec.toNat, x < 256 := by
    intro x hx
    obtain ⟨b, -, rfl⟩ := List.mem_map.mp hx
    exact b.isLt
  have h := Nat.ofDigits_lt_base_pow_length (by norm_num) hlt
  rwa [List.length_map] at h

/-- A type whose values have a fixed number of bytes. -/
class Scalar (α : Type u) where
  size : ℕ
  toBytes : α → List Byte
  ofBytes : List Byte → α
  length_toBytes : ∀ x, (toBytes x).length = size
  ofBytes_toBytes : ∀ x, ofBytes (toBytes x) = x
  toBytes_ofBytes : ∀ bytes, bytes.length = size → toBytes (ofBytes bytes) = bytes

/-- The words of `n` bytes. -/
@[reducible] def Scalar.word (n : ℕ) : Scalar (BitVec (8 * n)) where
  size := n
  toBytes x := littleEndian n x.toNat
  ofBytes bytes := BitVec.ofNat _ (ofLittleEndian bytes)
  length_toBytes x := length_littleEndian n x.toNat
  ofBytes_toBytes x := by
    have hx : x.toNat < 256 ^ n := by
      rw [show 256 = 2 ^ 8 by rfl, ← Nat.pow_mul]
      exact x.isLt
    rw [ofLittleEndian_littleEndian hx, BitVec.ofNat_toNat, BitVec.setWidth_eq]
  toBytes_ofBytes bytes h := by
    have hlt : ofLittleEndian bytes < 2 ^ (8 * n) := by
      rw [Nat.pow_mul, ← h]
      exact ofLittleEndian_lt bytes
    rw [BitVec.toNat_ofNat, Nat.mod_eq_of_lt hlt, ← h]
    exact littleEndian_ofLittleEndian bytes

instance : Scalar (BitVec 16) := Scalar.word 2

instance : Scalar (BitVec 32) := Scalar.word 4

instance : Scalar (BitVec 64) := Scalar.word 8

/-- The scalar at an address. -/
def Cells.load (α : Type u) [Scalar α] (m : Cells Byte) (a : ℕ) : α :=
  Scalar.ofBytes (m.read a (Scalar.size α))

theorem Cells.load_eq {α : Type u} [Scalar α] {m : Cells Byte} {a : ℕ} {x : α}
    (h : m.read a (Scalar.size α) = Scalar.toBytes x) : m.load α a = x := by
  rw [Cells.load, h, Scalar.ofBytes_toBytes]

@[simp] theorem Cells.toBytes_load {α : Type u} [Scalar α] {m : Cells Byte} {a : ℕ} :
    Scalar.toBytes (m.load α a) = m.read a (Scalar.size α) :=
  Scalar.toBytes_ofBytes _ Cells.length_read

end PhsaRuntime
