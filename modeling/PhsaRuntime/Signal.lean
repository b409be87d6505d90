import PhsaRuntime.Lib.Component

/-!
# Signals

A `Signal` is a 64-bit variable with atomic operations. `GCCBuiltinSignal` keeps it in memory of a
region and uses the `__atomic` builtins of GCC, by way of the templates of `Atomic.hh`;
`StdAtomicSignal` has a `std::atomic`. Arithmetic is two's complement in both, also where the
type is signed.

An operation is one step. A memory order that an operation is not defined for, and one that a
`switch` aborts for, is a call that does not return.

## Main definitions

* `StdAtomicSignal`, `GCCBuiltinSignal` — the operations of the two classes.
* `stdAtomicSignal`, `gccBuiltinSignal` — the classes as their users see them.

## Main result

* `signals_interchangeable_iff` — when the two classes cannot be told apart.
-/

namespace PhsaRuntime

/-- `hsa_signal_value_t`, in the large machine model. -/
abbrev SignalValue := BitVec 64

/-- `MemoryOrder`. -/
inductive MemoryOrder
  | relaxed
  | consume
  | acquire
  | release
  | acquireRelease
  | sequentiallyConsistent
  deriving DecidableEq, Repr

/-- `Atomic::ToCompareExchangeFailure`; `none` where the function ends without a `return`. -/
def toCompareExchangeFailure : MemoryOrder → Option MemoryOrder
  | .acquireRelease => some .acquire
  | .acquire => some .acquire
  | .release => some .relaxed
  | .relaxed => some .relaxed
  | .consume | .sequentiallyConsistent => none

/-- A compare-and-exchange of either library on a variable with the given value: whether it
replaced the value, the expected value, which is overwritten with the observed one where it did
not, and the value afterwards. -/
def compareExchangeStrong (expected desired current : SignalValue) :
    Bool × SignalValue × SignalValue :=
  if current = expected then (true, expected, desired) else (false, current, current)

/-! ## The two classes

Each operation is given the current value; it has the value returned, if there is one, and the
value afterwards. -/

namespace StdAtomicSignal

/-- `StdAtomicSignal::load`. -/
def load (mo : MemoryOrder) (current : SignalValue) : Option (SignalValue × SignalValue) :=
  -- the order of a load is not a releasing one
  if mo = .release ∨ mo = .acquireRelease then none else some (current, current)

/-- `StdAtomicSignal::store`. -/
def store (value : SignalValue) (mo : MemoryOrder) (_current : SignalValue) :
    Option SignalValue :=
  -- the order of a store is not an acquiring one
  if mo = .consume ∨ mo = .acquire ∨ mo = .acquireRelease then none else some value

/-- `StdAtomicSignal::exchange`. -/
def exchange (value : SignalValue) (_mo : MemoryOrder) (current : SignalValue) :
    SignalValue × SignalValue :=
  (current, value)

/-- `StdAtomicSignal::compareExchange`. What is returned is the `bool` of
`compare_exchange_strong`. -/
def compareExchange (expected value : SignalValue) (mo : MemoryOrder) (current : SignalValue) :
    Option (SignalValue × SignalValue) :=
  (toCompareExchangeFailure mo).map fun _ =>
    let r := compareExchangeStrong expected value current
    (if r.1 then 1 else 0, r.2.2)

/-- `StdAtomicSignal::add`. -/
def add (value : SignalValue) (_mo : MemoryOrder) (current : SignalValue) : SignalValue :=
  current + value

/-- `StdAtomicSignal::subtract`. -/
def subtract (value : SignalValue) (_mo : MemoryOrder) (current : SignalValue) : SignalValue :=
  current - value

/-- `StdAtomicSignal::and_`. -/
def and (value : SignalValue) (_mo : MemoryOrder) (current : SignalValue) : SignalValue :=
  current &&& value

/-- `StdAtomicSignal::or_`. -/
def or (value : SignalValue) (_mo : MemoryOrder) (current : SignalValue) : SignalValue :=
  current ||| value

/-- `StdAtomicSignal::xor_`. -/
def xor (value : SignalValue) (_mo : MemoryOrder) (current : SignalValue) : SignalValue :=
  current ^^^ value

end StdAtomicSignal

namespace GCCBuiltinSignal

/-- `GCCBuiltinSignal::load`. -/
def load (mo : MemoryOrder) (current : SignalValue) : Option (SignalValue × SignalValue) :=
  match mo with
  | .acquire | .relaxed => some (current, current)
  | _ => none

/-- `GCCBuiltinSignal::store`. -/
def store (value : SignalValue) (mo : MemoryOrder) (_current : SignalValue) :
    Option SignalValue :=
  match mo with
  | .relaxed | .release => some value
  | _ => none

/-- `GCCBuiltinSignal::exchange`. -/
def exchange (value : SignalValue) (_mo : MemoryOrder) (current : SignalValue) :
    SignalValue × SignalValue :=
  (current, value)

/-- `GCCBuiltinSignal::compareExchange`. What is returned is `Expected` after the builtin. -/
def compareExchange (expected value : SignalValue) (mo : MemoryOrder) (current : SignalValue) :
    Option (SignalValue × SignalValue) :=
  (toCompareExchangeFailure mo).map fun _ => (compareExchangeStrong expected value current).2

/-- `GCCBuiltinSignal::subtract`. -/
def subtract (value : SignalValue) (_mo : MemoryOrder) (current : SignalValue) : SignalValue :=
  current - value

/-- `GCCBuiltinSignal::add`. -/
def add (value : SignalValue) (_mo : MemoryOrder) (current : SignalValue) : SignalValue :=
  current + value

/-- `GCCBuiltinSignal::xor_`. -/
def xor (value : SignalValue) (_mo : MemoryOrder) (current : SignalValue) : SignalValue :=
  current ^^^ value

/-- `GCCBuiltinSignal::and_`. -/
def and (value : SignalValue) (_mo : MemoryOrder) (current : SignalValue) : SignalValue :=
  current &&& value

/-- `GCCBuiltinSignal::or_`. -/
def or (value : SignalValue) (_mo : MemoryOrder) (current : SignalValue) : SignalValue :=
  current ||| value

end GCCBuiltinSignal

/-! ## Calls -/

/-- The operations of `Signal`, except `wait`. -/
inductive SignalOp
  | store (value : SignalValue)
  | load
  | exchange (value : SignalValue)
  | compareExchange (expected value : SignalValue)
  | add (value : SignalValue)
  | subtract (value : SignalValue)
  | and (value : SignalValue)
  | or (value : SignalValue)
  | xor (value : SignalValue)
  deriving DecidableEq, Repr

/-- The orders with which the `hsa_signal_*` functions call an operation. -/
def SignalOp.orders : SignalOp → List MemoryOrder
  | .load => [.acquire, .relaxed]
  | .store _ => [.relaxed, .release]
  | _ => [.acquireRelease, .acquire, .relaxed, .release]

/-- An operation with its memory order. -/
structure SignalCall where
  op : SignalOp
  order : MemoryOrder
  deriving DecidableEq, Repr

/-- The call is that of an `hsa_signal_*` function. -/
def SignalCall.OfApi (c : SignalCall) : Prop := c.order ∈ c.op.orders

instance (c : SignalCall) : Decidable c.OfApi := inferInstanceAs (Decidable (_ ∈ _))

/-- An operation that returns a value. -/
def returning (r : SignalValue × SignalValue) : Option SignalValue × SignalValue := (some r.1, r.2)

/-- An operation that returns nothing. -/
def silent (r : SignalValue) : Option SignalValue × SignalValue := (none, r)

/-- A `StdAtomicSignal`. -/
def stdAtomicSignal : Component SignalValue SignalCall (Option SignalValue) where
  call c current :=
    match c.op with
    | .store value => (StdAtomicSignal.store value c.order current).map silent
    | .load => (StdAtomicSignal.load c.order current).map returning
    | .exchange value => some (returning (StdAtomicSignal.exchange value c.order current))
    | .compareExchange expected value =>
      (StdAtomicSignal.compareExchange expected value c.order current).map returning
    | .add value => some (silent (StdAtomicSignal.add value c.order current))
    | .subtract value => some (silent (StdAtomicSignal.subtract value c.order current))
    | .and value => some (silent (StdAtomicSignal.and value c.order current))
    | .or value => some (silent (StdAtomicSignal.or value c.order current))
    | .xor value => some (silent (StdAtomicSignal.xor value c.order current))

/-- A `GCCBuiltinSignal`. -/
def gccBuiltinSignal : Component SignalValue SignalCall (Option SignalValue) where
  call c current :=
    match c.op with
    | .store value => (GCCBuiltinSignal.store value c.order current).map silent
    | .load => (GCCBuiltinSignal.load c.order current).map returning
    | .exchange value => some (returning (GCCBuiltinSignal.exchange value c.order current))
    | .compareExchange expected value =>
      (GCCBuiltinSignal.compareExchange expected value c.order current).map returning
    | .add value => some (silent (GCCBuiltinSignal.add value c.order current))
    | .subtract value => some (silent (GCCBuiltinSignal.subtract value c.order current))
    | .and value => some (silent (GCCBuiltinSignal.and value c.order current))
    | .or value => some (silent (GCCBuiltinSignal.or value c.order current))
    | .xor value => some (silent (GCCBuiltinSignal.xor value c.order current))

/-! ## Comparison -/

/-- A compare-and-exchange meets a value that reads as its own success: 1 where that is the value
expected, and 0 where it is not. -/
def ObservesSuccess (current : SignalValue) : SignalOp → Prop
  | .compareExchange expected _ => (current = 1 ∧ expected = 1) ∨ (current = 0 ∧ expected ≠ 0)
  | _ => True

instance (current : SignalValue) : (op : SignalOp) → Decidable (ObservesSuccess current op)
  | .compareExchange _ _ => inferInstanceAs (Decidable (_ ∨ _))
  | .store _ | .load | .exchange _ | .add _ | .subtract _ | .and _ | .or _ | .xor _ =>
    .isTrue trivial

variable {c : SignalCall} {current expected value : SignalValue}

/-- What the builtin leaves in `Expected` is the value observed, whether or not it was
replaced. -/
theorem compareExchangeStrong_observed :
    (compareExchangeStrong expected value current).2.1 = current := by
  rw [compareExchangeStrong]
  split
  · rename_i heq
    exact heq.symm
  · rfl

/-- The `bool` is the value observed only for two values. -/
theorem flag_eq_observed_iff :
    (if (compareExchangeStrong expected value current).1 then 1 else 0) = current ↔
      (current = 1 ∧ expected = 1) ∨ (current = 0 ∧ expected ≠ 0) := by
  by_cases heq : current = expected
  · subst heq
    simp only [compareExchangeStrong, if_true, and_self]
    constructor
    · intro h
      exact .inl h.symm
    · rintro (h | ⟨h, hne⟩)
      · exact h.symm
      · exact absurd h hne
  · simp only [compareExchangeStrong, heq, if_false, Bool.false_eq_true]
    constructor
    · rintro rfl
      exact .inr ⟨rfl, fun h => heq h.symm⟩
    · rintro (⟨h, h'⟩ | ⟨h, -⟩)
      · exact absurd (h.trans h'.symm) heq
      · exact h.symm

/-- The API does not use an order for which there is no failure order. -/
theorem exists_failureOrder {mo : MemoryOrder}
    (h : mo ∈ [.acquireRelease, .acquire, .relaxed, .release]) :
    ∃ failure, toCompareExchangeFailure mo = some failure := by
  apply Option.isSome_iff_exists.mp
  revert h
  cases mo <;> decide

theorem load_eq {mo : MemoryOrder} (h : mo ∈ [.acquire, .relaxed]) :
    StdAtomicSignal.load mo current = GCCBuiltinSignal.load mo current := by
  revert h
  cases mo <;> simp [StdAtomicSignal.load, GCCBuiltinSignal.load]

theorem store_eq {mo : MemoryOrder} (h : mo ∈ [.relaxed, .release]) :
    StdAtomicSignal.store value mo current = GCCBuiltinSignal.store value mo current := by
  revert h
  cases mo <;> simp [StdAtomicSignal.store, GCCBuiltinSignal.store]

/-- **One call.** The classes differ in what a compare-and-exchange returns. -/
theorem signal_call_eq_iff (hc : c.OfApi) :
    stdAtomicSignal.call c current = gccBuiltinSignal.call c current ↔
      ObservesSuccess current c.op := by
  obtain ⟨op, order⟩ := c
  cases op with
  | compareExchange expected value =>
    obtain ⟨failure, hfailure⟩ := exists_failureOrder hc
    simp only [stdAtomicSignal, gccBuiltinSignal, StdAtomicSignal.compareExchange,
      GCCBuiltinSignal.compareExchange, hfailure, Option.map_some, Option.some.injEq, returning,
      Prod.mk.injEq, and_true, compareExchangeStrong_observed, ObservesSuccess]
    exact flag_eq_observed_iff
  | load =>
    simp only [stdAtomicSignal, gccBuiltinSignal, load_eq hc, ObservesSuccess]
  | store value =>
    simp only [stdAtomicSignal, gccBuiltinSignal, store_eq hc, ObservesSuccess]
  | exchange value => exact iff_of_true rfl trivial
  | add value => exact iff_of_true rfl trivial
  | subtract value => exact iff_of_true rfl trivial
  | and value => exact iff_of_true rfl trivial
  | or value => exact iff_of_true rfl trivial
  | xor value => exact iff_of_true rfl trivial

/-- A call leads to the same value in both classes, whatever it returns. -/
theorem signal_call_value_eq (hc : c.OfApi) :
    (stdAtomicSignal.call c current).map Prod.snd =
      (gccBuiltinSignal.call c current).map Prod.snd := by
  by_cases hsuccess : ObservesSuccess current c.op
  · rw [(signal_call_eq_iff hc).mpr hsuccess]
  · obtain ⟨op, order⟩ := c
    cases op with
    | compareExchange expected value =>
      simp only [stdAtomicSignal, gccBuiltinSignal, StdAtomicSignal.compareExchange,
        GCCBuiltinSignal.compareExchange, Option.map_map]
      rfl
    | _ => exact absurd trivial hsuccess

/-- **The values of the two signals** are the same after every call. -/
theorem signal_values_eq (initialValue : SignalValue) {calls : List SignalCall}
    (h : ∀ c ∈ calls, c.OfApi) :
    (stdAtomicSignal.history calls initialValue).map (Option.map Prod.snd) =
      (gccBuiltinSignal.history calls initialValue).map (Option.map Prod.snd) :=
  Component.history_states_eq fun c hc _ => signal_call_value_eq (h c hc)

/-- **When the two classes cannot be told apart:** for every initial value and every sequence of
calls of the API, they return the same and have the same value after every call exactly if every
compare-and-exchange meets a value that reads as its own success. -/
theorem signals_interchangeable_iff (initialValue : SignalValue) {calls : List SignalCall}
    (h : ∀ c ∈ calls, c.OfApi) :
    stdAtomicSignal.history calls initialValue = gccBuiltinSignal.history calls initialValue ↔
      ∀ p ∈ stdAtomicSignal.calls calls initialValue, ObservesSuccess p.1 p.2.op := by
  rw [Component.history_eq_iff]
  constructor
  · intro heq p hp
    exact (signal_call_eq_iff (h p.2 (Component.mem_of_mem_calls hp))).mp (heq p hp)
  · intro hsuccess p hp
    exact (signal_call_eq_iff (h p.2 (Component.mem_of_mem_calls hp))).mpr (hsuccess p hp)

/-- A lock of which the first attempt succeeds and the second one fails. -/
theorem signals_interchangeable_lock :
    stdAtomicSignal.history [⟨.add 1, .relaxed⟩, ⟨.compareExchange 1 0, .acquire⟩,
        ⟨.compareExchange 1 0, .acquire⟩] 0 =
      gccBuiltinSignal.history [⟨.add 1, .relaxed⟩, ⟨.compareExchange 1 0, .acquire⟩,
        ⟨.compareExchange 1 0, .acquire⟩] 0 :=
  (signals_interchangeable_iff 0 (by decide)).mpr (by decide)

/-- A replacement of 5 by 7 returns 1 in one class and 5 in the other. -/
theorem signals_differ :
    stdAtomicSignal.call ⟨.compareExchange 5 7, .acquireRelease⟩ 5 = some (some 1, 7) ∧
      gccBuiltinSignal.call ⟨.compareExchange 5 7, .acquireRelease⟩ 5 = some (some 5, 7) ∧
      stdAtomicSignal.history [⟨.compareExchange 5 7, .acquireRelease⟩] 5 ≠
        gccBuiltinSignal.history [⟨.compareExchange 5 7, .acquireRelease⟩] 5 := by
  decide

end PhsaRuntime
