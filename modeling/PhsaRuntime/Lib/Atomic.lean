import PhsaRuntime.Lib.Machine
import Mathlib.Logic.Function.Basic

/-!
# Atomic objects

An object whose operations take effect at once, at some moment between their call and their
return. `atomicMachine spec` is the most general client of such an object: callers call,
the calls take effect by `spec` in any order, and the results are returned. What the callers
see of the object is the history of their calls and returns: an implementation all of whose
histories are histories of this machine is linearizable.

## Main definitions

* `atomicMachine` — the object and its callers.
-/

namespace PhsaRuntime

variable {T Op Res σ : Type}

/-- Where a caller is. -/
inductive AtomicPhase (Op Res : Type)
  | idle
  | called (op : Op)
  /-- The operation has taken effect, with this result. -/
  | done (op : Op) (res : Res)
  deriving DecidableEq

/-- What the callers see. -/
inductive AtomicEvent (T Op Res : Type)
  | call (t : T) (op : Op)
  | ret (t : T) (op : Op) (res : Res)
  deriving DecidableEq

/-- The value of the object, where its callers are, and the events so far, latest first. -/
structure AtomicState (T Op Res σ : Type) where
  value : σ
  phase : T → AtomicPhase Op Res
  history : List (AtomicEvent T Op Res)

/-- The steps of the callers. -/
inductive AtomicAction (T Op : Type)
  | call (t : T) (op : Op)
  /-- The operation of the caller takes effect. -/
  | commit (t : T)
  | ret (t : T)

/-- An object with the operations `spec`, and any number of callers. -/
def atomicMachine [DecidableEq T] (spec : Op → σ → Res × σ) (init : σ → Prop) :
    Machine (AtomicState T Op Res σ) (AtomicAction T Op) where
  init s := init s.value ∧ (∀ t, s.phase t = .idle) ∧ s.history = []
  step
    | .call t op, s =>
      match s.phase t with
      | .idle => some
        { s with
          phase := Function.update s.phase t (.called op)
          history := .call t op :: s.history }
      | _ => none
    | .commit t, s =>
      match s.phase t with
      | .called op => some
        { s with
          value := (spec op s.value).2
          phase := Function.update s.phase t (.done op (spec op s.value).1) }
      | _ => none
    | .ret t, s =>
      match s.phase t with
      | .done op res => some
        { s with
          phase := Function.update s.phase t .idle
          history := .ret t op res :: s.history }
      | _ => none

variable [DecidableEq T] {spec : Op → σ → Res × σ} {init : σ → Prop}
  {s : AtomicState T Op Res σ}

theorem atomic_call {t : T} (op : Op) (h : s.phase t = .idle) :
    (atomicMachine spec init).step (.call t op) s = some
      { s with
        phase := Function.update s.phase t (.called op), history := .call t op :: s.history } := by
  simp only [atomicMachine, h]

theorem atomic_commit {t : T} {op : Op} (h : s.phase t = .called op) :
    (atomicMachine spec init).step (.commit t) s = some
      { s with
        value := (spec op s.value).2
        phase := Function.update s.phase t (.done op (spec op s.value).1) } := by
  simp only [atomicMachine, h]

theorem atomic_ret {t : T} {op : Op} {res : Res} (h : s.phase t = .done op res) :
    (atomicMachine spec init).step (.ret t) s = some
      { s with
        phase := Function.update s.phase t .idle, history := .ret t op res :: s.history } := by
  simp only [atomicMachine, h]

end PhsaRuntime
