import PhsaRuntime.Scan

/-!
# The doorbell protocols

What the producers of a queue owe the worker, as conditions on their steps in the state in which
they are taken. The one producer of a SINGLE queue rings increasing indexes; the producers of a
MULTI queue ring their own indexes, in any order.

## Main definitions

* `InSequence` — the one producer of a SINGLE queue.
* `OwnIndex` — the producers of a MULTI queue.
* `RingsOwn`, `Protocol` — the protocol of a queue by its type.
* `InOrder` — one producer of kernel dispatch packets that follows both.
-/

namespace PhsaRuntime

open Queue

/-- One producer: it publishes in index order and rings increasing indexes. -/
def InSequence (s : ScanState) : ScanAction → Prop
  | .producer (.publish i _) => ∀ j < i, s.queue.Published j
  | .producer (.ring i) => ∀ j < s.queue.writeIndex, s.queue.producer j = .rung → j ≤ i
  | _ => True

instance (s : ScanState) : (a : ScanAction) → Decidable (InSequence s a)
  | .producer (.publish i _) => inferInstanceAs (Decidable (∀ j < i, _))
  | .producer (.ring _) => inferInstanceAs (Decidable (∀ j < s.queue.writeIndex, _ → _))
  | .producer .reserve | .producer (.proceed _) | .producer (.fill _ _)
  | .enter | .worker _ => .isTrue trivial

/-- Each producer rings its own index once, and every index that is reserved is a doorbell
value other than that of a doorbell that has never been rung. -/
def OwnIndex (s : ScanState) : ScanAction → Prop
  | .producer .reserve => (s.queue.writeIndex : ℤ) < doorbellMax
  | .producer (.ring i) => s.queue.producer i = .published
  | _ => True

instance (s : ScanState) : (a : ScanAction) → Decidable (OwnIndex s a)
  | .producer .reserve => inferInstanceAs (Decidable (_ < _))
  | .producer (.ring _) => inferInstanceAs (Decidable (_ = _))
  | .producer (.proceed _) | .producer (.fill _ _) | .producer (.publish _ _)
  | .enter | .worker _ => .isTrue trivial

/-- The doorbell protocol of the two queue types. -/
def RingsOwn (cfg : Config) (s : ScanState) (a : ScanAction) : Prop :=
  (cfg.type = .single → InSequence s a) ∧ (cfg.type = .multi → OwnIndex s a)

instance (cfg : Config) (s : ScanState) (a : ScanAction) : Decidable (RingsOwn cfg s a) :=
  inferInstanceAs (Decidable (_ ∧ _))

/-- Every index that is reserved is a doorbell value other than that of a doorbell that has never
been rung. -/
def InRange (s : ScanState) : ScanAction → Prop
  | .producer .reserve => (s.queue.writeIndex : ℤ) < doorbellMax
  | _ => True

instance (s : ScanState) : (a : ScanAction) → Decidable (InRange s a)
  | .producer .reserve => inferInstanceAs (Decidable (_ < _))
  | .producer (.proceed _) | .producer (.fill _ _) | .producer (.publish _ _)
  | .producer (.ring _) | .enter | .worker _ => .isTrue trivial

/-- The doorbell protocol of the two queue types, with indexes that do not reach the initial value
of the doorbell. -/
def Protocol (cfg : Config) (s : ScanState) (a : ScanAction) : Prop :=
  RingsOwn cfg s a ∧ InRange s a

instance (cfg : Config) (s : ScanState) (a : ScanAction) : Decidable (Protocol cfg s a) :=
  inferInstanceAs (Decidable (_ ∧ _))

/-- Only kernel dispatch packets are published. -/
def DispatchOnly : ScanAction → Prop
  | .producer (.publish _ header) => packetType header = packetTypeKernelDispatch
  | _ => True

instance : (a : ScanAction) → Decidable (DispatchOnly a)
  | .producer (.publish _ _) => inferInstanceAs (Decidable (_ = _))
  | .producer .reserve | .producer (.proceed _) | .producer (.fill _ _) | .producer (.ring _)
  | .enter | .worker _ => .isTrue trivial

/-- One producer that rings each of its kernel dispatch packets in order. -/
def InOrder (s : ScanState) (a : ScanAction) : Prop :=
  InSequence s a ∧ OwnIndex s a ∧ DispatchOnly a

instance (s : ScanState) (a : ScanAction) : Decidable (InOrder s a) :=
  inferInstanceAs (Decidable (_ ∧ _ ∧ _))

/-- It meets the protocol of both queue types. -/
theorem InOrder.protocol (cfg : Config) {s : ScanState} {a : ScanAction} (h : InOrder s a) :
    Protocol cfg s a ∧ DispatchOnly a := by
  obtain ⟨hseq, hown, hdispatch⟩ := h
  refine ⟨⟨⟨fun _ => hseq, fun _ => hown⟩, ?_⟩, hdispatch⟩
  cases a with
  | producer p =>
    cases p with
    | reserve => exact hown
    | proceed | fill | publish | ring => trivial
  | enter | worker => trivial

end PhsaRuntime
