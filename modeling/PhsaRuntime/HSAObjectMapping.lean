import Mathlib.Data.List.AList
import PhsaRuntime.Lib.Machine

/-!
# Handles and objects

`HSAObjectMapping` keeps a registry from handles to pointers. The handle of an object is its own
address or, for a `GCCBuiltinSignal`, the address of its value, which the destructor returns to
the region before the base class deregisters the object. Every section under the lock of the
registry is one step, and so is every allocation and release, so that the steps of any number
of threads interleave. The allocator may hand out every address that is not in use.

## Main definitions

* `Registry` — the map, with the removal of a value.
* `mappingMachine` — constructions and destructions.
* `Mapping.fromHSAObject`.
-/

namespace PhsaRuntime

/-! ## The registry -/

/-- `Registry`: pointers by handle; 0 is the null pointer. -/
abbrev Registry := AList fun _ : ℕ => ℕ

namespace Registry

/-- The removal of the first entry with the given pointer. -/
def eraseValue (r : Registry) (p : ℕ) : Registry :=
  match r.entries.find? fun entry => entry.2 = p with
  | some entry => r.erase entry.1
  | none => r

variable {r : Registry} {h h' p q : ℕ}

/-- The entries of other pointers stay. -/
theorem lookup_eraseValue_of_ne (hlookup : r.lookup h = some q) (hne : q ≠ p) :
    (r.eraseValue p).lookup h = some q := by
  rw [eraseValue]
  split
  · rename_i entry hfind
    have hvalue : entry.2 = p := by simpa using List.find?_some hfind
    have hentry : r.lookup entry.1 = some entry.2 :=
      AList.mem_lookup_iff.mpr (List.mem_of_find?_eq_some hfind)
    have hkey : h ≠ entry.1 := by
      rintro rfl
      rw [hlookup] at hentry
      exact hne ((Option.some.inj hentry).trans hvalue)
    rwa [AList.lookup_erase_ne hkey]
  · exact hlookup

theorem lookup_of_eraseValue (hlookup : (r.eraseValue p).lookup h = some q) :
    r.lookup h = some q := by
  rw [eraseValue] at hlookup
  split at hlookup
  · rename_i entry _
    by_cases hkey : h = entry.1
    · rw [hkey, AList.lookup_erase] at hlookup
      cases hlookup
    · rwa [AList.lookup_erase_ne hkey] at hlookup
  · exact hlookup

/-- A pointer with one entry is gone. -/
theorem lookup_eraseValue_ne (hunique : ∀ h h', r.lookup h = some p → r.lookup h' = some p → h = h')
    (hlookup : (r.eraseValue p).lookup h = some q) : q ≠ p := by
  rintro rfl
  have hold := lookup_of_eraseValue hlookup
  rw [eraseValue] at hlookup
  split at hlookup
  · rename_i entry hfind
    have hvalue : entry.2 = q := by simpa using List.find?_some hfind
    have hentry : r.lookup entry.1 = some q :=
      hvalue ▸ AList.mem_lookup_iff.mpr (List.mem_of_find?_eq_some hfind)
    rw [hunique h entry.1 hold hentry, AList.lookup_erase] at hlookup
    cases hlookup
  · rename_i hfind
    have hmem : (⟨h, q⟩ : Sigma fun _ : ℕ => ℕ) ∈ r.entries := AList.mem_lookup_iff.mp hold
    simpa using List.find?_eq_none.mp hfind _ hmem

end Registry

/-! ## Objects -/

/-- The classes, by where the handle comes from and what the destructor of the derived class
does with it. -/
inductive ObjectKind
  | gccBuiltinSignal
  | dlFinalizedProgram
  /-- Any other class, whose handle is the default one. -/
  | other
  deriving DecidableEq, Repr

/-- How far the construction or the destruction of an object is. -/
inductive Stage
  /-- `operator new` has returned. -/
  | allocated
  /-- The value of the signal is allocated. -/
  | valued
  /-- `registerObject` has returned. -/
  | registered
  /-- The constructor has returned. -/
  | live
  /-- The destructor of the derived class has returned. -/
  | derivedDestroyed
  /-- The destructor of `HSAObjectMapping` has returned. -/
  | destroyed
  deriving DecidableEq, Repr

/-- An object. The handle of a signal is the address of its value, once there is one. -/
structure Object where
  kind : ObjectKind
  stage : Stage
  handle : ℕ
  deriving DecidableEq, Repr

/-- Where an object registers: a signal in its own constructor, any other in that of the base
class. -/
def Object.registersAt (o : Object) : Stage :=
  if o.kind = .gccBuiltinSignal then .valued else .allocated

/-- The registry, the objects by their addresses, and the addresses in use. -/
structure Mapping where
  registry : Registry
  objects : ℕ → Option Object
  inUse : List ℕ

namespace Mapping

/-- `HSAObjectMapping::fromHSAObject`. -/
def fromHSAObject (s : Mapping) (h : ℕ) : ℕ := (s.registry.lookup h).getD 0

/-- The object at `p` changes. -/
def set (s : Mapping) (p : ℕ) (o : Option Object) : Mapping :=
  { s with objects := Function.update s.objects p o }

/-- `~GCCBuiltinSignal` frees the value, and `~DLFinalizedProgram` deregisters its handle. -/
def derivedDestructor (s : Mapping) (o : Object) : Mapping :=
  match o.kind with
  | .gccBuiltinSignal => { s with inUse := s.inUse.erase o.handle }
  | .dlFinalizedProgram => { s with registry := s.registry.erase o.handle }
  | .other => s

end Mapping

/-- The steps of the threads that construct and destroy objects. -/
inductive MappingAction
  /-- `operator new` returns `p`. -/
  | new (kind : ObjectKind) (p : ℕ)
  /-- The region returns `v` for the value of the signal at `p`. -/
  | allocateValue (p v : ℕ)
  /-- `registerObject`. -/
  | register (p : ℕ)
  /-- The constructor returns. -/
  | finish (p : ℕ)
  /-- The destructor of the derived class. -/
  | destroy (p : ℕ)
  /-- `~HSAObjectMapping`. -/
  | deregister (p : ℕ)
  /-- `operator delete`. -/
  | release (p : ℕ)
  /-- `fromHandle`, which makes an entry where there is none. -/
  | fromHandle (h : ℕ)
  deriving DecidableEq, Repr

/-- The registry of one class and everything that has a handle in it. -/
def mappingMachine : Machine Mapping MappingAction where
  init s := s = { registry := ∅, objects := fun _ => none, inUse := [] }
  step
    | .new kind p, s =>
      if p = 0 ∨ p ∈ s.inUse then none
      else
        let handle := if kind = .gccBuiltinSignal then 0 else p
        some { s.set p (some ⟨kind, .allocated, handle⟩) with inUse := p :: s.inUse }
    | .allocateValue p v, s =>
      match s.objects p with
      | some ⟨.gccBuiltinSignal, .allocated, _⟩ =>
        if v = 0 ∨ v ∈ s.inUse then none
        else some { s.set p (some ⟨.gccBuiltinSignal, .valued, v⟩) with inUse := v :: s.inUse }
      | _ => none
    | .register p, s =>
      match s.objects p with
      | some o =>
        if o.stage = o.registersAt then
          some { s.set p (some { o with stage := .registered }) with
            registry := s.registry.insert o.handle p }
        else none
      | none => none
    | .finish p, s =>
      match s.objects p with
      | some ⟨kind, .registered, handle⟩ => some (s.set p (some ⟨kind, .live, handle⟩))
      | _ => none
    | .destroy p, s =>
      match s.objects p with
      | some ⟨kind, .live, handle⟩ =>
        let o := ⟨kind, .derivedDestroyed, handle⟩
        some ((s.set p (some o)).derivedDestructor o)
      | _ => none
    | .deregister p, s =>
      match s.objects p with
      | some ⟨kind, .derivedDestroyed, handle⟩ =>
        some { s.set p (some ⟨kind, .destroyed, handle⟩) with registry := s.registry.eraseValue p }
      | _ => none
    | .release p, s =>
      match s.objects p with
      | some ⟨_, .destroyed, _⟩ => some { s.set p none with inUse := s.inUse.erase p }
      | _ => none
    | .fromHandle h, s =>
      some (if (s.registry.lookup h).isSome then s
        else { s with registry := s.registry.insert h 0 })

end PhsaRuntime
