import PhsaRuntime.HSAObjectMapping

/-!
# The registry is exact

No two objects own the same address (`Ownership`): an object owns its own memory and, until its
destructor has freed it, the value of a signal. A handle is an address that its object owns
while it is live, so that the registration of another object never hits its entry, even where
that object has been given the freed value of a third one (`EntryInv`).

## Main result

* `registry_exact` — what `fromHSAObject` returns in every reachable state.
-/

namespace PhsaRuntime

open Mapping

/-! ## The steps -/

/-- What each step does. -/
inductive Moves (s : Mapping) : MappingAction → Mapping → Prop
  | new {kind : ObjectKind} {p : ℕ} (hp : p ≠ 0) (hfresh : p ∉ s.inUse) :
      Moves s (.new kind p)
        { s.set p (some ⟨kind, .allocated, if kind = .gccBuiltinSignal then 0 else p⟩) with
          inUse := p :: s.inUse }
  | allocateValue {p v handle : ℕ} (hv : v ≠ 0) (hfresh : v ∉ s.inUse)
      (ho : s.objects p = some ⟨.gccBuiltinSignal, .allocated, handle⟩) :
      Moves s (.allocateValue p v)
        { s.set p (some ⟨.gccBuiltinSignal, .valued, v⟩) with inUse := v :: s.inUse }
  | register {p : ℕ} {o : Object} (ho : s.objects p = some o)
      (hstage : o.stage = o.registersAt) :
      Moves s (.register p)
        { s.set p (some { o with stage := .registered }) with
          registry := s.registry.insert o.handle p }
  | finish {p handle : ℕ} {kind : ObjectKind}
      (ho : s.objects p = some ⟨kind, .registered, handle⟩) :
      Moves s (.finish p) (s.set p (some ⟨kind, .live, handle⟩))
  | destroy {p handle : ℕ} {kind : ObjectKind} (ho : s.objects p = some ⟨kind, .live, handle⟩) :
      Moves s (.destroy p)
        ((s.set p (some ⟨kind, .derivedDestroyed, handle⟩)).derivedDestructor
          ⟨kind, .derivedDestroyed, handle⟩)
  | deregister {p handle : ℕ} {kind : ObjectKind}
      (ho : s.objects p = some ⟨kind, .derivedDestroyed, handle⟩) :
      Moves s (.deregister p)
        { s.set p (some ⟨kind, .destroyed, handle⟩) with registry := s.registry.eraseValue p }
  | release {p handle : ℕ} {kind : ObjectKind}
      (ho : s.objects p = some ⟨kind, .destroyed, handle⟩) :
      Moves s (.release p) { s.set p none with inUse := s.inUse.erase p }
  | fromHandle_found {h : ℕ} (hfound : (s.registry.lookup h).isSome) : Moves s (.fromHandle h) s
  | fromHandle_missing {h : ℕ} (hmissing : s.registry.lookup h = none) :
      Moves s (.fromHandle h) { s with registry := s.registry.insert h 0 }

variable {s s' : Mapping} {a : MappingAction} {p q h : ℕ} {o o' : Object}

theorem moves_of_step (hs : mappingMachine.step a s = some s') : Moves s a s' := by
  cases a with
  | new kind p =>
    simp only [mappingMachine] at hs
    split at hs
    · cases hs
    · rename_i hfresh
      rw [not_or] at hfresh
      cases hs
      exact .new hfresh.1 hfresh.2
  | allocateValue p v =>
    simp only [mappingMachine] at hs
    split at hs
    · split at hs
      · cases hs
      · rename_i ho hfresh
        rw [not_or] at hfresh
        cases hs
        exact .allocateValue hfresh.1 hfresh.2 ho
    · cases hs
  | register p =>
    simp only [mappingMachine] at hs
    split at hs
    · split at hs
      · rename_i ho hstage
        cases hs
        exact .register ho hstage
      · cases hs
    · cases hs
  | finish p =>
    simp only [mappingMachine] at hs
    split at hs
    · rename_i ho
      cases hs
      exact .finish ho
    · cases hs
  | destroy p =>
    simp only [mappingMachine] at hs
    split at hs
    · rename_i ho
      cases hs
      exact .destroy ho
    · cases hs
  | deregister p =>
    simp only [mappingMachine] at hs
    split at hs
    · rename_i ho
      cases hs
      exact .deregister ho
    · cases hs
  | release p =>
    simp only [mappingMachine] at hs
    split at hs
    · rename_i ho
      cases hs
      exact .release ho
    · cases hs
  | fromHandle h =>
    simp only [mappingMachine, Option.some.injEq] at hs
    split at hs
    · rename_i hfound
      exact hs ▸ .fromHandle_found hfound
    · rename_i hmissing
      exact hs ▸ .fromHandle_missing (Option.not_isSome_iff_eq_none.mp hmissing)

/-! ## Who owns an address -/

/-- The value of the signal is allocated. -/
def Object.HasValue (o : Object) : Prop :=
  o.kind = .gccBuiltinSignal ∧ (o.stage = .valued ∨ o.stage = .registered ∨ o.stage = .live)

/-- The object at `p` owns the address. -/
def Object.Owns (o : Object) (p a : ℕ) : Prop := a = p ∨ o.HasValue ∧ a = o.handle

/-- Memory is in use by one object. -/
structure Ownership (s : Mapping) : Prop where
  nonzero : ∀ p o, s.objects p = some o → p ≠ 0
  inUse : ∀ p o a, s.objects p = some o → o.Owns p a → a ∈ s.inUse
  disjoint : ∀ a p p' o o', s.objects p = some o → s.objects p' = some o' →
    o.Owns p a → o'.Owns p' a → p = p'
  default : ∀ p o, s.objects p = some o → o.kind ≠ .gccBuiltinSignal → o.handle = p
  value_ne : ∀ p o, s.objects p = some o → o.HasValue → o.handle ≠ p

/-- A change of the object at `p` that claims addresses only that were free and frees those only
that were its own. -/
theorem Ownership.change (hown : Ownership s) {q : Option Object}
    (hobjects : s'.objects = Function.update s.objects p q)
    (hp : p ≠ 0)
    (hclaim : ∀ o', q = some o' → ∀ a, o'.Owns p a → a ∈ s'.inUse ∧
      (a ∉ s.inUse ∨ ∃ o, s.objects p = some o ∧ o.Owns p a))
    (hkeep : ∀ a ∈ s.inUse, a ∈ s'.inUse ∨ ∃ o, s.objects p = some o ∧ o.Owns p a)
    (hdefault : ∀ o', q = some o' → o'.kind ≠ .gccBuiltinSignal → o'.handle = p)
    (hvalue : ∀ o', q = some o' → o'.HasValue → o'.handle ≠ p) : Ownership s' := by
  have hother : ∀ p', p' ≠ p → s'.objects p' = s.objects p' := by
    intro p' hne
    rw [hobjects, Function.update_of_ne hne]
  have hself : s'.objects p = q := by rw [hobjects, Function.update_self]
  -- an address of another object is none that the object at `p` claims
  have hapart : ∀ a p' o o', p' ≠ p → s.objects p' = some o → q = some o' →
      o.Owns p' a → ¬ o'.Owns p a := by
    intro a p' o o' hne ho hq howns howns'
    rcases (hclaim o' hq a howns').2 with hfree | ⟨old, hold, howns''⟩
    · exact hfree (hown.inUse p' o a ho howns)
    · exact hne (hown.disjoint a p' p o old ho hold howns howns'')
  refine ⟨?_, ?_, ?_, ?_, ?_⟩
  · intro p' o ho
    by_cases hne : p' = p
    · exact hne ▸ hp
    · exact hown.nonzero p' o (hother p' hne ▸ ho)
  · intro p' o a ho howns
    by_cases hne : p' = p
    · subst hne
      exact (hclaim o (hself ▸ ho) a howns).1
    · rw [hother p' hne] at ho
      rcases hkeep a (hown.inUse p' o a ho howns) with hin | ⟨old, hold, howns'⟩
      · exact hin
      · exact absurd (hown.disjoint a p' p o old ho hold howns howns') hne
  · intro a p₁ p₂ o₁ o₂ ho₁ ho₂ h₁ h₂
    by_cases hne₁ : p₁ = p
    · by_cases hne₂ : p₂ = p
      · rw [hne₁, hne₂]
      · subst hne₁
        rw [hother p₂ hne₂] at ho₂
        exact absurd h₁ (hapart a p₂ o₂ o₁ hne₂ ho₂ (hself ▸ ho₁) h₂)
    · rw [hother p₁ hne₁] at ho₁
      by_cases hne₂ : p₂ = p
      · subst hne₂
        exact absurd h₂ (hapart a p₁ o₁ o₂ hne₁ ho₁ (hself ▸ ho₂) h₁)
      · rw [hother p₂ hne₂] at ho₂
        exact hown.disjoint a p₁ p₂ o₁ o₂ ho₁ ho₂ h₁ h₂
  · intro p' o ho hkind
    by_cases hne : p' = p
    · subst hne
      exact hdefault o (hself ▸ ho) hkind
    · exact hown.default p' o (hother p' hne ▸ ho) hkind
  · intro p' o ho hhas
    by_cases hne : p' = p
    · subst hne
      exact hvalue o (hself ▸ ho) hhas
    · exact hown.value_ne p' o (hother p' hne ▸ ho) hhas

/-- An object that goes on without claiming an address. -/
theorem Ownership.advance (hown : Ownership s) (ho : s.objects p = some o)
    (hobjects : s'.objects = Function.update s.objects p (some o'))
    (hinUse : s'.inUse = s.inUse) (hkind : o'.kind = o.kind) (hhandle : o'.handle = o.handle)
    (hvalue : o'.HasValue → o.HasValue) : Ownership s' := by
  have howns : ∀ a, o'.Owns p a → o.Owns p a := by
    rintro a (rfl | ⟨hhas, rfl⟩)
    · exact .inl rfl
    · exact .inr ⟨hvalue hhas, hhandle⟩
  refine hown.change hobjects (hown.nonzero p o ho) ?_ ?_ ?_ ?_
  · rintro _ ⟨⟩ a h
    rw [hinUse]
    exact ⟨hown.inUse p o a ho (howns a h), .inr ⟨o, ho, howns a h⟩⟩
  · intro a ha
    exact .inl (hinUse ▸ ha)
  · rintro _ ⟨⟩ h
    rw [hhandle]
    exact hown.default p o ho (hkind ▸ h)
  · rintro _ ⟨⟩ h
    rw [hhandle]
    exact hown.value_ne p o ho (hvalue h)

theorem Ownership.new {kind : ObjectKind} (hown : Ownership s) (hp : p ≠ 0)
    (hfresh : p ∉ s.inUse) :
    Ownership { s.set p (some ⟨kind, .allocated, if kind = .gccBuiltinSignal then 0 else p⟩) with
      inUse := p :: s.inUse } := by
  refine hown.change rfl hp ?_ ?_ ?_ ?_
  · rintro _ ⟨⟩ a (rfl | ⟨⟨-, hstage⟩, -⟩)
    · exact ⟨List.mem_cons_self, .inl hfresh⟩
    · simp at hstage
  · intro a ha
    exact .inl (List.mem_cons_of_mem p ha)
  · rintro _ ⟨⟩ hkind
    exact if_neg hkind
  · rintro _ ⟨⟩ ⟨-, hstage⟩
    simp at hstage

/-- The value of a signal is an address of its own. -/
theorem Ownership.allocateValue {v handle : ℕ} (hown : Ownership s) (hfresh : v ∉ s.inUse)
    (ho : s.objects p = some ⟨.gccBuiltinSignal, .allocated, handle⟩) :
    Ownership { s.set p (some ⟨.gccBuiltinSignal, .valued, v⟩) with inUse := v :: s.inUse } := by
  have hin : p ∈ s.inUse := hown.inUse p _ p ho (.inl rfl)
  refine hown.change rfl (hown.nonzero p _ ho) ?_ ?_ ?_ ?_
  · rintro _ ⟨⟩ a (rfl | ⟨-, rfl⟩)
    · exact ⟨List.mem_cons_of_mem v hin, .inr ⟨_, ho, .inl rfl⟩⟩
    · exact ⟨List.mem_cons_self, .inl hfresh⟩
  · intro a ha
    exact .inl (List.mem_cons_of_mem v ha)
  · rintro _ ⟨⟩ hkind
    exact absurd rfl hkind
  · rintro _ ⟨⟩ - rfl
    exact hfresh hin

/-- The destructor of a signal gives its value back and keeps the object. -/
theorem Ownership.destroyValue {handle : ℕ} (hown : Ownership s)
    (ho : s.objects p = some ⟨.gccBuiltinSignal, .live, handle⟩) :
    Ownership ((s.set p (some ⟨.gccBuiltinSignal, .derivedDestroyed, handle⟩)).derivedDestructor
      ⟨.gccBuiltinSignal, .derivedDestroyed, handle⟩) := by
  have hhas : Object.HasValue ⟨.gccBuiltinSignal, .live, handle⟩ := ⟨rfl, .inr (.inr rfl)⟩
  have hne : p ≠ handle := (hown.value_ne p _ ho hhas).symm
  refine hown.change rfl (hown.nonzero p _ ho) ?_ ?_ ?_ ?_
  · rintro _ ⟨⟩ a (rfl | ⟨⟨-, hstage⟩, -⟩)
    · have hin := hown.inUse a _ a ho (.inl rfl)
      exact ⟨(List.mem_erase_of_ne hne).mpr hin, .inr ⟨_, ho, .inl rfl⟩⟩
    · simp at hstage
  · intro a ha
    by_cases hvalue : a = handle
    · exact .inr ⟨_, ho, .inr ⟨hhas, hvalue⟩⟩
    · exact .inl ((List.mem_erase_of_ne hvalue).mpr ha)
  · rintro _ ⟨⟩ hkind
    exact absurd rfl hkind
  · rintro _ ⟨⟩ ⟨-, hstage⟩
    simp at hstage

theorem Ownership.release (hown : Ownership s) (ho : s.objects p = some o) :
    Ownership { s.set p none with inUse := s.inUse.erase p } := by
  refine hown.change rfl (hown.nonzero p _ ho) ?_ ?_ ?_ ?_
  · rintro _ ⟨⟩
  · intro a ha
    by_cases hself : a = p
    · exact .inr ⟨_, ho, .inl hself⟩
    · exact .inl ((List.mem_erase_of_ne hself).mpr ha)
  · rintro _ ⟨⟩
  · rintro _ ⟨⟩

theorem Ownership.moves (hown : Ownership s) (hm : Moves s a s') : Ownership s' := by
  cases hm with
  | new hp hfresh => exact hown.new hp hfresh
  | allocateValue _ hfresh ho => exact hown.allocateValue hfresh ho
  | @register p o ho hstage =>
    refine hown.advance ho rfl rfl rfl rfl ?_
    rintro ⟨hkind, -⟩
    refine ⟨hkind, .inl ?_⟩
    rw [hstage, Object.registersAt, if_pos hkind]
  | finish ho =>
    refine hown.advance ho rfl rfl rfl rfl ?_
    rintro ⟨hkind, -⟩
    exact ⟨hkind, .inr (.inl rfl)⟩
  | @destroy p handle kind ho =>
    cases kind with
    | gccBuiltinSignal => exact hown.destroyValue ho
    | dlFinalizedProgram | other =>
      refine hown.advance ho rfl rfl rfl rfl ?_
      rintro ⟨hkind, -⟩
      cases hkind
  | deregister ho =>
    refine hown.advance ho rfl rfl rfl rfl ?_
    rintro ⟨-, hstage⟩
    simp at hstage
  | release ho => exact hown.release ho
  | fromHandle_found _ => exact hown
  | fromHandle_missing _ =>
    exact ⟨hown.nonzero, hown.inUse, hown.disjoint, hown.default, hown.value_ne⟩

/-! ## The entries -/

/-- The object may have an entry: it has registered, and its last destructor has not returned. -/
def Object.Entered (o : Object) : Prop :=
  o.stage = .registered ∨ o.stage = .live ∨ o.stage = .derivedDestroyed

/-- The object has its entry: it has registered, and its destruction has not begun. -/
def Object.Standing (o : Object) : Prop := o.stage = .registered ∨ o.stage = .live

/-- Every pointer in the registry is that of an object with this handle, and every object that
has registered is found until its destruction. -/
structure EntryInv (s : Mapping) : Prop where
  sound : ∀ h p, s.registry.lookup h = some p → p ≠ 0 →
    ∃ o, s.objects p = some o ∧ o.handle = h ∧ o.Entered
  complete : ∀ p o, s.objects p = some o → o.Standing → s.registry.lookup o.handle = some p

/-- A standing object owns its handle. -/
theorem Ownership.owns_handle (hown : Ownership s) (ho : s.objects p = some o)
    (hstage : o.Standing) : o.Owns p o.handle := by
  by_cases hkind : o.kind = .gccBuiltinSignal
  · exact .inr ⟨⟨hkind, .inr hstage⟩, rfl⟩
  · exact .inl (hown.default p o ho hkind)

/-- Standing objects have different handles. -/
theorem Ownership.handle_ne (hown : Ownership s) {a : ℕ} (ho : s.objects p = some o)
    (ho' : s.objects q = some o') (hne : q ≠ p) (hstage : o.Standing) (howns : o'.Owns q a) :
    o.handle ≠ a := by
  rintro rfl
  exact hne (hown.disjoint _ q p o' o ho' ho howns (hown.owns_handle ho hstage))

/-- A change of the object at `p` and of its entry. -/
theorem EntryInv.change (hent : EntryInv s) {q : Option Object}
    (hobjects : s'.objects = Function.update s.objects p q)
    (hothers : ∀ h p', p' ≠ p → s'.registry.lookup h = some p' → s.registry.lookup h = some p')
    (hself : ∀ h, s'.registry.lookup h = some p → ∃ o', q = some o' ∧ o'.handle = h ∧ o'.Entered)
    (hkeep : ∀ p' o, p' ≠ p → s.objects p' = some o → o.Standing →
      s.registry.lookup o.handle = some p' → s'.registry.lookup o.handle = some p')
    (hstanding : ∀ o', q = some o' → o'.Standing → s'.registry.lookup o'.handle = some p) :
    EntryInv s' := by
  constructor
  · intro h p' hlookup hp'
    by_cases hne : p' = p
    · subst hne
      rw [hobjects, Function.update_self]
      exact hself h hlookup
    · rw [hobjects, Function.update_of_ne hne]
      exact hent.sound h p' (hothers h p' hne hlookup) hp'
  · intro p' o ho hstage
    by_cases hne : p' = p
    · subst hne
      rw [hobjects, Function.update_self] at ho
      exact hstanding o ho hstage
    · rw [hobjects, Function.update_of_ne hne] at ho
      exact hkeep p' o hne ho hstage (hent.complete p' o ho hstage)

/-- The entries of an object are under its handle. -/
theorem EntryInv.of_lookup (hown : Ownership s) (hent : EntryInv s) (ho : s.objects p = some o)
    (hlookup : s.registry.lookup h = some p) : o.handle = h ∧ o.Entered := by
  obtain ⟨o', ho', hhandle⟩ := hent.sound h p hlookup (hown.nonzero p o ho)
  rw [ho] at ho'
  cases ho'
  exact hhandle

/-- A step of an object that leaves the registry as it is. -/
theorem EntryInv.advance (hown : Ownership s) (hent : EntryInv s) (ho : s.objects p = some o)
    (hobjects : s'.objects = Function.update s.objects p (some o'))
    (hregistry : s'.registry = s.registry) (hhandle : o'.handle = o.handle)
    (hentered : o.Entered → o'.Entered) (hstanding : o'.Standing → o.Standing) : EntryInv s' := by
  refine hent.change hobjects ?_ ?_ ?_ ?_
  · intro h p' _ hlookup
    exact hregistry ▸ hlookup
  · intro h hlookup
    obtain ⟨hold, hstage⟩ := hent.of_lookup hown ho (hregistry ▸ hlookup)
    exact ⟨o', rfl, hhandle.trans hold, hentered hstage⟩
  · intro p' o _ _ _ hlookup
    exact hregistry ▸ hlookup
  · rintro _ ⟨⟩ hstage
    rw [hregistry, hhandle]
    exact hent.complete p o ho (hstanding hstage)

/-- The registration: no standing object has the handle. -/
theorem EntryInv.register (hown : Ownership s) (hent : EntryInv s) (ho : s.objects p = some o)
    (hstage : o.stage = o.registersAt) :
    EntryInv { s.set p (some { o with stage := .registered }) with
      registry := s.registry.insert o.handle p } := by
  have howns : o.Owns p o.handle := by
    by_cases hkind : o.kind = .gccBuiltinSignal
    · rw [Object.registersAt, if_pos hkind] at hstage
      exact .inr ⟨⟨hkind, .inl hstage⟩, rfl⟩
    · exact .inl (hown.default p o ho hkind)
  have hnot : ¬ o.Entered := by
    rw [Object.Entered, hstage, Object.registersAt]
    split <;> simp
  refine hent.change rfl ?_ ?_ ?_ ?_
  · intro h p' hne hlookup
    by_cases hkey : h = o.handle
    · subst hkey
      rw [AList.lookup_insert] at hlookup
      exact absurd (Option.some.inj hlookup).symm hne
    · rwa [AList.lookup_insert_ne hkey] at hlookup
  · intro h hlookup
    by_cases hkey : h = o.handle
    · exact ⟨_, rfl, hkey.symm, .inl rfl⟩
    · rw [AList.lookup_insert_ne hkey] at hlookup
      exact absurd (hent.of_lookup hown ho hlookup).2 hnot
  · intro p' o' hne ho' hstanding hlookup
    have hkey : o'.handle ≠ o.handle := hown.handle_ne ho' ho hne.symm hstanding howns
    rw [AList.lookup_insert_ne hkey]
    exact hlookup
  · rintro _ ⟨⟩ -
    exact AList.lookup_insert ..

/-- The deregistration by the handle: no other standing object has it. -/
theorem EntryInv.eraseHandle (hown : Ownership s) (hent : EntryInv s) (ho : s.objects p = some o)
    (hlive : o.Standing) (hobjects : s'.objects = Function.update s.objects p (some o'))
    (hregistry : s'.registry = s.registry.erase o.handle) (hhandle : o'.handle = o.handle)
    (hstage : o'.stage = .derivedDestroyed) : EntryInv s' := by
  have hold : ∀ h p', s'.registry.lookup h = some p' → s.registry.lookup h = some p' := by
    intro h p' hlookup
    rw [hregistry] at hlookup
    by_cases hkey : h = o.handle
    · rw [hkey, AList.lookup_erase] at hlookup
      cases hlookup
    · rwa [AList.lookup_erase_ne hkey] at hlookup
  refine hent.change hobjects (fun h p' _ => hold h p') ?_ ?_ ?_
  · intro h hlookup
    obtain ⟨hh, -⟩ := hent.of_lookup hown ho (hold h p hlookup)
    exact ⟨o', rfl, hhandle.trans hh, .inr (.inr hstage)⟩
  · intro p' o₂ hne ho₂ hstanding hlookup
    have hkey : o₂.handle ≠ o.handle :=
      hown.handle_ne ho₂ ho hne.symm hstanding (hown.owns_handle ho hlive)
    rw [hregistry, AList.lookup_erase_ne hkey]
    exact hlookup
  · rintro _ ⟨⟩ hstanding
    rw [Object.Standing, hstage] at hstanding
    simp at hstanding

/-- The deregistration by the pointer: the object has no other entry. -/
theorem EntryInv.eraseValue (hown : Ownership s) (hent : EntryInv s) (ho : s.objects p = some o)
    (hobjects : s'.objects = Function.update s.objects p (some o'))
    (hregistry : s'.registry = s.registry.eraseValue p) (hstage : ¬ o'.Standing) :
    EntryInv s' := by
  have hunique : ∀ h h', s.registry.lookup h = some p → s.registry.lookup h' = some p →
      h = h' := by
    intro h h' hlookup hlookup'
    exact (hent.of_lookup hown ho hlookup).1.symm.trans (hent.of_lookup hown ho hlookup').1
  refine hent.change hobjects ?_ ?_ ?_ ?_
  · intro h p' _ hlookup
    exact Registry.lookup_of_eraseValue (hregistry ▸ hlookup)
  · intro h hlookup
    exact absurd rfl (Registry.lookup_eraseValue_ne hunique (hregistry ▸ hlookup))
  · intro p' o₂ hne _ _ hlookup
    rw [hregistry]
    exact Registry.lookup_eraseValue_of_ne hlookup hne
  · rintro _ ⟨⟩ hstanding
    exact absurd hstanding hstage

/-- A step of an object without an entry that leaves the registry as it is. -/
theorem EntryInv.outside (hent : EntryInv s) {q : Option Object}
    (hobjects : s'.objects = Function.update s.objects p q)
    (hregistry : s'.registry = s.registry) (hnone : ∀ h, s.registry.lookup h ≠ some p)
    (hstage : ∀ o', q = some o' → ¬ o'.Standing) : EntryInv s' := by
  refine hent.change hobjects ?_ ?_ ?_ ?_
  · intro h p' _ hlookup
    exact hregistry ▸ hlookup
  · intro h hlookup
    exact absurd (hregistry ▸ hlookup) (hnone h)
  · intro p' o _ _ _ hlookup
    exact hregistry ▸ hlookup
  · intro o' hq hstanding
    exact absurd hstanding (hstage o' hq)

theorem EntryInv.moves (hown : Ownership s) (hent : EntryInv s) (hm : Moves s a s') :
    EntryInv s' := by
  cases hm with
  | @new kind p hp hfresh =>
    refine hent.outside rfl rfl ?_ ?_
    · intro h hlookup
      obtain ⟨o, ho, -⟩ := hent.sound h p hlookup hp
      exact hfresh (hown.inUse p o p ho (.inl rfl))
    · rintro _ ⟨⟩
      simp [Object.Standing]
  | @allocateValue p v handle hv hfresh ho =>
    refine hent.outside rfl rfl ?_ ?_
    · intro h hlookup
      have hentered := (hent.of_lookup hown ho hlookup).2
      simp [Object.Entered] at hentered
    · rintro _ ⟨⟩
      simp [Object.Standing]
  | register ho hstage => exact hent.register hown ho hstage
  | finish ho =>
    exact hent.advance hown ho rfl rfl rfl (fun _ => .inr (.inl rfl)) fun _ => .inl rfl
  | @destroy p handle kind ho =>
    cases kind with
    | gccBuiltinSignal =>
      refine hent.advance hown ho rfl rfl rfl (fun _ => .inr (.inr rfl)) ?_
      simp [Object.Standing]
    | dlFinalizedProgram => exact hent.eraseHandle hown ho (.inr rfl) rfl rfl rfl rfl
    | other =>
      refine hent.advance hown ho rfl rfl rfl (fun _ => .inr (.inr rfl)) ?_
      simp [Object.Standing]
  | deregister ho =>
    apply hent.eraseValue hown ho rfl rfl
    simp [Object.Standing]
  | @release p handle kind ho =>
    refine hent.outside rfl rfl ?_ ?_
    · intro h hlookup
      have hentered := (hent.of_lookup hown ho hlookup).2
      simp [Object.Entered] at hentered
    · rintro _ ⟨⟩
  | fromHandle_found _ => exact hent
  | @fromHandle_missing h hmissing =>
    constructor
    · intro h' p hlookup hp
      by_cases hkey : h' = h
      · subst hkey
        rw [AList.lookup_insert] at hlookup
        exact absurd (Option.some.inj hlookup).symm hp
      · rw [AList.lookup_insert_ne hkey] at hlookup
        exact hent.sound h' p hlookup hp
    · intro p o ho hstage
      have hlookup := hent.complete p o ho hstage
      have hkey : o.handle ≠ h := by
        rintro rfl
        rw [hmissing] at hlookup
        cases hlookup
      change (s.registry.insert h 0).lookup o.handle = some p
      rw [AList.lookup_insert_ne hkey]
      exact hlookup

theorem entries_of_reachable (hr : mappingMachine.Reachable Machine.always s) :
    Ownership s ∧ EntryInv s := by
  refine hr.induction (P := fun s => Ownership s ∧ EntryInv s) ?_ ?_
  · rintro _ rfl
    refine ⟨⟨?_, ?_, ?_, ?_, ?_⟩, ⟨?_, ?_⟩⟩ <;> simp
  · rintro s a s' - - hs ⟨hown, hent⟩
    have hm := moves_of_step hs
    exact ⟨hown.moves hm, hent.moves hown hm⟩

/-! ## Exactness -/

/-- A step of the destruction of the object at `p`. -/
def MappingAction.Destroys (a : MappingAction) (p : ℕ) : Prop :=
  a = .destroy p ∨ a = .deregister p ∨ a = .release p

/-- A destruction leaves the entries of other objects as they are. -/
theorem EntryInv.frame (hent : EntryInv s) (hdestroys : a.Destroys p)
    (hm : Moves s a s') (hne : q ≠ p) :
    s.registry.lookup h = some q ↔ s'.registry.lookup h = some q := by
  obtain rfl | rfl | rfl := hdestroys
  · cases hm with
    | @destroy _ handle kind ho =>
      cases kind with
      | gccBuiltinSignal => rfl
      | other => rfl
      | dlFinalizedProgram =>
        change _ ↔ (s.registry.erase handle).lookup h = some q
        by_cases hkey : h = handle
        · have hentry : s.registry.lookup handle = some p := hent.complete p _ ho (.inr rfl)
          rw [hkey, hentry, AList.lookup_erase]
          simp [hne.symm]
        · rw [AList.lookup_erase_ne hkey]
  · cases hm with
    | deregister _ =>
      constructor
      · intro hlookup
        exact Registry.lookup_eraseValue_of_ne hlookup hne
      · intro hlookup
        exact Registry.lookup_of_eraseValue hlookup
  · cases hm with
    | release _ => rfl

/-- **Registry exactness.** In every reachable state `fromHSAObject` finds every live object
under its handle, which no other live object has; it returns no other pointer than that of an
object with this handle whose destruction has not finished; and the steps of a destruction
neither remove nor redirect the entry of another object. -/
theorem registry_exact (hr : mappingMachine.Reachable Machine.always s) :
    (∀ p o, s.objects p = some o → o.stage = .live →
      s.fromHSAObject o.handle = p ∧
      ∀ p' o', s.objects p' = some o' → o'.stage = .live → o'.handle = o.handle → p' = p) ∧
    (∀ h, s.fromHSAObject h ≠ 0 → ∃ o, s.objects (s.fromHSAObject h) = some o ∧ o.handle = h ∧
      o.stage ≠ .destroyed) ∧
    ∀ p a s', a.Destroys p → mappingMachine.step a s = some s' → ∀ h q, q ≠ p →
      (s.registry.lookup h = some q ↔ s'.registry.lookup h = some q) := by
  obtain ⟨hown, hent⟩ := entries_of_reachable hr
  refine ⟨?_, ?_, ?_⟩
  · intro p o ho hlive
    have hlookup := hent.complete p o ho (.inr hlive)
    constructor
    · rw [fromHSAObject, hlookup, Option.getD_some]
    · intro p' o' ho' hlive' hhandle
      have hlookup' := hent.complete p' o' ho' (.inr hlive')
      rw [hhandle, hlookup] at hlookup'
      exact (Option.some.inj hlookup').symm
  · intro h hne
    cases hlookup : s.registry.lookup h with
    | none => simp [fromHSAObject, hlookup] at hne
    | some p =>
      have hp : s.fromHSAObject h = p := by rw [fromHSAObject, hlookup, Option.getD_some]
      rw [hp] at hne ⊢
      obtain ⟨o, ho, hhandle, hentered⟩ := hent.sound h p hlookup hne
      refine ⟨o, ho, hhandle, ?_⟩
      intro hstage
      simp [Object.Entered, hstage] at hentered
  · intro p a s' hdestroys hs h q hne
    exact hent.frame hdestroys (moves_of_step hs) hne

/-- A signal at 16 with its value at 32 is being destroyed when a signal at 48 gets the value's
address and registers; then the first destruction is finished. -/
theorem registry_exact_reused : ∃ s, mappingMachine.Reachable Machine.always s ∧
    (s.objects 16 = none ∧ s.objects 48 = some ⟨.gccBuiltinSignal, .live, 32⟩) ∧
    s.fromHSAObject 32 = 48 := by
  obtain ⟨s, hr, hs⟩ := mappingMachine.exists_reachable_of_run Machine.always
    [.new .gccBuiltinSignal 16, .allocateValue 16 32, .register 16, .finish 16, .destroy 16,
      .new .gccBuiltinSignal 48, .allocateValue 48 32, .register 48, .finish 48,
      .deregister 16, .release 16]
    (fun s => s.objects 16 = none ∧ s.objects 48 = some ⟨.gccBuiltinSignal, .live, 32⟩) rfl
    (by decide)
  have hobjects : s.objects 16 = none ∧ s.objects 48 = some ⟨.gccBuiltinSignal, .live, 32⟩ := by
    simpa using hs
  obtain ⟨hlive, -⟩ := registry_exact hr
  exact ⟨s, hr, hobjects, (hlive 48 _ hobjects.2 rfl).1⟩

end PhsaRuntime
