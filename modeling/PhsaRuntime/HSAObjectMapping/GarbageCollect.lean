import Mathlib.Data.Finset.Dedup
import PhsaRuntime.HSAObjectMapping.Exactness
import PhsaRuntime.Lib.Loop

/-!
# The garbage collection of a registry

`garbageCollect` deletes the object of the first entry until there is no entry. The loop has no
counter: it ends because a deletion takes the entry of its object away, and no other entry. The
deletion of a null pointer does nothing, so that an entry for a null pointer, which `fromHandle`
makes for a handle that is not in the registry, is never taken away.

## Main results

* `garbageCollect_hangs_iff` — the states in which the collection does not end.
* `mapping_undisturbed_iff` — the runs whose lookups leave the entries as they are, and in all of
  whose states the collection deletes every object once.
-/

namespace PhsaRuntime

open Mapping

/-! ## The collection -/

/-- `begin()` of the registry, whose order is up to the hash function: an entry, if there is
one. -/
structure Begin where
  entry : Registry → Option (Sigma fun _ : ℕ => ℕ)
  mem : ∀ r x, entry r = some x → x ∈ r.entries
  eq_none_iff : ∀ r, entry r = none ↔ r = ∅

/-- `delete` does nothing for a null pointer, and is not defined for a pointer that is not one to
a live object. -/
def Mapping.delete (s : Mapping) (p : ℕ) : Option Mapping :=
  if p = 0 then some s
  else (mappingMachine.step (.destroy p) s).bind fun s =>
    (mappingMachine.step (.deregister p) s).bind (mappingMachine.step (.release p))

/-- The loop of `garbageCollect`: the registry and the pointers that are deleted, in their order;
`none` after a deletion that is not defined. -/
def collectLoop (first : Begin) : Loop (Option (Mapping × List ℕ)) where
  cond c := c.any fun c => (first.entry c.1.registry).isSome
  body c := c.bind fun c => (first.entry c.1.registry).bind fun x =>
    (c.1.delete x.2).map fun s => (s, c.2 ++ [x.2])

/-- `garbageCollect`, with at most `n` iterations: `none` if the loop has not ended. -/
def garbageCollect (first : Begin) (n : ℕ) (s : Mapping) : Option (Option (Mapping × List ℕ)) :=
  ((collectLoop first).run n (some (s, []))).map fun c =>
    c.map fun c => ({ c.1 with registry := ∅ }, c.2)

/-- No construction and no destruction is going on. -/
def Quiescent (s : Mapping) : Prop := ∀ p o, s.objects p = some o → o.stage = .live

/-- No entry is for a null pointer. -/
def NoNull (s : Mapping) : Prop := ∀ h, s.registry.lookup h ≠ some 0

/-- The collection ends, has deleted every object once, and leaves the registry empty. -/
def Collects (first : Begin) (s : Mapping) : Prop :=
  ∃ n s' deleted, garbageCollect first n s = some (some (s', deleted)) ∧ s'.registry = ∅ ∧
    deleted.Nodup ∧ ∀ p, p ∈ deleted ↔ ∃ o, s.objects p = some o

/-! ## A deletion -/

theorem Registry.lookup_eraseValue_iff {r : Registry} {h p q : ℕ}
    (hunique : ∀ h h', r.lookup h = some p → r.lookup h' = some p → h = h') :
    (r.eraseValue p).lookup h = some q ↔ r.lookup h = some q ∧ q ≠ p := by
  constructor
  · intro hlookup
    exact ⟨lookup_of_eraseValue hlookup, lookup_eraseValue_ne hunique hlookup⟩
  · rintro ⟨hlookup, hne⟩
    exact lookup_eraseValue_of_ne hlookup hne

variable {s s' : Mapping} {first : Begin} {h p n : ℕ} {o : Object}

/-- The registry after the two destructors of an object. -/
theorem lookup_destructors_iff (hown : Ownership s) (hent : EntryInv s)
    (ho : s.objects p = some o) (hlive : o.stage = .live) {h' q : ℕ} :
    ((s.derivedDestructor o).registry.eraseValue p).lookup h' = some q ↔
      s.registry.lookup h' = some q ∧ q ≠ p := by
  have hunique : ∀ h h', s.registry.lookup h = some p → s.registry.lookup h' = some p →
      h = h' := by
    intro h h' hlookup hlookup'
    exact (hent.of_lookup hown ho hlookup).1.symm.trans (hent.of_lookup hown ho hlookup').1
  obtain ⟨kind, stage, handle⟩ := o
  cases kind with
  | gccBuiltinSignal => exact Registry.lookup_eraseValue_iff hunique
  | other => exact Registry.lookup_eraseValue_iff hunique
  | dlFinalizedProgram =>
    -- The entry is gone by its handle, and the search for the pointer finds nothing.
    have hentry : s.registry.lookup handle = some p := hent.complete p _ ho (.inr hlive)
    have herase : ∀ h q, (s.registry.erase handle).lookup h = some q ↔
        s.registry.lookup h = some q ∧ h ≠ handle := by
      intro h q
      by_cases hkey : h = handle
      · rw [hkey, AList.lookup_erase]
        simp
      · simp [hkey, AList.lookup_erase_ne hkey]
    have hunique' : ∀ h h', (s.registry.erase handle).lookup h = some p →
        (s.registry.erase handle).lookup h' = some p → h = h' := by
      intro h h' hlookup hlookup'
      exact hunique h h' ((herase h p).mp hlookup).1 ((herase h' p).mp hlookup').1
    change (Registry.eraseValue (s.registry.erase handle) p).lookup h' = some q ↔ _
    rw [Registry.lookup_eraseValue_iff hunique', herase]
    constructor
    · rintro ⟨⟨hlookup, -⟩, hne⟩
      exact ⟨hlookup, hne⟩
    · rintro ⟨hlookup, hne⟩
      refine ⟨⟨hlookup, ?_⟩, hne⟩
      rintro rfl
      rw [hentry] at hlookup
      exact hne (Option.some.inj hlookup).symm

@[simp] theorem objects_derivedDestructor : (s.derivedDestructor o).objects = s.objects := by
  rw [derivedDestructor]
  split <;> rfl

/-- **A deletion** takes the object and its entry away, and nothing else. -/
theorem delete_live (hr : mappingMachine.Reachable Machine.always s)
    (ho : s.objects p = some o) (hlive : o.stage = .live) :
    ∃ s', s.delete p = some s' ∧ mappingMachine.Reachable Machine.always s' ∧
      s'.objects = Function.update s.objects p none ∧
      ∀ h q, s'.registry.lookup h = some q ↔ s.registry.lookup h = some q ∧ q ≠ p := by
  obtain ⟨hown, hent⟩ := entries_of_reachable hr
  have hp := hown.nonzero p o ho
  have hregistry : ∀ h q, ((s.derivedDestructor o).registry.eraseValue p).lookup h = some q ↔
      s.registry.lookup h = some q ∧ q ≠ p :=
    fun h q => lookup_destructors_iff hown hent ho hlive
  obtain ⟨kind, stage, handle⟩ := o
  obtain rfl : stage = .live := hlive
  -- The states after the two destructors and the release of the memory.
  let o₁ : Object := ⟨kind, .derivedDestroyed, handle⟩
  let s₁ := (s.set p (some o₁)).derivedDestructor o₁
  let s₂ : Mapping :=
    { s₁.set p (some ⟨kind, .destroyed, handle⟩) with registry := s₁.registry.eraseValue p }
  let s₃ : Mapping := { s₂.set p none with inUse := s₂.inUse.erase p }
  have hobjects₁ : s₁.objects = Function.update s.objects p (some o₁) :=
    objects_derivedDestructor
  have hregistry₁ : s₁.registry = (s.derivedDestructor ⟨kind, .live, handle⟩).registry := by
    cases kind <;> rfl
  have hstep₁ : mappingMachine.step (.destroy p) s = some s₁ := by
    simp only [mappingMachine, ho]
    rfl
  have hstep₂ : mappingMachine.step (.deregister p) s₁ = some s₂ := by
    simp only [mappingMachine, hobjects₁, Function.update_self, o₁]
    rfl
  have hstep₃ : mappingMachine.step (.release p) s₂ = some s₃ := by
    have ho₂ : s₂.objects p = some ⟨kind, .destroyed, handle⟩ := Function.update_self ..
    simp only [mappingMachine, ho₂]
    rfl
  refine ⟨s₃, ?_, ?_, ?_, ?_⟩
  · rw [delete, if_neg hp, hstep₁, Option.bind_some, hstep₂, Option.bind_some, hstep₃]
  · exact ((hr.step trivial hstep₁).step trivial hstep₂).step trivial hstep₃
  · change Function.update (Function.update s₁.objects p _) p none = _
    rw [hobjects₁, Function.update_idem, Function.update_idem]
  · intro h q
    change (s₁.registry.eraseValue p).lookup h = some q ↔ _
    rw [hregistry₁]
    exact hregistry h q

/-! ## The collection of a registry without null pointers -/

/-- In a quiescent state the entries for other pointers than null are those of the objects. -/
theorem Quiescent.exists_entry_iff (hq : Quiescent s)
    (hr : mappingMachine.Reachable Machine.always s) (hp : p ≠ 0) :
    (∃ h, s.registry.lookup h = some p) ↔ ∃ o, s.objects p = some o := by
  obtain ⟨hown, hent⟩ := entries_of_reachable hr
  constructor
  · rintro ⟨h, hlookup⟩
    obtain ⟨o, ho, -⟩ := hent.sound h p hlookup hp
    exact ⟨o, ho⟩
  · rintro ⟨o, ho⟩
    exact ⟨o.handle, hent.complete p o ho (.inr (hq p o ho))⟩

/-- The deletion of a pointer in the registry of a quiescent state. -/
theorem Quiescent.delete (hq : Quiescent s) (hr : mappingMachine.Reachable Machine.always s)
    (hlookup : s.registry.lookup h = some p) (hp : p ≠ 0) :
    ∃ s', s.delete p = some s' ∧ mappingMachine.Reachable Machine.always s' ∧ Quiescent s' ∧
      ∀ h q, s'.registry.lookup h = some q ↔ s.registry.lookup h = some q ∧ q ≠ p := by
  obtain ⟨o, ho⟩ := (hq.exists_entry_iff hr hp).mp ⟨h, hlookup⟩
  obtain ⟨s', hdelete, hr', hobjects, hregistry⟩ := delete_live hr ho (hq p o ho)
  refine ⟨s', hdelete, hr', ?_, hregistry⟩
  intro p' o' ho'
  rw [hobjects] at ho'
  by_cases hne : p' = p
  · rw [hne, Function.update_self] at ho'
    cases ho'
  · rw [Function.update_of_ne hne] at ho'
    exact hq p' o' ho'

theorem Begin.lookup {x : Sigma fun _ : ℕ => ℕ} (hx : first.entry s.registry = some x) :
    s.registry.lookup x.1 = some x.2 :=
  AList.mem_lookup_iff.mpr (first.mem _ _ hx)

/-- An iteration that deletes the object of the first entry. -/
theorem collectLoop_step {x : Sigma fun _ : ℕ => ℕ} {deleted : List ℕ}
    (hx : first.entry s.registry = some x) (hdelete : s.delete x.2 = some s') :
    (collectLoop first).run (n + 1) (some (s, deleted)) =
      (collectLoop first).run n (some (s', deleted ++ [x.2])) := by
  simp [Loop.run, collectLoop, hx, hdelete]

/-- A deletion leaves fewer handles. -/
theorem card_keys_lt (hregistry : ∀ h q, s'.registry.lookup h = some q ↔
    s.registry.lookup h = some q ∧ q ≠ p) (hlookup : s.registry.lookup h = some p) :
    s'.registry.keys.toFinset.card < s.registry.keys.toFinset.card := by
  have hmem : ∀ (r : Registry) k, k ∈ r.keys.toFinset ↔ ∃ q, r.lookup k = some q := by
    intro r k
    rw [List.mem_toFinset, ← AList.mem_keys, ← AList.lookup_isSome, Option.isSome_iff_exists]
  have hsubset : s'.registry.keys.toFinset ⊆ s.registry.keys.toFinset := by
    intro k hk
    obtain ⟨q, hq⟩ := (hmem _ k).mp hk
    exact (hmem _ k).mpr ⟨q, ((hregistry k q).mp hq).1⟩
  apply Finset.card_lt_card
  apply (Finset.ssubset_iff_of_subset hsubset).mpr
  refine ⟨h, (hmem _ h).mpr ⟨p, hlookup⟩, ?_⟩
  intro hk
  obtain ⟨q, hq⟩ := (hmem _ h).mp hk
  obtain ⟨hold, hne⟩ := (hregistry h q).mp hq
  rw [hlookup] at hold
  exact hne (Option.some.inj hold).symm

/-- **The loop** deletes the objects of all entries, in as many iterations as there are entries
at most. -/
theorem collectLoop_run (first : Begin) (hr : mappingMachine.Reachable Machine.always s)
    (hq : Quiescent s) (hnull : NoNull s) (hn : s.registry.keys.toFinset.card ≤ n)
    (deleted : List ℕ) :
    ∃ s' rest, (collectLoop first).run n (some (s, deleted)) = some (some (s', deleted ++ rest)) ∧
      rest.Nodup ∧ ∀ p, p ∈ rest ↔ ∃ h, s.registry.lookup h = some p := by
  induction n generalizing s deleted with
  | zero =>
    have hempty : s.registry = ∅ := by
      have hkeys : s.registry.keys = [] := by
        simpa using hn
      apply AList.ext
      simpa [AList.keys, List.keys] using hkeys
    have hnone : first.entry s.registry = none := (first.eq_none_iff _).mpr hempty
    refine ⟨s, [], ?_, List.nodup_nil, ?_⟩
    · simp [Loop.run, collectLoop, hnone]
    · simp [hempty]
  | succ n ih =>
    cases hx : first.entry s.registry with
    | none =>
      have hempty : s.registry = ∅ := (first.eq_none_iff _).mp hx
      refine ⟨s, [], ?_, List.nodup_nil, ?_⟩
      · simp [Loop.run, collectLoop, hx]
      · simp [hempty]
    | some x =>
      have hlookup := Begin.lookup hx
      have hp : x.2 ≠ 0 := by
        intro hzero
        exact hnull x.1 (hzero ▸ hlookup)
      obtain ⟨s', hdelete, hr', hq', hregistry⟩ := hq.delete hr hlookup hp
      have hnull' : NoNull s' := by
        intro h hzero
        exact hnull h ((hregistry h 0).mp hzero).1
      have hcard := card_keys_lt hregistry hlookup
      obtain ⟨s'', rest, hrun, hnodup, hmem⟩ :=
        ih hr' hq' hnull' (by omega) (deleted ++ [x.2])
      refine ⟨s'', x.2 :: rest, ?_, ?_, ?_⟩
      · rw [collectLoop_step hx hdelete, hrun, List.append_assoc, List.singleton_append]
      · refine List.nodup_cons.mpr ⟨fun hmem' => ?_, hnodup⟩
        obtain ⟨h, hlookup'⟩ := (hmem _).mp hmem'
        exact ((hregistry h x.2).mp hlookup').2 rfl
      · intro p
        rw [List.mem_cons, hmem]
        constructor
        · rintro (rfl | ⟨h, hlookup'⟩)
          · exact ⟨x.1, hlookup⟩
          · exact ⟨h, ((hregistry h p).mp hlookup').1⟩
        · rintro ⟨h, hlookup'⟩
          by_cases hne : p = x.2
          · exact .inl hne
          · exact .inr ⟨h, (hregistry h p).mpr ⟨hlookup', hne⟩⟩

/-- Without null pointers the collection ends. -/
theorem collects_of_noNull (first : Begin) (hr : mappingMachine.Reachable Machine.always s)
    (hq : Quiescent s) (hnull : NoNull s) : Collects first s := by
  obtain ⟨s', deleted, hrun, hnodup, hmem⟩ :=
    collectLoop_run first hr hq hnull le_rfl []
  refine ⟨s.registry.keys.toFinset.card, { s' with registry := ∅ }, deleted, ?_, rfl, hnodup, ?_⟩
  · rw [garbageCollect, hrun]
    rfl
  · intro p
    by_cases hp : p = 0
    · subst hp
      obtain ⟨hown, -⟩ := entries_of_reachable hr
      constructor
      · intro hdeleted
        obtain ⟨h, hlookup⟩ := (hmem 0).mp hdeleted
        exact absurd hlookup (hnull h)
      · rintro ⟨o, ho⟩
        exact absurd rfl (hown.nonzero 0 o ho)
    · rw [hmem, hq.exists_entry_iff hr hp]

/-! ## The collection of a registry with a null pointer -/

theorem exists_first_entry (first : Begin) (hlookup : s.registry.lookup h = some p) :
    ∃ x, first.entry s.registry = some x := by
  rw [← Option.ne_none_iff_exists', ne_eq, first.eq_none_iff]
  intro hempty
  simp [hempty] at hlookup

/-- The loop deletes the null pointer or another one, and keeps the entry. -/
theorem collectLoop_hangs (hr : mappingMachine.Reachable Machine.always s) (hq : Quiescent s)
    (hnull : s.registry.lookup h = some 0) (deleted : List ℕ) :
    (collectLoop first).run n (some (s, deleted)) = none := by
  induction n generalizing s deleted with
  | zero =>
    obtain ⟨x, hx⟩ := exists_first_entry first hnull
    simp [Loop.run, collectLoop, hx]
  | succ n ih =>
    obtain ⟨x, hx⟩ := exists_first_entry first hnull
    by_cases hp : x.2 = 0
    · have hdelete : s.delete x.2 = some s := by rw [hp, Mapping.delete, if_pos rfl]
      rw [collectLoop_step hx hdelete]
      exact ih hr hq hnull _
    · obtain ⟨s', hdelete, hr', hq', hregistry⟩ := hq.delete hr (Begin.lookup hx) hp
      rw [collectLoop_step hx hdelete]
      exact ih hr' hq' ((hregistry h 0).mpr ⟨hnull, fun hzero => hp hzero.symm⟩) _

/-- **The collections that do not end** are those of a registry with an entry for a null
pointer. -/
theorem garbageCollect_hangs_iff (hr : mappingMachine.Reachable Machine.always s)
    (hq : Quiescent s) : (∀ n, garbageCollect first n s = none) ↔ ¬ NoNull s := by
  constructor
  · intro hhangs hnull
    obtain ⟨n, s', deleted, hcollect, -⟩ := collects_of_noNull first hr hq hnull
    rw [hhangs n] at hcollect
    cases hcollect
  · intro hnull n
    simp only [NoNull, not_forall, ne_eq, Decidable.not_not] at hnull
    obtain ⟨h, hlookup⟩ := hnull
    rw [garbageCollect, collectLoop_hangs hr hq hlookup, Option.map_none]

/-! ## Runs -/

/-- A lookup by `fromHandle` is for a handle in the registry. -/
def LookupOk (s : Mapping) (a : MappingAction) : Prop :=
  ∀ h, a = .fromHandle h → (s.registry.lookup h).isSome = true

theorem NoNull.moves {a : MappingAction} (hown : Ownership s) (hnull : NoNull s)
    (hok : LookupOk s a) (hm : Moves s a s') : NoNull s' := by
  cases hm with
  | new _ _ => exact hnull
  | allocateValue _ _ _ => exact hnull
  | @register p o ho _ =>
    intro h hzero
    change (s.registry.insert o.handle p).lookup h = some 0 at hzero
    by_cases hkey : h = o.handle
    · rw [hkey, AList.lookup_insert] at hzero
      exact hown.nonzero p o ho (Option.some.inj hzero)
    · rw [AList.lookup_insert_ne hkey] at hzero
      exact hnull h hzero
  | finish _ => exact hnull
  | @destroy p handle kind ho =>
    intro h hzero
    cases kind with
    | gccBuiltinSignal => exact hnull h hzero
    | other => exact hnull h hzero
    | dlFinalizedProgram =>
      change (s.registry.erase handle).lookup h = some 0 at hzero
      by_cases hkey : h = handle
      · rw [hkey, AList.lookup_erase] at hzero
        cases hzero
      · rw [AList.lookup_erase_ne hkey] at hzero
        exact hnull h hzero
  | deregister _ => exact fun h hzero => hnull h (Registry.lookup_of_eraseValue hzero)
  | release _ => exact hnull
  | fromHandle_found _ => exact hnull
  | @fromHandle_missing h hmissing =>
    have hfound := hok h rfl
    rw [hmissing] at hfound
    cases hfound

/-- Lookups of handles in the registry make no entry for a null pointer. -/
theorem noNull_of_reachable (hr : mappingMachine.Reachable LookupOk s) : NoNull s := by
  refine hr.induction (P := NoNull) ?_ ?_
  · rintro _ rfl h hzero
    simp at hzero
  · intro s a s' hr hok hs hnull
    have hr' : mappingMachine.Reachable Machine.always s := hr.mono fun _ _ _ => trivial
    exact hnull.moves (entries_of_reachable hr').1 hok (moves_of_step hs)

/-- A lookup changes the entries exactly if the handle is not in the registry. -/
theorem fromHandle_entries_iff (hs : mappingMachine.step (.fromHandle h) s = some s') :
    (∀ k q, s'.registry.lookup k = some q ↔ s.registry.lookup k = some q) ↔
      (s.registry.lookup h).isSome = true := by
  simp only [mappingMachine, Option.some.injEq] at hs
  cases hlookup : s.registry.lookup h with
  | some q =>
    simp only [hlookup, Option.isSome_some, if_true] at hs
    simp [← hs]
  | none =>
    simp only [hlookup, Option.isSome_none, Bool.false_eq_true, if_false] at hs
    simp only [Option.isSome_none, Bool.false_eq_true, iff_false, not_forall]
    refine ⟨h, 0, ?_⟩
    rw [← hs, hlookup]
    simp

variable {tr : List (Mapping × MappingAction)}

/-- **The runs with undisturbed registries.** In a run no lookup changes the entries, and in each
of its states without a construction or destruction under way the collection, in whichever order
of the entries, ends, deletes every object once and leaves the registry empty, exactly if every
`fromHandle` of the run is for a handle in the registry. `fromHSAObject` changes nothing. -/
theorem mapping_undisturbed_iff (hrun : mappingMachine.Run tr s) :
    ((∀ t h, (t, .fromHandle h) ∈ tr → ∀ t', mappingMachine.step (.fromHandle h) t = some t' →
        ∀ k q, t'.registry.lookup k = some q ↔ t.registry.lookup k = some q) ∧
      ∀ t ∈ Machine.states tr s, Quiescent t → ∀ first, Collects first t) ↔
      ∀ t h, (t, .fromHandle h) ∈ tr → (t.registry.lookup h).isSome = true := by
  constructor
  · rintro ⟨hlookups, -⟩ t h hmem
    obtain ⟨t', -, hstep⟩ := hrun.exists_next hmem
    exact (fromHandle_entries_iff hstep).mp (hlookups t h hmem t' hstep)
  · intro hfound
    constructor
    · intro t h hmem t' hstep
      exact (fromHandle_entries_iff hstep).mpr (hfound t h hmem)
    · intro t ht hq first
      have hok : ∀ p ∈ tr, LookupOk p.1 p.2 := by
        rintro ⟨t, a⟩ hmem h rfl
        exact hfound t h hmem
      have hr := hrun.reachable_of_mem_states hok ht
      have hr' : mappingMachine.Reachable Machine.always t := hr.mono fun _ _ _ => trivial
      exact collects_of_noNull _ hr' hq (noNull_of_reachable hr)

/-- A program is constructed and looked up, and the collection deletes it. -/
theorem mapping_undisturbed_program : ∃ tr s, mappingMachine.Run tr s ∧
    (∀ first, Collects first s) ∧ s.objects 16 = some ⟨.dlFinalizedProgram, .live, 16⟩ := by
  have hrun₁ := Machine.Run.step (M := mappingMachine) (a := .new .dlFinalizedProgram 16)
    (.init rfl) rfl
  have hrun₂ := hrun₁.step (a := .register 16) rfl
  have hrun₃ := hrun₂.step (a := .finish 16) rfl
  have hrun₄ := hrun₃.step (a := .fromHandle 16) rfl
  obtain ⟨-, hcollects⟩ := (mapping_undisturbed_iff hrun₄).mpr (by
    intro t h hmem
    simp only [List.mem_cons, Prod.mk.injEq, MappingAction.fromHandle.injEq, reduceCtorEq,
      and_false, List.not_mem_nil, or_false] at hmem
    obtain ⟨rfl, rfl⟩ := hmem
    rfl)
  refine ⟨_, _, hrun₄, hcollects _ List.mem_cons_self ?_, rfl⟩
  intro p o ho
  by_cases hp : p = 16
  · subst hp
    cases ho
    rfl
  · have hother : Function.update (Function.update (Function.update (fun _ => none) 16
        (some ⟨.dlFinalizedProgram, .allocated, 16⟩)) 16
        (some ⟨.dlFinalizedProgram, .registered, 16⟩)) 16
        (some ⟨.dlFinalizedProgram, .live, 16⟩) p = some o := ho
    simp [hp] at hother

/-- The registry without entries. -/
def Mapping.empty : Mapping := { registry := ∅, objects := fun _ => none, inUse := [] }

/-- The lookup of a handle that was never given out leaves an entry behind, and the collection
does not end. -/
theorem fromHandle_disturbs :
    ∃ s, mappingMachine.Reachable Machine.always s ∧
      mappingMachine.step (.fromHandle 5) Mapping.empty = some s ∧
      Mapping.empty.registry.lookup 5 = none ∧ s.registry.lookup 5 = some 0 ∧
      Quiescent s ∧ ∀ first n, garbageCollect first n s = none := by
  have hstep : mappingMachine.step (.fromHandle 5) Mapping.empty =
      some { Mapping.empty with registry := (∅ : Registry).insert 5 0 } := rfl
  have hempty : mappingMachine.Reachable Machine.always Mapping.empty := .init rfl
  have hr := hempty.step trivial hstep
  refine ⟨_, hr, hstep, rfl, rfl, ?_, ?_⟩
  · intro p o ho
    cases ho
  · intro first
    have hq : Quiescent { Mapping.empty with registry := (∅ : Registry).insert 5 0 } := by
      intro p o ho
      cases ho
    apply (garbageCollect_hangs_iff hr hq).mpr
    intro hnull
    exact hnull 5 rfl

end PhsaRuntime
