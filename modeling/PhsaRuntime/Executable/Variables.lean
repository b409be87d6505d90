import PhsaRuntime.Executable.Symbols

/-!
# External variables

The application defines an external variable by name and address, and a load stores the address
to the pointer that the library has for the variable. The name may have a leading `&` or not: it
is kept as it is given, as a key of a hash map, and the `&` goes only when the address is
stored. Two keys may then be one variable, and the later of the two in the order of the map
wins.

## Main results

* `definedSymbols_eq` — the map of an executable is that of the definitions, the last one of a
  name.
* `definitions_iff` — definitions are unique, and a load stores them, if and only if no variable
  is defined twice and no name is empty.
-/

namespace PhsaRuntime

open Machine

variable {elf : ElfReader} {env : LoadEnv} {s s' : ExecutableState} {a : ExecutableAction}
  {tr : List (ExecutableState × ExecutableAction)} {status : HsaStatus} {e e' : Executable}
  {p : CodeObject} {executable agent codeObject address : ℕ} {name v : SymbolName}
  {dl : DynamicLoader} {defs : List (SymbolName × ℕ)} {pointers : ℕ → ℕ}

/-! ## The definitions -/

/-- The definition that a call makes for the executable. -/
def newDefinition (executable : ℕ) (s : ExecutableState) (a : ExecutableAction) :
    List (SymbolName × ℕ) :=
  match a.definition with
  | some (x, some name, address) =>
    if x = executable ∧ (s.executables x).isSome then [(name, address)] else []
  | _ => []

/-- The definitions for the executable since it was created, first one first. -/
def definitions (executable : ℕ) :
    List (ExecutableState × ExecutableAction) → List (SymbolName × ℕ)
  | [] => []
  | (s, a) :: tr =>
    if a.creates executable then []
    else definitions executable tr ++ newDefinition executable s a

/-- The variables that are defined: a leading `&` makes no difference. -/
def definedVariables (defs : List (SymbolName × ℕ)) : List SymbolName :=
  defs.map fun d => stripAmpersand d.1

/-- The first definition of a variable. -/
def firstDefinition (defs : List (SymbolName × ℕ)) (v : SymbolName) : Option ℕ :=
  (defs.find? fun d => stripAmpersand d.1 = v).map Prod.snd

/-- The first definition of a variable succeeds; any later one is refused and has no effect. -/
def RightStatus (elf : ElfReader) (defs : List (SymbolName × ℕ)) (s : ExecutableState)
    (a : ExecutableAction) (name : SymbolName) : Prop :=
  (stripAmpersand name ∈ definedVariables defs →
    executableCall elf s a = some (.errorVariableAlreadyDefined, s)) ∧
  (stripAmpersand name ∉ definedVariables defs →
    ∃ s', executableCall elf s a = some (.success, s'))

/-- The definitions for the executable since it was created have the right status. -/
def DefinitionsRight (elf : ElfReader) (executable : ℕ) :
    List (ExecutableState × ExecutableAction) → Prop
  | [] => True
  | (s, a) :: tr =>
    a.creates executable = true ∨ DefinitionsRight elf executable tr ∧
      ∀ name address, a.definition = some (executable, some name, address) →
        (s.executables executable).isSome →
          RightStatus elf (definitions executable tr) s a name

/-- The host pointers of a library are variables of their own. -/
structure HostPointers (dl : DynamicLoader) (p : CodeObject) : Prop where
  ne_zero : ∀ v, hostPointer dl p v ≠ some 0
  injective : ∀ v w pointer, hostPointer dl p v = some pointer →
    hostPointer dl p w = some pointer → v = w

/-- The pointers of the defined variables that the library declares have their addresses. -/
def Stored (dl : DynamicLoader) (p : CodeObject) (defs : List (SymbolName × ℕ))
    (pointers : ℕ → ℕ) : Prop :=
  ∀ v address pointer, firstDefinition defs v = some address →
    hostPointer dl p v = some pointer → pointers pointer = address

/-- A load of any code object stores every definition: the loop over them ends normally, and the
pointers are those of the definitions, also after a call that succeeds. -/
structure StoresDefinitions (elf : ElfReader) (s : ExecutableState) (executable : ℕ)
    (e : Executable) (defs : List (SymbolName × ℕ)) : Prop where
  loop : ∀ (env : LoadEnv) (p : CodeObject), HostPointers env.dl p →
    ∃ l, (s.loading e p).defineSymbols env.dl (env.order.entries e.definedSymbols) = .ok l ∧
      Stored env.dl p defs l.pointers
  call : ∀ env agent codeObject p s', HostPointers env.dl p →
    s.codeObjects codeObject = some p →
    s.hsaExecutableLoadCodeObject elf env executable agent codeObject = .ok (.success, s') →
      Stored env.dl p defs s'.pointers

theorem newDefinition_of_definition (hdef : a.definition = some (executable, some name, address))
    (hexec : (s.executables executable).isSome) :
    newDefinition executable s a = [(name, address)] := by
  simp [newDefinition, hdef, hexec]

/-- The call that makes a definition. -/
theorem exists_of_newDefinition_ne_nil (h : newDefinition executable s a ≠ []) :
    ∃ name address e, a.definition = some (executable, some name, address) ∧
      s.executables executable = some e := by
  simp only [newDefinition] at h
  split at h
  · rename_i x name address hdef
    split at h
    · rename_i hlive
      obtain ⟨rfl, hlive⟩ := hlive
      obtain ⟨e, he⟩ := Option.isSome_iff_exists.mp hlive
      exact ⟨name, address, e, hdef, he⟩
    · exact absurd rfl h
  · exact absurd rfl h

/-- A definition for an executable that exists. -/
theorem call_definition (hs : WellFormed s)
    (hdef : a.definition = some (executable, some name, address))
    (hexec : s.executables executable = some e) :
    executableCall elf s a = some (.success,
      s.setExecutable executable (some (e.defineGlobalSymbolAddress name address))) := by
  rw [executableCall_definition hdef]
  simp [ExecutableState.defineVariable, hs.initialized, hexec]

/-- **The map of an executable** is that of the definitions, the last one of a name. -/
theorem definedSymbols_eq (hrun : (executableMachine elf).Run tr s)
    (hexec : s.executables executable = some e) :
    e.definedSymbols = insertAll ∅ (definitions executable tr) := by
  induction hrun generalizing e with
  | init hinit => simp [hinit.2.1] at hexec
  | @step tr s s' a hrun hstep ih =>
    obtain ⟨status, hcall, heffect⟩ := step_effect hstep
    rw [definitions]
    by_cases hcreates : a.creates executable = true
    · obtain ⟨profile, frozen, rfl⟩ := create_of_creates hcall hcreates hexec
      rw [if_pos hcreates]
      rfl
    · rw [if_neg hcreates, insertAll_append]
      have hs : WellFormed s := wellFormed hrun.reachable
      by_cases hnew : newDefinition executable s a = []
      · rw [hnew, insertAll_nil]
        obtain ⟨e₀, he₀, hchanged⟩ := heffect.changed (by simpa using hcreates) hexec
        rw [← ih he₀]
        cases hchanged with
        | same | frozen | loaded => rfl
        | defined hdef =>
          rw [newDefinition_of_definition hdef (Option.isSome_iff_exists.mpr ⟨e₀, he₀⟩)] at hnew
          cases hnew
      · obtain ⟨name, address, e₀, hdef, he₀⟩ := exists_of_newDefinition_ne_nil hnew
        rw [call_definition hs hdef he₀] at hcall
        cases hcall
        rw [executables_setExecutable_self, Option.some.injEq] at hexec
        rw [newDefinition_of_definition hdef (Option.isSome_iff_exists.mpr ⟨e₀, he₀⟩), ← ih he₀,
          ← hexec]
        rfl

/-! ## Unique definitions -/

theorem nodup_definedVariables_concat : (definedVariables (defs ++ [(name, address)])).Nodup ↔
    stripAmpersand name ∉ definedVariables defs ∧ (definedVariables defs).Nodup := by
  rw [definedVariables, List.map_append, List.map_singleton, List.nodup_append_comm,
    List.singleton_append, List.nodup_cons]
  rfl

/-- Every definition succeeds, so that it is right for a new variable. -/
theorem rightStatus_iff (hs : WellFormed s)
    (hdef : a.definition = some (executable, some name, address))
    (hexec : (s.executables executable).isSome) :
    RightStatus elf defs s a name ↔ stripAmpersand name ∉ definedVariables defs := by
  obtain ⟨e, he⟩ := Option.isSome_iff_exists.mp hexec
  rw [RightStatus, call_definition hs hdef he]
  by_cases hmem : stripAmpersand name ∈ definedVariables defs <;> simp [hmem]

/-- **The statuses are right** if and only if no variable is defined twice. -/
theorem definitionsRight_iff (hrun : (executableMachine elf).Run tr s) :
    DefinitionsRight elf executable tr ↔ (definedVariables (definitions executable tr)).Nodup := by
  induction hrun with
  | init => simp [DefinitionsRight, definitions, definedVariables]
  | @step tr s s' a hrun hstep ih =>
    have hs : WellFormed s := wellFormed hrun.reachable
    rw [DefinitionsRight, definitions]
    by_cases hcreates : a.creates executable = true
    · simp [hcreates, definedVariables]
    · rw [if_neg hcreates]
      simp only [hcreates, Bool.false_eq_true, false_or, ih]
      by_cases hnew : newDefinition executable s a = []
      · rw [hnew, List.append_nil]
        refine ⟨And.left, fun hnodup => ⟨hnodup, ?_⟩⟩
        intro name address hdef hexec
        rw [newDefinition_of_definition hdef hexec] at hnew
        cases hnew
      · obtain ⟨name, address, e, hdef, he⟩ := exists_of_newDefinition_ne_nil hnew
        have hexec : (s.executables executable).isSome := Option.isSome_iff_exists.mpr ⟨e, he⟩
        rw [newDefinition_of_definition hdef hexec, nodup_definedVariables_concat]
        constructor
        · rintro ⟨hnodup, hright⟩
          exact ⟨(rightStatus_iff hs hdef hexec).mp (hright name address hdef hexec), hnodup⟩
        · rintro ⟨hnot, hnodup⟩
          refine ⟨hnodup, ?_⟩
          intro name' address' hdef' _
          obtain ⟨rfl, rfl⟩ : name = name' ∧ address = address' := by
            simpa using hdef.symm.trans hdef'
          exact (rightStatus_iff hs hdef hexec).mpr hnot

/-! ## Stored definitions -/

/-- The pointers of other variables stay as they are. -/
theorem foldl_storeSymbol_of_notMem {l : List (Sigma fun _ : SymbolName => ℕ)} {pointer : ℕ}
    (h : ∀ d ∈ l, hostPointer dl p (stripAmpersand d.1) ≠ some pointer) :
    l.foldl (storeSymbol dl p) pointers pointer = pointers pointer := by
  induction l generalizing pointers with
  | nil => rfl
  | cons d l ih =>
    rw [List.foldl_cons, ih (fun d' hd' => h d' (List.mem_cons_of_mem d hd')), storeSymbol]
    cases hother : hostPointer dl p (stripAmpersand d.1) with
    | none => rfl
    | some other =>
      have hne : pointer ≠ other := by
        rintro rfl
        exact h d List.mem_cons_self hother
      exact Function.update_of_ne hne ..

/-- The pointer of a variable that has one key. -/
theorem foldl_storeSymbol_of_mem {l : List (Sigma fun _ : SymbolName => ℕ)}
    (hpointers : HostPointers dl p) (hnodup : (l.map fun d => stripAmpersand d.1).Nodup)
    {d : Sigma fun _ : SymbolName => ℕ} (hd : d ∈ l) {pointer : ℕ}
    (hpointer : hostPointer dl p (stripAmpersand d.1) = some pointer) :
    l.foldl (storeSymbol dl p) pointers pointer = d.2 := by
  induction l generalizing pointers with
  | nil => cases hd
  | cons d' l ih =>
    rw [List.map_cons, List.nodup_cons] at hnodup
    rw [List.foldl_cons]
    rcases List.mem_cons.mp hd with rfl | hd
    · rw [foldl_storeSymbol_of_notMem, storeSymbol, hpointer]
      · exact Function.update_self ..
      · intro d' hd' heq
        have hvar := hpointers.injective _ _ _ hpointer heq
        exact hnodup.1 (List.mem_map.mpr ⟨d', hd', hvar.symm⟩)
    · exact ih hnodup.2 hd

/-- The entries of the map are the definitions, if no variable is defined twice. -/
theorem mem_entries_iff (hnodup : (definedVariables defs).Nodup)
    {d : Sigma fun _ : SymbolName => ℕ} {order : IterationOrder} :
    d ∈ order.entries (insertAll ∅ defs) ↔ (d.1, d.2) ∈ defs := by
  have hkeys : (defs.map Prod.fst).Nodup := by
    apply List.Nodup.of_map stripAmpersand
    rw [List.map_map]
    exact hnodup
  rw [(order.perm _).mem_iff, ← lookup_insertAll_empty_iff hkeys]
  exact AList.mem_lookup_iff.symm

/-- The entries of the map are of different variables. -/
theorem nodup_entries (hnodup : (definedVariables defs).Nodup) (order : IterationOrder) :
    ((order.entries (insertAll ∅ defs)).map fun d => stripAmpersand d.1).Nodup := by
  have hentries : (order.entries (insertAll ∅ defs)).Nodup :=
    (order.perm _).nodup_iff.mpr (List.Nodup.of_map Sigma.fst (AList.keys_nodup _))
  apply hentries.map_on
  intro d hd d' hd' heq
  have hpair := List.inj_on_of_nodup_map hnodup ((mem_entries_iff hnodup).mp hd)
    ((mem_entries_iff hnodup).mp hd') heq
  obtain ⟨hfst, hsnd⟩ := Prod.mk.inj hpair
  exact Sigma.ext hfst (heq_of_eq hsnd)

/-- The loop over the map stores the definitions, whatever the order. -/
theorem stored_foldl (hnodup : (definedVariables defs).Nodup) (hpointers : HostPointers dl p)
    (order : IterationOrder) (pointers : ℕ → ℕ) :
    Stored dl p defs
      ((order.entries (insertAll ∅ defs)).foldl (storeSymbol dl p) pointers) := by
  intro v address pointer hfirst hpointer
  obtain ⟨d, hfind, rfl⟩ := Option.map_eq_some_iff.mp hfirst
  have hv : stripAmpersand d.1 = v := by simpa using List.find?_some hfind
  have hd : (⟨d.1, d.2⟩ : Sigma fun _ : SymbolName => ℕ) ∈ order.entries (insertAll ∅ defs) :=
    (mem_entries_iff hnodup).mpr (List.mem_of_find?_eq_some hfind)
  exact foldl_storeSymbol_of_mem hpointers (nodup_entries hnodup order) hd (hv ▸ hpointer)

/-- The definitions of different variables with names are stored. -/
theorem storesDefinitions (hnodup : (definedVariables defs).Nodup)
    (hnames : [] ∉ defs.map Prod.fst) (hexec : s.executables executable = some e)
    (hdefs : e.definedSymbols = insertAll ∅ defs) :
    StoresDefinitions elf s executable e defs where
  loop env p hpointers := by
    have hstorable : ∀ d ∈ env.order.entries e.definedSymbols, Storable env.dl p d.1 := by
      intro d hd
      rw [hdefs, mem_entries_iff hnodup] at hd
      refine ⟨?_, hpointers.ne_zero _⟩
      intro hnil
      exact hnames (List.mem_map.mpr ⟨_, hd, hnil⟩)
    obtain ⟨p', -, heq⟩ := Loading.defineSymbols_eq (l := s.loading e p) hstorable
    refine ⟨_, heq, ?_⟩
    rw [hdefs]
    exact stored_foldl hnodup hpointers env.order s.pointers
  call env agent codeObject p s' hpointers hp hcall := by
    by_cases haccepts : ∃ e p, Accepts s executable agent codeObject e p
    · obtain ⟨e', p', haccepts⟩ := haccepts
      obtain rfl : e = e' := Option.some.inj (hexec.symm.trans haccepts.executable)
      obtain rfl : p = p' := Option.some.inj (hp.symm.trans haccepts.program)
      obtain ⟨-, -, p'', -, rfl⟩ := load_accepted haccepts hcall
      have hstored := stored_foldl hnodup hpointers env.order s.pointers
      rw [← hdefs] at hstored
      exact hstored
    · simp only [not_exists] at haccepts
      obtain ⟨status, herror, hrefused⟩ := load_of_not_accepts elf env haccepts
      rw [hrefused] at hcall
      cases hcall
      exact absurd rfl herror

/-- The empty name ends the process at the next load. -/
theorem not_storesDefinitions_of_nil (hnames : [] ∈ defs.map Prod.fst)
    (hdefs : e.definedSymbols = insertAll ∅ defs) :
    ¬ StoresDefinitions elf s executable e defs := by
  intro hstores
  have hnone : ∀ v, hostPointer (libraryEnv fun _ => none).dl variableProgram v = none :=
    fun _ => rfl
  have hpointers : HostPointers (libraryEnv fun _ => none).dl variableProgram :=
    ⟨by simp [hnone], by simp [hnone]⟩
  obtain ⟨l, hloop, -⟩ := hstores.loop (libraryEnv fun _ => none) variableProgram hpointers
  have hmem : [] ∈ e.definedSymbols := by
    rw [hdefs, mem_insertAll]
    exact .inr hnames
  obtain ⟨d, hd, hnil⟩ := ((libraryEnv fun _ => none).order.mem_iff).mp hmem
  have hnot : ¬ ∀ d ∈ (libraryEnv fun _ => none).order.entries e.definedSymbols,
      Storable (libraryEnv fun _ => none).dl variableProgram d.1 := fun hall =>
    (hall d hd).1 hnil
  obtain ⟨fault, hfault⟩ :=
    Loading.defineSymbols_error (l := s.loading e variableProgram) hnot
  rw [hloop] at hfault
  cases hfault

/-- **External variables are unique and order-independent** if and only if no variable is defined
twice, with or without `&`, and no name is empty. -/
theorem definitions_iff (hrun : (executableMachine elf).Run tr s)
    (hexec : s.executables executable = some e) :
    (DefinitionsRight elf executable tr ∧
      StoresDefinitions elf s executable e (definitions executable tr)) ↔
    (definedVariables (definitions executable tr)).Nodup ∧
      [] ∉ (definitions executable tr).map Prod.fst := by
  have hdefs := definedSymbols_eq hrun hexec
  rw [definitionsRight_iff hrun]
  constructor
  · rintro ⟨hnodup, hstores⟩
    refine ⟨hnodup, ?_⟩
    intro hnil
    exact not_storesDefinitions_of_nil hnil hdefs hstores
  · rintro ⟨hnodup, hnames⟩
    exact ⟨hnodup, storesDefinitions hnodup hnames hexec hdefs⟩

/-- Two variables, one with `&`. -/
theorem definitions_two_variables :
    ∃ tr s e, (executableMachine fun _ => none).Run tr s ∧ s.executables 1 = some e ∧
      definitions 1 tr = [(['&', 'v'], 8), (['w'], 16)] ∧
      DefinitionsRight (fun _ => none) 1 tr ∧
      StoresDefinitions (fun _ => none) s 1 e (definitions 1 tr) := by
  obtain ⟨tr, s, hrun, hs⟩ := exists_run_of_trace (executableMachine fun _ => none)
    [.create 1 0 false 8, .globalVariableDefine 1 (some ['&', 'v']) 8,
      .readonlyVariableDefine 1 0 (some ['w']) 16]
    (fun tr s => (s.executables 1).isSome &&
      decide (definitions 1 tr = [(['&', 'v'], 8), (['w'], 16)]))
    init_emptyState (by decide)
  simp only [Bool.and_eq_true, decide_eq_true_eq] at hs
  obtain ⟨e, he⟩ := Option.isSome_iff_exists.mp hs.1
  exact ⟨tr, s, e, hrun, he, hs.2, (definitions_iff hrun he).mpr (by rw [hs.2]; decide)⟩

/-- One variable is defined twice, once with `&`. -/
theorem not_definitionsRight_twice :
    ∃ tr s, (executableMachine fun _ => none).Run tr s ∧ (s.executables 1).isSome ∧
      ¬ DefinitionsRight (fun _ => none) 1 tr := by
  let s₁ := emptyState.setExecutable 1 (some (.create 0 false))
  let s₂ := s₁.setExecutable 1
    (some ((Executable.create 0 false).defineGlobalSymbolAddress ['v'] 8))
  refine ⟨[(s₂, .globalVariableDefine 1 (some ['&', 'v']) 16),
    (s₁, .globalVariableDefine 1 (some ['v']) 8), (emptyState, .create 1 0 false 8)], _,
    .step (.step (.step (.init init_emptyState) rfl) rfl) rfl, rfl, ?_⟩
  rintro (hcreates | ⟨-, hright⟩)
  · cases hcreates
  · have hstatus := hright ['&', 'v'] 16 rfl rfl
    have hrejected :
        some (HsaStatus.success, _) = some (HsaStatus.errorVariableAlreadyDefined, s₂) :=
      hstatus.1 (by decide)
    cases hrejected

end PhsaRuntime
