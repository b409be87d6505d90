import PhsaRuntime.Executable.Effect

/-!
# Frozen executables

Freezing is to end all changes to an executable, and to make the addresses of its symbols
visible. Of the calls that change an executable, loading and freezing look at its state; the
three that define a variable do not. The query of a symbol does not look at the state either:
it reads the symbol, which is filled in by the load.

## Main results

* `immutable_iff` — a frozen executable stays as it is, and every attempt to change it is
  rejected, if and only if no variable is defined for it.
* `visible_iff` — addresses are visible only after freezing if and only if no load registers a
  kernel, or a variable that has an address.
-/

namespace PhsaRuntime

open Machine

namespace ExecutableAction

/-- The call destroys the executable. -/
def destroys (executable : ℕ) : ExecutableAction → Bool
  | .destroy x => x = executable
  | _ => false

/-- The call defines a variable for the executable. -/
def defines (executable : ℕ) (a : ExecutableAction) : Bool :=
  a.definition.any fun d => d.1 = executable

/-- The call loads into the executable, defines a variable for it or freezes it. -/
def modifies (executable : ℕ) : ExecutableAction → Bool
  | .load _ x _ _ => x = executable
  | .freeze x => x = executable
  | a => a.defines executable

end ExecutableAction

/-! ## Changes -/

/-- What follows the freezing of an executable, as long as it is not destroyed. -/
def frozenMachine (elf : ElfReader) (executable : ℕ) (e : Executable) :
    Machine ExecutableState ExecutableAction where
  init s := (executableMachine elf).Reachable always s ∧ s.executables executable = some e ∧
    e.isFrozen = true
  step a s := if a.destroys executable then none else (executableMachine elf).step a s

/-- An attempt to change the executable is rejected. -/
def Rejected (elf : ElfReader) (executable : ℕ) (s : ExecutableState) (a : ExecutableAction) :
    Prop :=
  a.modifies executable = true → executableCall elf s a = some (.errorFrozenExecutable, s)

variable {elf : ElfReader} {executable : ℕ} {e : Executable} {s s' : ExecutableState}
  {a : ExecutableAction} {tr : List (ExecutableState × ExecutableAction)} {status : HsaStatus}

theorem frozenMachine_step (h : (frozenMachine elf executable e).step a s = some s') :
    a.destroys executable = false ∧ (executableMachine elf).step a s = some s' := by
  simp only [frozenMachine] at h
  split at h
  · cases h
  · rename_i hdestroys
    exact ⟨by simpa using hdestroys, h⟩

theorem frozenMachine_wellFormed (h : (frozenMachine elf executable e).Reachable always s) :
    WellFormed s := by
  refine h.induction (P := WellFormed) ?_ ?_
  · rintro s ⟨hreach, -⟩
    exact wellFormed hreach
  · intro s a s' _ _ hstep hs
    obtain ⟨status, -, heffect⟩ := step_effect (frozenMachine_step hstep).2
    exact hs.effect heffect

/-- Only a definition changes a frozen executable. -/
theorem Effect.executables_of_frozen (h : Effect elf s a status s')
    (hexec : s.executables executable = some e) (hfrozen : e.isFrozen = true)
    (hdestroys : a.destroys executable = false) (hdefines : a.defines executable = false) :
    s'.executables executable = some e := by
  cases h with
  | unchanged | madeCodeObject => exact hexec
  | created profile frozen x hfree =>
    rw [executables_setExecutable_of_ne, hexec]
    rintro rfl
    rw [hfree] at hexec
    cases hexec
  | destroyed x =>
    rw [executables_setExecutable_of_ne, hexec]
    rintro rfl
    simp [ExecutableAction.destroys] at hdestroys
  | @loaded env x agent codeObject e' p p' haccepts =>
    refine (Function.update_of_ne ?_ ..).trans hexec
    rintro rfl
    have heq : e' = e := Option.some.inj (haccepts.executable.symm.trans hexec)
    rw [← heq, haccepts.unfrozen] at hfrozen
    cases hfrozen
  | @frozen x e' hexec' hunfrozen =>
    rw [executables_setExecutable_of_ne, hexec]
    rintro rfl
    have heq : e' = e := Option.some.inj (hexec'.symm.trans hexec)
    rw [← heq, hunfrozen] at hfrozen
    cases hfrozen
  | @defined a x address name e' hdef hexec' =>
    rw [executables_setExecutable_of_ne, hexec]
    rintro rfl
    simp [ExecutableAction.defines, hdef] at hdefines

/-- Loading and freezing are rejected. -/
theorem rejected_of_frozen (hs : WellFormed s) (hexec : s.executables executable = some e)
    (hfrozen : e.isFrozen = true) (hdefines : a.defines executable = false) :
    Rejected elf executable s a := by
  intro hmodifies
  cases a with
  | load env x agent codeObject =>
    obtain rfl : x = executable := by simpa [ExecutableAction.modifies] using hmodifies
    simp [executableCall, ExecutableState.hsaExecutableLoadCodeObject, hs.initialized, hexec,
      hfrozen, Except.toOption]
  | freeze x =>
    obtain rfl : x = executable := by simpa [ExecutableAction.modifies] using hmodifies
    simp [executableCall, ExecutableState.hsaExecutableFreeze, hs.initialized, hexec, hfrozen]
  | create | destroy | newCodeObject | globalVariableDefine | agentGlobalVariableDefine
  | readonlyVariableDefine | query =>
    rw [ExecutableAction.modifies, hdefines] at hmodifies
    · cases hmodifies
    all_goals simp

theorem ExecutableAction.modifies_of_defines (h : a.defines executable = true) :
    a.modifies executable = true := by
  cases a with
  | globalVariableDefine | agentGlobalVariableDefine | readonlyVariableDefine => exact h
  | create | destroy | newCodeObject | load | freeze | query => cases h

/-- A definition is not rejected. -/
theorem not_rejected_of_defines (hs : WellFormed s) (hexec : s.executables executable = some e)
    (hdefines : a.defines executable = true) : ¬ Rejected elf executable s a := by
  intro hrejected
  have hcall := hrejected (ExecutableAction.modifies_of_defines hdefines)
  obtain ⟨⟨x, name, address⟩, hdef, hx⟩ := (Option.any_eq_true _ _).mp hdefines
  obtain rfl : x = executable := by simpa using hx
  rw [executableCall_definition hdef] at hcall
  cases name <;> simp [ExecutableState.defineVariable, hs.initialized, hexec] at hcall

/-- Without definitions a frozen executable stays as it is. -/
theorem frozenMachine_executables
    (h : (frozenMachine elf executable e).Reachable (fun _ a => a.defines executable = false) s) :
    s.executables executable = some e ∧ e.isFrozen = true := by
  refine h.induction
    (P := fun s => s.executables executable = some e ∧ e.isFrozen = true) ?_ ?_
  · intro s hinit
    exact hinit.2
  · intro s a s' _ hdefines hstep hold
    obtain ⟨hexec, hfrozen⟩ := hold
    obtain ⟨hdestroys, hstep⟩ := frozenMachine_step hstep
    obtain ⟨status, -, heffect⟩ := step_effect hstep
    exact ⟨heffect.executables_of_frozen hexec hfrozen hdestroys hdefines, hfrozen⟩

/-- **A frozen executable is immutable** if and only if no variable is defined for it: then it
stays as it is, and every attempt to load, to define or to freeze is rejected. -/
theorem immutable_iff (hrun : (frozenMachine elf executable e).Run tr s) :
    (s.executables executable = some e ∧ ∀ p ∈ tr, p.1.executables executable = some e ∧
      Rejected elf executable p.1 p.2) ↔ ∀ p ∈ tr, p.2.defines executable = false := by
  constructor
  · rintro ⟨-, hall⟩ p hp
    obtain ⟨hexec, hrejected⟩ := hall p hp
    have hs : WellFormed p.1 :=
      frozenMachine_wellFormed (hrun.reachable_of_mem (fun _ _ => trivial) hp)
    by_contra hdefines
    exact not_rejected_of_defines hs hexec (by simpa using hdefines) hrejected
  · intro hall
    refine ⟨(frozenMachine_executables ⟨tr, hrun, hall⟩).1, ?_⟩
    intro p hp
    obtain ⟨hp', hfrozen⟩ := frozenMachine_executables (hrun.reachable_of_mem hall hp)
    have hs : WellFormed p.1 :=
      frozenMachine_wellFormed (hrun.reachable_of_mem (fun _ _ => trivial) hp)
    exact ⟨hp', rejected_of_frozen hs hp' hfrozen (hall p hp)⟩

/-- An executable that is created frozen. -/
def frozenState : ExecutableState := emptyState.setExecutable 1 (some (.create 0 true))

theorem init_frozenState {elf : ElfReader} :
    (frozenMachine elf 1 (.create 0 true)).init frozenState := by
  refine ⟨.step (.init init_emptyState) (a := .create 1 0 true 8) trivial rfl, ?_, rfl⟩
  exact executables_setExecutable_self

/-- A frozen executable is frozen again. -/
theorem immutable_frozenState :
    frozenState.executables 1 = some (.create 0 true) ∧
      ∀ p ∈ [(frozenState, ExecutableAction.freeze 1)],
        p.1.executables 1 = some (.create 0 true) ∧ Rejected (fun _ => none) 1 p.1 p.2 :=
  (immutable_iff (.step (.init init_frozenState) rfl)).mpr (by
    simp [ExecutableAction.defines, ExecutableAction.definition])

/-- A frozen executable gets a variable. -/
theorem frozenState_changes :
    ∃ s', (frozenMachine (fun _ => none) 1 (.create 0 true)).Run
        [(frozenState, .globalVariableDefine 1 (some ['v']) 8)] s' ∧
      s'.executables 1 ≠ some (.create 0 true) := by
  refine ⟨_, .step (.init init_frozenState) rfl, ?_⟩
  intro heq
  have hdefined := congrArg (fun o => o.bind fun e => e.definedSymbols.lookup ['v']) heq
  cases hdefined

/-! ## Addresses -/

/-- The attributes that are addresses. -/
def addressInfos : List SymbolInfo := [.variableAddress, .kernelObject, .indirectFunctionObject]

/-- The addresses of the symbol are read as `address`. -/
def ReadsAddress (s : ExecutableState) (x address : ℕ) : Prop :=
  ∀ info ∈ addressInfos, ∀ value, value ≠ 0 →
    s.hsaExecutableSymbolGetInfo x info value = (.success, some address)

/-- The symbols of an executable that is not frozen have no visible address. -/
def HidesAddresses (s : ExecutableState) : Prop :=
  ∀ executable e, s.executables executable = some e → e.isFrozen = false →
    ∀ x ∈ e.symbols, ReadsAddress s x 0

/-- The symbols of a frozen executable that the call has created have the addresses that it has
recorded. -/
def ReadsRecorded (elf : ElfReader) (s : ExecutableState) (a : ExecutableAction)
    (t : ExecutableState) : Prop :=
  ∀ s', (executableMachine elf).step a s = some s' → (executableMachine elf).Leads s' t →
    ∀ x symbol, s.heap.lookup x = none → s'.heap.lookup x = some symbol →
      ∀ executable e, t.executables executable = some e → e.isFrozen = true → x ∈ e.symbols →
        ReadsAddress t x symbol.firstField

/-- A load registers no kernel, and no variable that has an address. -/
def LoadsNoAddress (elf : ElfReader) (s : ExecutableState) (a : ExecutableAction) : Prop :=
  ∀ env executable agent codeObject e p, a = .load env executable agent codeObject →
    Accepts s executable agent codeObject e p →
    ∀ y ∈ codeExports elf p.toFinalizedProgram,
      y.2 = .variable ∧ addressIn (p.library env.dl) y.1 = 0

section Addresses

variable {env : LoadEnv} {p : CodeObject} {l : Loading} {x : ℕ} {symbol : Symbol}
  {name : SymbolName} {this address : ℕ} {k : Export} {heap : SymbolHeap}

/-- The three addresses are one field. -/
theorem readsAddress_iff (hs : WellFormed s) (hx : s.heap.lookup x = some symbol) :
    ReadsAddress s x address ↔ symbol.firstField = address := by
  constructor
  · intro h
    have hread := h .variableAddress (by simp [addressInfos]) 1 (by decide)
    simpa [ExecutableState.hsaExecutableSymbolGetInfo, hs.initialized, hx, Symbol.info] using hread
  · intro h info hinfo value hvalue
    have hfield : symbol.info info = some symbol.firstField := by
      simp only [addressInfos, List.mem_cons, List.not_mem_nil, or_false] at hinfo
      rcases hinfo with rfl | rfl | rfl <;> rfl
    simp [ExecutableState.hsaExecutableSymbolGetInfo, hs.initialized, hvalue, hx, hfield, h]

/-- A variable without an address is the only symbol whose first field is zero. -/
theorem firstField_symbol (hthis : this ≠ 0) :
    (k.symbol name this address).firstField = 0 ↔ k = .variable ∧ address = 0 := by
  cases k <;> simp [Export.symbol, Symbol.firstField, hthis]

theorem grows_of_leads (h : (executableMachine elf).Leads s s') : Grows s.heap s'.heap := by
  induction h with
  | refl => exact Grows.refl
  | tail _ hstep ih =>
    obtain ⟨a, hstep⟩ := hstep
    obtain ⟨status, -, heffect⟩ := step_effect hstep
    exact ih.trans heffect.grows

/-- What is recorded is read ever after. -/
theorem readsRecorded {t : ExecutableState} (hs : (executableMachine elf).Reachable always t) :
    ReadsRecorded elf s a t := by
  intro s' _ hleads x symbol _ hx executable e _ _ _
  exact (readsAddress_iff (wellFormed hs) (grows_of_leads hleads x symbol hx)).mpr rfl

/-- The symbols of an executable that is not frozen have no address. -/
def NoAddress (s : ExecutableState) : Prop :=
  ∀ executable e, s.executables executable = some e → e.isFrozen = false →
    ∀ x ∈ e.symbols, ∃ symbol, s.heap.lookup x = some symbol ∧ symbol.firstField = 0

theorem hidesAddresses_iff (hs : WellFormed s) : HidesAddresses s ↔ NoAddress s := by
  constructor
  · intro h executable e hexec hfrozen x hx
    have hlive := (hs.executables executable e hexec).live x hx
    obtain ⟨symbol, hsymbol⟩ := Option.isSome_iff_exists.mp (AList.lookup_isSome.mpr hlive)
    exact ⟨symbol, hsymbol, (readsAddress_iff hs hsymbol).mp (h executable e hexec hfrozen x hx)⟩
  · intro h executable e hexec hfrozen x hx
    obtain ⟨symbol, hsymbol, hzero⟩ := h executable e hexec hfrozen x hx
    exact (readsAddress_iff hs hsymbol).mpr hzero

theorem NoAddress.grows (h : NoAddress s) (hgrows : Grows s.heap heap)
    (hexec : s.executables executable = some e) (hfrozen : e.isFrozen = false)
    (hx : x ∈ e.symbols) :
    ∃ symbol, heap.lookup x = some symbol ∧ symbol.firstField = 0 := by
  obtain ⟨symbol, hsymbol, hzero⟩ := h executable e hexec hfrozen x hx
  exact ⟨symbol, hgrows x symbol hsymbol, hzero⟩

theorem NoAddress.setExecutable {o : Option Executable} (h : NoAddress s)
    (ho : ∀ e, o = some e → e.isFrozen = false → ∀ x ∈ e.symbols,
      ∃ symbol, s.heap.lookup x = some symbol ∧ symbol.firstField = 0) :
    NoAddress (s.setExecutable executable o) := by
  intro y e he
  rcases setExecutable_eq_some he with ⟨-, he⟩ | ⟨-, he⟩
  · exact ho e he
  · exact h y e he

/-- A call that loads no address. -/
theorem NoAddress.effect (h : NoAddress s) (hload : LoadsNoAddress elf s a)
    (heffect : Effect elf s a status s') : NoAddress s' := by
  cases heffect with
  | unchanged | madeCodeObject => exact h
  | created profile frozen x hfree =>
    apply h.setExecutable
    rintro _ ⟨⟩ - x hx
    cases hx
  | destroyed x =>
    apply h.setExecutable
    rintro _ ⟨⟩
  | frozen hexec hunfrozen =>
    apply h.setExecutable
    rintro _ ⟨⟩ hfrozen
    cases hfrozen
  | @defined a y address name e hdef hexec =>
    apply h.setExecutable
    rintro _ ⟨⟩ hfrozen
    exact h y e hexec hfrozen
  | @loaded env executable agent codeObject e p p' haccepts hloads hp' =>
    have hgrows : Grows s.heap (afterLoad elf env (s.loading e p) p').heap :=
      grows_loadedSymbols (l := s.loading e p)
    intro y f hf hfrozen x hx
    rcases update_eq_some hf with ⟨-, rfl⟩ | ⟨-, hf⟩
    · rcases List.mem_append.mp hx with hx | hx
      · exact h.grows hgrows haccepts.executable haccepts.unfrozen hx
      · obtain ⟨z, hz, rfl⟩ := List.mem_map.mp hx
        obtain ⟨w, hw, heq⟩ := exists_of_mem_newSymbols hz
        refine ⟨z.2, lookup_loadedSymbols hz, ?_⟩
        rw [heq, firstField_symbol (fresh_of_mem_newSymbols hz).2]
        exact hload env executable agent codeObject e p rfl haccepts w hw
    · exact h.grows hgrows hf hfrozen hx

theorem noAddress_of_loadsNoAddress
    (h : (executableMachine elf).Reachable (LoadsNoAddress elf) s) : NoAddress s := by
  refine h.induction (P := NoAddress) ?_ ?_
  · intro s hinit executable e he
    simp [hinit.2.1] at he
  · intro s a s' _ hload hstep hs
    obtain ⟨status, -, heffect⟩ := step_effect hstep
    exact hs.effect hload heffect

/-- The addresses of a load are visible at once. -/
theorem loadsNoAddress_of_noAddress (hstep : (executableMachine elf).step a s = some s')
    (h : NoAddress s') : LoadsNoAddress elf s a := by
  rintro env executable agent codeObject e p rfl haccepts y hy
  obtain ⟨status, hcall, -⟩ := step_effect hstep
  obtain ⟨hloads, -, p', hp', rfl⟩ := load_accepted haccepts (executableCall_load hcall)
  obtain ⟨z, hz, heq⟩ :=
    exists_mem_newSymbols env.allocator (p.library env.dl) s.heap hy
  have hmem : z.1 ∈ (afterLoad elf env (s.loading e p) p').executable.symbols :=
    List.mem_append.mpr (.inr (List.mem_map.mpr ⟨z, hz, rfl⟩))
  obtain ⟨symbol, hsymbol, hzero⟩ :=
    h executable _ (Function.update_self ..) haccepts.unfrozen z.1 hmem
  have hlookup : (afterLoad elf env (s.loading e p) p').heap.lookup z.1 = some z.2 :=
    lookup_loadedSymbols (l := s.loading e p) hz
  obtain rfl : z.2 = symbol := Option.some.inj (hlookup.symm.trans hsymbol)
  rw [heq, firstField_symbol (fresh_of_mem_newSymbols hz).2] at hzero
  exact hzero

/-- **Addresses become visible only by freezing** if and only if no load registers a kernel, or
a variable that has an address. What is visible is what the load has recorded. -/
theorem visible_iff (hrun : (executableMachine elf).Run tr s) :
    (∀ t ∈ states tr s, HidesAddresses t ∧ ∀ q ∈ tr, ReadsRecorded elf q.1 q.2 t) ↔
      ∀ q ∈ tr, LoadsNoAddress elf q.1 q.2 := by
  have hreach : ∀ t ∈ states tr s, (executableMachine elf).Reachable always t := fun t ht =>
    hrun.reachable_of_mem_states (fun _ _ => trivial) ht
  constructor
  · intro hall q hq
    obtain ⟨t, ht, hstep⟩ := hrun.exists_next hq
    apply loadsNoAddress_of_noAddress hstep
    exact (hidesAddresses_iff (wellFormed (hreach t ht))).mp (hall t ht).1
  · intro hall t ht
    have hnone := noAddress_of_loadsNoAddress (hrun.reachable_of_mem_states hall ht)
    refine ⟨(hidesAddresses_iff (wellFormed (hreach t ht))).mpr hnone, ?_⟩
    intro q _
    exact readsRecorded (hreach t ht)

/-- An executable that is created and frozen, without a load. -/
theorem visible_frozen : ∃ tr s, (executableMachine fun _ => none).Run tr s ∧ tr.length = 2 ∧
    ∀ t ∈ states tr s, HidesAddresses t ∧ ∀ q ∈ tr, ReadsRecorded (fun _ => none) q.1 q.2 t := by
  let created := emptyState.setExecutable 1 (some (.create 0 false))
  have hrun : (executableMachine fun _ => none).Run
      [(created, .freeze 1), (emptyState, .create 1 0 false 8)]
      (created.setExecutable 1 (some (Executable.create 0 false).freeze)) :=
    .step (.step (.init init_emptyState) rfl) rfl
  refine ⟨_, _, hrun, rfl, (visible_iff hrun).mpr ?_⟩
  intro q hq env executable agent codeObject e p hload
  simp only [List.mem_cons, List.not_mem_nil, or_false] at hq
  rcases hq with rfl | rfl
  · cases hload
  · cases hload

/-- The address of a variable is visible before the executable is frozen. -/
theorem address_visible_unfrozen :
    ∃ s, (executableMachine fun _ => some (variableImage [['v']])).Reachable always s ∧
      ((s.executables 1).any fun e => !e.isFrozen && e.symbols.contains 1) = true ∧
      s.hsaExecutableSymbolGetInfo 1 .variableAddress 8 = (.success, some 64) := by
  obtain ⟨s, hreach, hs⟩ := exists_reachable_of_run
    (executableMachine fun _ => some (variableImage [['v']])) always
    [.create 1 0 false 8, .newCodeObject 2 variableProgram,
      .load (libraryEnv fun _ => some 64) 1 0 2]
    (fun s => (s.executables 1).any (fun e => !e.isFrozen && e.symbols.contains 1) &&
      decide (s.hsaExecutableSymbolGetInfo 1 .variableAddress 8 = (.success, some 64)))
    init_emptyState (by decide)
  simp only [Bool.and_eq_true, decide_eq_true_eq] at hs
  exact ⟨s, hreach, hs⟩

end Addresses

end PhsaRuntime
