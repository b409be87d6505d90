import PhsaRuntime.Executable.Effect

/-!
# The symbols of executables and of code objects

A load registers the exported names of the code object once more, whatever is registered
already. The list of the executable gets a second symbol, its index the last one, and the code
object gets its symbols again.

## Main results

* `agree_iff` — the iteration and the lookup agree if and only if no name was loaded twice.
* `unchangedByLoading_iff` — the symbols of a code object do not depend on loading if and only if
  it has none.
-/

namespace PhsaRuntime

open Machine

variable {elf : ElfReader} {env : LoadEnv} {s s' : ExecutableState} {a : ExecutableAction}
  {tr : List (ExecutableState × ExecutableAction)} {status : HsaStatus} {e e' : Executable}
  {p : CodeObject} {l : Loading} {executable agent codeObject x : ℕ} {name : SymbolName}

/-! ## The names in an executable -/

/-- The executable and the program of a call that gets to the load. -/
def acceptedLoad (s : ExecutableState) (executable agent codeObject : ℕ) :
    Option (Executable × CodeObject) :=
  match s.executables executable, s.codeObjects codeObject with
  | some e, some p =>
    if s.initialized && !e.isFrozen && s.isAgent agent && codeObject ≠ 0 then some (e, p) else none
  | _, _ => none

/-- The names that a call registers with the executable. -/
def loadNames (elf : ElfReader) (executable : ℕ) (s : ExecutableState) :
    ExecutableAction → List SymbolName
  | .load _ x agent codeObject =>
    if x = executable then
      ((acceptedLoad s x agent codeObject).map fun r =>
        (codeExports elf r.2.toFinalizedProgram).map fun y => '&' :: y.1).getD []
    else []
  | _ => []

/-- The names that were registered with the executable since it was created. -/
def loadedNames (elf : ElfReader) (executable : ℕ) :
    List (ExecutableState × ExecutableAction) → List SymbolName
  | [] => []
  | (s, a) :: tr =>
    if a.creates executable then []
    else loadedNames elf executable tr ++ loadNames elf executable s a

theorem acceptedLoad_eq_some :
    acceptedLoad s executable agent codeObject = some (e, p) ↔
      Accepts s executable agent codeObject e p := by
  constructor
  · intro h
    simp only [acceptedLoad] at h
    split at h
    · rename_i hexec hprogram
      split at h
      · rename_i hcheck
        simp only [Bool.and_eq_true, Bool.not_eq_true', decide_eq_true_eq] at hcheck
        obtain ⟨rfl, rfl⟩ := Prod.mk.inj (Option.some.inj h)
        exact ⟨hcheck.1.1.1, hexec, hcheck.1.1.2, hcheck.1.2, hcheck.2, hprogram⟩
      · cases h
    · cases h
  · intro h
    simp [acceptedLoad, h.initialized, h.executable, h.unfrozen, h.agent, h.handle, h.program]

theorem loadNames_of_accepts (h : Accepts s executable agent codeObject e p) :
    loadNames elf executable s (.load env executable agent codeObject) =
      (codeExports elf p.toFinalizedProgram).map fun y => '&' :: y.1 := by
  simp [loadNames, acceptedLoad_eq_some.mpr h]

theorem loadNames_eq_nil
    (h : ∀ env agent codeObject e p, a = .load env executable agent codeObject →
      ¬ Accepts s executable agent codeObject e p) : loadNames elf executable s a = [] := by
  cases a with
  | load env x agent codeObject =>
    by_cases hx : x = executable
    · rw [hx] at h ⊢
      cases haccepted : acceptedLoad s executable agent codeObject with
      | none => simp [loadNames, haccepted]
      | some r => exact absurd (acceptedLoad_eq_some.mp haccepted) (h env agent codeObject _ _ rfl)
    · exact if_neg hx
  | create | destroy | newCodeObject | freeze | globalVariableDefine | agentGlobalVariableDefine
  | readonlyVariableDefine | query => rfl

/-- The names of the symbols of an executable. -/
def reportedNames (heap : SymbolHeap) (symbols : List ℕ) : List SymbolName :=
  symbols.map (nameIn heap)

theorem reportedNames_grows {heap heap' : SymbolHeap} {symbols : List ℕ}
    (hgrows : Grows heap heap') (hlive : ∀ x ∈ symbols, x ∈ heap) :
    reportedNames heap' symbols = reportedNames heap symbols :=
  List.map_congr_left fun x hx => hgrows.nameIn (hlive x hx)

/-- What a load adds to a list of symbols. -/
theorem reportedNames_loadedSymbols (elf : ElfReader) (env : LoadEnv) {symbols : List ℕ}
    (hlive : ∀ x ∈ symbols, x ∈ l.heap) :
    reportedNames (insertAll l.heap (loadedSymbols elf env l))
        (symbols ++ (loadedSymbols elf env l).map Prod.fst) =
      reportedNames l.heap symbols ++
        (codeExports elf l.program.toFinalizedProgram).map fun y => '&' :: y.1 := by
  have hnews : reportedNames (insertAll l.heap (loadedSymbols elf env l))
      ((loadedSymbols elf env l).map Prod.fst) =
      (codeExports elf l.program.toFinalizedProgram).map fun y => '&' :: y.1 := by
    rw [reportedNames, List.map_map, ← names_newSymbols]
    exact List.map_congr_left fun y hy => nameIn_loadedSymbols hy
  rw [← hnews, ← reportedNames_grows grows_loadedSymbols hlive]
  exact List.map_append

/-- A call that registers nothing with the executable leaves its symbols as they are. -/
theorem Changed.symbols_eq (h : Changed elf s a executable e e')
    (hload : ∀ env agent codeObject e p, a = .load env executable agent codeObject →
      ¬ Accepts s executable agent codeObject e p) : e'.symbols = e.symbols := by
  cases h with
  | same | frozen | defined => rfl
  | @loaded env agent codeObject p heq haccepts =>
    exact absurd haccepts (hload env agent codeObject e p heq)

/-- **The names of the symbols of an executable** are those that were registered with it. -/
theorem reportedNames_eq_loadedNames (hrun : (executableMachine elf).Run tr s)
    (hexec : s.executables executable = some e) :
    reportedNames s.heap e.symbols = loadedNames elf executable tr := by
  induction hrun generalizing e with
  | init hinit => simp [hinit.2.1] at hexec
  | @step tr s s' a hrun hstep ih =>
    obtain ⟨status, hcall, heffect⟩ := step_effect hstep
    rw [loadedNames]
    by_cases hcreates : a.creates executable = true
    · obtain ⟨profile, frozen, rfl⟩ := create_of_creates hcall hcreates hexec
      rw [if_pos hcreates]
      rfl
    · rw [if_neg hcreates]
      have hs : WellFormed s := wellFormed hrun.reachable
      by_cases hload : ∃ env agent codeObject e p, a = .load env executable agent codeObject ∧
          Accepts s executable agent codeObject e p
      · obtain ⟨env, agent, codeObject, e₀, p, rfl, haccepts⟩ := hload
        obtain ⟨hloads, -, p', hp', rfl⟩ := load_accepted haccepts (executableCall_load hcall)
        rcases update_eq_some hexec with ⟨-, rfl⟩ | ⟨hne, -⟩
        · rw [loadNames_of_accepts haccepts, ← ih haccepts.executable]
          exact reportedNames_loadedSymbols elf env (l := s.loading e₀ p)
            (hs.executables executable e₀ haccepts.executable).live
        · exact absurd rfl hne
      · have hnone : ∀ env agent codeObject e p, a = .load env executable agent codeObject →
            ¬ Accepts s executable agent codeObject e p := fun env agent codeObject e p heq h =>
          hload ⟨env, agent, codeObject, e, p, heq, h⟩
        obtain ⟨e₀, he₀, hchanged⟩ := heffect.changed (by simpa using hcreates) hexec
        rw [loadNames_eq_nil hnone, List.append_nil, ← ih he₀, hchanged.symbols_eq hnone]
        exact reportedNames_grows heffect.grows (hs.executables executable e₀ he₀).live

/-! ## Iteration and lookup -/

/-- The iteration of an executable reports `symbols`, each name once, and the lookup of a name
finds what is reported. -/
structure Agree (s : ExecutableState) (executable : ℕ) (symbols : List ℕ) : Prop where
  reported : s.hsaExecutableIterateSymbols executable (fun _ => .success) =
    some (.success, symbols)
  nodup : (reportedNames s.heap symbols).Nodup
  found : ∀ x ∈ symbols, ∀ name, name ≠ [] →
    executableSymbolName none name = nameIn s.heap x →
      s.hsaExecutableGetSymbol executable none (some name) = some (.success, some x)
  notFound : ∀ name, name ≠ [] → executableSymbolName none name ∉ reportedNames s.heap symbols →
    s.hsaExecutableGetSymbol executable none (some name) = some (.errorInvalidSymbolName, none)

@[simp] theorem iterate_success {symbols : List ℕ} :
    ExecutableState.iterate (fun _ => .success) symbols = (.success, symbols) := by
  induction symbols with
  | nil => rfl
  | cons x symbols ih => simp [ExecutableState.iterate, ih]

theorem hsaExecutableGetSymbol_eq {moduleName : Option SymbolName} (hname : name ≠ [])
    (hexec : s.executables executable = some e) :
    s.hsaExecutableGetSymbol executable moduleName (some name) =
      some ((e.getSymbol (executableSymbolName moduleName name)).elim
        (.errorInvalidSymbolName, none) fun symbol => (.success, some symbol)) := by
  obtain ⟨c, rest, rfl⟩ := List.exists_cons_of_ne_nil hname
  simp only [ExecutableState.hsaExecutableGetSymbol, hexec, Option.map_some]
  cases e.getSymbol (executableSymbolName moduleName (c :: rest)) <;> rfl

theorem map_fst_pairs {heap : SymbolHeap} {symbols : List ℕ} :
    (symbols.map fun x => (nameIn heap x, x)).map Prod.fst = reportedNames heap symbols := by
  rw [List.map_map]
  rfl

/-- What the index has for a name, where names are registered once. -/
theorem Registered.getSymbol_eq_some {heap : SymbolHeap} (h : Registered heap e)
    (hnodup : (reportedNames heap e.symbols).Nodup) :
    e.getSymbol name = some x ↔ x ∈ e.symbols ∧ nameIn heap x = name := by
  rw [Executable.getSymbol, h.index,
    lookup_insertAll_empty_iff (by rwa [map_fst_pairs]), List.mem_map]
  constructor
  · rintro ⟨y, hy, heq⟩
    obtain ⟨rfl, rfl⟩ := Prod.mk.inj heq
    exact ⟨hy, rfl⟩
  · rintro ⟨hx, rfl⟩
    exact ⟨x, hx, rfl⟩

/-- What the index does not have. -/
theorem Registered.getSymbol_eq_none {heap : SymbolHeap} (h : Registered heap e) :
    e.getSymbol name = none ↔ name ∉ reportedNames heap e.symbols := by
  rw [Executable.getSymbol, h.index, lookup_insertAll_empty_eq_none, map_fst_pairs]

/-- **The iteration and the lookup agree** if and only if no name was registered twice. -/
theorem agree_iff (hrun : (executableMachine elf).Run tr s)
    (hlive : (s.executables executable).isSome) :
    (∃ symbols, Agree s executable symbols) ↔ (loadedNames elf executable tr).Nodup := by
  obtain ⟨e, hexec⟩ := Option.isSome_iff_exists.mp hlive
  have hs : WellFormed s := wellFormed hrun.reachable
  have hreport : s.hsaExecutableIterateSymbols executable (fun _ => .success) =
      some (.success, e.symbols) := by
    simp [ExecutableState.hsaExecutableIterateSymbols, hs.initialized, hexec]
  rw [← reportedNames_eq_loadedNames hrun hexec]
  constructor
  · rintro ⟨symbols, h⟩
    have heq := hreport.symm.trans h.reported
    obtain rfl : e.symbols = symbols := by simpa using heq
    exact h.nodup
  · intro hnodup
    have hregistered := hs.executables executable e hexec
    refine ⟨e.symbols, hreport, hnodup, ?_, ?_⟩
    · intro x hx name hname heq
      rw [hsaExecutableGetSymbol_eq hname hexec, heq,
        (hregistered.getSymbol_eq_some hnodup).mpr ⟨hx, rfl⟩]
      rfl
    · intro name hname hnot
      rw [hsaExecutableGetSymbol_eq hname hexec, hregistered.getSymbol_eq_none.mpr hnot]
      rfl

/-- An executable with two variables of one program. -/
theorem agree_two_variables :
    ∃ s, (executableMachine fun _ => some (variableImage [['v'], ['w']])).Reachable always s ∧
      ∃ symbols, Agree s 1 symbols := by
  obtain ⟨tr, s, hrun, hs⟩ := exists_run_of_trace
    (executableMachine fun _ => some (variableImage [['v'], ['w']]))
    [.create 1 0 false 8, .newCodeObject 2 variableProgram,
      .load (libraryEnv fun _ => some 64) 1 0 2]
    (fun tr s => (s.executables 1).isSome && decide (loadedNames
      (fun _ => some (variableImage [['v'], ['w']])) 1 tr = [['&', 'v'], ['&', 'w']]))
    init_emptyState (by decide)
  simp only [Bool.and_eq_true, decide_eq_true_eq] at hs
  exact ⟨s, hrun.reachable, (agree_iff hrun hs.1).mpr (by rw [hs.2]; decide)⟩

/-- A code object that is loaded twice. -/
theorem not_agree_loaded_twice :
    ∃ s, (executableMachine fun _ => some (variableImage [['v']])).Reachable always s ∧
      (s.executables 1).isSome ∧ ∀ symbols, ¬ Agree s 1 symbols := by
  obtain ⟨s, hreach, hs⟩ := exists_reachable_of_run
    (executableMachine fun _ => some (variableImage [['v']])) always
    [.create 1 0 false 8, .newCodeObject 2 variableProgram,
      .load (libraryEnv fun _ => some 64) 1 0 2, .load (libraryEnv fun _ => some 64) 1 0 2]
    (fun s => (s.executables 1).isSome && decide (((s.hsaExecutableIterateSymbols 1
      fun _ => .success).map fun r => reportedNames s.heap r.2) = some [['&', 'v'], ['&', 'v']]))
    init_emptyState (by decide)
  simp only [Bool.and_eq_true, decide_eq_true_eq] at hs
  refine ⟨s, hreach, hs.1, ?_⟩
  intro symbols hagree
  have hnodup := hagree.nodup
  rw [hagree.reported] at hs
  have hnames : reportedNames s.heap symbols = [['&', 'v'], ['&', 'v']] := by simpa using hs.2
  rw [hnames] at hnodup
  revert hnodup
  decide

/-! ## The symbols of a code object -/

/-- The names that the iteration of a code object reports. -/
def codeNames (s : ExecutableState) (codeObject : ℕ) : List SymbolName :=
  reportedNames s.heap (s.hsaCodeObjectIterateSymbols codeObject fun _ => .success).2

/-- The code object shows the same symbols in both states, each name once. -/
structure SameSymbols (codeObject : ℕ) (s t : ExecutableState) : Prop where
  names : codeNames s codeObject = codeNames t codeObject
  nodup : (codeNames s codeObject).Nodup
  lookup : ∀ name symbol, s.hsaCodeObjectGetSymbol codeObject name symbol =
    t.hsaCodeObjectGetSymbol codeObject name symbol

/-- No load of the code object registers anything. -/
def LoadsNothing (elf : ElfReader) (codeObject : ℕ) (s : ExecutableState) (a : ExecutableAction) :
    Prop :=
  ∀ env executable agent e p, a = .load env executable agent codeObject →
    Accepts s executable agent codeObject e p → codeExports elf p.toFinalizedProgram = []

theorem codeNames_eq (h : s.codeObjects codeObject = some p) :
    codeNames s codeObject = reportedNames s.heap p.symbols := by
  simp [codeNames, ExecutableState.hsaCodeObjectIterateSymbols, h]

/-- A code object without symbols shows none. -/
theorem sameSymbols_of_nil {t : ExecutableState} {p' : CodeObject} (hs : WellFormed s)
    (ht : WellFormed t) (hp : s.codeObjects codeObject = some p) (hp' : t.codeObjects codeObject =
      some p') (hnil : p.symbols = []) (hnil' : p'.symbols = []) :
    SameSymbols codeObject s t where
  names := by rw [codeNames_eq hp, codeNames_eq hp', hnil, hnil']; rfl
  nodup := by rw [codeNames_eq hp, hnil]; exact List.nodup_nil
  lookup name symbol := by
    simp [ExecutableState.hsaCodeObjectGetSymbol, hs.initialized, ht.initialized, hp, hp',
      findSymbol, hnil, hnil']

/-- A call that registers nothing leaves the code object without symbols. -/
theorem Effect.codeObject_nil (h : Effect elf s a status s')
    (hload : LoadsNothing elf codeObject s a)
    (hnil : ∀ p, s.codeObjects codeObject = some p → p.symbols = []) :
    ∀ p, s'.codeObjects codeObject = some p → p.symbols = [] := by
  intro q hq
  cases h with
  | unchanged | created | destroyed | frozen | defined => exact hnil q hq
  | @madeCodeObject c p hfree hsymbols =>
    rcases update_eq_some hq with ⟨-, rfl⟩ | ⟨-, hq⟩
    · exact hsymbols
    · exact hnil q hq
  | @loaded env executable agent c e p p' haccepts hloads hp' =>
    rcases update_eq_some hq with ⟨rfl, rfl⟩ | ⟨-, hq⟩
    · have hexports := hload env executable agent e p rfl haccepts
      have hnews : loadedSymbols elf env (s.loading e p) = [] := newSymbols_eq_nil.mpr hexports
      have hold : p'.symbols = [] := hp'.trans (hnil p haccepts.program)
      simp [afterLoad, hnews, hold]
    · exact hnil q hq

/-- Without such loads a code object has no symbols. -/
theorem symbols_nil_of_loadsNothing
    (h : (executableMachine elf).Reachable (LoadsNothing elf codeObject) s) :
    ∀ p, s.codeObjects codeObject = some p → p.symbols = [] := by
  refine h.induction
    (P := fun s => ∀ p, s.codeObjects codeObject = some p → p.symbols = []) ?_ ?_
  · rintro s ⟨-, -, hcode, -⟩ p hp
    simp [hcode] at hp
  · intro s a s' _ hload hstep hs
    obtain ⟨status, -, heffect⟩ := step_effect hstep
    exact heffect.codeObject_nil hload hs

/-- A load adds what it registers to the names of the code object. -/
theorem codeNames_loaded {p' : CodeObject} (hs : WellFormed s)
    (haccepts : Accepts s executable agent codeObject e p) (hp' : p'.symbols = p.symbols) :
    codeNames (s.loaded executable codeObject (afterLoad elf env (s.loading e p) p')) codeObject =
      codeNames s codeObject ++
        (codeExports elf p.toFinalizedProgram).map fun y => '&' :: y.1 := by
  have hafter : (s.loaded executable codeObject
      (afterLoad elf env (s.loading e p) p')).codeObjects codeObject =
      some (afterLoad elf env (s.loading e p) p').program := Function.update_self ..
  have hsymbols : (afterLoad elf env (s.loading e p) p').program.symbols =
      p.symbols ++ (loadedSymbols elf env (s.loading e p)).map Prod.fst := by
    rw [← hp']
    rfl
  have hlive : ∀ x ∈ p.symbols, x ∈ s.heap := hs.codeObjects codeObject p haccepts.program
  rw [codeNames_eq haccepts.program, codeNames_eq hafter, hsymbols]
  exact reportedNames_loadedSymbols elf env (l := s.loading e p) hlive

/-- **The symbols of a code object do not depend on loading** if and only if no load of it
registers anything. -/
theorem unchangedByLoading_iff (hrun : (executableMachine elf).Run tr s) (codeObject : ℕ) :
    (∀ t ∈ states tr s, ∀ t' ∈ states tr s, (t.codeObjects codeObject).isSome →
      (t'.codeObjects codeObject).isSome → SameSymbols codeObject t t') ↔
      ∀ q ∈ tr, LoadsNothing elf codeObject q.1 q.2 := by
  have halways : ∀ q ∈ tr, always q.1 q.2 := fun _ _ => trivial
  have hwf : ∀ t ∈ states tr s, WellFormed t := fun t ht =>
    wellFormed (hrun.reachable_of_mem_states halways ht)
  constructor
  · rintro hall ⟨t, a⟩ hq env executable agent e p heq haccepts
    obtain rfl : a = .load env executable agent codeObject := heq
    obtain ⟨t', ht', hstep⟩ := hrun.exists_next hq
    obtain ⟨status, hcall, -⟩ := step_effect hstep
    obtain ⟨hloads, -, p', hp', rfl⟩ := load_accepted haccepts (executableCall_load hcall)
    have ht : t ∈ states tr s := List.mem_cons_of_mem s (List.mem_map.mpr ⟨_, hq, rfl⟩)
    have hafter : ((t.loaded executable codeObject
        (afterLoad elf env (t.loading e p) p')).codeObjects codeObject).isSome := by
      simp [ExecutableState.loaded]
    have hsame := hall t ht _ ht' (Option.isSome_iff_exists.mpr ⟨p, haccepts.program⟩) hafter
    have hnames := hsame.names.trans (codeNames_loaded (hwf t ht) haccepts hp')
    have hlength := congrArg List.length hnames
    rw [List.length_append, List.length_map] at hlength
    exact List.length_eq_zero_iff.mp (Nat.left_eq_add.mp hlength)
  · intro hall t ht t' ht' hlive hlive'
    have hnil : ∀ t ∈ states tr s, ∀ p, t.codeObjects codeObject = some p → p.symbols = [] :=
      fun t ht => symbols_nil_of_loadsNothing (hrun.reachable_of_mem_states hall ht)
    obtain ⟨p, hp⟩ := Option.isSome_iff_exists.mp hlive
    obtain ⟨p', hp'⟩ := Option.isSome_iff_exists.mp hlive'
    exact sameSymbols_of_nil (hwf t ht) (hwf t' ht') hp hp' (hnil t ht p hp) (hnil t' ht' p' hp')

/-- A program without symbols is loaded twice. -/
theorem unchangedByLoading_no_symbols :
    ∃ tr s, (executableMachine fun _ => some (variableImage [])).Run tr s ∧ tr.length = 4 ∧
      ∀ t ∈ states tr s, ∀ t' ∈ states tr s, (t.codeObjects 2).isSome →
        (t'.codeObjects 2).isSome → SameSymbols 2 t t' := by
  obtain ⟨tr, s, hrun, hlength⟩ := exists_run_of_trace
    (executableMachine fun _ => some (variableImage []))
    [.create 1 0 false 8, .newCodeObject 2 variableProgram,
      .load (libraryEnv fun _ => some 64) 1 0 2, .load (libraryEnv fun _ => some 64) 1 0 2]
    (fun tr _ => decide (tr.length = 4)) init_emptyState (by decide)
  refine ⟨tr, s, hrun, of_decide_eq_true hlength, (unchangedByLoading_iff hrun 2).mpr ?_⟩
  intro q _ env executable agent e p _ _
  rfl

/-- A code object gets its symbols when it is loaded. -/
theorem exists_change_by_loading :
    ∃ tr s, (executableMachine fun _ => some (variableImage [['v']])).Run tr s ∧
      ∃ t ∈ states tr s, (t.codeObjects 2).isSome ∧ (s.codeObjects 2).isSome ∧
        ¬ SameSymbols 2 t s := by
  obtain ⟨tr, s, hrun, hs⟩ := exists_run_of_trace
    (executableMachine fun _ => some (variableImage [['v']]))
    [.create 1 0 false 8, .newCodeObject 2 variableProgram,
      .load (libraryEnv fun _ => some 64) 1 0 2]
    (fun tr s => (tr.head?.any fun q => (q.1.codeObjects 2).isSome && (codeNames q.1 2).isEmpty) &&
      ((s.codeObjects 2).isSome && decide (codeNames s 2 = [['&', 'v']])))
    init_emptyState (by decide)
  simp only [Bool.and_eq_true, decide_eq_true_eq] at hs
  obtain ⟨hbefore, hlive, hafter⟩ := hs
  obtain ⟨q, hq, hempty⟩ := (Option.any_eq_true _ _).mp hbefore
  simp only [Bool.and_eq_true, List.isEmpty_iff] at hempty
  refine ⟨tr, s, hrun, q.1, ?_, hempty.1, hlive, ?_⟩
  · exact List.mem_cons_of_mem s (List.mem_map.mpr ⟨q, List.mem_of_mem_head? hq, rfl⟩)
  · intro hsame
    have hnames := hsame.names
    rw [hempty.2, hafter] at hnames
    cases hnames

end PhsaRuntime
