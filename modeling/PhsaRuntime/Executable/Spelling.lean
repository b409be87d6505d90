import PhsaRuntime.Executable.Lookup

/-!
# The leading `&` of a name

The lookups take the names of symbols and of modules with and without their `&`, each at fixed
positions. `hsa_executable_get_symbol` adds the `&` of a symbol, but takes the first character of
the module away, whatever it is; `FinalizedProgram::findSymbol` keeps the first character of the
name, and removes every `&` behind it. A symbol is registered under a name with an `&`, so that
the spellings of a symbol give different results as soon as it is there.

## Main result

* `spellingsIgnored_iff` — the symbols that are found the same under all spellings.
-/

namespace PhsaRuntime

open Machine

/-! ## The names that are registered -/

variable {elf : ElfReader} {s : ExecutableState} {heap : SymbolHeap} {e : Executable}
  {p : CodeObject} {executable codeObject symbol x y : ℕ}
  {m n name actual actual' : SymbolName}

/-- Every symbol has an `&`. -/
theorem marked_of_reachable {ok : ExecutableState → ExecutableAction → Prop}
    (h : (executableMachine elf).Reachable ok s) :
    ∀ x ∈ s.heap, (nameIn s.heap x).head? = some '&' := by
  refine h.induction (P := fun s => ∀ x ∈ s.heap, (nameIn s.heap x).head? = some '&') ?_ ?_
  · rintro s ⟨-, -, -, hheap⟩ x hx
    simp [hheap] at hx
  · intro s a s' _ _ hstep hmarked
    obtain ⟨status, -, heffect⟩ := step_effect hstep
    cases heffect with
    | unchanged | created | destroyed | madeCodeObject | frozen | defined => exact hmarked
    | @loaded env executable agent codeObject e p p' _ _ _ =>
      intro x hx
      rcases mem_insertAll.mp hx with hold | hnew
      · have hgrows : Grows s.heap (insertAll s.heap (loadedSymbols elf env (s.loading e p))) :=
          grows_loadedSymbols (l := s.loading e p)
        have hname := hgrows.nameIn hold
        exact (congrArg List.head? hname).trans (hmarked x hold)
      · obtain ⟨y, hy, rfl⟩ := List.mem_map.mp hnew
        obtain ⟨z, -, hsymbol⟩ := exists_of_mem_newSymbols hy
        have hname := nameIn_loadedSymbols hy
        rw [hsymbol, name_symbol] at hname
        exact congrArg List.head? hname

/-- A symbol that is found in the index has the name. -/
theorem Registered.nameIn_getSymbol (h : Registered heap e) (hget : e.getSymbol name = some x) :
    nameIn heap x = name := by
  rw [Executable.getSymbol, h.index] at hget
  rcases mem_of_lookup_insertAll hget with hmem | hempty
  · obtain ⟨y, -, heq⟩ := List.mem_map.mp hmem
    obtain ⟨hname, rfl⟩ := Prod.mk.inj heq
    exact hname
  · cases hempty

/-- The index has the same under two names exactly if it has neither. -/
theorem Registered.getSymbol_eq_iff (h : Registered heap e) (hne : actual ≠ actual') :
    e.getSymbol actual = e.getSymbol actual' ↔
      actual ∉ reportedNames heap e.symbols ∧ actual' ∉ reportedNames heap e.symbols := by
  rw [← h.getSymbol_eq_none, ← h.getSymbol_eq_none]
  constructor
  · intro heq
    cases hget : e.getSymbol actual with
    | none => exact ⟨rfl, heq ▸ hget⟩
    | some x =>
      have hname := h.nameIn_getSymbol hget
      have hname' := h.nameIn_getSymbol (heq ▸ hget)
      exact absurd (hname.symm.trans hname') hne
  · rintro ⟨hnone, hnone'⟩
    rw [hnone, hnone']

theorem find?_nameIn_eq_none {symbols : List ℕ} :
    (symbols.find? fun x => nameIn heap x = name) = none ↔ name ∉ reportedNames heap symbols := by
  simp [reportedNames]

/-! ## The lookups -/

/-- The lookups of the symbol `n`, and of the symbol `n` of the module `m`, return the same under
all spellings, and the lookup of a name in a code object stays in the string. -/
structure SpellingsIgnored (s : ExecutableState) (executable codeObject : ℕ)
    (m n name : SymbolName) : Prop where
  getSymbol : ∀ b, s.hsaExecutableGetSymbol executable none (some (spelled b n)) =
    s.hsaExecutableGetSymbol executable none (some (spelled true n))
  getModuleSymbol : ∀ a b,
    s.hsaExecutableGetSymbol executable (some (spelled a m)) (some (spelled b n)) =
      s.hsaExecutableGetSymbol executable (some (spelled true m)) (some (spelled true n))
  codeSymbol : ∀ b symbol, s.hsaCodeObjectGetSymbol codeObject (spelled b n) symbol =
    s.hsaCodeObjectGetSymbol codeObject (spelled true n) symbol
  codeModuleSymbol : ∀ a b symbol,
    s.hsaCodeObjectGetSymbol codeObject (qualified (spelled a m) (spelled b n)) symbol =
      s.hsaCodeObjectGetSymbol codeObject (qualified (spelled true m) (spelled true n)) symbol
  inside : findSymbolName name ≠ none

/-- The executable has no symbol `n` in the module `m`, or in the one that is named by `m` without
its first character; the code object has no symbol `n`, of its own or in the module `m`; and the
name is not empty. -/
structure NotRegistered (s : ExecutableState) (executable codeObject : ℕ)
    (m n name : SymbolName) : Prop where
  executable : ∀ e, s.executables executable = some e →
    moduleName m n ∉ reportedNames s.heap e.symbols ∧
      moduleName m.tail n ∉ reportedNames s.heap e.symbols
  codeObject : ∀ p, s.codeObjects codeObject = some p →
    programName n ∉ reportedNames s.heap p.symbols ∧
      moduleName m n ∉ reportedNames s.heap p.symbols
  name : name ≠ []

/-- The lookups in an executable by two names. -/
theorem hsaExecutableGetSymbol_eq_iff {moduleName moduleName' : Option SymbolName}
    {n' : SymbolName} (hn : n ≠ []) (hn' : n' ≠ []) :
    s.hsaExecutableGetSymbol executable moduleName (some n) =
        s.hsaExecutableGetSymbol executable moduleName' (some n') ↔
      ∀ e, s.executables executable = some e →
        e.getSymbol (executableSymbolName moduleName n) =
          e.getSymbol (executableSymbolName moduleName' n') := by
  cases hexec : s.executables executable with
  | none =>
    obtain ⟨c, rest, rfl⟩ := List.exists_cons_of_ne_nil hn
    obtain ⟨c', rest', rfl⟩ := List.exists_cons_of_ne_nil hn'
    simp [ExecutableState.hsaExecutableGetSymbol, hexec]
  | some e =>
    rw [hsaExecutableGetSymbol_eq hn hexec, hsaExecutableGetSymbol_eq hn' hexec]
    simp only [Option.some.injEq, forall_eq']
    cases e.getSymbol (executableSymbolName moduleName n) with
    | none => cases e.getSymbol (executableSymbolName moduleName' n') <;> simp
    | some x => cases e.getSymbol (executableSymbolName moduleName' n') <;> simp

/-- The lookups in a code object by two names. -/
theorem hsaCodeObjectGetSymbol_eq_iff {n' : SymbolName} (hs : WellFormed s)
    (hfind : findSymbolName n = some actual) (hfind' : findSymbolName n' = some actual') :
    (∀ symbol, s.hsaCodeObjectGetSymbol codeObject n symbol =
        s.hsaCodeObjectGetSymbol codeObject n' symbol) ↔
      ∀ p, s.codeObjects codeObject = some p →
        (p.symbols.find? fun x => nameIn s.heap x = actual) =
          p.symbols.find? fun x => nameIn s.heap x = actual' := by
  cases hprogram : s.codeObjects codeObject with
  | none => simp [ExecutableState.hsaCodeObjectGetSymbol, hprogram]
  | some p =>
    have hlive : ∀ x ∈ p.symbols, x ∈ s.heap := hs.codeObjects codeObject p hprogram
    simp only [ExecutableState.hsaCodeObjectGetSymbol, hs.initialized, hprogram,
      findSymbol_eq hlive, hfind, hfind', Bool.not_true, Bool.false_eq_true, if_false,
      Option.map_some, Option.some.injEq, forall_eq']
    constructor
    · intro h
      have hone := h 1
      revert hone
      cases p.symbols.find? fun x => nameIn s.heap x = actual with
      | none => cases p.symbols.find? fun x => nameIn s.heap x = actual' <;> simp
      | some x => cases p.symbols.find? fun x => nameIn s.heap x = actual' <;> simp
    · intro h symbol
      rw [h]

/-- A name without an `&` finds no symbol, so that a search by a name with one finds the same if
the name is not registered. -/
theorem find?_unmarked_eq_iff {symbols : List ℕ}
    (hmarked : ∀ x ∈ symbols, (nameIn heap x).head? = some '&')
    (hunmarked : actual.head? ≠ some '&') :
    ((symbols.find? fun x => nameIn heap x = actual) =
        symbols.find? fun x => nameIn heap x = actual') ↔
      actual' ∉ reportedNames heap symbols := by
  have hnone : (symbols.find? fun x => nameIn heap x = actual) = none := by
    rw [find?_nameIn_eq_none]
    intro hmem
    obtain ⟨x, hx, rfl⟩ := List.mem_map.mp hmem
    exact hunmarked (hmarked x hx)
  rw [hnone, eq_comm, find?_nameIn_eq_none]

theorem head?_ne_of_isName (h : IsName name) : name.head? ≠ some '&' := by
  obtain ⟨c, l, rfl⟩ := List.exists_cons_of_ne_nil h.ne_nil
  intro hhead
  obtain rfl : c = '&' := by simpa using hhead
  exact h.ampersand List.mem_cons_self

theorem head?_misplacedName_ne (hm : IsName m) : (misplacedName m n).head? ≠ some '&' := by
  obtain ⟨c, l, rfl⟩ := List.exists_cons_of_ne_nil hm.ne_nil
  have hhead := head?_ne_of_isName hm
  simpa [misplacedName, insertAfterFirst] using hhead

/-- The spellings of a symbol in an executable. -/
theorem getSymbol_spelled_iff (hs : WellFormed s) (hm : IsName m) (hn : IsName n) :
    (∀ a b, s.hsaExecutableGetSymbol executable (some (spelled a m)) (some (spelled b n)) =
      s.hsaExecutableGetSymbol executable (some (spelled true m)) (some (spelled true n))) ↔
      ∀ e, s.executables executable = some e →
        moduleName m n ∉ reportedNames s.heap e.symbols ∧
          moduleName m.tail n ∉ reportedNames s.heap e.symbols := by
  simp only [hsaExecutableGetSymbol_eq_iff (spelled_ne_nil hn) (spelled_ne_nil hn),
    executableSymbolName_spelled hm hn, if_true]
  constructor
  · intro h e hexec
    have heq := h false true e hexec
    have hregistered := hs.executables executable e hexec
    exact ((hregistered.getSymbol_eq_iff (moduleName_tail_ne hm)).mp heq).symm
  · intro h a b e hexec
    have hregistered := hs.executables executable e hexec
    cases a with
    | true => rfl
    | false => exact (hregistered.getSymbol_eq_iff (moduleName_tail_ne hm)).mpr (h e hexec).symm

/-- The spellings of a symbol in a code object. -/
theorem codeSymbol_spelled_iff (hs : WellFormed s)
    (hmarked : ∀ x ∈ s.heap, (nameIn s.heap x).head? = some '&') (hn : IsName n) :
    (∀ b symbol, s.hsaCodeObjectGetSymbol codeObject (spelled b n) symbol =
      s.hsaCodeObjectGetSymbol codeObject (spelled true n) symbol) ↔
      ∀ p, s.codeObjects codeObject = some p →
        programName n ∉ reportedNames s.heap p.symbols := by
  have hunmarked : (spelled false n).head? ≠ some '&' := by
    simpa [spelled] using head?_ne_of_isName hn
  rw [Bool.forall_bool, hsaCodeObjectGetSymbol_eq_iff hs (findSymbolName_spelled hn)
    (findSymbolName_spelled hn)]
  simp only [implies_true, and_true]
  apply forall_congr'
  intro p
  apply imp_congr_right
  intro hprogram
  apply find?_unmarked_eq_iff _ hunmarked
  intro x hx
  exact hmarked x (hs.codeObjects codeObject p hprogram x hx)

/-- The spellings of a symbol of a module in a code object. -/
theorem codeModuleSymbol_spelled_iff (hs : WellFormed s)
    (hmarked : ∀ x ∈ s.heap, (nameIn s.heap x).head? = some '&') (hm : IsName m)
    (hn : IsName n) :
    (∀ a b symbol,
      s.hsaCodeObjectGetSymbol codeObject (qualified (spelled a m) (spelled b n)) symbol =
        s.hsaCodeObjectGetSymbol codeObject (qualified (spelled true m) (spelled true n)) symbol) ↔
      ∀ p, s.codeObjects codeObject = some p →
        moduleName m n ∉ reportedNames s.heap p.symbols := by
  have hspelling : ∀ a b, (∀ symbol,
      s.hsaCodeObjectGetSymbol codeObject (qualified (spelled a m) (spelled b n)) symbol =
        s.hsaCodeObjectGetSymbol codeObject (qualified (spelled true m) (spelled true n)) symbol) ↔
      (a = false → ∀ p, s.codeObjects codeObject = some p →
        moduleName m n ∉ reportedNames s.heap p.symbols) := by
    intro a b
    rw [hsaCodeObjectGetSymbol_eq_iff hs (findSymbolName_qualified hm hn)
      (findSymbolName_qualified hm hn)]
    cases a with
    | true => simp
    | false =>
      simp only [Bool.false_eq_true, if_false, if_true, forall_const]
      apply forall_congr'
      intro p
      apply imp_congr_right
      intro hprogram
      apply find?_unmarked_eq_iff _ (head?_misplacedName_ne hm)
      intro x hx
      exact hmarked x (hs.codeObjects codeObject p hprogram x hx)
  simp only [hspelling]
  constructor
  · intro h
    exact h false false rfl
  · intro h _ _ _
    exact h

/-- **The leading `&` is ignored** exactly if the symbol is nowhere registered: the lookups of a
symbol in an executable and in a code object return the same under all spellings, and the search
for a name stays in the string, if and only if neither has the symbol, the executable does not
have it in the module that the first character is taken away from, and the name is not empty. -/
theorem spellingsIgnored_iff {elf : ElfReader} {s : ExecutableState} {m n : SymbolName}
    (h : (executableMachine elf).Reachable always s) (hm : IsName m) (hn : IsName n)
    (executable codeObject : ℕ) (name : SymbolName) :
    SpellingsIgnored s executable codeObject m n name ↔
      NotRegistered s executable codeObject m n name := by
  have hs : WellFormed s := wellFormed h
  have hmarked := marked_of_reachable h
  have hgetSymbol : ∀ b, s.hsaExecutableGetSymbol executable none (some (spelled b n)) =
      s.hsaExecutableGetSymbol executable none (some (spelled true n)) := by
    intro b
    apply (hsaExecutableGetSymbol_eq_iff (spelled_ne_nil hn) (spelled_ne_nil hn)).mpr
    simp [executableSymbolName_none_spelled hn]
  constructor
  · rintro ⟨-, hmodule, hcode, hcodeModule, hinside⟩
    refine ⟨(getSymbol_spelled_iff hs hm hn).mp hmodule, fun p hp => ⟨?_, ?_⟩, ?_⟩
    · exact (codeSymbol_spelled_iff hs hmarked hn).mp hcode p hp
    · exact (codeModuleSymbol_spelled_iff hs hmarked hm hn).mp hcodeModule p hp
    · exact fun hempty => hinside (findSymbolName_eq_none_iff.mpr hempty)
  · rintro ⟨hexecutable, hcodeObject, hname⟩
    refine ⟨hgetSymbol, (getSymbol_spelled_iff hs hm hn).mpr hexecutable, ?_, ?_, ?_⟩
    · exact (codeSymbol_spelled_iff hs hmarked hn).mpr fun p hp => (hcodeObject p hp).1
    · exact (codeModuleSymbol_spelled_iff hs hmarked hm hn).mpr fun p hp => (hcodeObject p hp).2
    · exact fun hnone => hname (findSymbolName_eq_none_iff.mp hnone)

/-- The symbol `v` of the program is registered, and the symbol `w` of the module `m` is not. -/
theorem spellingsIgnored_missing :
    ∃ s, (executableMachine fun _ => some (variableImage [['v']])).Reachable always s ∧
      (s.executables 1).isSome ∧ SpellingsIgnored s 1 2 ['m'] ['w'] ['v'] := by
  obtain ⟨s, hreach, hs⟩ := exists_reachable_of_run
    (executableMachine fun _ => some (variableImage [['v']])) always
    [.create 1 0 false 8, .newCodeObject 2 variableProgram,
      .load (libraryEnv fun _ => some 64) 1 0 2]
    (fun s => (s.executables 1).any (fun e => reportedNames s.heap e.symbols = [['&', 'v']]) &&
      (s.codeObjects 2).any fun p => reportedNames s.heap p.symbols = [['&', 'v']])
    init_emptyState (by decide)
  rw [Bool.and_eq_true] at hs
  obtain ⟨hexec, hcode⟩ := hs
  obtain ⟨e, he, hnames⟩ := (Option.any_eq_true _ _).mp hexec
  obtain ⟨p, hp, hnames'⟩ := (Option.any_eq_true _ _).mp hcode
  rw [decide_eq_true_eq] at hnames hnames'
  have hm : IsName ['m'] := ⟨by decide, by decide, by decide⟩
  have hn : IsName ['w'] := ⟨by decide, by decide, by decide⟩
  refine ⟨s, hreach, Option.isSome_iff_exists.mpr ⟨e, he⟩,
    (spellingsIgnored_iff hreach hm hn 1 2 ['v']).mpr ⟨?_, ?_, by decide⟩⟩
  · intro e' he'
    rw [he, Option.some.injEq] at he'
    rw [← he', hnames]
    decide
  · intro p' hp'
    rw [hp, Option.some.injEq] at hp'
    rw [← hp', hnames']
    decide

/-- The variable `s` of the module `m` is found by its marked spelling only, in both lookups, and
the search for the empty name leaves the string. -/
theorem spellings_differ :
    ∃ s, (executableMachine fun _ =>
        some (variableImage [gccbrigPrefix ++ ['m', '.', 's']])).Reachable always s ∧
      ((s.hsaExecutableGetSymbol 1 (some ['&', 'm']) (some ['s'])).map Prod.fst = some .success ∧
        s.hsaExecutableGetSymbol 1 (some ['m']) (some ['s']) =
          some (.errorInvalidSymbolName, none)) ∧
      ((s.hsaCodeObjectGetSymbol 2 "&m::s".toList 8).map Prod.fst = some .success ∧
        s.hsaCodeObjectGetSymbol 2 "m::s".toList 8 = some (.errorInvalidSymbolName, none)) ∧
      s.hsaCodeObjectGetSymbol 2 [] 8 = none := by
  obtain ⟨s, hreach, hs⟩ := exists_reachable_of_run
    (executableMachine fun _ => some (variableImage [gccbrigPrefix ++ ['m', '.', 's']])) always
    [.create 1 0 false 8, .newCodeObject 2 variableProgram,
      .load (libraryEnv fun _ => some 64) 1 0 2]
    (fun s => decide (
      ((s.hsaExecutableGetSymbol 1 (some ['&', 'm']) (some ['s'])).map Prod.fst = some .success ∧
        s.hsaExecutableGetSymbol 1 (some ['m']) (some ['s']) =
          some (.errorInvalidSymbolName, none)) ∧
      ((s.hsaCodeObjectGetSymbol 2 "&m::s".toList 8).map Prod.fst = some .success ∧
        s.hsaCodeObjectGetSymbol 2 "m::s".toList 8 = some (.errorInvalidSymbolName, none)) ∧
      s.hsaCodeObjectGetSymbol 2 [] 8 = none))
    init_emptyState (by decide +kernel)
  exact ⟨s, hreach, of_decide_eq_true hs⟩

end PhsaRuntime
