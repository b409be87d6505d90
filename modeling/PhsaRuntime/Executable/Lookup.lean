import Mathlib.Data.List.Find
import PhsaRuntime.Executable.Symbols

/-!
# The lookups by name

A symbol is looked up in a code object, in the list of its symbols, and in an executable, in the
index. The names of the application are rewritten to the registered names by different
functions. After a load into a new executable both lookups have the same symbols before them.

## Main results

* `oneMangling` — the three functions that derive the name of a symbol agree, and derive
  different names for different symbols.
* `lookups_agree` — both lookups find the same symbol after a first load.
-/

namespace PhsaRuntime

open Machine

variable {m n m' n' name : SymbolName} {elf : ElfReader} {env : LoadEnv} {s s' : ExecutableState}
  {heap : SymbolHeap} {e : Executable} {p : CodeObject} {executable agent codeObject x : ℕ}
  {status : HsaStatus}

/-- The lookups of the symbol `n` of the module `m`, and of the symbol `n` of the program, derive
the names under which they are registered, and no other symbol has these names. -/
structure OneMangling (m n : SymbolName) : Prop where
  findModule : findSymbolName ('&' :: (m ++ ':' :: ':' :: '&' :: n)) = some (moduleName m n)
  getModule : executableSymbolName (some ('&' :: m)) ('&' :: n) = moduleName m n
  registersModule : ∀ (k : Export) (this address : ℕ),
    (k.symbol (gccbrigPrefix ++ (m ++ '.' :: n)) this address).name = moduleName m n
  visibleModule : isHidden (gccbrigPrefix ++ (m ++ '.' :: n)) = false
  findProgram : findSymbolName ('&' :: n) = some (programName n)
  getProgram : executableSymbolName none ('&' :: n) = programName n
  registersProgram : ∀ (k : Export) (this address : ℕ),
    (k.symbol n this address).name = programName n
  moduleName_injective : ∀ m' n', IsIdentifier m' → IsIdentifier n' →
    moduleName m' n' = moduleName m n → m' = m ∧ n' = n
  moduleName_ne : ∀ m' n', IsIdentifier m' → IsIdentifier n' → moduleName m' n' ≠ programName n
  programName_injective : ∀ n', programName n' = programName n → n' = n

/-- No symbol of a module is hidden. -/
theorem isHidden_gccbrig (rest : SymbolName) : isHidden (gccbrigPrefix ++ rest) = false := by
  have hprefix : gccbrigPrefix.isPrefixOf (gccbrigPrefix ++ rest) = true := by simp
  have hinternal : gccbrigPrefix ++ rest ∉ internalSymbols := by
    intro hmem
    have hall : ∀ name ∈ internalSymbols, gccbrigPrefix.isPrefixOf name = false := by decide
    rw [hall _ hmem] at hprefix
    cases hprefix
  have hne : (gccbrigPrefix ++ rest).isEmpty = false := rfl
  simp [isHidden, hne, hprefix, hinternal]

/-- **One mangling.** -/
theorem oneMangling (hm : IsIdentifier m) (hn : IsIdentifier n) : OneMangling m n where
  findModule := findSymbolName_module hm.toIsName hn.toIsName
  getModule := executableSymbolName_module
  registersModule _ this address := name_symbol this address
  visibleModule := isHidden_gccbrig _
  findProgram := findSymbolName_program hn.toIsName
  getProgram := executableSymbolName_program
  registersProgram _ this address := name_symbol this address
  moduleName_injective _ _ hm' hn' h := moduleName_injective hm' hn' h
  moduleName_ne _ _ _ _ := moduleName_ne_programName hn
  programName_injective _ h := programName_injective h

/-! ## After a load -/

/-- The two lookups of a symbol of the module `m`, and of a symbol of the program, return the
same. -/
structure SameLookups (s : ExecutableState) (executable codeObject : ℕ) (m n : SymbolName) :
    Prop where
  module : ∀ symbol, symbol ≠ 0 →
    s.hsaCodeObjectGetSymbol codeObject ('&' :: (m ++ ':' :: ':' :: '&' :: n)) symbol =
      s.hsaExecutableGetSymbol executable (some ('&' :: m)) (some ('&' :: n))
  program : ∀ symbol, symbol ≠ 0 →
    s.hsaCodeObjectGetSymbol codeObject ('&' :: n) symbol =
      s.hsaExecutableGetSymbol executable none (some ('&' :: n))

theorem any_lookup (hx : x ∈ heap) :
    ((heap.lookup x).any fun symbol => symbol.name = name) = decide (nameIn heap x = name) := by
  obtain ⟨symbol, hsymbol⟩ := Option.isSome_iff_exists.mp (AList.lookup_isSome.mpr hx)
  simp [nameIn, hsymbol]

/-- A search among symbols that exist. -/
theorem findSymbol_eq (hlive : ∀ x ∈ p.symbols, x ∈ heap) :
    findSymbol heap p name =
      (findSymbolName name).map fun actual => p.symbols.find? fun x => nameIn heap x = actual := by
  rw [findSymbol]
  congr 1
  funext actual
  exact List.find?_congr fun x hx => any_lookup (hlive x hx)

/-- The lookup in the index is a search in the list, if no name is registered twice. -/
theorem Registered.getSymbol_eq_find? (h : Registered heap e)
    (hnodup : (reportedNames heap e.symbols).Nodup) :
    e.getSymbol name = e.symbols.find? fun x => nameIn heap x = name := by
  rw [Executable.getSymbol, h.index, find?_eq_lookup_insertAll hnodup]

/-- An executable and a code object that have the same symbols. -/
theorem lookup_eq (hs : WellFormed s) (hexec : s.executables executable = some e)
    (hprogram : s.codeObjects codeObject = some p) (hsame : e.symbols = p.symbols)
    (hnodup : (reportedNames s.heap e.symbols).Nodup) {codeName symbolName actual : SymbolName}
    {moduleName : Option SymbolName} (hfind : findSymbolName codeName = some actual)
    (hget : executableSymbolName moduleName symbolName = actual) (hname : symbolName ≠ [])
    {symbol : ℕ} (hsymbol : symbol ≠ 0) :
    s.hsaCodeObjectGetSymbol codeObject codeName symbol =
      s.hsaExecutableGetSymbol executable moduleName (some symbolName) := by
  rw [hsaExecutableGetSymbol_eq hname hexec, hget,
    (hs.executables executable e hexec).getSymbol_eq_find? hnodup, hsame]
  simp only [ExecutableState.hsaCodeObjectGetSymbol, hs.initialized, hprogram, hsymbol,
    findSymbol_eq (hs.codeObjects codeObject p hprogram), hfind, Bool.not_true, Bool.false_eq_true,
    if_false, Option.map_some]
  cases p.symbols.find? fun x => nameIn s.heap x = actual <;> rfl

/-- **The two lookups agree.** They derive one name, and after a first load into a new executable
they return the same for it. -/
theorem lookups_agree (hm : IsIdentifier m) (hn : IsIdentifier n) :
    OneMangling m n ∧ ∀ elf env s s' executable agent codeObject e p,
      (executableMachine elf).Reachable always s →
      Accepts s executable agent codeObject e p → e.symbols = [] → p.symbols = [] →
      ((codeExports elf p.toFinalizedProgram).map Prod.fst).Nodup →
      s.hsaExecutableLoadCodeObject elf env executable agent codeObject = .ok (.success, s') →
      SameLookups s' executable codeObject m n := by
  refine ⟨oneMangling hm hn, ?_⟩
  intro elf env s s' executable agent codeObject e p hreach haccepts hfresh hfirst hnodup hcall
  obtain ⟨hloads, -, p', hp', rfl⟩ := load_accepted haccepts hcall
  let after := afterLoad elf env (s.loading e p) p'
  have hs : WellFormed (s.loaded executable codeObject after) :=
    (wellFormed hreach).effect (.loaded haccepts hloads hp')
  have hexec : (s.loaded executable codeObject after).executables executable =
      some after.executable := Function.update_self ..
  have hprogram : (s.loaded executable codeObject after).codeObjects codeObject =
      some after.program := Function.update_self ..
  have hsame : after.executable.symbols = after.program.symbols := by
    have hold : e.symbols = p'.symbols := by rw [hfresh, hp', hfirst]
    exact congrArg (· ++ (loadedSymbols elf env (s.loading e p)).map Prod.fst) hold
  have hnames : reportedNames after.heap after.executable.symbols =
      ((codeExports elf p.toFinalizedProgram).map Prod.fst).map fun name => '&' :: name := by
    have hlive : ∀ x ∈ e.symbols, x ∈ (s.loading e p).heap := by simp [hfresh]
    have hold : reportedNames (s.loading e p).heap e.symbols = [] := by rw [hfresh]; rfl
    have hreported := reportedNames_loadedSymbols elf env hlive
    rw [hold, List.nil_append] at hreported
    rw [List.map_map]
    exact hreported
  have hnodup' : (reportedNames after.heap after.executable.symbols).Nodup := by
    rw [hnames]
    apply hnodup.map
    intro name name' heq
    exact (List.cons.inj heq).2
  refine ⟨?_, ?_⟩
  · intro symbol hsymbol
    exact lookup_eq hs hexec hprogram hsame hnodup' (findSymbolName_module hm.toIsName hn.toIsName)
      executableSymbolName_module (by simp) hsymbol
  · intro symbol hsymbol
    exact lookup_eq hs hexec hprogram hsame hnodup' (findSymbolName_program hn.toIsName)
      executableSymbolName_program (by simp) hsymbol

/-- A new executable and a new code object. -/
def newPair : ExecutableState := oneExecutable 1 2 (.create 0 false) variableProgram

theorem reachable_newPair : (executableMachine elf).Reachable always newPair :=
  .step (.step (.init init_emptyState) (a := .create 1 0 false 8) trivial rfl)
    (a := .newCodeObject 2 variableProgram) trivial rfl

/-- The variable `s` of the module `m`. -/
theorem lookups_agree_variable :
    ∃ s', newPair.hsaExecutableLoadCodeObject
        (fun _ => some (variableImage [gccbrigPrefix ++ ['m', '.', 's']]))
        (libraryEnv fun _ => some 64) 1 0 2 = .ok (.success, s') ∧
      SameLookups s' 1 2 ['m'] ['s'] := by
  have hm : IsIdentifier ['m'] := ⟨⟨by decide, by decide, by decide⟩, by decide⟩
  have hs : IsIdentifier ['s'] := ⟨⟨by decide, by decide, by decide⟩, by decide⟩
  refine ⟨_, rfl, ?_⟩
  refine (lookups_agree hm hs).2
    (fun _ => some (variableImage [gccbrigPrefix ++ ['m', '.', 's']]))
    (libraryEnv fun _ => some 64) newPair _ 1 0 2 (.create 0 false) variableProgram
    reachable_newPair ⟨rfl, rfl, rfl, rfl, by decide, rfl⟩ rfl rfl ?_ rfl
  decide

end PhsaRuntime
