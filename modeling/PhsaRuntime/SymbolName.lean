import Mathlib.Data.List.Basic
import Mathlib.Tactic.Common

/-!
# The names of symbols

GCC names a symbol of module linkage `gccbrig.module.symbol`; a symbol is registered under `&` and
the name that GCC gives it. The two lookups rewrite the names of the application to this form,
each in its own way: `FinalizedProgram::findSymbol` a name of the form `&module::&symbol`, and
`hsa_executable_get_symbol` two names.

## Main results

* `findSymbolName_module`, `executableSymbolName_module` — both derive the registered name.
* `moduleName_injective`, `moduleName_ne_programName` — the registered names of different symbols
  differ.
-/

namespace PhsaRuntime

/-- The characters of a `std::string`. -/
abbrev SymbolName := List Char

/-! ## Rewrites -/

/-- The replacement of every `::` by a dot, from the left. -/
def replaceColons : SymbolName → SymbolName
  | ':' :: ':' :: rest => '.' :: replaceColons rest
  | c :: rest => c :: replaceColons rest
  | [] => []

/-- The name has a `::`. -/
def hasColons : SymbolName → Bool
  | ':' :: ':' :: _ => true
  | _ :: rest => hasColons rest
  | [] => false

/-- `insert(1, s)` on a string that is not empty. -/
def insertAfterFirst (s : SymbolName) : SymbolName → SymbolName
  | c :: rest => c :: (s ++ rest)
  | [] => s

/-- `gccbrig.` -/
def gccbrigPrefix : SymbolName := ['g', 'c', 'c', 'b', 'r', 'i', 'g', '.']

/-- The name that `FinalizedProgram::findSymbol` looks for; `none` for the empty name, of which
`begin() + 1` is taken. -/
def findSymbolName (symbolName : SymbolName) : Option SymbolName :=
  let hasModule := hasColons symbolName
  match replaceColons symbolName with
  | [] => none
  | c :: rest =>
    -- remove all `&`s except the first one
    let actualSymbolName := c :: rest.filter (· ≠ '&')
    some (if hasModule then insertAfterFirst gccbrigPrefix actualSymbolName else actualSymbolName)

/-- The name without a leading `&`, as GCC mangles it. -/
def stripAmpersand : SymbolName → SymbolName
  | '&' :: rest => rest
  | name => name

/-- The name that `hsa_executable_get_symbol` looks for, from a symbol name that is not empty. -/
def executableSymbolName (moduleName : Option SymbolName) (symbolName : SymbolName) : SymbolName :=
  let symbolName := if symbolName.head? = some '&' then symbolName else '&' :: symbolName
  match moduleName with
  | none | some [] => symbolName
  | some (_ :: m) => insertAfterFirst gccbrigPrefix (insertAfterFirst (m ++ ['.']) symbolName)

/-! ## Entries of the symbol table -/

/-- `phsa_kernel.` -/
def phsaKernelPrefix : SymbolName := "phsa_kernel.".toList

/-- `__phsa.host_def.` -/
def hostDefPtrPrefix : SymbolName := "__phsa.host_def.".toList

/-- A function that is called as a kernel of one work-item. -/
def isPHSAKernel (name : SymbolName) : Bool :=
  name.length > phsaKernelPrefix.length && phsaKernelPrefix.isPrefixOf name

/-- The symbols of the compiler that have no dot. -/
def internalSymbols : List SymbolName :=
  ["frame_dummy", "__do_global_dtors_aux_fini_array_entry", "__frame_dummy_init_array_entry",
    "__FRAME_END__", "__dso_handle", "_DYNAMIC", "__TMC_END__", "_GLOBAL_OFFSET_TABLE_",
    "register_tm_clones", "deregister_tm_clones"].map String.toList

/-- The symbols that a load passes over. -/
def isHidden (name : SymbolName) : Bool :=
  name.isEmpty ||
    (!isPHSAKernel name && name.length > 7 && !gccbrigPrefix.isPrefixOf name && '.' ∈ name) ||
    name ∈ internalSymbols

/-! ## Registered names -/

/-- A name of a module or of a symbol without its `&`. -/
structure IsName (name : SymbolName) : Prop where
  ne_nil : name ≠ []
  colon : ':' ∉ name
  ampersand : '&' ∉ name

/-- An identifier: such a name without a dot. -/
structure IsIdentifier (name : SymbolName) : Prop extends IsName name where
  dot : '.' ∉ name

/-- The registered name of a symbol of program linkage. -/
def programName (s : SymbolName) : SymbolName := '&' :: s

/-- The registered name of a symbol of module linkage. -/
def moduleName (m s : SymbolName) : SymbolName := '&' :: (gccbrigPrefix ++ (m ++ '.' :: s))

/-- A name with or without its `&`. -/
def spelled (marked : Bool) (name : SymbolName) : SymbolName :=
  if marked then '&' :: name else name

/-- The name of a symbol with that of its module. -/
def qualified (m n : SymbolName) : SymbolName := m ++ ':' :: ':' :: n

/-- What is looked for under a qualified name without a leading `&`. -/
def misplacedName (m n : SymbolName) : SymbolName :=
  insertAfterFirst gccbrigPrefix (m ++ '.' :: n)

variable {m n s m' s' name l : SymbolName} {a b : Bool}

/-! ## Names with and without their `&` -/

theorem replaceColons_append (h : ':' ∉ name) :
    replaceColons (name ++ l) = name ++ replaceColons l := by
  induction name with
  | nil => rfl
  | cons c name ih =>
    simp only [List.mem_cons, not_or] at h
    have hc : c ≠ ':' := fun heq => h.1 heq.symm
    rw [List.cons_append, replaceColons, ih h.2, List.cons_append]
    rintro l' rfl
    exact absurd rfl hc

theorem hasColons_append (h : ':' ∉ name) : hasColons (name ++ l) = hasColons l := by
  induction name with
  | nil => rfl
  | cons c name ih =>
    simp only [List.mem_cons, not_or] at h
    have hc : c ≠ ':' := fun heq => h.1 heq.symm
    rw [List.cons_append, hasColons, ih h.2]
    rintro l' rfl
    exact absurd rfl hc

theorem replaceColons_eq_self (h : ':' ∉ name) : replaceColons name = name := by
  simpa [replaceColons] using replaceColons_append (l := []) h

theorem hasColons_eq_false (h : ':' ∉ name) : hasColons name = false := by
  simpa [hasColons] using hasColons_append (l := []) h

theorem filter_eq_of_notMem {l : SymbolName} (h : '&' ∉ l) : l.filter (· ≠ '&') = l := by
  apply List.filter_eq_self.mpr
  intro c hc
  apply decide_eq_true
  rintro rfl
  exact h hc

theorem IsName.filter_eq (h : IsName name) : name.filter (· ≠ '&') = name :=
  filter_eq_of_notMem h.ampersand

theorem spelled_ne_nil (h : IsName name) : spelled b name ≠ [] := by
  cases b with
  | true => simp [spelled]
  | false => simpa [spelled] using h.ne_nil

theorem colon_notMem_spelled (h : IsName name) : ':' ∉ spelled b name := by
  cases b with
  | true => simpa [spelled] using h.colon
  | false => simpa [spelled] using h.colon

/-- All `&`s of a name are gone but the first character. -/
theorem filter_spelled (h : IsName name) : (spelled b name).filter (· ≠ '&') = name := by
  cases b with
  | true => simpa [spelled] using h.filter_eq
  | false => simpa [spelled] using h.filter_eq

/-! ## The names that are looked for -/

/-- A name of a symbol is looked for as it is spelled. -/
theorem findSymbolName_spelled (h : IsName n) :
    findSymbolName (spelled b n) = some (spelled b n) := by
  have hcolon : ':' ∉ spelled b n := colon_notMem_spelled h
  obtain ⟨c, rest, hcons⟩ := List.exists_cons_of_ne_nil (spelled_ne_nil (b := b) h)
  have hrest : rest.filter (· ≠ '&') = rest := by
    cases b with
    | true =>
      obtain ⟨-, rfl⟩ := List.cons.inj hcons
      exact h.filter_eq
    | false =>
      have hn : n = c :: rest := hcons
      apply filter_eq_of_notMem
      intro hmem
      apply h.ampersand
      rw [hn]
      exact List.mem_cons_of_mem c hmem
  rw [hcons] at hcolon ⊢
  simp only [findSymbolName, hasColons_eq_false hcolon, replaceColons_eq_self hcolon, hrest,
    Bool.false_eq_true, if_false]

/-- A qualified name with a leading `&` is looked for under the registered name, and one without
it under another name. -/
theorem findSymbolName_qualified (hm : IsName m) (hn : IsName n) :
    findSymbolName (qualified (spelled a m) (spelled b n)) =
      some (if a then moduleName m n else misplacedName m n) := by
  have hcolons : hasColons (qualified (spelled a m) (spelled b n)) = true := by
    rw [qualified, hasColons_append (colon_notMem_spelled hm), hasColons]
  have hreplaced : replaceColons (qualified (spelled a m) (spelled b n)) =
      spelled a m ++ '.' :: spelled b n := by
    rw [qualified, replaceColons_append (colon_notMem_spelled hm), replaceColons,
      replaceColons_eq_self (colon_notMem_spelled hn)]
  have hdot : ('.' :: spelled b n).filter (· ≠ '&') = '.' :: n := by
    simpa using filter_spelled (b := b) hn
  cases a with
  | true =>
    have hrest : (m ++ '.' :: spelled b n).filter (· ≠ '&') = m ++ '.' :: n := by
      rw [List.filter_append, hm.filter_eq, hdot]
    have hcons : spelled true m ++ '.' :: spelled b n = '&' :: (m ++ '.' :: spelled b n) := rfl
    simp only [findSymbolName, hcolons, hreplaced, hcons, hrest, if_true, insertAfterFirst,
      moduleName]
  | false =>
    obtain ⟨c, rest, rfl⟩ := List.exists_cons_of_ne_nil hm.ne_nil
    have hrest : rest.filter (· ≠ '&') = rest := by
      apply filter_eq_of_notMem
      intro hmem
      exact hm.ampersand (List.mem_cons_of_mem c hmem)
    have hall : (rest ++ '.' :: spelled b n).filter (· ≠ '&') = rest ++ '.' :: n := by
      rw [List.filter_append, hrest, hdot]
    have hcons : spelled false (c :: rest) ++ '.' :: spelled b n =
        c :: (rest ++ '.' :: spelled b n) := rfl
    simp only [findSymbolName, hcolons, hreplaced, hcons, hall, if_true, Bool.false_eq_true,
      if_false, misplacedName, List.cons_append]

/-- The search begins behind the first character of a name, which the empty name does not have. -/
theorem findSymbolName_eq_none_iff : findSymbolName name = none ↔ name = [] := by
  have hreplaced : replaceColons name = [] ↔ name = [] := by
    fun_cases replaceColons name <;> simp
  rw [← hreplaced]
  simp only [findSymbolName]
  split
  · rename_i heq
    simp [heq]
  · rename_i heq
    simp [heq]

/-- `&m::&s` is looked for under the registered name. -/
theorem findSymbolName_module (hm : IsName m) (hs : IsName s) :
    findSymbolName ('&' :: (m ++ ':' :: ':' :: '&' :: s)) = some (moduleName m s) :=
  findSymbolName_qualified (a := true) (b := true) hm hs

theorem findSymbolName_program (hs : IsName s) :
    findSymbolName ('&' :: s) = some (programName s) :=
  findSymbolName_spelled (b := true) hs

/-- An executable is searched for the name of a symbol with its `&`. -/
theorem marked_spelled (hn : IsName n) :
    (if (spelled b n).head? = some '&' then spelled b n else '&' :: spelled b n) = '&' :: n := by
  cases b with
  | true => rfl
  | false =>
    apply if_neg
    intro hhead
    exact hn.ampersand (List.mem_of_mem_head? hhead)

/-- The first character of a module is taken away, whether it is an `&` or not. -/
theorem executableSymbolName_spelled (hm : IsName m) (hn : IsName n) :
    executableSymbolName (some (spelled a m)) (spelled b n) =
      if a then moduleName m n else moduleName m.tail n := by
  cases a with
  | true =>
    simp only [executableSymbolName, marked_spelled hn]
    simp [spelled, insertAfterFirst, moduleName]
  | false =>
    obtain ⟨c, rest, rfl⟩ := List.exists_cons_of_ne_nil hm.ne_nil
    simp only [executableSymbolName, marked_spelled hn]
    simp [spelled, insertAfterFirst, moduleName]

theorem executableSymbolName_none_spelled (hn : IsName n) :
    executableSymbolName none (spelled b n) = programName n := by
  simp only [executableSymbolName, marked_spelled hn, programName]

/-- The module `&m` and the symbol `&s` are looked for under the registered name. -/
@[simp] theorem executableSymbolName_module :
    executableSymbolName (some ('&' :: m)) ('&' :: s) = moduleName m s := by
  simp [executableSymbolName, insertAfterFirst, moduleName]

@[simp] theorem executableSymbolName_program :
    executableSymbolName none ('&' :: s) = programName s := by
  simp [executableSymbolName, programName]

/-! ## Registered names of different symbols -/

/-- The two names of a module give different names. -/
theorem moduleName_tail_ne (hm : IsName m) : moduleName m.tail n ≠ moduleName m n := by
  obtain ⟨c, rest, rfl⟩ := List.exists_cons_of_ne_nil hm.ne_nil
  intro h
  have hlength := congrArg List.length h
  simp [moduleName] at hlength

/-- A dot ends the name of the module. -/
theorem moduleName_injective (hm : IsIdentifier m) (hs : IsIdentifier s)
    (h : moduleName m s = moduleName m' s') : m = m' ∧ s = s' := by
  simp only [moduleName, List.cons.injEq, true_and, List.append_cancel_left_eq] at h
  have hsplit := (List.append_cons_inj_of_notMem hm.dot hs.dot).mp h
  exact ⟨hsplit.1, hsplit.2.2⟩

/-- A symbol of program linkage has no dot in its name. -/
theorem moduleName_ne_programName (hs' : IsIdentifier s') : moduleName m s ≠ programName s' := by
  intro h
  have hdot : '.' ∈ moduleName m s := by simp [moduleName]
  rw [h, programName, List.mem_cons] at hdot
  rcases hdot with hdot | hdot
  · exact absurd hdot (by decide)
  · exact hs'.dot hdot

theorem programName_injective (h : programName s = programName s') : s = s' :=
  (List.cons.inj h).2

end PhsaRuntime
