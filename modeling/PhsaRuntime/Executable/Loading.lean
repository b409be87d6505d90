import PhsaRuntime.Executable
import PhsaRuntime.Lib.InsertAll

/-!
# What a load does

A load returns if and only if every defined symbol can be stored, the symbol table can be read
and every exported symbol is found in the library. It then has registered a new symbol for each
exported one, in the order of the table.

`Accepts` says that a call of `hsa_executable_load_code_object` gets to the load, and `Effect`
what a call can do to the state.

## Main results

* `Loading.defineSymbols_eq`, `Loading.loadSymbols_eq`, `loadCodeObject_eq` — the loads that
  return, and what they leave behind.
* `Loading.defineSymbols_error`, `Loading.loadSymbols_error`, `loadCodeObject_error` — the others.
* `executableCall_effect` — what a call does.
-/

namespace PhsaRuntime

namespace CodeObject

/-- The library of a program that is opened. -/
def library (dl : DynamicLoader) (p : CodeObject) : Option Library :=
  if p.dlhandle.isSome then p.dlhandle else dl.dlopen p.binaryFileName

/-- The program with its library. -/
def opened (dl : DynamicLoader) (p : CodeObject) : CodeObject :=
  { p with dlhandle := p.library dl }

variable {dl : DynamicLoader} {p p' p'' : CodeObject}

@[simp] theorem openLibrary_eq : p.openLibrary dl = .ok (p.opened dl) := by
  rw [openLibrary, if_neg p.named, opened, library]
  split <;> rfl

/-- The programs differ in their handles at most, and have one library. -/
structure Same (dl : DynamicLoader) (p p' : CodeObject) : Prop where
  program : p'.toFinalizedProgram = p.toFinalizedProgram
  symbols : p'.symbols = p.symbols
  library : p'.library dl = p.library dl

theorem Same.refl : Same dl p p := ⟨rfl, rfl, rfl⟩

theorem Same.trans (h : Same dl p p') (h' : Same dl p' p'') : Same dl p p'' where
  program := h'.program.trans h.program
  symbols := h'.symbols.trans h.symbols
  library := h'.library.trans h.library

@[simp] theorem dlhandle_opened : (p.opened dl).dlhandle = p.library dl := rfl

theorem same_opened : Same dl p (p.opened dl) where
  program := rfl
  symbols := rfl
  library := by
    simp only [library, dlhandle_opened]
    split <;> rename_i h
    · rfl
    · by_cases hp : p.dlhandle.isSome
      · simp [hp] at h
      · simp [opened]

end CodeObject

/-! ## The defined symbols -/

/-- Where the host pointer of a variable is, if the library declares it. -/
def hostPointer (dl : DynamicLoader) (p : CodeObject) (variableName : SymbolName) : Option ℕ :=
  dl.dlsym (p.library dl) (hostDefPtrPrefix ++ variableName)

/-- The address of a defined symbol can be stored. -/
def Storable (dl : DynamicLoader) (p : CodeObject) (symbolName : SymbolName) : Prop :=
  symbolName ≠ [] ∧ hostPointer dl p (stripAmpersand symbolName) ≠ some 0

/-- The pointers after the address of a defined symbol is stored. -/
def storeSymbol (dl : DynamicLoader) (p : CodeObject) (pointers : ℕ → ℕ)
    (s : Sigma fun _ : SymbolName => ℕ) : ℕ → ℕ :=
  match hostPointer dl p (stripAmpersand s.1) with
  | none => pointers
  | some address => Function.update pointers address s.2

section Define

variable {dl : DynamicLoader} {p p' : CodeObject} {name : SymbolName} {pointers : ℕ → ℕ}
  {s : Sigma fun _ : SymbolName => ℕ}

theorem CodeObject.Same.hostPointer (h : CodeObject.Same dl p p') :
    hostPointer dl p' = hostPointer dl p := by
  funext name
  rw [PhsaRuntime.hostPointer, h.library, PhsaRuntime.hostPointer]

theorem CodeObject.Same.storable (h : CodeObject.Same dl p p') :
    Storable dl p' name ↔ Storable dl p name := by
  rw [Storable, Storable, h.hostPointer]

theorem CodeObject.Same.storeSymbol (h : CodeObject.Same dl p p') :
    storeSymbol dl p' = storeSymbol dl p := by
  funext pointers s
  rw [PhsaRuntime.storeSymbol, PhsaRuntime.storeSymbol, h.hostPointer]

theorem CodeObject.defineGlobalSymbolAddress_eq (h : Storable dl p s.1) :
    p.defineGlobalSymbolAddress dl s.1 s.2 pointers =
      .ok (p.opened dl, storeSymbol dl p pointers s) := by
  have hpointer : dl.dlsym (p.library dl) (hostDefPtrPrefix ++ stripAmpersand s.1) ≠ some 0 := h.2
  simp only [CodeObject.defineGlobalSymbolAddress, CodeObject.openLibrary_eq, Except.bind,
    if_neg h.1, CodeObject.dlhandle_opened, PhsaRuntime.storeSymbol, PhsaRuntime.hostPointer]
  cases haddr : dl.dlsym (p.library dl) (hostDefPtrPrefix ++ stripAmpersand s.1) with
  | none => rfl
  | some address =>
    have hne : address ≠ 0 := by
      rintro rfl
      exact hpointer haddr
    simp only [if_neg hne]

theorem CodeObject.defineGlobalSymbolAddress_error (addr : ℕ) (pointers : ℕ → ℕ)
    (h : ¬ Storable dl p name) :
    ∃ fault, p.defineGlobalSymbolAddress dl name addr pointers = .error fault := by
  simp only [CodeObject.defineGlobalSymbolAddress, CodeObject.openLibrary_eq, Except.bind]
  by_cases hname : name = []
  · exact ⟨.outOfRange, if_pos hname⟩
  · have hpointer : dl.dlsym (p.library dl) (hostDefPtrPrefix ++ stripAmpersand name) =
        some 0 := by
      by_contra hne
      exact h ⟨hname, hne⟩
    simp only [if_neg hname, CodeObject.dlhandle_opened, hpointer, if_true]
    exact ⟨.nullPointer, rfl⟩

namespace Loading

variable {l l' : Loading} {defs : List (Sigma fun _ : SymbolName => ℕ)}

/-- Every defined symbol is stored. -/
theorem defineSymbols_eq (h : ∀ s ∈ defs, Storable dl l.program s.1) :
    ∃ p', CodeObject.Same dl l.program p' ∧ l.defineSymbols dl defs =
      .ok
        { l with program := p', pointers := defs.foldl (storeSymbol dl l.program) l.pointers } := by
  induction defs generalizing l with
  | nil => exact ⟨l.program, .refl, rfl⟩
  | cons s defs ih =>
    have hsame : CodeObject.Same dl l.program (l.program.opened dl) := CodeObject.same_opened
    let l₁ : Loading :=
      { l with program := l.program.opened dl, pointers := storeSymbol dl l.program l.pointers s }
    have hrest : ∀ s ∈ defs, Storable dl l₁.program s.1 := fun s hs =>
      hsame.storable.mpr (h s (List.mem_cons_of_mem _ hs))
    obtain ⟨p', hp', heq⟩ := ih hrest
    refine ⟨p', hsame.trans hp', ?_⟩
    rw [defineSymbols, CodeObject.defineGlobalSymbolAddress_eq (h s List.mem_cons_self)]
    simp only [Except.bind]
    rw [heq, List.foldl_cons, hsame.storeSymbol]

/-- A defined symbol that cannot be stored ends the process. -/
theorem defineSymbols_error (h : ¬ ∀ s ∈ defs, Storable dl l.program s.1) :
    ∃ fault, l.defineSymbols dl defs = .error fault := by
  induction defs generalizing l with
  | nil => exact absurd (by simp) h
  | cons s defs ih =>
    rw [defineSymbols]
    by_cases hs : Storable dl l.program s.1
    · rw [CodeObject.defineGlobalSymbolAddress_eq hs]
      apply ih
      intro hrest
      apply h
      intro t ht
      rcases List.mem_cons.mp ht with rfl | ht
      · exact hs
      · exact CodeObject.same_opened.storable.mp (hrest t ht)
    · obtain ⟨fault, hfault⟩ :=
        CodeObject.defineGlobalSymbolAddress_error s.2 l.pointers hs
      exact ⟨fault, by rw [hfault]; rfl⟩

end Loading

end Define

/-! ## The symbol table -/

/-- The address that a symbol is registered with: 0 if the library could not be opened. -/
def addressIn (library : Option Library) (name : SymbolName) : ℕ :=
  (library.bind fun find => find (stripAmpersand name)).getD 0

/-- The lookup of an exported symbol returns. -/
def Resolves (library : Option Library) (name : SymbolName) : Prop :=
  library.all fun find => (find (stripAmpersand name)).isSome

/-- An entry that can be read, with its name. -/
def Readable (entry : Option ElfSymbol) : Prop := (entry.bind ElfSymbol.name).isSome

/-- The exported symbols of a table, in its order. -/
def tableExports (p : FinalizedProgram) (table : List (Option ElfSymbol)) :
    List (SymbolName × Export) :=
  table.filterMap fun entry => entry.bind fun s => s.name.bind fun name =>
    (exportOf p name s.info).map fun x => (name, x)

/-- The symbols that a load creates, with their addresses. -/
def newSymbols (allocator : Allocator) (library : Option Library) :
    List (SymbolName × Export) → SymbolHeap → List (ℕ × Symbol)
  | [], _ => []
  | (name, x) :: rest, heap =>
    let this := allocator.new heap.keys
    let symbol := x.symbol name this (addressIn library name)
    (this, symbol) :: newSymbols allocator library rest (heap.insert this symbol)

/-- Register a list of symbols. -/
def Executable.registerAll (e : Executable) (news : List (ℕ × Symbol)) : Executable :=
  { e with
    symbols := e.symbols ++ news.map Prod.fst
    symbolsByName := insertAll e.symbolsByName (news.map fun x => (x.2.name, x.1)) }

/-- Register a list of symbols with the program and with the executable. -/
def Loading.registerAll (l : Loading) (news : List (ℕ × Symbol)) : Loading :=
  { l with
    executable := l.executable.registerAll news
    program := { l.program with symbols := l.program.symbols ++ news.map Prod.fst }
    heap := insertAll l.heap news }

section Table

variable {env : LoadEnv} {allocator : Allocator} {library : Option Library} {p : FinalizedProgram}
  {l : Loading} {entry : Option ElfSymbol} {table : List (Option ElfSymbol)} {name : SymbolName}
  {info : ℕ} {x : Export} {news : List (ℕ × Symbol)} {exports : List (SymbolName × Export)}
  {heap : SymbolHeap} {dl : DynamicLoader} {q : CodeObject} {s : ℕ × Symbol}

theorem ne_nil_of_exportOf (h : exportOf p name info = some x) : name ≠ [] := by
  rintro rfl
  simp [exportOf, isHidden] at h

theorem tableExports_cons_of_none (h : exportOf p name info = none) :
    tableExports p (some ⟨some name, info⟩ :: table) = tableExports p table := by
  simp [tableExports, h]

theorem tableExports_cons_of_some (h : exportOf p name info = some x) :
    tableExports p (some ⟨some name, info⟩ :: table) = (name, x) :: tableExports p table := by
  simp [tableExports, h]

theorem CodeObject.symbolAddress_eq (hname : name ≠ []) (h : Resolves (q.library dl) name) :
    q.symbolAddress dl name = .ok (q.opened dl, addressIn (q.library dl) name) := by
  simp only [CodeObject.symbolAddress, CodeObject.openLibrary_eq, Except.bind,
    CodeObject.dlhandle_opened, Resolves, addressIn] at h ⊢
  cases hlib : q.library dl with
  | none => rfl
  | some find =>
    rw [hlib] at h
    obtain ⟨address, haddress⟩ := Option.isSome_iff_exists.mp h
    simp [hname, haddress]

theorem CodeObject.symbolAddress_error (h : ¬ Resolves (q.library dl) name) :
    ∃ fault, q.symbolAddress dl name = .error fault := by
  simp only [CodeObject.symbolAddress, CodeObject.openLibrary_eq, Except.bind,
    CodeObject.dlhandle_opened, Resolves] at h ⊢
  cases hlib : q.library dl with
  | none => simp [hlib] at h
  | some find =>
    have hnone : find (stripAmpersand name) = none := by simpa [hlib] using h
    by_cases hname : name = []
    · exact ⟨.assertion, if_pos hname⟩
    · simp only [if_neg hname, hnone]
      exact ⟨.abort, rfl⟩

namespace Loading

@[simp] theorem registerAll_nil : l.registerAll [] = l := by
  simp [registerAll, Executable.registerAll]

theorem registerAll_cons : l.registerAll (s :: news) =
    { l with
      executable := l.executable.registerSymbol s.1 s.2.name
      program := l.program.addSymbol s.1
      heap := l.heap.insert s.1 s.2 : Loading }.registerAll news := by
  simp [registerAll, Executable.registerAll, Executable.registerSymbol, CodeObject.addSymbol]

/-- Every exported symbol is registered. -/
theorem loadSymbols_eq (hread : ∀ entry ∈ table, Readable entry)
    (hresolve : ∀ x ∈ tableExports l.program.toFinalizedProgram table,
      Resolves (l.program.library env.dl) x.1) :
    ∃ p', CodeObject.Same env.dl l.program p' ∧ l.loadSymbols env table =
      .ok ({ l with program := p' : Loading }.registerAll
        (newSymbols env.allocator (l.program.library env.dl)
          (tableExports l.program.toFinalizedProgram table) l.heap)) := by
  induction table generalizing l with
  | nil => exact ⟨l.program, .refl, by simp [loadSymbols, tableExports, newSymbols]⟩
  | cons entry table ih =>
    have hrest : ∀ entry ∈ table, Readable entry := fun t ht =>
      hread t (List.mem_cons_of_mem _ ht)
    obtain ⟨name, hname⟩ := Option.isSome_iff_exists.mp (hread entry List.mem_cons_self)
    obtain ⟨⟨_, info⟩, rfl, rfl⟩ := Option.bind_eq_some_iff.mp hname
    rw [loadSymbols]
    cases hx : exportOf l.program.toFinalizedProgram name info with
    | none =>
      rw [tableExports_cons_of_none hx] at hresolve ⊢
      exact ih hrest hresolve
    | some x =>
      rw [tableExports_cons_of_some hx] at hresolve ⊢
      have hfound := hresolve (name, x) List.mem_cons_self
      rw [CodeObject.symbolAddress_eq (ne_nil_of_exportOf hx) hfound]
      let l₁ := register env.allocator name (addressIn (l.program.library env.dl) name) x
        { l with program := l.program.opened env.dl }
      have hlib : l₁.program.library env.dl = l.program.library env.dl :=
        CodeObject.same_opened.library
      have hresolve₁ : ∀ x ∈ tableExports l₁.program.toFinalizedProgram table,
          Resolves (l₁.program.library env.dl) x.1 := by
        rw [hlib]
        exact fun y hy => hresolve y (List.mem_cons_of_mem _ hy)
      obtain ⟨p₁, hp₁, heq⟩ := ih (l := l₁) hrest hresolve₁
      -- the program without the symbol that is registered first
      refine ⟨{ p₁ with symbols := l.program.symbols },
        ⟨hp₁.program, rfl, hp₁.library.trans hlib⟩, ?_⟩
      have hprogram : { p₁ with symbols := l.program.symbols : CodeObject }.addSymbol
          (env.allocator.new l.heap.keys) = p₁ := by
        rw [CodeObject.addSymbol]
        exact congrArg (fun symbols => { p₁ with symbols : CodeObject }) hp₁.symbols.symm
      rw [newSymbols, registerAll_cons]
      simp only [Except.bind, hprogram]
      rw [hlib] at heq
      exact heq

/-- An entry that cannot be read, or an exported symbol that is not found, ends the process. -/
theorem loadSymbols_error (h : ¬ ((∀ entry ∈ table, Readable entry) ∧
      ∀ x ∈ tableExports l.program.toFinalizedProgram table,
        Resolves (l.program.library env.dl) x.1)) :
    ∃ fault, l.loadSymbols env table = .error fault := by
  induction table generalizing l with
  | nil => exact absurd (by simp [tableExports]) h
  | cons entry table ih =>
    rcases entry with _ | ⟨_ | name, info⟩
    · exact ⟨.outOfBounds, rfl⟩
    · exact ⟨.nullPointer, rfl⟩
    · rw [loadSymbols]
      cases hx : exportOf l.program.toFinalizedProgram name info with
      | none =>
        rw [tableExports_cons_of_none hx] at h
        apply ih
        rintro ⟨hread, hresolve⟩
        exact h ⟨by simpa [Readable] using hread, hresolve⟩
      | some x =>
        rw [tableExports_cons_of_some hx] at h
        by_cases hfound : Resolves (l.program.library env.dl) name
        · rw [CodeObject.symbolAddress_eq (ne_nil_of_exportOf hx) hfound]
          apply ih
          rintro ⟨hread, hresolve⟩
          refine h ⟨by simpa [Readable] using hread, ?_⟩
          intro y hy
          rcases List.mem_cons.mp hy with rfl | hy
          · exact hfound
          · have hlib : (l.program.opened env.dl).library env.dl = l.program.library env.dl :=
              CodeObject.same_opened.library
            rw [← hlib]
            exact hresolve y hy
        · obtain ⟨fault, hfault⟩ := CodeObject.symbolAddress_error hfound
          exact ⟨fault, by rw [hfault]; rfl⟩

end Loading

/-! ## The new symbols -/

@[simp] theorem name_symbol (this address : ℕ) :
    (x.symbol name this address).name = '&' :: name := by
  cases x <;> rfl

@[simp] theorem address_symbol (this address : ℕ) :
    (x.symbol name this address).address = address := by
  cases x <;> rfl

/-- The names of the new symbols are those of the table. -/
theorem names_newSymbols : (newSymbols allocator library exports heap).map (fun s => s.2.name) =
    exports.map fun x => '&' :: x.1 := by
  induction exports generalizing heap with
  | nil => rfl
  | cons x exports ih => simp [newSymbols, ih]

/-- A new symbol is at an address that was not in use. -/
theorem fresh_of_mem_newSymbols (h : s ∈ newSymbols allocator library exports heap) :
    s.1 ∉ heap ∧ s.1 ≠ 0 := by
  induction exports generalizing heap with
  | nil => cases h
  | cons x exports ih =>
    rcases List.mem_cons.mp h with rfl | h
    · exact ⟨AList.mem_keys.not.mp (allocator.fresh _), allocator.ne_zero _⟩
    · obtain ⟨hfresh, hne⟩ := ih h
      rw [AList.mem_insert, not_or] at hfresh
      exact ⟨hfresh.2, hne⟩

/-- The new symbols are at different addresses. -/
theorem nodup_newSymbols : ((newSymbols allocator library exports heap).map Prod.fst).Nodup := by
  induction exports generalizing heap with
  | nil => simp [newSymbols]
  | cons x exports ih =>
    rw [newSymbols, List.map_cons, List.nodup_cons]
    refine ⟨?_, ih⟩
    intro hmem
    obtain ⟨t, ht, heq⟩ := List.mem_map.mp hmem
    have hfresh := (fresh_of_mem_newSymbols ht).1
    rw [heq, AList.mem_insert, not_or] at hfresh
    exact hfresh.1 rfl

theorem exists_of_mem_newSymbols (h : s ∈ newSymbols allocator library exports heap) :
    ∃ x ∈ exports, s.2 = x.2.symbol x.1 s.1 (addressIn library x.1) := by
  induction exports generalizing heap with
  | nil => cases h
  | cons x exports ih =>
    rcases List.mem_cons.mp h with rfl | h
    · exact ⟨x, List.mem_cons_self, rfl⟩
    · obtain ⟨y, hy, heq⟩ := ih h
      exact ⟨y, List.mem_cons_of_mem x hy, heq⟩

theorem exists_mem_newSymbols (allocator : Allocator) (library : Option Library)
    (heap : SymbolHeap) {y : SymbolName × Export} (h : y ∈ exports) :
    ∃ s ∈ newSymbols allocator library exports heap,
      s.2 = y.2.symbol y.1 s.1 (addressIn library y.1) := by
  induction exports generalizing heap with
  | nil => cases h
  | cons x exports ih =>
    rcases List.mem_cons.mp h with rfl | h
    · exact ⟨_, List.mem_cons_self, rfl⟩
    · obtain ⟨s, hs, heq⟩ := ih _ h
      exact ⟨s, List.mem_cons_of_mem _ hs, heq⟩

@[simp] theorem newSymbols_eq_nil :
    newSymbols allocator library exports heap = [] ↔ exports = [] := by
  cases exports <;> simp [newSymbols]

end Table

/-! ## The load -/

/-- The entries of the symbol table of a program, if it can be found. -/
def symbolTable (elf : ElfReader) (p : FinalizedProgram) : Option (List (Option ElfSymbol)) :=
  (elf p.elfBlob.bytes).bind fun image => (symbolSection image).bind fun header =>
    header.data.bind fun symbols =>
      if header.shEntsize = 0 then none else some (tableEntries header symbols)

/-- The exported symbols of a program. -/
def codeExports (elf : ElfReader) (p : FinalizedProgram) : List (SymbolName × Export) :=
  tableExports p ((symbolTable elf p).getD [])

/-- A load of the program into the executable returns. -/
structure Loads (elf : ElfReader) (dl : DynamicLoader) (e : Executable) (p : CodeObject) :
    Prop where
  storable : ∀ name ∈ e.definedSymbols, Storable dl p name
  table : (symbolTable elf p.toFinalizedProgram).isSome
  readable : ∀ entry ∈ (symbolTable elf p.toFinalizedProgram).getD [], Readable entry
  resolves : ∀ x ∈ codeExports elf p.toFinalizedProgram, Resolves (p.library dl) x.1

section Load

variable {elf : ElfReader} {env : LoadEnv} {l : Loading} {m : SymbolAddressIndex}
  {name : SymbolName}

theorem IterationOrder.mem_iff (order : IterationOrder) :
    name ∈ m ↔ ∃ s ∈ order.entries m, s.1 = name := by
  rw [AList.mem_keys, AList.keys, List.keys, List.mem_map]
  simp [(order.perm m).mem_iff]

/-- The pointers after the loop over the defined symbols. -/
def storedPointers (env : LoadEnv) (l : Loading) : ℕ → ℕ :=
  (env.order.entries l.executable.definedSymbols).foldl (storeSymbol env.dl l.program) l.pointers

/-- The symbols that a load creates. -/
def loadedSymbols (elf : ElfReader) (env : LoadEnv) (l : Loading) : List (ℕ × Symbol) :=
  newSymbols env.allocator (l.program.library env.dl)
    (codeExports elf l.program.toFinalizedProgram) l.heap

theorem symbolTable_eq_some {p : FinalizedProgram} {table : List (Option ElfSymbol)}
    (h : symbolTable elf p = some table) :
    ∃ image header symbols, elf p.elfBlob.bytes = some image ∧
      symbolSection image = some header ∧ header.data = some symbols ∧ header.shEntsize ≠ 0 ∧
      tableEntries header symbols = table := by
  obtain ⟨image, himage, h⟩ := Option.bind_eq_some_iff.mp h
  obtain ⟨header, hheader, h⟩ := Option.bind_eq_some_iff.mp h
  obtain ⟨symbols, hsymbols, h⟩ := Option.bind_eq_some_iff.mp h
  split at h
  · cases h
  · rename_i hentsize
    exact ⟨image, header, symbols, himage, hheader, hsymbols, hentsize, Option.some.inj h⟩

/-- **A load that returns** has stored every defined symbol and registered every exported one. -/
theorem loadCodeObject_eq (h : Loads elf env.dl l.executable l.program) :
    ∃ p', p'.symbols = l.program.symbols ∧ loadCodeObject elf env l =
      .ok ({ l with program := p', pointers := storedPointers env l : Loading }.registerAll
        (loadedSymbols elf env l)) := by
  obtain ⟨table, htable⟩ := Option.isSome_iff_exists.mp h.table
  obtain ⟨image, header, symbols, himage, hheader, hsymbols, hentsize, hentries⟩ :=
    symbolTable_eq_some htable
  have hstorable : ∀ s ∈ env.order.entries l.executable.definedSymbols,
      Storable env.dl l.program s.1 := fun s hs =>
    h.storable s.1 (env.order.mem_iff.mpr ⟨s, hs, rfl⟩)
  obtain ⟨p₁, hp₁, hdefine⟩ := Loading.defineSymbols_eq hstorable
  let l₁ : Loading :=
    { l with program := p₁.setVersion image.version, pointers := storedPointers env l }
  have hprogram : l₁.program.toFinalizedProgram =
      { l.program.toFinalizedProgram with version := image.version } := by
    rw [← hp₁.program]
    rfl
  have hexports : tableExports l₁.program.toFinalizedProgram table =
      codeExports elf l.program.toFinalizedProgram := by
    rw [hprogram, codeExports, htable]
    rfl
  have hlib : l₁.program.library env.dl = l.program.library env.dl := hp₁.library
  have hread : ∀ entry ∈ table, Readable entry := by simpa [htable] using h.readable
  have hresolve : ∀ x ∈ tableExports l₁.program.toFinalizedProgram table,
      Resolves (l₁.program.library env.dl) x.1 := by
    rw [hexports, hlib]
    exact h.resolves
  obtain ⟨p₂, hp₂, hload⟩ := Loading.loadSymbols_eq hread hresolve
  refine ⟨p₂, hp₂.symbols.trans hp₁.symbols, ?_⟩
  rw [hexports, hlib] at hload
  rw [loadCodeObject, hdefine]
  simp only [Except.bind, hp₁.program, himage, hheader, hsymbols, if_neg hentsize, hentries]
  exact hload

/-- **Any other load** does not return. -/
theorem loadCodeObject_error (h : ¬ Loads elf env.dl l.executable l.program) :
    ∃ fault, loadCodeObject elf env l = .error fault := by
  rw [loadCodeObject]
  by_cases hstorable : ∀ s ∈ env.order.entries l.executable.definedSymbols,
      Storable env.dl l.program s.1
  · obtain ⟨p₁, hp₁, hdefine⟩ := Loading.defineSymbols_eq hstorable
    rw [hdefine]
    simp only [Except.bind, hp₁.program]
    cases himage : elf l.program.elfBlob.bytes with
    | none => exact ⟨.nullPointer, rfl⟩
    | some image =>
      cases hheader : symbolSection image with
      | none => exact ⟨.nullPointer, by simp [hheader]⟩
      | some header =>
        cases hsymbols : header.data with
        | none => exact ⟨.nullPointer, by simp [hheader, hsymbols]⟩
        | some symbols =>
          by_cases hentsize : header.shEntsize = 0
          · exact ⟨.divideByZero, by simp [hheader, hsymbols, hentsize]⟩
          · have htable : symbolTable elf l.program.toFinalizedProgram =
                some (tableEntries header symbols) := by
              simp [symbolTable, himage, hheader, hsymbols, hentsize]
            simp only [hheader, hsymbols, if_neg hentsize]
            apply Loading.loadSymbols_error
            rintro ⟨hread, hresolve⟩
            refine h ⟨?_, by simp [htable], by simpa [htable] using hread, ?_⟩
            · intro name hname
              obtain ⟨s, hs, rfl⟩ := env.order.mem_iff.mp hname
              exact hstorable s hs
            · have hprogram : (p₁.setVersion image.version).toFinalizedProgram =
                  { l.program.toFinalizedProgram with version := image.version } := by
                rw [← hp₁.program]
                rfl
              have hlib : (p₁.setVersion image.version).library env.dl =
                  l.program.library env.dl := hp₁.library
              rw [hprogram, hlib] at hresolve
              rw [codeExports, htable]
              exact hresolve
  · obtain ⟨fault, hfault⟩ := Loading.defineSymbols_error hstorable
    exact ⟨fault, by rw [hfault]; rfl⟩

end Load

end PhsaRuntime
