import Mathlib.Logic.Function.Basic
import PhsaRuntime.FinalizedProgram
import PhsaRuntime.HsaStatus
import PhsaRuntime.Lib.Machine
import PhsaRuntime.SymbolName

/-!
# Executables

An executable collects the symbols of the code objects that are loaded into it: a list, which
is iterated, and an index by name, which is looked up. A load first stores the addresses of the
variables that the application has defined to their pointers in the dynamic library of the code
object, and then registers every exported symbol of its ELF symbol table, with the code object
and with the executable.

libelf, the dynamic linker, the iteration order of a hash map and `new` are parameters.

## Main definitions

* `loadCodeObject` — `ELFExecutable::LoadCodeObject`, which may not return.
* `hsaExecutableLoadCodeObject` and the other calls on executables and their symbols.
* `executableMachine` — the calls, in any order.
-/

namespace PhsaRuntime

/-- How a load ends other than by returning. -/
inductive LoadFault
  /-- `std::string::at` throws. -/
  | outOfRange
  | assertion
  | abort
  | nullPointer
  | divideByZero
  /-- A read beyond the data of a section. -/
  | outOfBounds
  deriving DecidableEq, Repr

/-! ## What a load takes from its environment -/

/-- An `Elf64_Sym`. There is no name if `elf_strptr` finds none. -/
structure ElfSymbol where
  name : Option SymbolName
  info : ℕ
  deriving DecidableEq, Repr

/-- An `Elf64_Shdr` with the data of its section, read as symbols. -/
structure SectionHeader where
  shType : ℕ
  shSize : ℕ
  shEntsize : ℕ
  data : Option (List ElfSymbol)
  deriving DecidableEq, Repr

/-- What libelf finds in an image that is loaded. -/
structure ElfImage where
  version : ℕ
  sections : List SectionHeader
  deriving DecidableEq, Repr

/-- The parse of an image by libelf; `none` if it has no ELF header. -/
abbrev ElfReader := List Byte → Option ElfImage

/-- What `dlsym` finds in a library, by its name; `none` for an error. -/
abbrev Library := SymbolName → Option ℕ

/-- The dynamic linker. -/
structure DynamicLoader where
  /-- `dlopen`; `none` for an error. -/
  dlopen : String → Option Library
  /-- What `dlsym` finds for the null handle. -/
  defaultScope : Library

/-- `dlsym`. -/
def DynamicLoader.dlsym (dl : DynamicLoader) (handle : Option Library) : Library :=
  handle.getD dl.defaultScope

/-- `SymbolAddressIndex`. -/
abbrev SymbolAddressIndex := AList fun _ : SymbolName => ℕ

/-- An order in which hash maps are iterated. -/
structure IterationOrder where
  entries : SymbolAddressIndex → List (Sigma fun _ : SymbolName => ℕ)
  perm : ∀ m, (entries m).Perm m.entries

/-- `operator new`, from the addresses that are in use. -/
structure Allocator where
  new : List ℕ → ℕ
  fresh : ∀ inUse, new inUse ∉ inUse
  ne_zero : ∀ inUse, new inUse ≠ 0

/-- The order of the entries. -/
def IterationOrder.insertion : IterationOrder := ⟨AList.entries, fun _ => .refl _⟩

/-- The address above all that are in use. -/
def Allocator.above : Allocator where
  new inUse := inUse.foldr max 0 + 1
  fresh inUse := by
    have hle : ∀ a ∈ inUse, a ≤ inUse.foldr max 0 := by
      intro a ha
      induction inUse with
      | nil => cases ha
      | cons b inUse ih =>
        rcases List.mem_cons.mp ha with rfl | ha
        · exact Nat.le_max_left ..
        · exact (ih ha).trans (Nat.le_max_right ..)
    exact fun hmem => absurd (hle _ hmem) (by omega)
  ne_zero inUse := by omega

/-- The environment of a load. -/
structure LoadEnv where
  dl : DynamicLoader
  order : IterationOrder
  allocator : Allocator

/-! ## Symbols -/

/-- What a `Variable` and a `Kernel` have behind their `Symbol` part. The object of a kernel is
its own address. -/
inductive SymbolDetail
  | variable (address : ℕ)
  | kernel (object address kernargSegmentSize kernargSegmentAlignment groupSegmentSize
      privateSegmentSize : ℕ)
  deriving DecidableEq, Repr

/-- `Symbol`. -/
structure Symbol where
  name : SymbolName
  detail : SymbolDetail
  deriving DecidableEq, Repr

/-- The symbols, by their addresses. -/
abbrev SymbolHeap := AList fun _ : ℕ => Symbol

/-- `Address`. -/
def Symbol.address (s : Symbol) : ℕ :=
  match s.detail with
  | .variable address => address
  | .kernel _ address _ _ _ _ => address

/-- The first field behind the `Symbol` part: the address of a variable, the object of a
kernel. -/
def Symbol.firstField (s : Symbol) : ℕ :=
  match s.detail with
  | .variable address => address
  | .kernel object _ _ _ _ _ => object

/-- The numeric attributes of `hsa_executable_symbol_info_t`. -/
inductive SymbolInfo
  | type
  | nameLength
  | variableAddress
  | kernelObject
  | indirectFunctionObject
  | kernelKernargSegmentSize
  | kernelKernargSegmentAlignment
  | kernelGroupSegmentSize
  | kernelPrivateSegmentSize
  deriving DecidableEq, Repr

/-- The value of an attribute. A symbol is cast to the class that has the attribute, whatever it
is: the three addresses are all the first field. `none` if a variable is asked for a segment of
a kernel: what is read is not a field. -/
def Symbol.info (s : Symbol) : SymbolInfo → Option ℕ
  | .type =>
    match s.detail with
    | .variable _ => some 0
    | .kernel .. => some 1
  | .nameLength => some s.name.length
  | .variableAddress | .kernelObject | .indirectFunctionObject => some s.firstField
  | .kernelKernargSegmentSize =>
    match s.detail with
    | .variable _ => none
    | .kernel _ _ size _ _ _ => some size
  | .kernelKernargSegmentAlignment =>
    match s.detail with
    | .variable _ => none
    | .kernel _ _ _ alignment _ _ => some alignment
  | .kernelGroupSegmentSize =>
    match s.detail with
    | .variable _ => none
    | .kernel _ _ _ _ size _ => some size
  | .kernelPrivateSegmentSize =>
    match s.detail with
    | .variable _ => none
    | .kernel _ _ _ _ _ size => some size

/-! ## Code objects -/

/-- A `DLFinalizedProgram` that has a handle, with its symbols and its library. Its file name is
set before its handle is given out. -/
structure CodeObject extends FinalizedProgram where
  symbols : List ℕ
  dlhandle : Option Library
  named : binaryFileName ≠ ""

namespace CodeObject

/-- `FinalizedProgram::addSymbol`. -/
def addSymbol (p : CodeObject) (s : ℕ) : CodeObject := { p with symbols := p.symbols ++ [s] }

/-- `FinalizedProgram::setVersion`. -/
def setVersion (p : CodeObject) (version : ℕ) : CodeObject := { p with version }

/-- `DLFinalizedProgram::dlhandle`: the program with the handle. -/
def openLibrary (dl : DynamicLoader) (p : CodeObject) : Except LoadFault CodeObject :=
  if p.dlhandle.isSome then .ok p
  else if p.binaryFileName = "" then .error .assertion
  else .ok { p with dlhandle := dl.dlopen p.binaryFileName }

/-- `DLFinalizedProgram::defineGlobalSymbolAddress`: the program and the pointers afterwards. -/
def defineGlobalSymbolAddress (dl : DynamicLoader) (symbolName : SymbolName) (addr : ℕ)
    (p : CodeObject) (pointers : ℕ → ℕ) : Except LoadFault (CodeObject × (ℕ → ℕ)) :=
  (p.openLibrary dl).bind fun p =>
    if symbolName = [] then .error .outOfRange
    else
      match dl.dlsym p.dlhandle (hostDefPtrPrefix ++ stripAmpersand symbolName) with
      -- whole program optimizations might have removed the host def
      | none => .ok (p, pointers)
      | some address =>
        if address = 0 then .error .nullPointer
        else .ok (p, Function.update pointers address addr)

/-- `DLFinalizedProgram::symbolAddress`: the program and the address. -/
def symbolAddress (dl : DynamicLoader) (symbolName : SymbolName) (p : CodeObject) :
    Except LoadFault (CodeObject × ℕ) :=
  (p.openLibrary dl).bind fun p =>
    match p.dlhandle with
    | none => .ok (p, 0)
    | some library =>
      if symbolName = [] then .error .assertion
      else
        match library (stripAmpersand symbolName) with
        | none => .error .abort
        | some address => .ok (p, address)

end CodeObject

/-- `FinalizedProgram::findSymbol`, among the symbols of a code object; `none` if the name is
empty. -/
def findSymbol (heap : SymbolHeap) (p : CodeObject) (symbolName : SymbolName) :
    Option (Option ℕ) :=
  (findSymbolName symbolName).map fun actual =>
    p.symbols.find? fun s => (heap.lookup s).any fun symbol => symbol.name = actual

/-! ## The symbol table -/

/-- `STT_OBJECT`. -/
def sttObject : ℕ := 1

/-- `SHT_SYMTAB`. -/
def shtSymtab : ℕ := 2

/-- What a symbol of the table is registered as. -/
inductive Export
  | kernel (descriptor : Descriptor)
  | phsaKernel
  | variable
  deriving DecidableEq, Repr

/-- The kernel that the descriptor of a function makes of it. -/
def kernelDescriptor (p : FinalizedProgram) (name : SymbolName) : Option Descriptor :=
  (p.findDescriptor (String.ofList name)).filter fun descriptor => descriptor.isKernel ≠ 0

/-- What a symbol of the table is registered as, if it is. -/
def exportOf (p : FinalizedProgram) (name : SymbolName) (info : ℕ) : Option Export :=
  if isHidden name then none
  else
    match kernelDescriptor p name with
    | some descriptor => some (.kernel descriptor)
    | none =>
      if isPHSAKernel name then some .phsaKernel
      -- other symbol types are not registered
      else if info % 16 = sttObject then some .variable
      else none

/-- `MIN_ALIGNMENT`. -/
def minAlignment : ℕ := 16

/-- The symbol that is created at `this`. -/
def Export.symbol (name : SymbolName) (this address : ℕ) : Export → Symbol
  | .kernel d =>
    { name := '&' :: name
      detail := .kernel this address d.kernargSegmentSize (max minAlignment d.kernargMaxAlign)
        d.groupSegmentSize d.privateSegmentSize }
  | .phsaKernel => { name := '&' :: name, detail := .kernel this address 2048 1 0 0 }
  | .variable => { name := '&' :: name, detail := .variable address }

/-! ## Executables -/

/-- `ELFExecutable`. -/
structure Executable where
  symbols : List ℕ
  symbolsByName : AList fun _ : SymbolName => ℕ
  definedSymbols : SymbolAddressIndex
  isFrozen : Bool
  profile : ℕ

namespace Executable

/-- `ELFExecutable::ELFExecutable`. -/
def create (profile : ℕ) (isFrozen : Bool) : Executable :=
  { symbols := [], symbolsByName := ∅, definedSymbols := ∅, isFrozen, profile }

/-- `Executable::getSymbol`. -/
def getSymbol (e : Executable) (name : SymbolName) : Option ℕ := e.symbolsByName.lookup name

/-- `Executable::getExecutableState`. -/
def getExecutableState (e : Executable) : ℕ := if e.isFrozen then 1 else 0

/-- `Executable::freeze`. -/
def freeze (e : Executable) : Executable := { e with isFrozen := true }

/-- `Executable::defineGlobalSymbolAddress`. -/
def defineGlobalSymbolAddress (e : Executable) (symbolName : SymbolName) (addr : ℕ) :
    Executable :=
  { e with definedSymbols := e.definedSymbols.insert symbolName addr }

/-- `Executable::registerSymbol`. -/
def registerSymbol (e : Executable) (s : ℕ) (name : SymbolName) : Executable :=
  { e with symbols := e.symbols ++ [s], symbolsByName := e.symbolsByName.insert name s }

end Executable

/-- What a load works on. -/
structure Loading where
  executable : Executable
  program : CodeObject
  heap : SymbolHeap
  /-- The pointers in memory, by their addresses. -/
  pointers : ℕ → ℕ

namespace Loading

/-- The loop over the defined symbols. -/
def defineSymbols (dl : DynamicLoader) :
    List (Sigma fun _ : SymbolName => ℕ) → Loading → Except LoadFault Loading
  | [], l => .ok l
  | s :: rest, l =>
    (l.program.defineGlobalSymbolAddress dl s.1 s.2 l.pointers).bind fun r =>
      defineSymbols dl rest { l with program := r.1, pointers := r.2 }

/-- Create a symbol and register it with the program and with the executable. -/
def register (allocator : Allocator) (name : SymbolName) (address : ℕ) (x : Export)
    (l : Loading) : Loading :=
  let this := allocator.new l.heap.keys
  let symbol := x.symbol name this address
  { l with
    program := l.program.addSymbol this
    executable := l.executable.registerSymbol this symbol.name
    heap := l.heap.insert this symbol }

/-- The loop over the entries of the symbol table; an entry is `none` beyond the data. -/
def loadSymbols (env : LoadEnv) : List (Option ElfSymbol) → Loading → Except LoadFault Loading
  | [], l => .ok l
  | none :: _, _ => .error .outOfBounds
  | some ⟨none, _⟩ :: _, _ => .error .nullPointer
  | some ⟨some name, info⟩ :: rest, l =>
    match exportOf l.program.toFinalizedProgram name info with
    | none => loadSymbols env rest l
    | some x =>
      (l.program.symbolAddress env.dl name).bind fun r =>
        loadSymbols env rest (register env.allocator name r.2 x { l with program := r.1 })

end Loading

/-- The last symbol table of an image. -/
def symbolSection (image : ElfImage) : Option SectionHeader :=
  image.sections.foldl (fun found header =>
    if header.shType = shtSymtab then some header else found) none

/-- The entries of the symbol table that the loop reads. -/
def tableEntries (header : SectionHeader) (symbols : List ElfSymbol) : List (Option ElfSymbol) :=
  (List.range (header.shSize / header.shEntsize)).map fun i => symbols[i]?

/-- `ELFExecutable::LoadCodeObject`, for a program that is found. -/
def loadCodeObject (elf : ElfReader) (env : LoadEnv) (l : Loading) : Except LoadFault Loading :=
  (l.defineSymbols env.dl (env.order.entries l.executable.definedSymbols)).bind fun l =>
    match elf l.program.elfBlob.bytes with
    | none => .error .nullPointer
    | some image =>
      let l := { l with program := l.program.setVersion image.version }
      match symbolSection image with
      | none => .error .nullPointer
      | some header =>
        match header.data with
        | none => .error .nullPointer
        | some symbols =>
          if header.shEntsize = 0 then .error .divideByZero
          else l.loadSymbols env (tableEntries header symbols)

/-! ## The calls -/

/-- The attributes of `hsa_executable_info_t`. -/
inductive ExecutableInfo
  | profile
  | state
  deriving DecidableEq, Repr

/-- The runtime, as far as the calls on executables go: what is live, by handles. -/
structure ExecutableState where
  initialized : Bool
  isAgent : ℕ → Bool
  executables : ℕ → Option Executable
  codeObjects : ℕ → Option CodeObject
  heap : SymbolHeap
  pointers : ℕ → ℕ

namespace ExecutableState

/-- Put an executable at its address. -/
def setExecutable (s : ExecutableState) (executable : ℕ) (e : Option Executable) :
    ExecutableState :=
  { s with executables := Function.update s.executables executable e }

/-- `hsa_executable_create`. The new executable is at `newAddress`; its handle is stored to
`executable`. -/
def hsaExecutableCreate (newAddress profile : ℕ) (frozen : Bool) (executable : ℕ)
    (s : ExecutableState) : HsaStatus × ExecutableState :=
  if !s.initialized then (.errorNotInitialized, s)
  else if executable = 0 then (.errorInvalidArgument, s)
  else (.success, s.setExecutable newAddress (some (.create profile frozen)))

/-- `hsa_executable_destroy`. -/
def hsaExecutableDestroy (executable : ℕ) (s : ExecutableState) : HsaStatus × ExecutableState :=
  if !s.initialized then (.errorNotInitialized, s)
  else
    match s.executables executable with
    | none => (.errorInvalidExecutable, s)
    | some _ => (.success, s.setExecutable executable none)

/-- What a load works on. -/
def loading (s : ExecutableState) (e : Executable) (p : CodeObject) : Loading :=
  { executable := e, program := p, heap := s.heap, pointers := s.pointers }

/-- The state after a load. -/
def loaded (s : ExecutableState) (executable codeObject : ℕ) (l : Loading) : ExecutableState :=
  { s with
    executables := Function.update s.executables executable (some l.executable)
    codeObjects := Function.update s.codeObjects codeObject (some l.program)
    heap := l.heap
    pointers := l.pointers }

/-- `hsa_executable_load_code_object`. -/
def hsaExecutableLoadCodeObject (elf : ElfReader) (env : LoadEnv)
    (executable agent codeObject : ℕ) (s : ExecutableState) :
    Except LoadFault (HsaStatus × ExecutableState) :=
  if !s.initialized then .ok (.errorNotInitialized, s)
  else
    match s.executables executable with
    | none => .ok (.errorInvalidExecutable, s)
    | some e =>
      if e.isFrozen then .ok (.errorFrozenExecutable, s)
      else if !s.isAgent agent then .ok (.errorInvalidAgent, s)
      else if codeObject = 0 then .ok (.errorInvalidCodeObject, s)
      else
        match s.codeObjects codeObject with
        | none => .ok (.errorInvalidCodeObject, s)
        | some p =>
          (loadCodeObject elf env (s.loading e p)).map fun l =>
            (.success, s.loaded executable codeObject l)

/-- `hsa_executable_freeze`. -/
def hsaExecutableFreeze (executable : ℕ) (s : ExecutableState) : HsaStatus × ExecutableState :=
  if !s.initialized then (.errorNotInitialized, s)
  else
    match s.executables executable with
    | none => (.errorInvalidExecutable, s)
    | some e =>
      if e.isFrozen then (.errorFrozenExecutable, s)
      else (.success, s.setExecutable executable (some e.freeze))

/-- `hsa_executable_get_info`: the status and the value that is stored. -/
def hsaExecutableGetInfo (executable : ℕ) (info : ExecutableInfo) (value : ℕ)
    (s : ExecutableState) : HsaStatus × Option ℕ :=
  if !s.initialized then (.errorNotInitialized, none)
  else if value = 0 then (.errorInvalidArgument, none)
  else
    match s.executables executable with
    | none => (.errorInvalidExecutable, none)
    | some e =>
      match info with
      | .profile => (.success, some e.profile)
      | .state => (.success, some e.getExecutableState)

/-- The body of the three functions that define a variable; the name is `none` for a null
pointer. -/
def defineVariable (executable : ℕ) (variableName : Option SymbolName) (address : ℕ)
    (s : ExecutableState) : HsaStatus × ExecutableState :=
  if !s.initialized then (.errorNotInitialized, s)
  else
    match s.executables executable with
    | none => (.errorInvalidExecutable, s)
    | some e =>
      match variableName with
      | none => (.errorInvalidArgument, s)
      | some name =>
        (.success, s.setExecutable executable (some (e.defineGlobalSymbolAddress name address)))

/-- `hsa_executable_global_variable_define`. -/
def hsaExecutableGlobalVariableDefine (executable : ℕ) (variableName : Option SymbolName)
    (address : ℕ) (s : ExecutableState) : HsaStatus × ExecutableState :=
  defineVariable executable variableName address s

/-- `hsa_executable_agent_global_variable_define`. -/
def hsaExecutableAgentGlobalVariableDefine (executable _agent : ℕ)
    (variableName : Option SymbolName) (address : ℕ) (s : ExecutableState) :
    HsaStatus × ExecutableState :=
  defineVariable executable variableName address s

/-- `hsa_executable_readonly_variable_define`. -/
def hsaExecutableReadonlyVariableDefine (executable _agent : ℕ)
    (variableName : Option SymbolName) (address : ℕ) (s : ExecutableState) :
    HsaStatus × ExecutableState :=
  defineVariable executable variableName address s

/-- `hsa_executable_get_symbol`: the status and the handle that is stored. `none` if the
executable is not valid, which is not checked. -/
def hsaExecutableGetSymbol (executable : ℕ) (moduleName symbolName : Option SymbolName)
    (s : ExecutableState) : Option (HsaStatus × Option ℕ) :=
  match symbolName with
  | none | some [] => some (.errorInvalidSymbolName, none)
  | some (c :: name) =>
    (s.executables executable).map fun e =>
      match e.getSymbol (executableSymbolName moduleName (c :: name)) with
      | none => (.errorInvalidSymbolName, none)
      | some symbol => (.success, some symbol)

/-- `hsa_executable_symbol_get_info`: the status and the value that is stored. -/
def hsaExecutableSymbolGetInfo (executableSymbol : ℕ) (info : SymbolInfo) (value : ℕ)
    (s : ExecutableState) : HsaStatus × Option ℕ :=
  if !s.initialized then (.errorNotInitialized, none)
  else if value = 0 then (.errorInvalidArgument, none)
  else
    match s.heap.lookup executableSymbol with
    | none => (.errorInvalidArgument, none)
    | some symbol => (.success, symbol.info info)

/-- The handles that a callback is called with, when it is called for each until it returns an
error, and the status of the iteration. -/
def iterate (callback : ℕ → HsaStatus) : List ℕ → HsaStatus × List ℕ
  | [] => (.success, [])
  | symbol :: rest =>
    if callback symbol ≠ .success then (callback symbol, [symbol])
    else ((iterate callback rest).1, symbol :: (iterate callback rest).2)

/-- `hsa_executable_iterate_symbols`: the status and the handles that are reported. `none` if the
executable is not valid, which is not checked. -/
def hsaExecutableIterateSymbols (executable : ℕ) (callback : ℕ → HsaStatus)
    (s : ExecutableState) : Option (HsaStatus × List ℕ) :=
  if !s.initialized then some (.errorNotInitialized, [])
  else (s.executables executable).map fun e => iterate callback e.symbols

/-- `hsa_code_object_iterate_symbols`. -/
def hsaCodeObjectIterateSymbols (codeObject : ℕ) (callback : ℕ → HsaStatus)
    (s : ExecutableState) : HsaStatus × List ℕ :=
  match s.codeObjects codeObject with
  | none => (.errorInvalidCodeObject, [])
  | some p => iterate callback p.symbols

/-- `hsa_code_object_get_symbol`; `none` if the name is empty. -/
def hsaCodeObjectGetSymbol (codeObject : ℕ) (symbolName : SymbolName) (symbol : ℕ)
    (s : ExecutableState) : Option (HsaStatus × Option ℕ) :=
  if !s.initialized then some (.errorNotInitialized, none)
  else
    match s.codeObjects codeObject with
    | none => some (.errorInvalidCodeObject, none)
    | some p =>
      if symbol = 0 then some (.errorInvalidArgument, none)
      else
        (findSymbol s.heap p symbolName).map fun found =>
          match found with
          | none => (.errorInvalidSymbolName, none)
          | some handle => (.success, some handle)

end ExecutableState

/-! ## Runs -/

/-- Calls that read. -/
inductive Query
  | getInfo (executable : ℕ) (info : ExecutableInfo) (value : ℕ)
  | getSymbol (executable : ℕ) (moduleName symbolName : Option SymbolName)
  | symbolGetInfo (executableSymbol : ℕ) (info : SymbolInfo) (value : ℕ)
  | iterateSymbols (executable : ℕ) (callback : ℕ → HsaStatus)
  | codeObjectIterateSymbols (codeObject : ℕ) (callback : ℕ → HsaStatus)
  | codeObjectGetSymbol (codeObject : ℕ) (symbolName : SymbolName) (symbol : ℕ)

/-- The status of a query, and what it stores or reports; `none` where it does not return. -/
def Query.answer (s : ExecutableState) : Query → Option (HsaStatus × List ℕ)
  | .getInfo executable info value =>
    let r := s.hsaExecutableGetInfo executable info value
    some (r.1, r.2.toList)
  | .getSymbol executable moduleName symbolName =>
    (s.hsaExecutableGetSymbol executable moduleName symbolName).map fun r => (r.1, r.2.toList)
  | .symbolGetInfo executableSymbol info value =>
    let r := s.hsaExecutableSymbolGetInfo executableSymbol info value
    some (r.1, r.2.toList)
  | .iterateSymbols executable callback => s.hsaExecutableIterateSymbols executable callback
  | .codeObjectIterateSymbols codeObject callback =>
    some (s.hsaCodeObjectIterateSymbols codeObject callback)
  | .codeObjectGetSymbol codeObject symbolName symbol =>
    (s.hsaCodeObjectGetSymbol codeObject symbolName symbol).map fun r => (r.1, r.2.toList)

/-- The calls of an application, and the code objects that the finalizer and the
deserialization make. -/
inductive ExecutableAction
  | create (newAddress profile : ℕ) (frozen : Bool) (executable : ℕ)
  | destroy (executable : ℕ)
  | newCodeObject (codeObject : ℕ) (p : CodeObject)
  | load (env : LoadEnv) (executable agent codeObject : ℕ)
  | freeze (executable : ℕ)
  | globalVariableDefine (executable : ℕ) (variableName : Option SymbolName) (address : ℕ)
  | agentGlobalVariableDefine (executable agent : ℕ) (variableName : Option SymbolName)
      (address : ℕ)
  | readonlyVariableDefine (executable agent : ℕ) (variableName : Option SymbolName)
      (address : ℕ)
  | query (q : Query)

open ExecutableState in
/-- The status of a call and the state afterwards; `none` where it does not return, and for an
address that is in use. -/
def executableCall (elf : ElfReader) (s : ExecutableState) :
    ExecutableAction → Option (HsaStatus × ExecutableState)
  | .create newAddress profile frozen executable =>
    if newAddress = 0 ∨ (s.executables newAddress).isSome then none
    else some (s.hsaExecutableCreate newAddress profile frozen executable)
  | .destroy executable => some (s.hsaExecutableDestroy executable)
  | .newCodeObject codeObject p =>
    if codeObject = 0 ∨ (s.codeObjects codeObject).isSome ∨ p.symbols ≠ [] then none
    else some (.success, { s with codeObjects := Function.update s.codeObjects codeObject p })
  | .load env executable agent codeObject =>
    (s.hsaExecutableLoadCodeObject elf env executable agent codeObject).toOption
  | .freeze executable => some (s.hsaExecutableFreeze executable)
  | .globalVariableDefine executable variableName address =>
    some (s.hsaExecutableGlobalVariableDefine executable variableName address)
  | .agentGlobalVariableDefine executable agent variableName address =>
    some (s.hsaExecutableAgentGlobalVariableDefine executable agent variableName address)
  | .readonlyVariableDefine executable agent variableName address =>
    some (s.hsaExecutableReadonlyVariableDefine executable agent variableName address)
  | .query q => (q.answer s).map fun r => (r.1, s)

/-- The calls of an application, between `hsa_init` and `hsa_shut_down`. -/
def executableMachine (elf : ElfReader) : Machine ExecutableState ExecutableAction where
  init s := s.initialized = true ∧ s.executables = (fun _ => none) ∧
    s.codeObjects = (fun _ => none) ∧ s.heap = ∅
  step a s := (executableCall elf s a).map Prod.snd

/-- Nothing is live. -/
def emptyState : ExecutableState :=
  { initialized := true, isAgent := fun _ => true, executables := fun _ => none
    codeObjects := fun _ => none, heap := ∅, pointers := fun _ => 0 }

/-- An application starts with nothing. -/
theorem init_emptyState {elf : ElfReader} : (executableMachine elf).init emptyState :=
  ⟨rfl, rfl, rfl, rfl⟩

/-! ## Programs of variables -/

/-- An image whose symbols are variables with the given names. -/
def variableImage (names : List SymbolName) : ElfImage :=
  { version := 1
    sections := [{ shType := shtSymtab, shSize := 24 * names.length, shEntsize := 24,
                   data := some (names.map fun name => ⟨some name, sttObject⟩) }] }

/-- A program without descriptors. -/
def variableProgram : CodeObject :=
  { binaryFileName := "program.so", elfBlob := .empty, isa := 0, machineModel := 0, profile := 0
    defaultRoundingMode := 0, version := 1, funcDescriptors := ∅, symbols := [], dlhandle := none
    named := by decide }

/-- An environment with one library, under every file name. -/
def libraryEnv (library : Library) : LoadEnv :=
  { dl := { dlopen := fun _ => some library, defaultScope := fun _ => none }
    order := .insertion
    allocator := .above }

/-- One executable and one code object. -/
def oneExecutable (executable codeObject : ℕ) (e : Executable) (p : CodeObject) :
    ExecutableState :=
  { emptyState with
    executables := Function.update (fun _ => none) executable (some e)
    codeObjects := Function.update (fun _ => none) codeObject (some p) }

end PhsaRuntime
