import PhsaRuntime.CodeObject
import PhsaRuntime.DLFinalizedProgram.Codec
import PhsaRuntime.Executable
import PhsaRuntime.HSAILProgram

/-!
# The objects of the runtime

The programs, the code objects and the executables of one process with all calls on them, between
any number of `hsa_init` and `hsa_shut_down`. The calls on one class of objects alone are those of
its own module, on the part of the state that they see. The calls that make objects of one class
from objects of another are added here, with `hsa_ext_program_iterate_modules`, the two
`get_info` functions and `hsa_code_object_destroy`.

The front end that the finalizer runs is a parameter.

## Main definitions

* `ObjectState` — the registries.
* `invoke` — a call: its status and the state afterwards, if it returns.
* `objectMachine` — the calls, in any order.
-/

namespace PhsaRuntime

/-! ## What calls take and store -/

/-- The library that the front end makes: its path and its contents. -/
structure Compiled where
  path : String
  image : Blob
  named : path ≠ ""

/-- What a finalization takes from its environment. -/
structure FinalizerEnv where
  libelf : Libelf
  /-- The front end is where `PHSA_GCCBRIG_BUILD_DIR` says, or it is looked for in the path. -/
  frontendFound : Bool
  /-- What the front end makes of the modules; `none` if there is no temporary directory, or the
  dump of the modules or the command fails. -/
  compile : List ℕ → Option Compiled

/-- `HSAILProgram::hasModules`. -/
def HSAILProgram.hasModules (p : HSAILProgram) : Bool := !p.brigs.isEmpty

/-- A deserialized program has the name of a file. -/
theorem named_of_deserialize {libelf : Libelf} {tempDir : Option String} {m : Cells Byte}
    {buffer : ℕ} {p : FinalizedProgram}
    (h : (deserialize libelf tempDir m buffer).2 = .ok p) : p.binaryFileName ≠ "" := by
  cases tempDir with
  | none =>
      rw [deserialize] at h
      split at h <;> cases h
  | some tempDir =>
      obtain ⟨_, p', -, rfl⟩ := deserialize_eq_ok_iff.mp h
      simp

/-- What `hsa_code_object_get_info` stores. -/
inductive CodeObjectField
  | text (str : String)
  | number (value : ℕ)
  deriving DecidableEq, Repr

/-! ## The state -/

/-- The reference count of the runtime, the registries, and the symbols of the code objects. -/
structure ObjectState where
  referenceCounter : ℕ
  isAgent : ℕ → Bool
  isIsa : ℕ → Bool
  programs : ℕ → Option HSAILProgram
  /-- `DefaultRoundingMode` of the programs. -/
  defaultRoundingMode : ℕ → ℕ
  codeObjects : ℕ → Option CodeObject
  executables : ℕ → Option Executable
  heap : SymbolHeap
  pointers : ℕ → ℕ

namespace ObjectState

/-- `Runtime::isInitialized`. -/
def isInitialized (s : ObjectState) : Bool := 0 < s.referenceCounter

/-- What the calls on programs see. -/
def toPrograms (s : ObjectState) : Programs :=
  { initialized := s.isInitialized, programs := s.programs }

/-- The state after a call on programs. -/
def setPrograms (s : ObjectState) (t : Programs) : ObjectState := { s with programs := t.programs }

/-- What a serialization sees. -/
def toRuntime (s : ObjectState) : Runtime :=
  { initialized := s.isInitialized
    codeObjects := fun handle => (s.codeObjects handle).map CodeObject.toFinalizedProgram }

/-- What the calls on executables and symbols see. -/
def toExecutables (s : ObjectState) : ExecutableState :=
  { initialized := s.isInitialized, isAgent := s.isAgent, executables := s.executables
    codeObjects := s.codeObjects, heap := s.heap, pointers := s.pointers }

/-- The state after a call on executables and symbols. -/
def setExecutables (s : ObjectState) (t : ExecutableState) : ObjectState :=
  { s with
    executables := t.executables, codeObjects := t.codeObjects, heap := t.heap
    pointers := t.pointers }

@[simp] theorem initialized_toPrograms (s : ObjectState) :
    s.toPrograms.initialized = s.isInitialized := rfl

@[simp] theorem programs_toPrograms (s : ObjectState) : s.toPrograms.programs = s.programs := rfl

@[simp] theorem setPrograms_toPrograms (s : ObjectState) : s.setPrograms s.toPrograms = s := rfl

@[simp] theorem initialized_toExecutables (s : ObjectState) :
    s.toExecutables.initialized = s.isInitialized := rfl

@[simp] theorem isAgent_toExecutables (s : ObjectState) : s.toExecutables.isAgent = s.isAgent :=
  rfl

@[simp] theorem executables_toExecutables (s : ObjectState) :
    s.toExecutables.executables = s.executables := rfl

@[simp] theorem codeObjects_toExecutables (s : ObjectState) :
    s.toExecutables.codeObjects = s.codeObjects := rfl

@[simp] theorem setExecutables_toExecutables (s : ObjectState) :
    s.setExecutables s.toExecutables = s := rfl

/-- A new code object is registered; `none` for an address that is in use. -/
def newCodeObject (s : ObjectState) (newAddress : ℕ) (p : CodeObject) : Option ObjectState :=
  if newAddress = 0 ∨ (s.codeObjects newAddress).isSome then none
  else some { s with codeObjects := Function.update s.codeObjects newAddress (some p) }

/-! ## The runtime -/

/-- `hsa_init`. A new runtime registers its agents. -/
def hsaInit (agents : ℕ → Bool) (s : ObjectState) : HsaStatus × ObjectState :=
  -- `std::numeric_limits<int32_t>::max()`
  if s.referenceCounter = 2147483647 then (.errorRefcountOverflow, s)
  else
    let isAgent := if s.referenceCounter = 0 then agents else s.isAgent
    (.success, { s with referenceCounter := s.referenceCounter + 1, isAgent })

/-- `Runtime::~Runtime`: the agents are deleted, and what `garbageCollect` is called for, which are
the code objects, with their symbols, and the programs. Executables stay. -/
def deleteRuntime (s : ObjectState) : ObjectState :=
  { s with
    isAgent := fun _ => false, codeObjects := fun _ => none, heap := ∅
    programs := fun _ => none }

/-- `hsa_shut_down`. -/
def hsaShutDown (s : ObjectState) : HsaStatus × ObjectState :=
  if s.referenceCounter = 0 then (.errorNotInitialized, s)
  else
    let t := if s.referenceCounter = 1 then s.deleteRuntime else s
    (.success, { t with referenceCounter := s.referenceCounter - 1 })

/-! ## Programs -/

/-- `hsa_ext_program_create`, with the handle of the new program; `none` for one that is in use. -/
def programCreate (machineModel profile roundingMode : ℕ) (programIsNull : Bool) (handle : ℕ)
    (s : ObjectState) : Option (HsaStatus × ObjectState) :=
  let r := hsaExtProgramCreate machineModel profile roundingMode programIsNull handle s.toPrograms
  if r.1 ≠ .success then some (r.1, s)
  else if handle = 0 ∨ (s.programs handle).isSome then none
  else
    some (r.1, { s.setPrograms r.2 with
      defaultRoundingMode := Function.update s.defaultRoundingMode handle roundingMode })

/-- `hsa_ext_program_iterate_modules`: the status and the modules that are reported. `none` if the
program is a null pointer, which is followed. -/
def hsaExtProgramIterateModules (program : ℕ) (callback : ℕ → HsaStatus) (s : ObjectState) :
    Option (HsaStatus × List ℕ) :=
  if !s.isInitialized then some (.errorNotInitialized, [])
  else (s.programs program).map fun p => ExecutableState.iterate callback p.brigs

/-- `hsa_ext_program_get_info`: the status and the value that is stored. -/
def hsaExtProgramGetInfo (program info value : ℕ) (s : ObjectState) : HsaStatus × Option ℕ :=
  if !s.isInitialized then (.errorNotInitialized, none)
  else
    match s.programs program with
    | none => (.errorInvalidProgram, none)
    | some p =>
      if value = 0 then (.errorInvalidArgument, none)
      else
        match info with
        | 0 => (.success, some p.machineModel)
        | 1 => (.success, some p.profile)
        | 2 => (.success, some (s.defaultRoundingMode program))
        | _ => (.errorInvalidArgument, none)

/-! ## The finalizer -/

/-- `GCCFinalizer::finalizeProgram`: the status and the new code object. `none` if the program or
the ELF header is a null pointer, which is followed. -/
def finalizeProgram (env : FinalizerEnv) (program isa : ℕ) (cd : ControlDirectives)
    (s : ObjectState) : Option (HsaStatus × Option CodeObject) :=
  if !env.frontendFound then some (.errorFinalizationFailed, none)
  else
    match s.programs program with
    | none => none
    | some prog =>
      if !prog.hasModules then some (.errorInvalidProgram, none)
      else
        match env.compile prog.brigs with
        | none => some (.errorFinalizationFailed, none)
        | some file =>
          match FinalizedProgram.create env.libelf file.image (BitVec.ofNat 64 isa)
            (BitVec.ofNat 32 prog.machineModel) (BitVec.ofNat 32 prog.profile)
            (BitVec.ofNat 32 (s.defaultRoundingMode program)) with
          | none => none
          | some p =>
            if (p.loadAndCheckControlDirectives cd).1 then
              some (.success, some { p with
                binaryFileName := file.path, symbols := [], dlhandle := none
                named := file.named })
            else some (.errorDirectiveMismatch, none)

/-- `hsa_ext_program_finalize`. The new code object is at `newAddress`; `*codeObject` is assigned
whatever the finalizer returns. -/
def hsaExtProgramFinalize (env : FinalizerEnv) (program isa : ℕ) (cd : ControlDirectives)
    (codeObject newAddress : ℕ) (s : ObjectState) : Option (HsaStatus × ObjectState) :=
  if !s.isInitialized then some (.errorNotInitialized, s)
  else if !s.isIsa isa then some (.errorInvalidIsa, s)
  else if program = 0 then some (.errorInvalidProgram, s)
  else if codeObject = 0 then none
  else
    (s.finalizeProgram env program isa cd).bind fun r =>
      match r.2 with
      | none => some (r.1, s)
      | some p => (s.newCodeObject newAddress p).map fun t => (r.1, t)

/-! ## Code objects -/

/-- `hsa_code_object_deserialize`; `none` for a fault. -/
def codeObjectDeserialize (host : Host) (m : Cells Byte)
    (serializedCodeObject serializedCodeObjectSize codeObject : ℕ) (s : ObjectState) :
    Option (HsaStatus × ObjectState) :=
  if !s.isInitialized then some (.errorNotInitialized, s)
  else if serializedCodeObject = 0 ∨ codeObject = 0 ∨ serializedCodeObjectSize = 0 then
    some (.errorInvalidArgument, s)
  else
    match h : (deserialize host.libelf host.tempDir m serializedCodeObject).2 with
    | .error _ => none
    | .ok p =>
      (s.newCodeObject host.newAddress
        { p with symbols := [], dlhandle := none, named := named_of_deserialize h }).map
          fun t => (.success, t)

/-- `hsa_code_object_get_info`: the status and the value that is stored. `none` if the code object
is a null pointer, which is followed. -/
def hsaCodeObjectGetInfo (codeObject info value : ℕ) (s : ObjectState) :
    Option (HsaStatus × Option CodeObjectField) :=
  if !s.isInitialized then some (.errorNotInitialized, none)
  else if value = 0 then some (.errorInvalidArgument, none)
  else
    let stored (field : CodeObject → CodeObjectField) :=
      (s.codeObjects codeObject).map fun p => (HsaStatus.success, some (field p))
    match info with
    | 0 => stored fun p => .text (toString p.version)
    -- `HSA_CODE_OBJECT_TYPE_PROGRAM`, of any code object
    | 1 => some (.success, some (.number 0))
    | 2 | 3 => stored fun p => .number p.machineModel.toNat
    | 4 | 5 => stored fun p => .number p.profile.toNat
    | _ => some (.errorInvalidArgument, none)

/-- `hsa_code_object_destroy`, with the symbols of the code object. -/
def hsaCodeObjectDestroy (codeObject : ℕ) (s : ObjectState) : HsaStatus × ObjectState :=
  match s.codeObjects codeObject with
  -- `delete nullptr`
  | none => (.success, s)
  | some p =>
    (.success, { s with
      codeObjects := Function.update s.codeObjects codeObject none
      heap := p.symbols.foldl (fun heap symbol => heap.erase symbol) s.heap })

end ObjectState

/-! ## The calls -/

/-- The calls on objects. -/
inductive ObjectCall
  | init (agents : ℕ → Bool)
  | shutDown
  | programCreate (machineModel profile roundingMode : ℕ) (programIsNull : Bool) (handle : ℕ)
  | programDestroy (program : ℕ)
  | programAddModule (m : Cells Byte) (program module : ℕ)
  | programIterateModules (program : ℕ) (callback : ℕ → HsaStatus)
  | programGetInfo (program info value : ℕ)
  | programFinalize (env : FinalizerEnv) (program isa : ℕ) (cd : ControlDirectives)
      (codeObject newAddress : ℕ)
  | codeObjectSerialize (codeObject : ℕ) (allocCallback : Option AllocCallback)
      (outputs : Option Outputs)
  | codeObjectDeserialize (host : Host) (m : Cells Byte)
      (serializedCodeObject serializedCodeObjectSize codeObject : ℕ)
  | codeObjectGetInfo (codeObject info value : ℕ)
  | codeObjectDestroy (codeObject : ℕ)
  /-- The calls on executables and symbols. -/
  | executable (a : ExecutableAction)

namespace ObjectState

/-- A query of an executable comes to a symbol that was destroyed with its code object; it follows
the pointer. -/
def followsFreed (s : ObjectState) (q : Query) : Bool :=
  match q with
  | .getSymbol .. | .iterateSymbols .. =>
    (q.answer s.toExecutables).any fun r =>
      r.2.any fun symbol => (s.heap.lookup symbol).isNone
  | _ => false

/-- The status of a call and the state afterwards; `none` where it does not return, and for an
address that is in use. -/
def invoke (elf : ElfReader) (s : ObjectState) : ObjectCall → Option (HsaStatus × ObjectState)
  | .init agents => some (s.hsaInit agents)
  | .shutDown => some s.hsaShutDown
  | .programCreate machineModel profile roundingMode programIsNull handle =>
    s.programCreate machineModel profile roundingMode programIsNull handle
  | .programDestroy program =>
    let r := hsaExtProgramDestroy program s.toPrograms
    some (r.1, s.setPrograms r.2)
  | .programAddModule m program module =>
    (hsaExtProgramAddModule m program module s.toPrograms).map fun r => (r.1, s.setPrograms r.2)
  | .programIterateModules program callback =>
    (s.hsaExtProgramIterateModules program callback).map fun r => (r.1, s)
  | .programGetInfo program info value =>
    some ((s.hsaExtProgramGetInfo program info value).1, s)
  | .programFinalize env program isa cd codeObject newAddress =>
    s.hsaExtProgramFinalize env program isa cd codeObject newAddress
  | .codeObjectSerialize codeObject allocCallback outputs =>
    (hsaCodeObjectSerialize s.toRuntime codeObject allocCallback outputs).outcome.toOption.map
      fun status => (status, s)
  | .codeObjectDeserialize host m serializedCodeObject serializedCodeObjectSize codeObject =>
    s.codeObjectDeserialize host m serializedCodeObject serializedCodeObjectSize codeObject
  | .codeObjectGetInfo codeObject info value =>
    (s.hsaCodeObjectGetInfo codeObject info value).map fun r => (r.1, s)
  | .codeObjectDestroy codeObject => some (s.hsaCodeObjectDestroy codeObject)
  -- code objects are made by the finalizer and by deserialization
  | .executable (.newCodeObject ..) => none
  | .executable (.query q) =>
    if s.followsFreed q then none
    else (q.answer s.toExecutables).map fun r => (r.1, s)
  | .executable a =>
    (executableCall elf s.toExecutables a).map fun r => (r.1, s.setExecutables r.2)

end ObjectState

/-- A process and its calls. At first the runtime is not initialized. -/
def objectMachine (elf : ElfReader) : Machine ObjectState ObjectCall where
  init s := s.referenceCounter = 0 ∧ s.programs = (fun _ => none) ∧
    s.codeObjects = (fun _ => none) ∧ s.executables = (fun _ => none) ∧ s.heap = ∅
  step call s := (s.invoke elf call).map Prod.snd

end PhsaRuntime
