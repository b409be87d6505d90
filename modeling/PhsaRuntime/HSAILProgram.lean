import PhsaRuntime.HsaStatus
import PhsaRuntime.Lib.Bytes
import PhsaRuntime.Lib.Machine
import PhsaRuntime.Lib.Ring

/-!
# HSAIL programs and their modules

`hsa_ext_program_add_module` walks a BRIG module in the memory of the application: the section
table, for the code section, and the entries of that section, for the module directive. A
module is a pointer, and the program keeps the pointers.

## Main definitions

* `findCodeSection`, `findModuleDirective` — the two walks.
* `hsaExtProgramAddModule` — a call, which may not return.
* `programMachine` — creations, destructions and calls, in any order.
-/

namespace PhsaRuntime

/-! ## BRIG -/

namespace Brig

variable (m : Cells Byte)

/-- `BrigModuleHeader::sectionCount`. -/
def sectionCount (module : ℕ) : ℕ := (m.load (BitVec 32) (module + 92)).toNat

/-- `BrigModuleHeader::sectionIndex`. -/
def sectionIndex (module : ℕ) : ℕ := (m.load (BitVec 64) (module + 96)).toNat

/-- The header of the section with the given index. -/
def sectionHeader (module index : ℕ) : ℕ :=
  module + (m.load (BitVec 64) (module + sectionIndex m module + 8 * index)).toNat

/-- `BrigSectionHeader::byteCount`. -/
def sectionByteCount (header : ℕ) : ℕ := (m.load (BitVec 64) header).toNat

/-- `BrigSectionHeader::headerByteCount`. -/
def headerByteCount (header : ℕ) : ℕ := (m.load (BitVec 32) (header + 8)).toNat

/-- `BrigSectionHeader::nameLength`. -/
def nameLength (header : ℕ) : ℕ := (m.load (BitVec 32) (header + 12)).toNat

/-- `BrigSectionHeader::name`. -/
def sectionName (header : ℕ) : List Byte := m.read (header + 16) (nameLength m header)

/-- `BrigBase::byteCount`. -/
def byteCount (entry : ℕ) : ℕ := (m.load (BitVec 16) entry).toNat

/-- `BrigBase::kind`. -/
def kind (entry : ℕ) : ℕ := (m.load (BitVec 16) (entry + 2)).toNat

/-- `BrigDirectiveModule::profile`. -/
def profile (entry : ℕ) : ℕ := (m (entry + 16)).toNat

/-- `BrigDirectiveModule::machineModel`. -/
def machineModel (entry : ℕ) : ℕ := (m (entry + 17)).toNat

/-- `BRIG_SECTION_INDEX_CODE`. -/
def sectionIndexCode : ℕ := 1

/-- The bytes of `hsa_code`. -/
def codeSectionName : List Byte := [0x68, 0x73, 0x61, 0x5f, 0x63, 0x6f, 0x64, 0x65]

/-- The entry is of the kind `BRIG_KIND_DIRECTIVE_MODULE`. -/
def isModuleDirective (entry : ℕ) : Bool := kind m entry = 0x100b

end Brig

/-! ## Programs -/

/-- A container of BRIG modules. -/
structure HSAILProgram where
  brigs : List ℕ
  machineModel : ℕ
  profile : ℕ
  deriving DecidableEq, Repr

namespace HSAILProgram

/-- `HSAILProgram::hasModule`. -/
def hasModule (p : HSAILProgram) (module : ℕ) : Bool := module ∈ p.brigs

/-- `HSAILProgram::addModule`. -/
def addModule (p : HSAILProgram) (module : ℕ) : HSAILProgram :=
  { p with brigs := p.brigs ++ [module] }

end HSAILProgram

/-- The runtime, as far as the calls on programs go: the live programs, by their handles. -/
structure Programs where
  initialized : Bool
  programs : ℕ → Option HSAILProgram

namespace Programs

/-- The program with the given handle changes. -/
def set (s : Programs) (handle : ℕ) (p : Option HSAILProgram) : Programs :=
  { s with programs := Function.update s.programs handle p }

variable {s : Programs} {handle handle' : ℕ} {p : Option HSAILProgram}

@[simp] theorem programs_set : (s.set handle p).programs handle = p := Function.update_self ..

theorem programs_set_of_ne (h : handle' ≠ handle) :
    (s.set handle p).programs handle' = s.programs handle' := Function.update_of_ne h ..

end Programs

/-! ## Admission -/

/-- The loop over the section table, from an index on. -/
def findCodeSection (m : Cells Byte) (module : ℕ) : ℕ → ℕ → Option ℕ
  | 0, _ => none
  | remaining + 1, index =>
    let header := Brig.sectionHeader m module index
    if index = Brig.sectionIndexCode ∧ Brig.sectionName m header = Brig.codeSectionName then
      some header
    else findCodeSection m module remaining (index + 1)

/-- The loop over the entries of the code section, from an offset on. A walk of more steps than
the section has bytes has come to an offset for the second time: it does not end (`none`). -/
def findModuleDirective (m : Cells Byte) (codeSection codeSectionSize : ℕ) :
    ℕ → ℕ → Option (Option ℕ)
  | 0, b => if b < codeSectionSize then none else some none
  | steps + 1, b =>
    if b < codeSectionSize then
      let entry := codeSection + b
      if Brig.isModuleDirective m entry then some (some entry)
      else findModuleDirective m codeSection codeSectionSize steps
        (Word.wrap (b + Brig.byteCount m entry))
    else some none

/-- `hsa_ext_program_add_module`: the status and the programs afterwards; `none` if the walk
does not end or the program is a null pointer, which is followed. -/
def hsaExtProgramAddModule (m : Cells Byte) (handle module : ℕ) (s : Programs) :
    Option (HsaStatus × Programs) :=
  if !s.initialized then some (.errorNotInitialized, s)
  else if module = 0 then some (.errorInvalidModule, s)
  else
    match findCodeSection m module (Brig.sectionCount m module) 0 with
    | none => some (.errorInvalidModule, s)
    | some codeSection =>
      let codeSectionSize := Brig.sectionByteCount m codeSection
      if codeSectionSize = 0 then some (.errorInvalidModule, s)
      else
        match findModuleDirective m codeSection codeSectionSize codeSectionSize
          (Brig.headerByteCount m codeSection) with
        | none => none
        | some none => some (.errorInvalidModule, s)
        | some (some directive) =>
          match s.programs handle with
          | none => none
          | some p =>
            if Brig.profile m directive ≠ p.profile ∨
                Brig.machineModel m directive ≠ p.machineModel then
              some (.errorIncompatibleModule, s)
            else if p.hasModule module then some (.errorModuleAlreadyIncluded, s)
            else some (.success, s.set handle (p.addModule module))

/-- `hsa_ext_program_create`, with the handle of the new program. -/
def hsaExtProgramCreate (machineModel profile roundingMode : ℕ) (programIsNull : Bool)
    (handle : ℕ) (s : Programs) : HsaStatus × Programs :=
  if !s.initialized then (.errorNotInitialized, s)
  else if machineModel ≠ 0 ∧ machineModel ≠ 1 then (.errorInvalidArgument, s)
  else if programIsNull then (.errorInvalidArgument, s)
  else if profile ≠ 0 ∧ profile ≠ 1 then (.errorInvalidArgument, s)
  else if 2 < roundingMode then (.errorInvalidArgument, s)
  else (.success, s.set handle (some { brigs := [], machineModel, profile }))

/-- `hsa_ext_program_destroy`. -/
def hsaExtProgramDestroy (handle : ℕ) (s : Programs) : HsaStatus × Programs :=
  if !s.initialized then (.errorNotInitialized, s)
  else if (s.programs handle).isNone then (.errorInvalidProgram, s)
  else (.success, s.set handle none)

/-! ## Runs -/

/-- The calls. A module is read in the memory at the time of the call. -/
inductive ProgramAction
  | create (machineModel profile roundingMode : ℕ) (programIsNull : Bool) (handle : ℕ)
  | destroy (handle : ℕ)
  | addModule (m : Cells Byte) (handle module : ℕ)

/-- A runtime without programs and its callers. A new program has a handle of its own. -/
def programMachine : Machine Programs ProgramAction where
  init s := ∀ handle, s.programs handle = none
  step
    | .create machineModel profile roundingMode programIsNull handle, s =>
      if (s.programs handle).isSome then none
      else some (hsaExtProgramCreate machineModel profile roundingMode programIsNull handle s).2
    | .destroy handle, s => some (hsaExtProgramDestroy handle s).2
    | .addModule m handle module, s => (hsaExtProgramAddModule m handle module s).map Prod.snd

end PhsaRuntime
