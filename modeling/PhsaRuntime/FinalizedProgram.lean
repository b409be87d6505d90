import Mathlib.Data.List.AList
import PhsaRuntime.Lib.Bytes
import PhsaRuntime.Lib.Ring

/-!
# Finalized programs

A `FinalizedProgram` is an ELF image with the descriptors of its functions, which the
constructor finds in the sections `phsa.desc.*` of the image. The parse of the image is
libelf's, a parameter: a function of the bytes.

`loadAndCheckControlDirectives` goes over the descriptors and compares each control directive
that is given with the one the function declares, on a copy of the descriptor.

## Main definitions

* `FinalizedProgram.create` — the constructor.
* `FinalizedProgram.findDescriptor`, `FinalizedProgram.loadAndCheckControlDirectives`.
-/

namespace PhsaRuntime

/-! ## Function descriptors -/

/-- The components of a grid or work-group size. -/
structure Dim3 where
  x : ℕ
  y : ℕ
  z : ℕ
  deriving DecidableEq, Repr

/-- `phsa_descriptor`: what the compiler tells about a function. -/
structure Descriptor where
  isKernel : ℕ
  groupSegmentSize : ℕ
  privateSegmentSize : ℕ
  kernargSegmentSize : ℕ
  kernargMaxAlign : ℕ
  maxDynamicGroupSize : ℕ
  maxFlatGridSize : ℕ
  maxFlatWorkgroupSize : ℕ
  requiredGridSize : Dim3
  requiredWorkgroupSize : Dim3
  requiredDim : ℕ
  deriving DecidableEq, Repr

/-- The fields of `hsa_ext_control_directives_t` that are checked. -/
structure ControlDirectives where
  maxDynamicGroupSize : ℕ
  maxFlatGridSize : ℕ
  maxFlatWorkgroupSize : ℕ
  requiredGridSize : Dim3
  requiredWorkgroupSize : Dim3
  requiredDim : ℕ
  deriving DecidableEq, Repr

/-- `HANDLE_CTRL_DIRECTIVE`: the value of the field afterwards, `none` for the early return.
A value of 0 is no value. -/
def handleCtrlDirective (check : ℕ → ℕ → Bool) (declared given : ℕ) : Option ℕ :=
  if given > 0 then
    if declared > 0 ∧ check declared given then none else some given
  else some declared

/-- The comparison `<` of the macro. -/
def isBelow (declared given : ℕ) : Bool := declared < given

/-- The comparison `!=` of the macro. -/
def isDifferent (declared given : ℕ) : Bool := declared ≠ given

/-- The macro for the components of a size. -/
def handleDim3 (declared given : Dim3) : Option Dim3 := do
  let x ← handleCtrlDirective isDifferent declared.x given.x
  let y ← handleCtrlDirective isDifferent declared.y given.y
  let z ← handleCtrlDirective isDifferent declared.z given.z
  return { x, y, z }

/-- The body of the loop: the copy of the descriptor after all macros, `none` for the early
return. -/
def checkFunction (cd : ControlDirectives) (funcDesc : Descriptor) : Option Descriptor := do
  let maxDynamicGroupSize ← handleCtrlDirective isBelow
    funcDesc.maxDynamicGroupSize cd.maxDynamicGroupSize
  let maxFlatGridSize ← handleCtrlDirective isBelow funcDesc.maxFlatGridSize cd.maxFlatGridSize
  let maxFlatWorkgroupSize ← handleCtrlDirective isBelow
    funcDesc.maxFlatWorkgroupSize cd.maxFlatWorkgroupSize
  let requiredGridSize ← handleDim3 funcDesc.requiredGridSize cd.requiredGridSize
  let requiredWorkgroupSize ← handleDim3 funcDesc.requiredWorkgroupSize cd.requiredWorkgroupSize
  let requiredDim ← handleCtrlDirective isDifferent funcDesc.requiredDim cd.requiredDim
  return { funcDesc with
    maxDynamicGroupSize, maxFlatGridSize, maxFlatWorkgroupSize, requiredGridSize,
    requiredWorkgroupSize, requiredDim }

/-- `FuncDescriptors`, in the order of an iteration. -/
abbrev FuncDescriptors := AList fun _ : String => Descriptor

/-! ## The image -/

/-- A section of an ELF image: its name and, for a descriptor section, its data. -/
structure ElfSection where
  name : String
  data : Descriptor

/-- What libelf finds in an image. -/
structure Elf where
  version : ℕ
  sections : List ElfSection

/-- The parse of an image by libelf; `none` if it has no ELF header. -/
abbrev Libelf := List Byte → Option Elf

/-- An object in memory, which is not larger than `PTRDIFF_MAX`. -/
@[ext]
structure Blob where
  bytes : List Byte
  length_lt : bytes.length < 2 ^ 63

/-- An object of no bytes. -/
def Blob.empty : Blob := ⟨[], by decide⟩

/-- `PHSA_DESC_SECTION_PREFIX`. -/
def descSectionPrefix : String := "phsa.desc."

/-- The descriptors of an image, by the names of their functions. -/
def funcDescriptors (elf : Elf) : FuncDescriptors :=
  elf.sections.foldl (fun descriptors s =>
    if descSectionPrefix.toList.isPrefixOf s.name.toList then
      descriptors.insert (String.ofList (s.name.toList.drop descSectionPrefix.length)) s.data
    else descriptors) ∅

/-- The state of a program. -/
structure FinalizedProgram where
  binaryFileName : String
  elfBlob : Blob
  isa : BitVec 64
  machineModel : BitVec 32
  profile : BitVec 32
  defaultRoundingMode : BitVec 32
  version : ℕ
  funcDescriptors : FuncDescriptors

namespace FinalizedProgram

/-- `FinalizedProgram::FinalizedProgram`; `none` if the ELF header is a null pointer, which
the constructor follows. -/
def create (libelf : Libelf) (elfBlob : Blob) (isa : BitVec 64)
    (machineModel profile defaultRoundingMode : BitVec 32) : Option FinalizedProgram :=
  (libelf elfBlob.bytes).map fun elf =>
    { binaryFileName := "", elfBlob, isa, machineModel, profile, defaultRoundingMode,
      version := elf.version, funcDescriptors := PhsaRuntime.funcDescriptors elf }

/-- `FinalizedProgram::elfSize`. -/
def elfSize (p : FinalizedProgram) : ℕ := p.elfBlob.bytes.length

/-- `FinalizedProgram::findDescriptor`. -/
def findDescriptor (p : FinalizedProgram) (symbolName : String) : Option Descriptor :=
  p.funcDescriptors.lookup symbolName

/-- The loop over the descriptors. -/
def checkFunctions (cd : ControlDirectives) : List (Sigma fun _ : String => Descriptor) → Bool
  | [] => true
  | f :: rest =>
    match checkFunction cd f.2 with
    | none => false
    -- `auto FuncDesc = *Val.second`: the loaded values are those of a copy
    | some _ => checkFunctions cd rest

/-- `FinalizedProgram::loadAndCheckControlDirectives`, with the program afterwards. -/
def loadAndCheckControlDirectives (cd : ControlDirectives) (p : FinalizedProgram) :
    Bool × FinalizedProgram :=
  (checkFunctions cd p.funcDescriptors.entries, p)

end FinalizedProgram

end PhsaRuntime
