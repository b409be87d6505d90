import PhsaRuntime.FinalizedProgram

/-!
# Serialized programs

`DLFinalizedProgram::serializeTo` and `DLFinalizedProgram::deserialize` as the sequences of
their `memcpy`s: a serialized program is the size of its ELF image, the image, and the ISA,
the rounding mode, the profile and the machine model. The host is little-endian.

What `deserialize` reads is recorded, as the ranges it copies from. It dumps the image to a
file in a new directory before it constructs the program; whether the directory could be made
is asserted.

## Main definitions

* `FinalizedProgram.serializedSize`, `FinalizedProgram.serializeTo`.
* `deserialize` — what is read, and the program or the fault.
-/

namespace PhsaRuntime

/-- How a call ends other than by returning. -/
inductive Fault
  /-- `new` throws: the size exceeds `PTRDIFF_MAX`. -/
  | badArrayNewLength
  | assertion
  | nullPointer
  deriving DecidableEq, Repr

/-- A program that the constructor has built, under any file name. -/
structure DLFinalizedProgram (libelf : Libelf) extends FinalizedProgram where
  constructed : FinalizedProgram.create libelf elfBlob isa machineModel profile
    defaultRoundingMode = some { toFinalizedProgram with binaryFileName := "" }

/-- A range of addresses: its base and its size. -/
abbrev Extent := ℕ × ℕ

namespace FinalizedProgram

/-- `DLFinalizedProgram::serializedSize`. -/
def serializedSize (p : FinalizedProgram) : ℕ :=
  Word.wrap (Scalar.size (BitVec 64) + p.elfSize + Scalar.size (BitVec 64) +
    Scalar.size (BitVec 32) + Scalar.size (BitVec 32) + Scalar.size (BitVec 32))

/-- `DLFinalizedProgram::serializeTo`: where each `memcpy` writes, and what. -/
def serializeTo (p : FinalizedProgram) (buffer : ℕ) : List (ℕ × List Byte) :=
  let elfBlob := buffer + Scalar.size (BitVec 64)
  let isa := elfBlob + p.elfSize
  let defaultRoundingMode := isa + Scalar.size (BitVec 64)
  let profile := defaultRoundingMode + Scalar.size (BitVec 32)
  let machineModel := profile + Scalar.size (BitVec 32)
  [(buffer, Scalar.toBytes (BitVec.ofNat 64 p.elfSize)),
    (elfBlob, p.elfBlob.bytes),
    (isa, Scalar.toBytes p.isa),
    (defaultRoundingMode, Scalar.toBytes p.defaultRoundingMode),
    (profile, Scalar.toBytes p.profile),
    (machineModel, Scalar.toBytes p.machineModel)]

end FinalizedProgram

/-- The size of the image that a buffer declares. -/
def declaredSize (m : Cells Byte) (buffer : ℕ) : ℕ := (m.load (BitVec 64) buffer).toNat

/-- The copy of the image that a buffer holds. -/
def imageAt (m : Cells Byte) (buffer : ℕ) (h : declaredSize m buffer < 2 ^ 63) : Blob :=
  ⟨m.read (buffer + Scalar.size (BitVec 64)) (declaredSize m buffer), by simpa using h⟩

/-- `DLFinalizedProgram::deserialize`: what it reads, and the new program. `tempDir` is the
directory that `mkdtemp` makes. -/
def deserialize (libelf : Libelf) (tempDir : Option String) (m : Cells Byte) (buffer : ℕ) :
    List Extent × Except Fault FinalizedProgram :=
  let elfSize := declaredSize m buffer
  let elfBlob := buffer + Scalar.size (BitVec 64)
  -- `new uint8_t[ES]`
  if h : elfSize < 2 ^ 63 then
    let isa := elfBlob + elfSize
    let defaultRoundingMode := isa + Scalar.size (BitVec 64)
    let profile := defaultRoundingMode + Scalar.size (BitVec 32)
    let machineModel := profile + Scalar.size (BitVec 32)
    ([(buffer, Scalar.size (BitVec 64)), (elfBlob, elfSize), (isa, Scalar.size (BitVec 64)),
        (defaultRoundingMode, Scalar.size (BitVec 32)), (profile, Scalar.size (BitVec 32)),
        (machineModel, Scalar.size (BitVec 32))],
      match tempDir with
      | none => .error .assertion
      | some tempDir =>
        match FinalizedProgram.create libelf (imageAt m buffer h) (m.load (BitVec 64) isa)
          (m.load (BitVec 32) machineModel) (m.load (BitVec 32) profile)
          (m.load (BitVec 32) defaultRoundingMode) with
        | none => .error .nullPointer
        | some p => .ok { p with binaryFileName := tempDir ++ "/temp.elf" })
  else ([(buffer, Scalar.size (BitVec 64))], .error .badArrayNewLength)

end PhsaRuntime
