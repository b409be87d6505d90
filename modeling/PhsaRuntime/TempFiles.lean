import PhsaRuntime.Lib.FileTree
import PhsaRuntime.Lib.Machine

/-!
# The files of code objects

A code object has a file, which is opened when it is first needed. `GCCFinalizer::finalizeProgram`
puts it in a new directory below `/tmp` or in the directory of `PHSA_COMPILER_TEMP_DIR`,
`DLFinalizedProgram::deserialize` always in a new one. Outside of the debug mode, the destructor
removes the directory of the file with everything below it.

The names of `mkdtemp` and `unique_path`, and whether the compiler succeeds, are not determined.
The state also has what the tree had at the start, and every program the paths that were created
with it; no step depends on them.

## Main definitions

* `finalizeFiles`, `deserializeFiles` — what the two functions create.
* `tempMachine` — code objects that come and go, in any order.
-/

namespace PhsaRuntime

/-- A component of a path. -/
abbrev FileName := List Char

/-- A path on disk. -/
abbrev DiskPath := FilePath FileName

namespace TempFiles

/-- `/tmp`. -/
def tmp : DiskPath := ["tmp".toList]

/-- `mkdtemp` with the template `/tmp/<start>XXXXXX`: the directory, and the tree with it. -/
def mkdtemp (start suffix : FileName) (t : FileTree FileName) :
    Option (DiskPath × FileTree FileName) :=
  let dir := tmp ++ [start ++ suffix]
  if tmp ∈ t ∧ dir ∉ t then some (dir, t.create dir) else none

/-- A name that `unique_path` makes of `%%%%%%%%%%%%`. -/
def isUniqueName (name : FileName) : Bool :=
  name.length = 12 && name.all fun c => c ∈ "0123456789abcdef".toList

/-- `HSAILProgram::dumpBRIGS`: the tree with the files of the modules. -/
def dumpBRIGS (tempDir : DiskPath) : List FileName → FileTree FileName → FileTree FileName
  | [], t => t
  | name :: names, t => dumpBRIGS tempDir names (t.create (tempDir ++ [name ++ ".brig".toList]))

/-- The directory for the compiler, and the tree with it; `none` if it could not be made. -/
def compilerTempDir (env : Option DiskPath) (suffix : FileName) (t : FileTree FileName) :
    Option (DiskPath × FileTree FileName) :=
  match env with
  | some dir => some (dir, t)
  | none => mkdtemp "phsa-finalizer-".toList suffix t

/-- The name of the file that is compiled from the modules with the given names. -/
def dynObjectName (names : List FileName) : FileName :=
  names.getLast?.getD [] ++ ".brig.so".toList

/-- Where `finalizeProgram` puts its files: the directory, the tree with the files of the modules,
and the tree with the compiled file. -/
def finalizeFiles (env : Option DiskPath) (suffix : FileName) (names : List FileName)
    (t : FileTree FileName) : Option (DiskPath × FileTree FileName × FileTree FileName) :=
  (compilerTempDir env suffix t).map fun r =>
    let dumped := dumpBRIGS r.1 names (r.2.createDirectories r.1)
    (r.1, dumped, dumped.create (r.1 ++ [dynObjectName names]))

/-- Where `deserialize` puts its file: the directory, and the tree with the file. -/
def deserializeFiles (suffix : FileName) (t : FileTree FileName) :
    Option (DiskPath × FileTree FileName) :=
  (mkdtemp "phsa-finalized-program-".toList suffix t).map fun r =>
    (r.1, (r.2.createDirectories r.1).create (r.1 ++ ["temp.elf".toList]))

end TempFiles

open TempFiles

/-- The function that made a code object. -/
inductive Origin
  | finalized
  | deserialized
  deriving DecidableEq, Repr

/-- A `DLFinalizedProgram`, as far as its file goes. -/
structure TempProgram where
  origin : Origin
  binaryFileName : DiskPath
  /-- The paths that were created for it. -/
  created : Finset DiskPath
  deriving DecidableEq

/-- `~DLFinalizedProgram`, outside of the debug mode. -/
def TempProgram.destructor (o : TempProgram) (t : FileTree FileName) : FileTree FileName :=
  t.removeAll o.binaryFileName.dropLast

/-- The file system and the live code objects, by their addresses. -/
structure TempState where
  files : FileTree FileName
  programs : ℕ → Option TempProgram
  /-- The file system at the start. -/
  initial : FileTree FileName

namespace TempState

/-- The code object that is made with the given tree, the files of which are new. -/
def newProgram (s : TempState) (origin : Origin) (dir : DiskPath) (name : FileName)
    (t : FileTree FileName) : TempProgram :=
  { origin, binaryFileName := dir ++ [name], created := t.paths \ s.files.paths }

/-- Put a code object at its address. -/
def setProgram (s : TempState) (p : ℕ) (o : Option TempProgram) (t : FileTree FileName) :
    TempState :=
  { s with files := t, programs := Function.update s.programs p o }

end TempState

/-- How a finalization ends that has dumped its modules. -/
inductive FinalizeOutcome
  | commandFailed
  | directiveMismatch
  /-- The code object is at the given address. -/
  | success (newAddress : ℕ)
  deriving DecidableEq, Repr

/-- What makes and destroys code objects. -/
inductive TempAction
  | finalize (suffix : FileName) (names : List FileName) (outcome : FinalizeOutcome)
  | deserialize (suffix : FileName) (newAddress : ℕ)
  | destroy (program : ℕ)
  deriving DecidableEq, Repr

/-- Code objects that come and go, where `PHSA_COMPILER_TEMP_DIR` is `env`: not set, or a directory
that exists. -/
def tempMachine (env : Option DiskPath) : Machine TempState TempAction where
  init s := s.programs = (fun _ => none) ∧ s.initial = s.files ∧ ∀ dir ∈ env, dir ∈ s.files
  step
    | .finalize suffix names outcome, s =>
      -- `hasModules`
      if names = [] then some s
      else if ¬ names.all isUniqueName then none
      else
        match finalizeFiles env suffix names s.files with
        | none => some s
        | some (dir, dumped, compiled) =>
          let o := s.newProgram .finalized dir (dynObjectName names) compiled
          match outcome with
          | .commandFailed => some { s with files := dumped }
          | .directiveMismatch => some { s with files := o.destructor compiled }
          | .success newAddress =>
            if newAddress = 0 ∨ (s.programs newAddress).isSome then none
            else some (s.setProgram newAddress (some o) compiled)
    | .deserialize suffix newAddress, s =>
      -- the directory is asserted
      (deserializeFiles suffix s.files).bind fun r =>
        if newAddress = 0 ∨ (s.programs newAddress).isSome then none
        else
          let o := s.newProgram .deserialized r.1 "temp.elf".toList r.2
          some (s.setProgram newAddress (some o) r.2)
    | .destroy program, s =>
      match s.programs program with
      | none => some s
      | some o => some (s.setProgram program none (o.destructor s.files))

end PhsaRuntime
