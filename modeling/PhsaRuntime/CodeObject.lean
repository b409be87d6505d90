import PhsaRuntime.DLFinalizedProgram
import PhsaRuntime.HsaStatus

/-!
# Code objects

`hsa_code_object_serialize` and `hsa_code_object_deserialize`, with what the code objects of
the runtime are. The allocation callback is the application's: it may store to both variables
of the caller and to memory. A copy to a null pointer is a fault.

## Main definitions

* `Runtime` — the live code objects, by their handles.
* `hsaCodeObjectSerialize`, `hsaCodeObjectDeserialize`.
-/

namespace PhsaRuntime

/-- The runtime, as far as the calls on code objects go. -/
structure Runtime where
  initialized : Bool
  codeObjects : ℕ → Option FinalizedProgram

/-- `*serialized_code_object`, `*serialized_code_object_size` and memory. -/
structure Outputs where
  serializedCodeObject : ℕ
  serializedCodeObjectSize : ℕ
  memory : Cells Byte

/-- What the callback returns and stores when it is given a size. -/
abbrev AllocCallback := ℕ → Outputs → HsaStatus × Outputs

/-- How a call of `hsa_code_object_serialize` ends. -/
structure Serialized where
  outcome : Except Fault HsaStatus
  outputs : Option Outputs
  /-- The size that is passed to the callback, if it is called. -/
  allocSize : Option ℕ
  /-- The `memcpy`s. -/
  writes : List (ℕ × List Byte)

/-- `hsa_code_object_serialize`. There are no outputs if one of the two variables is given by a
null pointer. -/
def hsaCodeObjectSerialize (rt : Runtime) (codeObject : ℕ) (allocCallback : Option AllocCallback)
    (outputs : Option Outputs) : Serialized :=
  if !rt.initialized then
    { outcome := .ok .errorNotInitialized, outputs, allocSize := none, writes := [] }
  else
    match rt.codeObjects codeObject, allocCallback, outputs with
    | none, _, _ =>
      { outcome := .ok .errorInvalidCodeObject, outputs, allocSize := none, writes := [] }
    | some fp, some alloc, some out =>
      let size := fp.serializedSize
      let result := alloc size out
      if result.1 ≠ .success then
        { outcome := .ok result.1, outputs := result.2, allocSize := size, writes := [] }
      else if result.2.serializedCodeObject = 0 then
        { outcome := .error .nullPointer, outputs := result.2, allocSize := size, writes := [] }
      else
        let writes := fp.serializeTo result.2.serializedCodeObject
        let memory := result.2.memory.copyAll writes
        -- `*serialized_code_object_size` is left as it is
        { outcome := .ok .success, outputs := some { result.2 with memory },
          allocSize := size, writes }
    | some _, _, _ =>
      { outcome := .ok .errorInvalidArgument, outputs, allocSize := none, writes := [] }

/-- What a deserialization takes from its environment. -/
structure Host where
  libelf : Libelf
  tempDir : Option String
  /-- The address of the new program. -/
  newAddress : ℕ

/-- How a call of `hsa_code_object_deserialize` ends. -/
structure Deserialized where
  outcome : Except Fault HsaStatus
  reads : List Extent
  runtime : Runtime
  /-- The handle stored to `*code_object`. -/
  codeObject : Option ℕ

/-- `hsa_code_object_deserialize`. -/
def hsaCodeObjectDeserialize (host : Host) (rt : Runtime) (m : Cells Byte)
    (serializedCodeObject serializedCodeObjectSize codeObject : ℕ) : Deserialized :=
  if !rt.initialized then
    { outcome := .ok .errorNotInitialized, reads := [], runtime := rt, codeObject := none }
  else if serializedCodeObject = 0 ∨ codeObject = 0 ∨ serializedCodeObjectSize = 0 then
    { outcome := .ok .errorInvalidArgument, reads := [], runtime := rt, codeObject := none }
  else
    let reads := (deserialize host.libelf host.tempDir m serializedCodeObject).1
    match (deserialize host.libelf host.tempDir m serializedCodeObject).2 with
    | .error fault => { outcome := .error fault, reads, runtime := rt, codeObject := none }
    | .ok p =>
      let codeObjects := Function.update rt.codeObjects host.newAddress (some p)
      { outcome := .ok .success, reads, runtime := { rt with codeObjects },
        codeObject := some host.newAddress }

end PhsaRuntime
