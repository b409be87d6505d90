import PhsaRuntime.CodeObject
import PhsaRuntime.DLFinalizedProgram.Codec

/-!
# The calls on serialized code objects

The size of a serialized code object is passed to the allocation callback and not stored to the
variable of the caller, so that the two outputs describe the code object exactly when the size
is there already (`serialize_selfContained_iff`). The size that is given to a deserialization
is compared with 0 only: it reads what the buffer declares, and every buffer that does not hold
a complete image ends in a fault or in a code object (`deserialize_contained_iff`).
-/

namespace PhsaRuntime

/-! ## Serialization -/

/-- The call has made a code object equal to `fp`, under a file name of its own. -/
def Deserialized.Yields (d : Deserialized) (fp : FinalizedProgram) : Prop :=
  d.outcome = .ok .success ∧
    ∃ handle copy, d.codeObject = some handle ∧ d.runtime.codeObjects handle = some copy ∧
      { copy with binaryFileName := fp.binaryFileName } = fp

/-- What a successful serialization of `fp` is documented to leave behind: the stored size is
the size that was passed to the callback and the number of bytes written, and a
deserialization from the outputs makes an equal code object. -/
def SelfContained (host : Host) (rt : Runtime) (fp : FinalizedProgram) (codeObject : ℕ)
    (r : Serialized) : Prop :=
  ∃ out size, r.outputs = some out ∧ r.allocSize = some size ∧
    out.serializedCodeObjectSize = size ∧
    r.writes = fp.serializeTo out.serializedCodeObject ∧
    (r.writes.map fun w => w.2.length).sum = size ∧
    (hsaCodeObjectDeserialize host rt out.memory out.serializedCodeObject
      out.serializedCodeObjectSize codeObject).Yields fp

variable {rt : Runtime} {handle : ℕ} {fp : FinalizedProgram} {alloc : AllocCallback}
  {out : Outputs}

/-- A serialization that succeeds has called the callback, which has returned a buffer. -/
theorem serialize_success (hlive : rt.codeObjects handle = some fp)
    (h : (hsaCodeObjectSerialize rt handle alloc out).outcome = .ok .success) :
    rt.initialized = true ∧
    (alloc fp.serializedSize out).2.serializedCodeObject ≠ 0 ∧
    hsaCodeObjectSerialize rt handle alloc out =
      { outcome := .ok .success
        outputs := some { (alloc fp.serializedSize out).2 with
          memory := (alloc fp.serializedSize out).2.memory.copyAll
            (fp.serializeTo (alloc fp.serializedSize out).2.serializedCodeObject) }
        allocSize := some fp.serializedSize
        writes := fp.serializeTo (alloc fp.serializedSize out).2.serializedCodeObject } := by
  cases hrt : rt.initialized with
  | false => simp [hsaCodeObjectSerialize, hrt] at h
  | true =>
    simp only [hsaCodeObjectSerialize, hrt, hlive] at h ⊢
    by_cases hstatus : (alloc fp.serializedSize out).1 = .success
    · by_cases haddress : (alloc fp.serializedSize out).2.serializedCodeObject = 0
      · simp [hstatus, haddress] at h
      · simp [hstatus, haddress]
    · simp [hstatus] at h

/-- Deserialization from a buffer that holds a program. -/
theorem deserialize_success (host : Host) {m : Cells Byte} {buffer size codeObject : ℕ}
    {p : FinalizedProgram} (hrt : rt.initialized = true) (hbuffer : buffer ≠ 0)
    (hcode : codeObject ≠ 0) (hsize : size ≠ 0)
    (h : (deserialize host.libelf host.tempDir m buffer).2 = .ok p) :
    hsaCodeObjectDeserialize host rt m buffer size codeObject =
      { outcome := .ok .success
        reads := (deserialize host.libelf host.tempDir m buffer).1
        runtime := { rt with
          codeObjects := Function.update rt.codeObjects host.newAddress (some p) }
        codeObject := some host.newAddress } := by
  simp [hsaCodeObjectDeserialize, hrt, hbuffer, hcode, hsize, h]

/-- A deserialization of what a serialization has written yields an equal code object. -/
theorem yields_of_copyAll {libelf : Libelf} {tempDir : String} {newAddress : ℕ}
    (fp : DLFinalizedProgram libelf) (m : Cells Byte) {buffer size codeObject : ℕ}
    (hrt : rt.initialized = true) (hbuffer : buffer ≠ 0) (hcode : codeObject ≠ 0)
    (hsize : size ≠ 0) :
    (hsaCodeObjectDeserialize { libelf, tempDir := some tempDir, newAddress } rt
      (m.copyAll (fp.serializeTo buffer)) buffer size codeObject).Yields
      fp.toFinalizedProgram := by
  rw [deserialize_success { libelf, tempDir := some tempDir, newAddress } hrt hbuffer hcode hsize
    (deserialize_copyAll tempDir fp m buffer)]
  exact ⟨rfl, newAddress, _, rfl, Function.update_self .., rfl⟩

/-- **Serialization.** The outputs of a successful call describe the code object if and only
if the callback leaves the size in the variable that the call does not store to. -/
theorem serialize_selfContained_iff (libelf : Libelf) (tempDir : String) (newAddress : ℕ)
    (rt : Runtime) (handle : ℕ) (fp : DLFinalizedProgram libelf) (alloc : AllocCallback)
    (out : Outputs) (codeObject : ℕ) (hcode : codeObject ≠ 0)
    (hlive : rt.codeObjects handle = some fp.toFinalizedProgram)
    (hsuccess : (hsaCodeObjectSerialize rt handle alloc out).outcome = .ok .success) :
    SelfContained { libelf, tempDir := some tempDir, newAddress } rt fp.toFinalizedProgram
        codeObject (hsaCodeObjectSerialize rt handle alloc out) ↔
      (alloc (fp.elfSize + 28) out).2.serializedCodeObjectSize = fp.elfSize + 28 := by
  obtain ⟨hrt, haddress, hresult⟩ := serialize_success hlive hsuccess
  rw [hresult, ← fp.serializedSize_eq]
  constructor
  · rintro ⟨out', size, hout, halloc, hsize, -⟩
    cases hout
    cases halloc
    exact hsize
  · intro hsize
    have hpos : (alloc fp.serializedSize out).2.serializedCodeObjectSize ≠ 0 := by
      rw [hsize, fp.serializedSize_eq]
      omega
    exact ⟨_, _, rfl, rfl, hsize, rfl, fp.sum_serializeTo _,
      yields_of_copyAll fp _ hrt haddress hcode hpos⟩

/-- A program whose image is a header, without functions. -/
def headerProgram : DLFinalizedProgram headerOnly where
  binaryFileName := ""
  elfBlob := elfHeader
  isa := 2
  machineModel := 1
  profile := 1
  defaultRoundingMode := 0
  version := 1
  funcDescriptors := ∅
  constructed := rfl

/-- The runtime with this program under the handle 32. -/
def headerRuntime : Runtime where
  initialized := true
  codeObjects handle := if handle = 32 then some headerProgram.toFinalizedProgram else none

/-- A callback that returns the buffer at 4096. -/
def allocAt4096 : AllocCallback := fun _ out =>
  (.success, { out with serializedCodeObject := 4096 })

theorem serialize_selfContained_iff_header :
    SelfContained ⟨headerOnly, some "/tmp/phsa", 64⟩ headerRuntime
      headerProgram.toFinalizedProgram 8
      (hsaCodeObjectSerialize headerRuntime 32 (some allocAt4096) (some ⟨0, 92, fun _ => 0⟩)) := by
  have h := serialize_selfContained_iff headerOnly "/tmp/phsa" 64 headerRuntime 32 headerProgram
    allocAt4096 ⟨0, 92, fun _ => 0⟩ 8 (by decide) rfl rfl
  exact h.mpr rfl

/-- A caller whose size is 0 before the call finds 0 there after a successful call. -/
theorem serialize_size_not_stored :
    (hsaCodeObjectSerialize headerRuntime 32 (some allocAt4096)
      (some ⟨0, 0, fun _ => 0⟩)).outcome = .ok .success ∧
    ¬ SelfContained ⟨headerOnly, some "/tmp/phsa", 64⟩ headerRuntime
      headerProgram.toFinalizedProgram 8
      (hsaCodeObjectSerialize headerRuntime 32 (some allocAt4096) (some ⟨0, 0, fun _ => 0⟩)) := by
  constructor
  · rfl
  · rintro ⟨out, size, hout, halloc, hsize, -⟩
    cases hout
    cases halloc
    revert hsize
    decide

/-! ## Deserialization -/

/-- The buffer holds a complete image: its declared size and the fields behind the image fit
in the given size, and the image can be parsed. -/
def HoldsImage (libelf : Libelf) (m : Cells Byte) (buffer size : ℕ) : Prop :=
  declaredSize m buffer + 28 ≤ size ∧
    (libelf (m.read (buffer + 8) (declaredSize m buffer))).isSome

/-- What a deserialization is to guarantee of a buffer of the given size: it reads nothing
outside, it succeeds only on a complete image, and without one it returns an error and makes no
code object. -/
def Contained (host : Host) (rt : Runtime) (m : Cells Byte) (buffer size : ℕ)
    (d : Deserialized) : Prop :=
  (∀ e ∈ d.reads, ∀ i < e.2, buffer ≤ e.1 + i ∧ e.1 + i < buffer + size) ∧
  (d.outcome = .ok .success → HoldsImage host.libelf m buffer size) ∧
  (¬ HoldsImage host.libelf m buffer size →
    (∃ status, status ≠ .success ∧ d.outcome = .ok status) ∧
      d.runtime.codeObjects = rt.codeObjects ∧ d.codeObject = none)

/-- What a deserialization reads lies in the declared image and its fields. -/
theorem deserialize_reads {libelf : Libelf} {tempDir : Option String} {m : Cells Byte}
    {buffer : ℕ} {e : Extent} (he : e ∈ (deserialize libelf tempDir m buffer).1) :
    buffer ≤ e.1 ∧ e.1 + e.2 ≤ buffer + (declaredSize m buffer + 28) := by
  have h64 : Scalar.size (BitVec 64) = 8 := rfl
  have h32 : Scalar.size (BitVec 32) = 4 := rfl
  rw [deserialize] at he
  split at he
  · simp only [h64, h32, List.mem_cons, List.not_mem_nil, or_false] at he
    rcases he with rfl | rfl | rfl | rfl | rfl | rfl <;> simp only <;> omega
  · simp only [h64, List.mem_cons, List.not_mem_nil, or_false] at he
    cases he
    simp only
    omega

/-- Behind the checks of its arguments a call returns no error status. -/
theorem deserialize_outcome {host : Host} {rt : Runtime} {m : Cells Byte}
    {buffer size codeObject : ℕ} (hrt : rt.initialized = true) (hbuffer : buffer ≠ 0)
    (hcode : codeObject ≠ 0) (hsize : size ≠ 0) {status : HsaStatus}
    (h : (hsaCodeObjectDeserialize host rt m buffer size codeObject).outcome = .ok status) :
    status = .success := by
  simp only [hsaCodeObjectDeserialize, hrt, hbuffer, hcode, hsize] at h
  cases hp : (deserialize host.libelf host.tempDir m buffer).2 with
  | error fault => simp [hp] at h
  | ok p => simpa [hp] using h.symm

/-- A call that ends at the checks of its arguments. -/
theorem contained_of_refused {host : Host} {rt : Runtime} {m : Cells Byte} {buffer size : ℕ}
    {status : HsaStatus} (h : status ≠ .success) :
    Contained host rt m buffer size
      { outcome := .ok status, reads := [], runtime := rt, codeObject := none } := by
  refine ⟨?_, ?_, ?_⟩
  · intro e he
    exact absurd he List.not_mem_nil
  · intro hok
    exact absurd (Except.ok.inj hok) h
  · intro _
    exact ⟨⟨status, h, rfl⟩, rfl, rfl⟩

/-- A call that reads what the buffer declares, where this fits in the size. -/
theorem contained_of_holdsImage {host : Host} {rt rt' : Runtime} {m : Cells Byte}
    {buffer size : ℕ} {outcome : Except Fault HsaStatus} {reads : List Extent}
    {codeObject : Option ℕ} (himage : HoldsImage host.libelf m buffer size)
    (hreads : reads = (deserialize host.libelf host.tempDir m buffer).1) :
    Contained host rt m buffer size { outcome, reads, runtime := rt', codeObject } := by
  refine ⟨?_, fun _ => himage, fun hno => absurd himage hno⟩
  intro e he i hi
  simp only [hreads] at he
  have hrange := deserialize_reads he
  have hfits := himage.1
  omega

/-- **Deserialization.** A call stays inside a buffer and refuses what is no image if and only
if it ends at the checks of its arguments or the buffer holds a complete image. -/
theorem deserialize_contained_iff (host : Host) (rt : Runtime) (m : Cells Byte)
    (buffer size codeObject : ℕ) (hsize : 0 < size) :
    Contained host rt m buffer size
        (hsaCodeObjectDeserialize host rt m buffer size codeObject) ↔
      rt.initialized = false ∨ buffer = 0 ∨ codeObject = 0 ∨
        HoldsImage host.libelf m buffer size := by
  have hne : size ≠ 0 := by omega
  constructor
  · rintro ⟨-, -, herror⟩
    by_contra hcond
    simp only [not_or, Bool.not_eq_false] at hcond
    obtain ⟨hrt, hbuffer, hcode, himage⟩ := hcond
    obtain ⟨⟨status, hstatus, houtcome⟩, -, -⟩ := herror himage
    exact hstatus (deserialize_outcome hrt hbuffer hcode hne houtcome)
  · intro hcond
    rw [hsaCodeObjectDeserialize]
    split
    · exact contained_of_refused (by decide)
    · split
      · exact contained_of_refused (by decide)
      · have himage : HoldsImage host.libelf m buffer size := by simp_all
        split
        · exact contained_of_holdsImage himage rfl
        · exact contained_of_holdsImage himage rfl

theorem deserialize_contained_iff_header :
    Contained ⟨headerOnly, some "/tmp/phsa", 64⟩ ⟨true, fun _ => none⟩
      (Cells.write (fun _ => 0) 32 headerBytes) 32 92
      (hsaCodeObjectDeserialize ⟨headerOnly, some "/tmp/phsa", 64⟩ ⟨true, fun _ => none⟩
        (Cells.write (fun _ => 0) 32 headerBytes) 32 92 8) := by
  have h := deserialize_contained_iff ⟨headerOnly, some "/tmp/phsa", 64⟩ ⟨true, fun _ => none⟩
    (Cells.write (fun _ => 0) 32 headerBytes) 32 92 8 (by decide)
  have himage : HoldsImage headerOnly (Cells.write (fun _ => 0) 32 headerBytes) 32 92 :=
    ⟨by decide, by decide⟩
  exact h.mpr (.inr (.inr (.inr himage)))

/-- A buffer that ends behind the image: the call reads the 20 bytes behind it and makes a code
object. -/
theorem deserialize_past_end :
    (hsaCodeObjectDeserialize ⟨headerOnly, some "/tmp/phsa", 64⟩ ⟨true, fun _ => none⟩
      (Cells.write (fun _ => 0) 32 headerBytes) 32 72 8).outcome = .ok .success ∧
    ¬ Contained ⟨headerOnly, some "/tmp/phsa", 64⟩ ⟨true, fun _ => none⟩
      (Cells.write (fun _ => 0) 32 headerBytes) 32 72
      (hsaCodeObjectDeserialize ⟨headerOnly, some "/tmp/phsa", 64⟩ ⟨true, fun _ => none⟩
        (Cells.write (fun _ => 0) 32 headerBytes) 32 72 8) := by
  constructor
  · rfl
  · rintro ⟨hreads, -, -⟩
    have hread := hreads (104, 8) (by decide) 0 (by decide)
    omega

end PhsaRuntime
