import PhsaRuntime.DLFinalizedProgram

/-!
# The codec of serialized programs

The writer and the reader walk one layout, a list of bytes: the writer writes it at the buffer
(`copyAll_serializeTo`), its length is the serialized size, and a reader of a buffer that holds
it finds the fields of the program (`deserialize_of_layout`).

## Main result

* `codec_round_trip` — both round trips.
-/

namespace PhsaRuntime

namespace FinalizedProgram

/-- The bytes of a serialized program. -/
def layout (p : FinalizedProgram) : List Byte :=
  Scalar.toBytes (BitVec.ofNat 64 p.elfSize) ++ (p.elfBlob.bytes ++
    (Scalar.toBytes p.isa ++ (Scalar.toBytes p.defaultRoundingMode ++
      (Scalar.toBytes p.profile ++ Scalar.toBytes p.machineModel))))

variable (p : FinalizedProgram)

theorem length_layout : p.layout.length = p.elfSize + 28 := by
  simp only [layout, List.length_append, Scalar.length_toBytes, elfSize]
  change 8 + (_ + (8 + (4 + (4 + 4)))) = _
  omega

theorem serializedSize_eq : p.serializedSize = p.elfSize + 28 := by
  have hlt : p.elfSize < 2 ^ 63 := p.elfBlob.length_lt
  change Word.wrap (8 + p.elfSize + 8 + 4 + 4 + 4) = _
  rw [Word.wrap_of_lt (by omega)]
  omega

/-- The writer writes the layout. -/
theorem copyAll_serializeTo (m : Cells Byte) (buffer : ℕ) :
    m.copyAll (p.serializeTo buffer) = m.write buffer p.layout := by
  simp only [Cells.copyAll, serializeTo, List.foldl_cons, List.foldl_nil, layout,
    Cells.write_append, Scalar.length_toBytes, elfSize]

theorem sum_serializeTo (buffer : ℕ) :
    ((p.serializeTo buffer).map fun w => w.2.length).sum = p.serializedSize := by
  simp only [serializeTo, List.map_cons, List.map_nil, List.sum_cons, List.sum_nil,
    Scalar.length_toBytes, serializedSize_eq, elfSize]
  change 8 + (_ + (8 + (4 + (4 + (4 + 0))))) = _
  omega

end FinalizedProgram

variable {libelf : Libelf} {tempDir : String} {m : Cells Byte} {buffer : ℕ}
  {p p' : FinalizedProgram}

/-- The program that a buffer holds, if its image can be parsed. -/
def programAt (libelf : Libelf) (m : Cells Byte) (buffer : ℕ)
    (h : declaredSize m buffer < 2 ^ 63) : Option FinalizedProgram :=
  let isa := buffer + Scalar.size (BitVec 64) + declaredSize m buffer
  let defaultRoundingMode := isa + Scalar.size (BitVec 64)
  let profile := defaultRoundingMode + Scalar.size (BitVec 32)
  let machineModel := profile + Scalar.size (BitVec 32)
  FinalizedProgram.create libelf (imageAt m buffer h) (m.load (BitVec 64) isa)
    (m.load (BitVec 32) machineModel) (m.load (BitVec 32) profile)
    (m.load (BitVec 32) defaultRoundingMode)

/-- What a reader returns. -/
theorem deserialize_snd (libelf : Libelf) (tempDir : String)
    (h : declaredSize m buffer < 2 ^ 63) :
    (deserialize libelf (some tempDir) m buffer).2 =
      (programAt libelf m buffer h).elim (.error .nullPointer) fun p =>
        .ok { p with binaryFileName := tempDir ++ "/temp.elf" } := by
  rw [deserialize, dif_pos h]
  cases hp : programAt libelf m buffer h with
  | none =>
    simp only [programAt] at hp
    simp only [hp, Option.elim_none]
  | some p =>
    simp only [programAt] at hp
    simp only [hp, Option.elim_some]

theorem deserialize_eq_ok_iff :
    (deserialize libelf (some tempDir) m buffer).2 = .ok p ↔
      ∃ h p', programAt libelf m buffer h = some p' ∧
        { p' with binaryFileName := tempDir ++ "/temp.elf" } = p := by
  by_cases h : declaredSize m buffer < 2 ^ 63
  · rw [exists_prop_of_true h, deserialize_snd libelf tempDir h]
    cases programAt libelf m buffer h <;> simp
  · rw [deserialize, dif_neg h]
    refine iff_of_false (by simp) ?_
    rintro ⟨hlt, -⟩
    exact h hlt

/-- **The reader lemma:** a reader of a buffer that holds the layout of a program builds the
program. -/
theorem deserialize_of_layout (tempDir : String)
    (hread : m.read buffer p.layout.length = p.layout)
    (hcreate : FinalizedProgram.create libelf p.elfBlob p.isa p.machineModel p.profile
      p.defaultRoundingMode = some p') :
    (deserialize libelf (some tempDir) m buffer).2 =
      .ok { p' with binaryFileName := tempDir ++ "/temp.elf" } := by
  simp only [FinalizedProgram.layout, Cells.read_append_iff, Scalar.length_toBytes] at hread
  obtain ⟨hsize, hblob, hisa, hrm, hprofile, hmm⟩ := hread
  have hlt : p.elfSize < 2 ^ 63 := p.elfBlob.length_lt
  have hdeclared : declaredSize m buffer = p.elfSize := by
    rw [declaredSize, Cells.load_eq hsize, BitVec.toNat_ofNat]
    omega
  have himage : imageAt m buffer (hdeclared ▸ hlt) = p.elfBlob := by
    ext1
    simp only [imageAt, hdeclared]
    exact hblob
  refine deserialize_eq_ok_iff.mpr ⟨hdeclared ▸ hlt, p', ?_, rfl⟩
  rw [programAt, himage, ← hcreate]
  simp only [hdeclared, FinalizedProgram.elfSize]
  rw [Cells.load_eq hisa, Cells.load_eq hrm, Cells.load_eq hprofile, Cells.load_eq hmm]

/-- A reader of what the writer has written. -/
theorem deserialize_copyAll (tempDir : String) (p : DLFinalizedProgram libelf) (m : Cells Byte)
    (buffer : ℕ) :
    (deserialize libelf (some tempDir) (m.copyAll (p.serializeTo buffer)) buffer).2 =
      .ok { p.toFinalizedProgram with binaryFileName := tempDir ++ "/temp.elf" } := by
  rw [p.copyAll_serializeTo]
  have hread : (m.write buffer p.layout).read buffer p.layout.length = p.layout :=
    Cells.read_write
  have h := deserialize_of_layout tempDir hread p.constructed
  exact h

/-- The bytes of the program that a buffer holds. -/
theorem layout_programAt {h : declaredSize m buffer < 2 ^ 63}
    (hp : programAt libelf m buffer h = some p) :
    p.elfSize = declaredSize m buffer ∧
      p.layout = m.read buffer (declaredSize m buffer + 28) := by
  obtain ⟨elf, -, rfl⟩ := Option.map_eq_some_iff.mp hp
  have hword : BitVec.ofNat 64 (declaredSize m buffer) = m.load (BitVec 64) buffer := by
    simp [declaredSize]
  simp only [FinalizedProgram.layout, FinalizedProgram.elfSize, imageAt, Cells.length_read, hword,
    Cells.toBytes_load, true_and]
  have hsum : declaredSize m buffer + 28 = Scalar.size (BitVec 64) + (declaredSize m buffer +
      (Scalar.size (BitVec 64) + (Scalar.size (BitVec 32) + (Scalar.size (BitVec 32) +
        Scalar.size (BitVec 32))))) := by
    change _ = 8 + (_ + (8 + (4 + (4 + 4))))
    omega
  simp only [hsum, Cells.read_add]

/-- The bytes behind the first ones of a buffer that holds `xs`. -/
theorem read_write_drop (m : Cells Byte) (buffer : ℕ) {k n : ℕ} {xs : List Byte}
    (h : k + n ≤ xs.length) : (m.write buffer xs).read (buffer + k) n = (xs.drop k).take n := by
  have hread : ((m.write buffer xs).read buffer xs.length).take (k + n) =
      (m.write buffer xs).read buffer (k + n) := Cells.read_take h
  rw [Cells.read_write, Cells.read_add] at hread
  rw [List.take_drop, hread, List.drop_left' Cells.length_read]

/-- A reader builds a program from every image that can be parsed. -/
theorem isSome_programAt (h : declaredSize m buffer < 2 ^ 63) :
    (programAt libelf m buffer h).isSome =
      (libelf (m.read (buffer + 8) (declaredSize m buffer))).isSome := by
  have hsize : Scalar.size (BitVec 64) = 8 := rfl
  simp only [programAt, FinalizedProgram.create, imageAt, Option.isSome_map, hsize]

/-- **The round trip.** The writer writes exactly the serialized size, and the reader builds
the same program from it; and where a buffer is long enough for the image it declares, the
reader builds a program if and only if the image can be parsed, and this program is written as
the first bytes of the buffer. -/
theorem codec_round_trip (libelf : Libelf) (tempDir : String) :
    (∀ (p : DLFinalizedProgram libelf) (m : Cells Byte) (buffer : ℕ),
      ((p.serializeTo buffer).map fun w => w.2.length).sum = p.serializedSize ∧
      (∃ bytes, bytes.length = p.serializedSize ∧
        m.copyAll (p.serializeTo buffer) = m.write buffer bytes) ∧
      (deserialize libelf (some tempDir) (m.copyAll (p.serializeTo buffer)) buffer).2 =
        .ok { p.toFinalizedProgram with binaryFileName := tempDir ++ "/temp.elf" }) ∧
    ∀ (b : Blob) (m : Cells Byte) (buffer : ℕ),
      declaredSize (m.write buffer b.bytes) buffer + 28 ≤ b.bytes.length →
      ((∃ p, (deserialize libelf (some tempDir) (m.write buffer b.bytes) buffer).2 = .ok p) ↔
        (libelf ((b.bytes.drop 8).take
          (declaredSize (m.write buffer b.bytes) buffer))).isSome) ∧
      ∀ p, (deserialize libelf (some tempDir) (m.write buffer b.bytes) buffer).2 = .ok p →
        ∀ (m' : Cells Byte) (buffer' : ℕ),
          (m'.copyAll (p.serializeTo buffer')).read buffer' p.serializedSize =
            b.bytes.take p.serializedSize := by
  constructor
  · intro p m buffer
    have hlength : p.layout.length = p.serializedSize := by
      rw [p.length_layout, p.serializedSize_eq]
    exact ⟨p.sum_serializeTo buffer, ⟨p.layout, hlength, p.copyAll_serializeTo m buffer⟩,
      deserialize_copyAll tempDir p m buffer⟩
  · intro b m buffer hlong
    have hlt := b.length_lt
    have h : declaredSize (m.write buffer b.bytes) buffer < 2 ^ 63 := by omega
    constructor
    · rw [← read_write_drop m buffer (by omega), ← isSome_programAt h,
        Option.isSome_iff_exists, deserialize_snd libelf tempDir h]
      cases programAt libelf (m.write buffer b.bytes) buffer h <;> simp
    · intro p hp m' buffer'
      obtain ⟨h', p', hp', rfl⟩ := deserialize_eq_ok_iff.mp hp
      obtain ⟨hsize, hlayout⟩ := layout_programAt hp'
      have hlength := p'.length_layout
      change (m'.copyAll (p'.serializeTo buffer')).read buffer' p'.serializedSize =
        b.bytes.take p'.serializedSize
      rw [p'.copyAll_serializeTo, p'.serializedSize_eq, ← hlength, Cells.read_write, hlayout,
        Cells.length_read, ← Cells.read_take hlong, Cells.read_write]

/-- A 64-bit ELF header without sections. -/
def elfHeader : Blob where
  bytes := [0x7f, 0x45, 0x4c, 0x46, 2, 1, 1, 0] ++ List.replicate 8 0 ++
    [3, 0, 62, 0, 1, 0, 0, 0] ++ List.replicate 28 0 ++ [64, 0, 56, 0, 0, 0, 64, 0, 0, 0, 0, 0]
  length_lt := by decide

/-- What libelf finds in this header; nothing else is parsed. -/
def headerOnly : Libelf := fun bytes => if bytes = elfHeader.bytes then some ⟨1, []⟩ else none

/-- A buffer that declares a header and holds it, without the trailer. -/
def headerBytes : List Byte := [64, 0, 0, 0, 0, 0, 0, 0] ++ elfHeader.bytes

/-- A header with its trailer and a byte behind it. -/
def headerBuffer : Blob where
  bytes := headerBytes ++ [2, 0, 0, 0, 0, 0, 0, 0, 0, 0, 0, 0, 1, 0, 0, 0, 1, 0, 0, 0, 5]
  length_lt := by decide

theorem codec_round_trip_header :
    ∃ p, (deserialize headerOnly (some "/tmp/phsa")
        (Cells.write (fun _ => 0) 8 headerBuffer.bytes) 8).2 = .ok p ∧
      (Cells.copyAll (fun _ => 0) (p.serializeTo 16)).read 16 p.serializedSize =
        headerBuffer.bytes.take p.serializedSize := by
  obtain ⟨-, h⟩ := codec_round_trip headerOnly "/tmp/phsa"
  obtain ⟨hiff, hbytes⟩ := h headerBuffer (fun _ => 0) 8 (by decide)
  obtain ⟨p, hp⟩ := hiff.mpr (by decide)
  exact ⟨p, hp, hbytes p hp (fun _ => 0) 16⟩

end PhsaRuntime
