import PhsaRuntime.HsaStatus
import PhsaRuntime.Lib.Bytes
import PhsaRuntime.Lib.InsertAll

/-!
# Extensions

The runtime registers its extensions by their ids. Two functions of the API answer from the
registry: `hsa_system_extension_supported`, and `hsa_system_get_info` with a mask of 128 bytes.

The registry is a `std::unordered_map`: the insertion of an id that it has leaves it as it is.

## Main definitions

* `ExtensionRegistry`, `registerExtension`, `findExtensions`.
* `hsaSystemExtensionSupported`, `hsaSystemGetInfoExtensions`.

## Main result

* `extension_queries_exact_iff` — when the two functions report what was registered.
-/

namespace PhsaRuntime

/-- `Version`. -/
@[ext]
structure Version where
  major : ℕ
  minor : ℕ
  deriving DecidableEq, Repr

/-- An `Extension`, as far as the queries go. -/
structure Extension where
  version : Version
  deriving DecidableEq, Repr

/-- `Extensions`: the extensions, by their ids. -/
abbrev ExtensionRegistry := AList fun _ : ℕ => Extension

namespace ExtensionRegistry

/-- `ExtensionRegistry::registerExtension`. -/
def registerExtension (r : ExtensionRegistry) (id : ℕ) (e : Extension) : ExtensionRegistry :=
  insertNew r id e

/-- `ExtensionRegistry::findExtensions`: the extensions of the range of an id. -/
def findExtensions (r : ExtensionRegistry) (id : ℕ) : List Extension := (r.lookup id).toList

/-- The registry after some calls of `registerExtension`. -/
def registerAll (calls : List (ℕ × Extension)) : ExtensionRegistry :=
  calls.foldl (fun r c => r.registerExtension c.1 c.2) ∅

/-- An order in which registries are iterated. -/
structure Order where
  entries : ExtensionRegistry → List (Sigma fun _ : ℕ => Extension)
  perm : ∀ r, (entries r).Perm r.entries

end ExtensionRegistry

open ExtensionRegistry

/-! ## The queries -/

/-- `hsa_system_extension_supported`: the status and the value of `*result`. -/
def hsaSystemExtensionSupported (initialized : Bool) (r : ExtensionRegistry)
    (extension versionMajor versionMinor : ℕ) (resultIsNull : Bool) : HsaStatus × Option Bool :=
  if !initialized then (.errorNotInitialized, none)
  else if resultIsNull then (.errorInvalidArgument, none)
  else if extension > 127 then (.errorInvalidArgument, none)
  else
    (.success, some ((r.findExtensions extension).any fun e =>
      e.version.major = versionMajor ∧ e.version.minor = versionMinor))

/-- `1 << Id`. The shift of an `int` by 32 and more is not defined: it has some value. -/
def shiftOne (undefinedShift : ℕ → BitVec 32) (id : ℕ) : BitVec 32 :=
  if id < 32 then 1#32 <<< id else undefinedShift id

/-- `|=` of a byte and an `int`. -/
def orByte (b : Byte) (x : BitVec 32) : Byte := (b.setWidth 32 ||| x).setWidth 8

/-- The loop over the registry: the byte at `value` afterwards. -/
def markExtensions (undefinedShift : ℕ → BitVec 32) :
    List (Sigma fun _ : ℕ => Extension) → Byte → Byte
  | [], b => b
  | entry :: rest, b =>
    markExtensions undefinedShift rest (orByte b (shiftOne undefinedShift entry.1))

/-- `hsa_system_get_info` for `HSA_SYSTEM_INFO_EXTENSIONS`: the status and memory afterwards. -/
def hsaSystemGetInfoExtensions (undefinedShift : ℕ → BitVec 32) (order : ExtensionRegistry.Order)
    (initialized : Bool) (r : ExtensionRegistry) (value : ℕ) (m : Cells Byte) :
    HsaStatus × Cells Byte :=
  if value = 0 then (.errorInvalidArgument, m)
  else if !initialized then (.errorNotInitialized, m)
  else
    let m := m.write value (List.replicate 128 0)
    -- every id is marked in the first byte
    (.success, Function.update m value (markExtensions undefinedShift (order.entries r) (m value)))

/-! ## What is registered -/

variable {calls : List (ℕ × Extension)} {undefinedShift : ℕ → BitVec 32} {id i j : ℕ}

theorem registerAll_eq : registerAll calls = insertNewAll ∅ calls := rfl

/-- The registry has the extension that was registered first for an id. -/
theorem lookup_registerAll :
    (registerAll calls).lookup id = (calls.find? fun c => c.1 = id).map Prod.snd := by
  rw [registerAll_eq, lookup_insertNewAll, AList.lookup_empty, Option.none_or]

theorem mem_registerAll : id ∈ registerAll calls ↔ ∃ e, (id, e) ∈ calls := by
  rw [registerAll_eq, mem_insertNewAll_empty, List.mem_map]
  constructor
  · rintro ⟨⟨id, e⟩, hc, rfl⟩
    exact ⟨e, hc⟩
  · rintro ⟨e, hc⟩
    exact ⟨(id, e), hc, rfl⟩

/-- A range has the first extension of its id, at most. -/
theorem mem_findExtensions {e : Extension} :
    e ∈ (registerAll calls).findExtensions id ↔
      (calls.find? fun c => c.1 = id).map Prod.snd = some e := by
  rw [findExtensions, lookup_registerAll, Option.mem_toList]

/-! ## The mask -/

theorem getLsbD_orByte (b : Byte) (x : BitVec 32) (h : j < 8) :
    (orByte b x).getLsbD j = (b.getLsbD j || x.getLsbD j) := by
  have hj : j < 32 := by omega
  simp [orByte, h, hj]

theorem getLsbD_markExtensions (entries : List (Sigma fun _ : ℕ => Extension)) (b : Byte)
    (h : j < 8) :
    (markExtensions undefinedShift entries b).getLsbD j =
      (b.getLsbD j || entries.any fun entry => (shiftOne undefinedShift entry.1).getLsbD j) := by
  induction entries generalizing b with
  | nil => simp [markExtensions]
  | cons entry entries ih =>
    rw [markExtensions, ih, getLsbD_orByte b _ h, List.any_cons, Bool.or_assoc]

/-- The shift by a small id sets the bit of the id. -/
theorem getLsbD_shiftOne (hid : id < 8) (hj : j < 8) :
    (shiftOne undefinedShift id).getLsbD j = decide (id = j) := by
  have hlt : id < 32 := by omega
  have hj' : j < 32 := by omega
  simp only [shiftOne, hlt, if_true, BitVec.getLsbD_shiftLeft, hj', decide_true, Bool.true_and,
    BitVec.getLsbD_one]
  by_cases heq : id = j
  · simp [heq]
  · have hne : ¬ (¬ j < id ∧ j - id = 0) := by omega
    simpa [heq] using hne

/-- The byte of the mask with the given index. -/
def maskByte (undefinedShift : ℕ → BitVec 32) (order : ExtensionRegistry.Order)
    (r : ExtensionRegistry) (value : ℕ) (m : Cells Byte) (i : ℕ) : Byte :=
  (hsaSystemGetInfoExtensions undefinedShift order true r value m).2 (value + i)

variable {order : ExtensionRegistry.Order} {r : ExtensionRegistry} {value : ℕ} {m : Cells Byte}

/-- `std::fill`. -/
theorem fill_apply :
    (m.write value (List.replicate 128 0)) (value + i) = if i < 128 then 0 else m (value + i) := by
  by_cases hi : i < 128
  · simp [Cells.write, hi, -List.reduceReplicate]
  · simp [Cells.write, hi, -List.reduceReplicate]

theorem maskByte_zero (hvalue : value ≠ 0) :
    maskByte undefinedShift order r value m 0 =
      markExtensions undefinedShift (order.entries r) 0 := by
  have hfill : (m.write value (List.replicate 128 0)) value = 0 := fill_apply (i := 0)
  simp only [maskByte, hsaSystemGetInfoExtensions, hvalue, if_false, Bool.not_true,
    Bool.false_eq_true, Nat.add_zero, Function.update_self, hfill]

/-- The other bytes are not marked. -/
theorem maskByte_of_pos (hvalue : value ≠ 0) (hpos : 0 < i) :
    maskByte undefinedShift order r value m i = if i < 128 then 0 else m (value + i) := by
  have hne : value + i ≠ value := by omega
  simp only [maskByte, hsaSystemGetInfoExtensions, hvalue, if_false, Bool.not_true,
    Bool.false_eq_true, Function.update_of_ne hne, fill_apply]

/-- The bits of the mask, where all ids are small. -/
theorem getLsbD_maskByte (hvalue : value ≠ 0) (hsmall : ∀ id ∈ r, id < 8) (hi : i < 128)
    (hj : j < 8) :
    (maskByte undefinedShift order r value m i).getLsbD j = decide (8 * i + j ∈ r) := by
  rcases Nat.eq_zero_or_pos i with rfl | hpos
  · rw [maskByte_zero hvalue, getLsbD_markExtensions _ _ hj, Bool.eq_iff_iff]
    simp only [BitVec.ofNat_eq_ofNat, BitVec.getLsbD_zero, Bool.false_or, List.any_eq_true,
      decide_eq_true_eq, Nat.mul_zero, Nat.zero_add]
    constructor
    · rintro ⟨entry, hentry, hbit⟩
      have hkey : entry.1 ∈ r := AList.mem_keys.mpr
        (List.mem_map_of_mem ((order.perm r).mem_iff.mp hentry))
      rw [getLsbD_shiftOne (hsmall _ hkey) hj, decide_eq_true_eq] at hbit
      exact hbit ▸ hkey
    · intro hkey
      obtain ⟨entry, hentry, heq⟩ := List.mem_map.mp (AList.mem_keys.mp hkey)
      refine ⟨entry, (order.perm r).mem_iff.mpr hentry, ?_⟩
      rw [heq, getLsbD_shiftOne (hsmall j hkey) hj, decide_eq_true rfl]
  · have hnot : 8 * i + j ∉ r := by
      intro hkey
      have := hsmall _ hkey
      omega
    rw [maskByte_of_pos hvalue hpos, if_pos hi]
    simp [hnot]

/-! ## The answers -/

/-- The mask of 128 bytes has the bit of an id if and only if an extension was registered for
it. -/
def MaskExact (undefinedShift : ℕ → BitVec 32) (order : ExtensionRegistry.Order)
    (calls : List (ℕ × Extension)) : Prop :=
  ∀ value m, value ≠ 0 → ∀ i < 128, ∀ j < 8,
    ((maskByte undefinedShift order (registerAll calls) value m i).getLsbD j = true ↔
      ∃ e, (8 * i + j, e) ∈ calls)

/-- An extension is supported if and only if it was registered for the id with the version. -/
def SupportedExact (calls : List (ℕ × Extension)) : Prop :=
  ∀ id ≤ 127, ∀ major minor, ∃ result,
    hsaSystemExtensionSupported true (registerAll calls) id major minor false =
      (.success, some result) ∧
      (result = true ↔ ∃ e, (id, e) ∈ calls ∧ e.version = ⟨major, minor⟩)

theorem maskExact_iff (hcalls : ∀ c ∈ calls, c.1 ≤ 127) :
    MaskExact undefinedShift order calls ↔ ∀ c ∈ calls, c.1 < 8 := by
  constructor
  · rintro h ⟨id, e⟩ hc
    have hid := hcalls _ hc
    by_contra hlarge
    -- the byte of the id is not the first one, and has no bits
    have hbyte : maskByte undefinedShift order (registerAll calls) 1 (fun _ => 0) (id / 8) = 0 := by
      rw [maskByte_of_pos (by decide) (by omega), ite_self]
    have hbit := (h 1 (fun _ => 0) (by decide) (id / 8) (by omega) (id % 8) (by omega)).mpr
      ⟨e, by rwa [Nat.div_add_mod]⟩
    rw [hbyte, BitVec.ofNat_eq_ofNat, BitVec.getLsbD_zero] at hbit
    cases hbit
  · intro hsmall value m hvalue i hi j hj
    have hkeys : ∀ id ∈ registerAll calls, id < 8 := by
      intro id hid
      obtain ⟨e, he⟩ := mem_registerAll.mp hid
      exact hsmall _ he
    rw [getLsbD_maskByte hvalue hkeys hi hj, decide_eq_true_eq, mem_registerAll]

/-- The answer for an id is that for the extension that was registered first. -/
theorem supported_eq (calls : List (ℕ × Extension)) (hid : id ≤ 127) (major minor : ℕ) :
    ∃ result, hsaSystemExtensionSupported true (registerAll calls) id major minor false =
        (.success, some result) ∧
      (result = true ↔ ∃ e, (calls.find? fun c => c.1 = id).map Prod.snd = some e ∧
        e.version = ⟨major, minor⟩) := by
  have hle : ¬ id > 127 := by omega
  simp only [hsaSystemExtensionSupported, Bool.not_true, Bool.false_eq_true, if_false, hle]
  refine ⟨_, rfl, ?_⟩
  rw [List.any_eq_true]
  apply exists_congr
  intro e
  rw [mem_findExtensions, decide_eq_true_eq, Version.ext_iff]

theorem supportedExact_iff (hcalls : ∀ c ∈ calls, c.1 ≤ 127) :
    SupportedExact calls ↔ ∀ c ∈ calls, ∀ c' ∈ calls, c.1 = c'.1 → c.2.version = c'.2.version := by
  -- the first extension of an id that has one
  have hfirst : ∀ c ∈ calls, ∃ e, (calls.find? fun c' => c'.1 = c.1).map Prod.snd = some e ∧
      (c.1, e) ∈ calls := by
    intro c hc
    cases hfind : calls.find? fun c' => c'.1 = c.1 with
    | none => simpa using List.find?_eq_none.mp hfind c hc
    | some c' =>
      have hid : c'.1 = c.1 := by simpa using List.find?_some hfind
      exact ⟨c'.2, rfl, hid ▸ List.mem_of_find?_eq_some hfind⟩
  constructor
  · intro h
    have hversion : ∀ c ∈ calls, ∀ e,
        (calls.find? fun c' => c'.1 = c.1).map Prod.snd = some e → c.2.version = e.version := by
      intro c hc e he
      obtain ⟨result, hresult, hiff⟩ := h c.1 (hcalls c hc) c.2.version.major c.2.version.minor
      obtain ⟨result', hresult', hiff'⟩ := supported_eq calls (hcalls c hc)
        c.2.version.major c.2.version.minor
      rw [hresult, Prod.mk.injEq, Option.some.injEq] at hresult'
      obtain ⟨-, rfl⟩ := hresult'
      obtain ⟨e', he', heq⟩ := hiff'.mp (hiff.mpr ⟨c.2, hc, rfl⟩)
      rw [he, Option.some.injEq] at he'
      rw [he', heq]
    intro c hc c' hc' hid
    obtain ⟨e, he, -⟩ := hfirst c hc
    rw [hversion c hc e he, hversion c' hc' e (by rwa [← hid])]
  · intro hsame id hid major minor
    obtain ⟨result, hresult, hiff⟩ := supported_eq calls hid major minor
    refine ⟨result, hresult, hiff.trans ?_⟩
    constructor
    · rintro ⟨e, he, hversion⟩
      obtain ⟨c, hc, rfl⟩ := Option.map_eq_some_iff.mp he
      have hc1 : c.1 = id := by simpa using List.find?_some hc
      exact ⟨c.2, hc1 ▸ List.mem_of_find?_eq_some hc, hversion⟩
    · rintro ⟨e, he, hversion⟩
      obtain ⟨e', he', hmem⟩ := hfirst _ he
      exact ⟨e', he', (hsame _ hmem _ he rfl).trans hversion⟩

/-- **When the queries report what was registered:** exactly if no id was registered with two
versions, and all ids are below 8. -/
theorem extension_queries_exact_iff (undefinedShift : ℕ → BitVec 32)
    (order : ExtensionRegistry.Order) {calls : List (ℕ × Extension)}
    (hcalls : ∀ c ∈ calls, c.1 ≤ 127) :
    SupportedExact calls ∧ MaskExact undefinedShift order calls ↔
      (∀ c ∈ calls, ∀ c' ∈ calls, c.1 = c'.1 → c.2.version = c'.2.version) ∧
        ∀ c ∈ calls, c.1 < 8 :=
  and_congr (supportedExact_iff hcalls) (maskExact_iff hcalls)

/-- The order of the entries. -/
def ExtensionRegistry.Order.insertion : ExtensionRegistry.Order := ⟨AList.entries, fun _ => .refl _⟩

/-- What the shipped platform registers. -/
theorem extension_queries_exact_finalizer :
    SupportedExact [(0, ⟨1, 0⟩)] ∧ MaskExact (fun _ => 0) .insertion [(0, ⟨1, 0⟩)] :=
  (extension_queries_exact_iff _ _ (by simp)).mpr (by simp)

/-- The second version of an extension is not supported, and id 8 has no bit. -/
theorem extension_queries_inexact :
    ¬ SupportedExact [(0, ⟨1, 0⟩), (0, ⟨1, 1⟩)] ∧
      ∀ undefinedShift order, ¬ MaskExact undefinedShift order [(8, ⟨1, 0⟩)] := by
  constructor
  · rw [supportedExact_iff (by simp)]
    simp
  · intro undefinedShift order
    rw [maskExact_iff (by simp)]
    simp

end PhsaRuntime
