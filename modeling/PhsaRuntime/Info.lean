import PhsaRuntime.HsaStatus
import PhsaRuntime.Lib.Bytes

/-!
# String attributes

The name of a symbol or of an ISA is read by two queries: one for its length, and one that copies
it to a buffer of that length. `WriteField` fills the buffer with NULs, copies the string and then
stores a NUL behind its last character, which is outside the buffer if the string fills it. The
length is written as the type that the caller gives to the template: for a code symbol, a `size_t`.

## Main definitions

* `writeField`, `writeString` — `WriteField` of a scalar and of a string.
* `hsaExecutableSymbolGetInfo`, `hsaCodeSymbolGetInfo`, `hsaIsaGetInfo`, `hsaAgentGetInfo` — the
  queries.
* `QueryPair`, `QueryPair.Fits` — a length query and the query of that length, and when they stay
  inside what is announced.

## Main result

* `string_attributes_fit_iff` — exactly when the queries stay inside what they announce.
-/

namespace PhsaRuntime

/-! ## Fields -/

/-- `WriteField` of a scalar. -/
def writeField {α : Type} [Scalar α] (ptr : ℕ) (value : α) (m : Cells Byte) : Cells Byte :=
  m.write ptr (Scalar.toBytes value)

/-- `WriteField` of a `std::string`. -/
def writeString (ptr : ℕ) (str : List Byte) (maxLength : ℕ) (m : Cells Byte) : Cells Byte :=
  let m := m.write ptr (List.replicate maxLength 0)
  let m := m.write ptr (str.take maxLength)
  Function.update m (ptr + str.length) 0

/-! ## Queries -/

/-- The strings of a `Symbol`. -/
structure SymbolStrings where
  name : List Byte
  moduleName : List Byte

/-- What the queries read: the symbols and the ISAs, by their handles. An ISA that is not
registered has the empty name. -/
structure InfoState where
  initialized : Bool
  symbols : ℕ → Option SymbolStrings
  isas : ℕ → List Byte
  callingConventionCount : List Byte → ℕ
  /-- `getName` and `getVendor` of every agent. -/
  agents : ℕ → Option (List Byte × List Byte)

/-- The attributes that read a string of a symbol. -/
inductive SymbolStringInfo
  | nameLength
  | name
  | moduleNameLength
  | moduleName
  deriving DecidableEq, Repr

/-- The attributes that read the name of an ISA. -/
inductive IsaStringInfo
  | nameLength
  | name
  deriving DecidableEq, Repr

/-- The attributes that read a string of an agent. -/
inductive AgentStringInfo
  | name
  | vendorName
  deriving DecidableEq, Repr

namespace InfoState

/-- `hsa_executable_symbol_get_info`: the status and memory afterwards. -/
def hsaExecutableSymbolGetInfo (executableSymbol : ℕ) (request : SymbolStringInfo) (value : ℕ)
    (s : InfoState) (m : Cells Byte) : HsaStatus × Cells Byte :=
  if !s.initialized then (.errorNotInitialized, m)
  else if value = 0 then (.errorInvalidArgument, m)
  else
    match s.symbols executableSymbol with
    | none => (.errorInvalidArgument, m)
    | some symbol =>
      match request with
      | .nameLength => (.success, writeField value (BitVec.ofNat 32 symbol.name.length) m)
      | .name => (.success, writeString value symbol.name symbol.name.length m)
      | .moduleNameLength =>
        (.success, writeField value (BitVec.ofNat 32 symbol.moduleName.length) m)
      | .moduleName => (.success, writeString value symbol.moduleName symbol.moduleName.length m)

/-- `hsa_code_symbol_get_info`; `none` if the handle is not that of a symbol, which is not
checked. -/
def hsaCodeSymbolGetInfo (codeSymbol : ℕ) (request : SymbolStringInfo) (value : ℕ)
    (s : InfoState) (m : Cells Byte) : Option (HsaStatus × Cells Byte) :=
  if !s.initialized then some (.errorNotInitialized, m)
  else if codeSymbol = 0 then some (.errorInvalidArgument, m)
  else if value = 0 then some (.errorInvalidArgument, m)
  else
    (s.symbols codeSymbol).map fun symbol =>
      match request with
      | .nameLength => (.success, writeField value (BitVec.ofNat 64 symbol.name.length) m)
      | .name => (.success, writeString value symbol.name symbol.name.length m)
      | .moduleNameLength =>
        (.success, writeField value (BitVec.ofNat 64 symbol.moduleName.length) m)
      | .moduleName => (.success, writeString value symbol.moduleName symbol.moduleName.length m)

/-- `hsa_isa_get_info`. -/
def hsaIsaGetInfo (isa : ℕ) (request : IsaStringInfo) (index value : ℕ) (s : InfoState)
    (m : Cells Byte) : HsaStatus × Cells Byte :=
  if !s.initialized then (.errorNotInitialized, m)
  else if isa = 0 then (.errorInvalidIsa, m)
  else if value = 0 then (.errorInvalidArgument, m)
  else if s.isas isa = [] then (.errorInvalidIsa, m)
  else if s.callingConventionCount (s.isas isa) ≤ index then (.errorInvalidIndex, m)
  else
    match request with
    | .nameLength => (.success, writeField value (BitVec.ofNat 32 (s.isas isa).length) m)
    | .name => (.success, writeString value (s.isas isa) (s.isas isa).length m)

/-- `getName` or `getVendor`. -/
def agentString (request : AgentStringInfo) (strings : List Byte × List Byte) : List Byte :=
  match request with
  | .name => strings.1
  | .vendorName => strings.2

/-- `NAME_MAX_LENGTH`. -/
def nameMaxLength : ℕ := 64

/-- `hsa_agent_get_info`. -/
def hsaAgentGetInfo (agent : ℕ) (request : AgentStringInfo) (value : ℕ) (s : InfoState)
    (m : Cells Byte) : HsaStatus × Cells Byte :=
  if !s.initialized then (.errorNotInitialized, m)
  else
    match s.agents agent with
    | none => (.errorInvalidAgent, m)
    | some strings =>
      if value = 0 then (.errorInvalidArgument, m)
      else
        (.success, writeString value (agentString request strings) nameMaxLength m)

end InfoState

/-! ## The two queries of a string -/

/-- A length query together with the query of the string. -/
inductive QueryPair
  | executableSymbolName
  | executableSymbolModuleName
  | codeSymbolName
  | codeSymbolModuleName
  | isaName
  deriving DecidableEq, Repr

namespace QueryPair

/-- The query of the length. -/
def queryLength (pair : QueryPair) (handle index value : ℕ) (s : InfoState) (m : Cells Byte) :
    Option (HsaStatus × Cells Byte) :=
  match pair with
  | executableSymbolName => some (s.hsaExecutableSymbolGetInfo handle .nameLength value m)
  | executableSymbolModuleName =>
    some (s.hsaExecutableSymbolGetInfo handle .moduleNameLength value m)
  | codeSymbolName => s.hsaCodeSymbolGetInfo handle .nameLength value m
  | codeSymbolModuleName => s.hsaCodeSymbolGetInfo handle .moduleNameLength value m
  | isaName => some (s.hsaIsaGetInfo handle .nameLength index value m)

/-- The query of the string. -/
def queryString (pair : QueryPair) (handle index value : ℕ) (s : InfoState) (m : Cells Byte) :
    Option (HsaStatus × Cells Byte) :=
  match pair with
  | executableSymbolName => some (s.hsaExecutableSymbolGetInfo handle .name value m)
  | executableSymbolModuleName => some (s.hsaExecutableSymbolGetInfo handle .moduleName value m)
  | codeSymbolName => s.hsaCodeSymbolGetInfo handle .name value m
  | codeSymbolModuleName => s.hsaCodeSymbolGetInfo handle .moduleName value m
  | isaName => some (s.hsaIsaGetInfo handle .name index value m)

/-- The bytes of the field that receives the length. -/
def lengthSize : QueryPair → ℕ
  | codeSymbolName | codeSymbolModuleName => 8
  | _ => 4

/-- The string that a handle has, if the handle and the index are valid. -/
def target (pair : QueryPair) (handle index : ℕ) (s : InfoState) : Option (List Byte) :=
  match pair with
  | executableSymbolName | codeSymbolName => (s.symbols handle).map SymbolStrings.name
  | executableSymbolModuleName | codeSymbolModuleName =>
    (s.symbols handle).map SymbolStrings.moduleName
  | isaName =>
    if s.isas handle = [] ∨ s.callingConventionCount (s.isas handle) ≤ index then none
    else some (s.isas handle)

/-- The length query stays inside its `uint32_t` and announces the length, and the query of the
string stays inside the announced length and fills it. `m` is memory before the first query,
`m'` before the second one. -/
def Fits (pair : QueryPair) (handle index lengthPtr ptr : ℕ) (s : InfoState) (str : List Byte)
    (m m' : Cells Byte) : Prop :=
  ∃ n n', pair.queryLength handle index lengthPtr s m = some (.success, n) ∧
    pair.queryString handle index ptr s m' = some (.success, n') ∧
    m.AgreeOutside n lengthPtr 4 ∧
    n.load (BitVec 32) lengthPtr = BitVec.ofNat 32 str.length ∧
    m'.AgreeOutside n' ptr (n.load (BitVec 32) lengthPtr).toNat ∧
    n'.read ptr (n.load (BitVec 32) lengthPtr).toNat =
      str.take (n.load (BitVec 32) lengthPtr).toNat

end QueryPair

/-! ## What is written -/

/-- The content of a field of `maxLength` bytes. -/
def padded (str : List Byte) (maxLength : ℕ) : List Byte :=
  str.take maxLength ++ List.replicate (maxLength - str.length) 0

@[simp] theorem length_padded (str : List Byte) (maxLength : ℕ) :
    (padded str maxLength).length = maxLength := by
  rw [padded, List.length_append, List.length_take, List.length_replicate]
  omega

section Write

variable {str : List Byte} {ptr maxLength : ℕ} {m : Cells Byte}

/-- The fill and the copy are one write of the field. -/
theorem writeString_eq : writeString ptr str maxLength m =
    Function.update (m.write ptr (padded str maxLength)) (ptr + str.length) 0 := by
  have hfield : (m.write ptr (List.replicate maxLength 0)).write ptr (str.take maxLength) =
      m.write ptr (padded str maxLength) := by
    funext i
    by_cases hi : i < ptr
    · rw [Cells.write_of_lt hi, Cells.write_of_lt hi, Cells.write_of_lt hi]
    · obtain ⟨j, rfl⟩ := Nat.exists_eq_add_of_le (Nat.not_lt.mp hi)
      rw [Cells.write_add, Cells.write_add, Cells.write_add, padded]
      by_cases hj : j < (str.take maxLength).length
      · rw [List.getElem?_append_left hj, List.getElem?_eq_getElem hj]
        rfl
      · rw [List.getElem?_append_right (by omega), List.getElem?_eq_none (by omega)]
        simp only [List.length_take, not_lt] at hj
        simp only [Option.getD_none, List.getElem?_replicate, List.length_take]
        congr 2
        apply propext
        omega
  rw [writeString, hfield]

/-- A string that is as long as its field is copied with its terminator. -/
theorem writeString_length : writeString ptr str str.length m = m.write ptr (str ++ [0]) := by
  rw [writeString_eq, padded, List.take_length, Nat.sub_self, List.replicate_zero,
    List.append_nil, Cells.write_append, Cells.write_singleton]

/-- The field is all that is written, if and only if it has room for the terminator or the byte
behind the string is NUL already. -/
theorem writeString_fits_iff :
    (m.AgreeOutside (writeString ptr str maxLength m) ptr maxLength ∧
      (writeString ptr str maxLength m).read ptr maxLength = padded str maxLength) ↔
    str.length < maxLength ∨ m (ptr + str.length) = 0 := by
  have houtside : m.AgreeOutside (m.write ptr (padded str maxLength)) ptr
      (padded str maxLength).length := Cells.agreeOutside_write
  rw [length_padded] at houtside
  constructor
  · rintro ⟨hagree, -⟩
    by_contra hnot
    push Not at hnot
    have hcell := hagree (ptr + str.length) (.inr (by omega))
    rw [writeString_eq, Function.update_self] at hcell
    exact hnot.2 hcell.symm
  · intro h
    -- the terminator is where a NUL is anyway
    have hnul : m.write ptr (padded str maxLength) (ptr + str.length) = 0 := by
      by_cases hlt : str.length < maxLength
      · rw [Cells.write_add, padded, List.getElem?_append_right (by simp)]
        simp only [List.length_take, List.getElem?_replicate]
        rw [if_pos (by omega), Option.getD_some]
      · rw [houtside _ (.inr (by omega))]
        exact h.resolve_left hlt
    rw [writeString_eq, ← hnul, Function.update_eq_self]
    exact ⟨houtside, Cells.read_write_of_length (length_padded _ _)⟩

end Write

section Queries

variable {pair : QueryPair} {handle index value lengthPtr ptr : ℕ} {s : InfoState}
  {str : List Byte} {m m' : Cells Byte}

theorem writeField_ofNat_32 (x : ℕ) :
    writeField value (BitVec.ofNat 32 x) m = m.write value (littleEndian 4 x) := by
  have hbytes : Scalar.toBytes (BitVec.ofNat 32 x) = littleEndian 4 (x % 256 ^ 4) := by
    rw [show 256 ^ 4 = 2 ^ 32 by rfl, ← BitVec.toNat_ofNat]
    rfl
  rw [writeField, hbytes, littleEndian_mod]

theorem writeField_ofNat_64 (x : ℕ) :
    writeField value (BitVec.ofNat 64 x) m = m.write value (littleEndian 8 x) := by
  have hbytes : Scalar.toBytes (BitVec.ofNat 64 x) = littleEndian 8 (x % 256 ^ 8) := by
    rw [show 256 ^ 8 = 2 ^ 64 by rfl, ← BitVec.toNat_ofNat]
    rfl
  rw [writeField, hbytes, littleEndian_mod]

/-- The target of an ISA query: both checks of the handle and of the index are passed. -/
theorem target_isaName (h : QueryPair.isaName.target handle index s = some str) :
    s.isas handle = str ∧ str ≠ [] ∧ index < s.callingConventionCount str := by
  simp only [QueryPair.target] at h
  split at h
  case isTrue => cases h
  case isFalse hvalid =>
    push Not at hvalid
    cases h
    exact ⟨rfl, hvalid⟩

theorem queryLength_eq (hinit : s.initialized = true)
    (htarget : pair.target handle index s = some str) (hhandle : handle ≠ 0) (hvalue : value ≠ 0) :
    pair.queryLength handle index value s m =
      some (.success, m.write value (littleEndian pair.lengthSize str.length)) := by
  cases pair with
  | executableSymbolName | executableSymbolModuleName =>
    obtain ⟨symbol, hsymbol, rfl⟩ := Option.map_eq_some_iff.mp htarget
    simp [QueryPair.queryLength, InfoState.hsaExecutableSymbolGetInfo, hinit, hvalue, hsymbol,
      writeField_ofNat_32, QueryPair.lengthSize]
  | codeSymbolName | codeSymbolModuleName =>
    obtain ⟨symbol, hsymbol, rfl⟩ := Option.map_eq_some_iff.mp htarget
    simp [QueryPair.queryLength, InfoState.hsaCodeSymbolGetInfo, hinit, hhandle, hvalue, hsymbol,
      writeField_ofNat_64, QueryPair.lengthSize]
  | isaName =>
    obtain ⟨rfl, hne, hindex⟩ := target_isaName htarget
    simp [QueryPair.queryLength, InfoState.hsaIsaGetInfo, hinit, hhandle, hvalue, hne,
      Nat.not_le.mpr hindex, writeField_ofNat_32, QueryPair.lengthSize]

theorem queryString_eq (hinit : s.initialized = true)
    (htarget : pair.target handle index s = some str) (hhandle : handle ≠ 0) (hvalue : value ≠ 0) :
    pair.queryString handle index value s m = some (.success, m.write value (str ++ [0])) := by
  cases pair with
  | executableSymbolName | executableSymbolModuleName =>
    obtain ⟨symbol, hsymbol, rfl⟩ := Option.map_eq_some_iff.mp htarget
    simp [QueryPair.queryString, InfoState.hsaExecutableSymbolGetInfo, hinit, hvalue, hsymbol,
      writeString_length]
  | codeSymbolName | codeSymbolModuleName =>
    obtain ⟨symbol, hsymbol, rfl⟩ := Option.map_eq_some_iff.mp htarget
    simp [QueryPair.queryString, InfoState.hsaCodeSymbolGetInfo, hinit, hhandle, hvalue, hsymbol,
      writeString_length]
  | isaName =>
    obtain ⟨rfl, hne, hindex⟩ := target_isaName htarget
    simp [QueryPair.queryString, InfoState.hsaIsaGetInfo, hinit, hhandle, hvalue, hne,
      Nat.not_le.mpr hindex, writeString_length]

/-- What is announced: the low bytes of the length, whatever the width of the field. -/
theorem load_length : (m.write lengthPtr (littleEndian pair.lengthSize str.length)).load
    (BitVec 32) lengthPtr = BitVec.ofNat 32 str.length := by
  have hfour : 4 ≤ pair.lengthSize := by cases pair <;> decide
  have hsplit : littleEndian pair.lengthSize str.length =
      littleEndian 4 str.length ++ littleEndian (pair.lengthSize - 4) (str.length / 256 ^ 4) := by
    rw [← littleEndian_add, Nat.add_sub_cancel' hfour]
  have hread : (m.write lengthPtr (littleEndian pair.lengthSize str.length)).read lengthPtr
      pair.lengthSize = littleEndian pair.lengthSize str.length :=
    Cells.read_write_of_length (length_littleEndian _ _)
  apply Cells.load_eq
  change Cells.read _ lengthPtr 4 = littleEndian 4 (BitVec.ofNat 32 str.length).toNat
  rw [← Cells.read_take hfour, hread, hsplit, List.take_left' (length_littleEndian 4 _),
    BitVec.toNat_ofNat]
  exact (littleEndian_mod 4 _).symm

/-- The length query writes what is behind its `uint32_t` too, if the field is wider. -/
theorem length_agreeOutside_iff :
    m.AgreeOutside (m.write lengthPtr (littleEndian pair.lengthSize str.length)) lengthPtr 4 ↔
      m.read (lengthPtr + 4) (pair.lengthSize - 4) =
        littleEndian (pair.lengthSize - 4) (str.length / 2 ^ 32) := by
  have hfour : 4 ≤ pair.lengthSize := by cases pair <;> decide
  have hdrop : (littleEndian pair.lengthSize str.length).drop 4 =
      littleEndian (pair.lengthSize - 4) (str.length / 256 ^ 4) := by
    rw [← Nat.add_sub_cancel' hfour, littleEndian_add, List.drop_left' (length_littleEndian 4 _),
      Nat.add_sub_cancel_left]
  rw [Cells.agreeOutside_write_iff (by rw [length_littleEndian]; exact hfour),
    length_littleEndian, hdrop]
  rfl

/-- The query of the string writes the terminator behind the announced length, and the rest of
the string if the length does not fit a `uint32_t`. -/
theorem string_agreeOutside_iff :
    m.AgreeOutside (m.write ptr (str ++ [0])) ptr (str.length % 2 ^ 32) ↔
      m.read (ptr + str.length % 2 ^ 32) (str.length + 1 - str.length % 2 ^ 32) =
        (str ++ [0]).drop (str.length % 2 ^ 32) := by
  have hle : str.length % 2 ^ 32 ≤ str.length := Nat.mod_le _ _
  rw [Cells.agreeOutside_write_iff (by rw [List.length_append]; omega), List.length_append,
    List.length_singleton]

theorem fits_iff (hinit : s.initialized = true)
    (htarget : pair.target handle index s = some str) (hhandle : handle ≠ 0)
    (hlengthPtr : lengthPtr ≠ 0) (hptr : ptr ≠ 0) :
    pair.Fits handle index lengthPtr ptr s str m m' ↔
      m.read (lengthPtr + 4) (pair.lengthSize - 4) =
          littleEndian (pair.lengthSize - 4) (str.length / 2 ^ 32) ∧
        m'.read (ptr + str.length % 2 ^ 32) (str.length + 1 - str.length % 2 ^ 32) =
          (str ++ [0]).drop (str.length % 2 ^ 32) := by
  have hle : str.length % 2 ^ 32 ≤ str.length := Nat.mod_le _ _
  have hread : (m'.write ptr (str ++ [0])).read ptr (str.length % 2 ^ 32) =
      str.take (str.length % 2 ^ 32) := by
    rw [← Cells.read_take (n := (str ++ [0]).length) (by rw [List.length_append]; omega),
      Cells.read_write, List.take_append_of_le_length hle]
  rw [← length_agreeOutside_iff, ← string_agreeOutside_iff]
  constructor
  · rintro ⟨n, n', hn, hn', hagree, hload, hagree', -⟩
    rw [queryLength_eq hinit htarget hhandle hlengthPtr] at hn
    rw [queryString_eq hinit htarget hhandle hptr] at hn'
    cases hn
    cases hn'
    rw [hload, BitVec.toNat_ofNat] at hagree'
    exact ⟨hagree, hagree'⟩
  · rintro ⟨hagree, hagree'⟩
    refine ⟨_, _, queryLength_eq hinit htarget hhandle hlengthPtr,
      queryString_eq hinit htarget hhandle hptr, hagree, load_length, ?_⟩
    rw [load_length, BitVec.toNat_ofNat]
    exact ⟨hagree', hread⟩

end Queries

/-- A pair of queries fits exactly if what it writes behind the announced bytes is there already:
the NUL behind a string of less than 2³² bytes, and behind the length of a code symbol the upper
half of the `size_t`. An attribute of an agent fits if it is shorter than the field, or if the
byte that receives the terminator is NUL already, and so does `WriteField` in general. -/
theorem string_attributes_fit_iff {pair : QueryPair} {handle index lengthPtr ptr : ℕ}
    {s : InfoState} {str : List Byte} (m m' : Cells Byte) (hinit : s.initialized = true)
    (htarget : pair.target handle index s = some str) (hhandle : handle ≠ 0)
    (hlengthPtr : lengthPtr ≠ 0) (hptr : ptr ≠ 0) :
    (pair.Fits handle index lengthPtr ptr s str m m' ↔
      m.read (lengthPtr + 4) (pair.lengthSize - 4) =
          littleEndian (pair.lengthSize - 4) (str.length / 2 ^ 32) ∧
        m'.read (ptr + str.length % 2 ^ 32) (str.length + 1 - str.length % 2 ^ 32) =
          (str ++ [0]).drop (str.length % 2 ^ 32)) ∧
      (∀ agent request strings, s.agents agent = some strings →
        ((∃ n, s.hsaAgentGetInfo agent request ptr m' = (.success, n) ∧
          m'.AgreeOutside n ptr InfoState.nameMaxLength ∧
          n.read ptr InfoState.nameMaxLength =
            padded (InfoState.agentString request strings) InfoState.nameMaxLength) ↔
        (InfoState.agentString request strings).length < InfoState.nameMaxLength ∨
          m' (ptr + (InfoState.agentString request strings).length) = 0)) ∧
      ∀ (field : ℕ) (content : List Byte) (maxLength : ℕ),
        (m.AgreeOutside (writeString field content maxLength m) field maxLength ∧
          (writeString field content maxLength m).read field maxLength =
            padded content maxLength) ↔
        content.length < maxLength ∨ m (field + content.length) = 0 := by
  refine ⟨fits_iff hinit htarget hhandle hlengthPtr hptr, ?_, ?_⟩
  · intro agent request strings hagent
    rw [← writeString_fits_iff]
    simp [InfoState.hsaAgentGetInfo, hinit, hagent, hptr]
  · exact fun _ _ _ => writeString_fits_iff

/-- A code symbol in memory that is NUL already. -/
theorem string_attributes_fit_cleared :
    QueryPair.codeSymbolName.Fits 16 0 100 200
      ⟨true, fun _ => some ⟨[38, 107], [109]⟩, fun _ => [], fun _ => 0, fun _ => none⟩ [38, 107]
      (fun _ => 0) (fun _ => 0) :=
  (string_attributes_fit_iff (fun _ => 0) (fun _ => 0) rfl rfl (by decide) (by decide)
    (by decide)).1.mpr (by decide)

/-- The name `&k` of an executable symbol: the length 2 is announced, and the third byte of the
buffer becomes NUL. The length of a code symbol's name takes eight bytes. -/
theorem string_attributes_overrun :
    (¬ QueryPair.executableSymbolName.Fits 16 0 100 200
      ⟨true, fun _ => some ⟨[38, 107], [109]⟩, fun _ => [], fun _ => 0, fun _ => none⟩ [38, 107]
      (fun _ => 255) (fun _ => 255)) ∧
    (¬ QueryPair.codeSymbolName.Fits 16 0 100 200
      ⟨true, fun _ => some ⟨[38, 107], [109]⟩, fun _ => [], fun _ => 0, fun _ => none⟩ [38, 107]
      (fun _ => 255) (fun _ => 0)) ∧
    writeString 200 [38, 107] 2 (fun _ => 255) 202 = 0 := by
  refine ⟨?_, ?_, rfl⟩
  · rw [fits_iff rfl rfl (by decide) (by decide) (by decide)]
    decide
  · rw [fits_iff rfl rfl (by decide) (by decide) (by decide)]
    decide

end PhsaRuntime
