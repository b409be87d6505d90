import PhsaRuntime.Extension

/-!
# Extension tables

`hsa_system_get_extension_table` searches the range of an id for a version, and takes the entry at
which the search ends, if that is not the end of the whole registry. A search that fails ends at
the end of the range, which is the next entry in the order of the hash map, if there is one.

Iterators are positions in the order in which the registry is iterated.

## Main result

* `extension_table_exact_iff` — when the table is that of the extension that is asked for.
-/

namespace PhsaRuntime

/-- The entries of a registry, in the order of an iteration. -/
abbrev ExtensionEntries := List (Sigma fun _ : ℕ => Extension)

/-! ## The search -/

/-- `std::unordered_map::equal_range`. -/
def equalRange (entries : ExtensionEntries) (id : ℕ) : ℕ × ℕ :=
  match entries.findIdx? fun entry => entry.1 = id with
  | none => (entries.length, entries.length)
  | some i => (i, i + 1)

/-- `std::find_if`: the position of the first entry of the range, and the end of the range if there
is none. -/
def findIf (entries : ExtensionEntries) (first last : ℕ)
    (p : (Sigma fun _ : ℕ => Extension) → Bool) : ℕ :=
  first + ((entries.drop first).take (last - first)).findIdx p

/-- `hsa_system_get_extension_table`: the status, and the extension whose `fillExtensionTable` is
called. -/
def hsaSystemGetExtensionTable (order : ExtensionRegistry.Order) (initialized : Bool)
    (r : ExtensionRegistry) (extension versionMajor versionMinor table : ℕ) :
    HsaStatus × Option (Sigma fun _ : ℕ => Extension) :=
  if table = 0 then (.errorInvalidArgument, none)
  else if !initialized then (.errorNotInitialized, none)
  else
    let entries := order.entries r
    let range := equalRange entries extension
    let item := findIf entries range.1 range.2 fun entry =>
      entry.2.version.major = versionMajor ∧ entry.2.version.minor = versionMinor
    match entries[item]? with
    -- `Item == ER.end()`
    | none => (.errorInvalidArgument, none)
    | some entry => (.success, some entry)

variable {order : ExtensionRegistry.Order} {r : ExtensionRegistry} {entries : ExtensionEntries}
  {id i : ℕ} {e : Extension} {p : (Sigma fun _ : ℕ => Extension) → Bool}

/-- The range of an id that is not there is at the end. -/
theorem equalRange_of_lookup_eq_none (h : r.lookup id = none) :
    equalRange (order.entries r) id = ((order.entries r).length, (order.entries r).length) := by
  have hnone : (order.entries r).findIdx? (fun entry => entry.1 = id) = none := by
    rw [List.findIdx?_eq_none_iff]
    intro entry hentry
    apply decide_eq_false
    rintro rfl
    apply AList.lookup_eq_none.mp h
    exact AList.mem_keys.mpr (List.mem_map_of_mem ((order.perm r).mem_iff.mp hentry))
  rw [equalRange, hnone]

/-- The range of an id that is there has its entry. -/
theorem equalRange_of_lookup_eq_some (order : ExtensionRegistry.Order) (h : r.lookup id = some e) :
    ∃ i, equalRange (order.entries r) id = (i, i + 1) ∧
      (order.entries r)[i]? = some ⟨id, e⟩ := by
  have hmem : ⟨id, e⟩ ∈ order.entries r :=
    (order.perm r).mem_iff.mpr (AList.mem_lookup_iff.mp (Option.mem_def.mpr h))
  have hsome : ((order.entries r).findIdx? fun entry => entry.1 = id).isSome := by
    rw [List.findIdx?_isSome, List.any_eq_true]
    exact ⟨_, hmem, decide_eq_true rfl⟩
  obtain ⟨i, hi⟩ := Option.isSome_iff_exists.mp hsome
  refine ⟨i, by rw [equalRange, hi], ?_⟩
  obtain ⟨hlt, hkey, -⟩ := List.findIdx?_eq_some_iff_getElem.mp hi
  rw [List.getElem?_eq_getElem hlt]
  have hentry : (order.entries r)[i] ∈ r.entries :=
    (order.perm r).mem_iff.mp (List.getElem_mem hlt)
  generalize (order.entries r)[i] = entry at hkey hentry
  obtain ⟨id', e'⟩ := entry
  obtain rfl : id' = id := of_decide_eq_true hkey
  have hlookup : r.lookup id' = some e' := AList.mem_lookup_iff.mpr hentry
  rw [h] at hlookup
  rw [Option.some.inj hlookup]

/-- The search of a range of one entry. -/
theorem findIf_single {entry : Sigma fun _ : ℕ => Extension} (h : entries[i]? = some entry) :
    findIf entries i (i + 1) p = if p entry then i else i + 1 := by
  obtain ⟨hlt, hget⟩ := List.getElem?_eq_some_iff.mp h
  have hrange : (entries.drop i).take (i + 1 - i) = [entry] := by
    rw [Nat.add_sub_cancel_left, List.drop_eq_getElem_cons hlt, hget]
    rfl
  rw [findIf, hrange, List.findIdx_singleton]
  split <;> rfl

/-! ## The answers -/

/-- The extension is registered with the version. -/
def IsRegistered (r : ExtensionRegistry) (extension : ℕ) (version : Version) : Prop :=
  ∃ e, r.lookup extension = some e ∧ e.version = version

/-- The table is that of the extension that is asked for, and there is none exactly if the
extension is not supported. -/
structure TableExact (order : ExtensionRegistry.Order) (r : ExtensionRegistry)
    (extension major minor table : ℕ) : Prop where
  success : (hsaSystemGetExtensionTable order true r extension major minor table).1 = .success ↔
    IsRegistered r extension ⟨major, minor⟩
  filled : ∀ e, r.lookup extension = some e → e.version = ⟨major, minor⟩ →
    hsaSystemGetExtensionTable order true r extension major minor table =
      (.success, some ⟨extension, e⟩)
  refused : ¬ IsRegistered r extension ⟨major, minor⟩ →
    hsaSystemGetExtensionTable order true r extension major minor table =
      (.errorInvalidArgument, none)
  agrees : (hsaSystemGetExtensionTable order true r extension major minor table).1 = .success ↔
    hsaSystemExtensionSupported true r extension major minor false = (.success, some true)

variable {major minor table : ℕ}

theorem getExtensionTable_of_none (htable : table ≠ 0) (h : r.lookup id = none) :
    hsaSystemGetExtensionTable order true r id major minor table =
      (.errorInvalidArgument, none) := by
  simp [hsaSystemGetExtensionTable, htable, equalRange_of_lookup_eq_none h, findIf]

theorem getExtensionTable_of_some (htable : table ≠ 0) (h : r.lookup id = some e)
    (hversion : e.version = ⟨major, minor⟩) :
    hsaSystemGetExtensionTable order true r id major minor table =
      (.success, some ⟨id, e⟩) := by
  obtain ⟨i, hrange, hentry⟩ := equalRange_of_lookup_eq_some order h
  simp [hsaSystemGetExtensionTable, htable, hrange, findIf_single hentry, hversion, hentry]

/-- After a search for another version, the next entry is taken. -/
theorem getExtensionTable_of_ne (htable : table ≠ 0) (h : r.lookup id = some e)
    (hversion : e.version ≠ ⟨major, minor⟩) :
    hsaSystemGetExtensionTable order true r id major minor table =
        (.errorInvalidArgument, none) ↔ (order.entries r).getLast? = some ⟨id, e⟩ := by
  obtain ⟨i, hrange, hentry⟩ := equalRange_of_lookup_eq_some order h
  have hne : ¬ (e.version.major = major ∧ e.version.minor = minor) := fun heq =>
    hversion (Version.ext heq.1 heq.2)
  have hnodup : (order.entries r).Nodup := ((order.perm r).nodup_iff).mpr r.nodupKeys.nodup
  have hlast : (order.entries r).getLast? = some ⟨id, e⟩ ↔ (order.entries r)[i + 1]? = none := by
    obtain ⟨hlt, hget⟩ := List.getElem?_eq_some_iff.mp hentry
    rw [List.getElem?_eq_none_iff, List.getLast?_eq_getElem?, List.getElem?_eq_some_iff]
    constructor
    · rintro ⟨hlt', hget'⟩
      have hindex := hnodup.getElem_inj_iff.mp (hget.trans hget'.symm)
      omega
    · intro hle
      have hindex : (order.entries r).length - 1 = i := by omega
      exact ⟨by omega, by simp only [hindex, hget]⟩
  rw [hlast]
  simp only [hsaSystemGetExtensionTable, htable, if_false, Bool.not_true, Bool.false_eq_true,
    hrange, findIf_single hentry, hne, decide_false]
  cases (order.entries r)[i + 1]? <;> simp

theorem supported_iff (extension : ℕ) :
    hsaSystemExtensionSupported true r extension major minor false = (.success, some true) ↔
      extension ≤ 127 ∧ IsRegistered r extension ⟨major, minor⟩ := by
  simp only [hsaSystemExtensionSupported, Bool.not_true, Bool.false_eq_true, if_false]
  by_cases hlarge : extension > 127
  · have hnot : ¬ extension ≤ 127 := by omega
    simp [hlarge, hnot]
  · have hle : extension ≤ 127 := by omega
    rw [if_neg hlarge, and_iff_right hle]
    simp [ExtensionRegistry.findExtensions, IsRegistered, Version.ext_iff]

/-- Without such an extension, the call has to be refused. -/
theorem tableExact_iff_refused (hnot : ¬ IsRegistered r id ⟨major, minor⟩) :
    TableExact order r id major minor table ↔
      hsaSystemGetExtensionTable order true r id major minor table =
        (.errorInvalidArgument, none) := by
  constructor
  · intro h
    exact h.refused hnot
  · intro hrefused
    constructor
    case success => simp [hrefused, hnot]
    case filled =>
      intro e he hversion
      exact absurd ⟨e, he, hversion⟩ hnot
    case refused => exact fun _ => hrefused
    case agrees => simp [hrefused, supported_iff, hnot]

/-- The table of a registered extension is right, but not every registered extension is
supported. -/
theorem tableExact_iff_le (htable : table ≠ 0) (hlookup : r.lookup id = some e)
    (hversion : e.version = ⟨major, minor⟩) :
    TableExact order r id major minor table ↔ id ≤ 127 := by
  have hregistered : IsRegistered r id ⟨major, minor⟩ := ⟨e, hlookup, hversion⟩
  have hsuccess : hsaSystemGetExtensionTable order true r id major minor table =
      (.success, some ⟨id, e⟩) := getExtensionTable_of_some htable hlookup hversion
  constructor
  · intro h
    have hsupported := h.agrees.mp (by rw [hsuccess])
    exact ((supported_iff id).mp hsupported).1
  · intro hle
    constructor
    case success => simp [hsuccess, hregistered]
    case filled =>
      intro e' he' _
      rw [hlookup, Option.some.injEq] at he'
      rw [hsuccess, he']
    case refused => exact fun hnot => absurd hregistered hnot
    case agrees => simp [hsuccess, supported_iff, hle, hregistered]

/-- **When the table is that of the extension that is asked for:** exactly if the id has no
extension, or one with this version, whose id is not above 127, or one with another version that is
the last one in the order of the hash map. -/
theorem extension_table_exact_iff (order : ExtensionRegistry.Order) (r : ExtensionRegistry)
    (extension major minor : ℕ) {table : ℕ} (htable : table ≠ 0) :
    TableExact order r extension major minor table ↔
      ∀ e, r.lookup extension = some e →
        (e.version = ⟨major, minor⟩ → extension ≤ 127) ∧
          (e.version ≠ ⟨major, minor⟩ → (order.entries r).getLast? = some ⟨extension, e⟩) := by
  cases hlookup : r.lookup extension with
  | none =>
    have hnot : ¬ IsRegistered r extension ⟨major, minor⟩ := by
      rintro ⟨e, he, -⟩
      rw [hlookup] at he
      cases he
    rw [tableExact_iff_refused hnot]
    exact iff_of_true (getExtensionTable_of_none htable hlookup) (by simp)
  | some e =>
    simp only [Option.some.injEq, forall_eq']
    by_cases hversion : e.version = ⟨major, minor⟩
    · rw [tableExact_iff_le htable hlookup hversion]
      simp [hversion]
    · have hnot : ¬ IsRegistered r extension ⟨major, minor⟩ := by
        rintro ⟨e', he', hversion'⟩
        rw [hlookup, Option.some.injEq] at he'
        exact hversion (he' ▸ hversion')
      rw [tableExact_iff_refused hnot, getExtensionTable_of_ne htable hlookup hversion]
      simp [hversion]

/-- The finalizer alone, as the shipped platform registers it, asked for another version. -/
theorem extension_table_exact_finalizer :
    TableExact .insertion (ExtensionRegistry.registerAll [(0, ⟨1, 0⟩)]) 0 1 1 8 :=
  (extension_table_exact_iff _ _ 0 1 1 (by decide)).mpr (by decide)

/-- Two extensions are registered; for version 2.0 of the first one in the order of the map, the
table is that of the other one. -/
theorem extension_table_of_other :
    hsaSystemGetExtensionTable .insertion true
        (ExtensionRegistry.registerAll [(0, ⟨1, 0⟩), (1, ⟨1, 0⟩)]) 1 2 0 8 =
      (.success, some ⟨0, ⟨1, 0⟩⟩) ∧
      ¬ TableExact .insertion
        (ExtensionRegistry.registerAll [(0, ⟨1, 0⟩), (1, ⟨1, 0⟩)]) 1 2 0 8 := by
  have hcall : hsaSystemGetExtensionTable .insertion true
      (ExtensionRegistry.registerAll [(0, ⟨1, 0⟩), (1, ⟨1, 0⟩)]) 1 2 0 8 =
        (.success, some ⟨0, ⟨1, 0⟩⟩) := by decide
  refine ⟨hcall, ?_⟩
  intro h
  obtain ⟨e, he, hversion⟩ := h.success.mp (by rw [hcall])
  have hlookup : (ExtensionRegistry.registerAll [(0, ⟨1, 0⟩), (1, ⟨1, 0⟩)]).lookup 1 =
      some ⟨1, 0⟩ := by decide
  rw [hlookup, Option.some.injEq] at he
  rw [← he] at hversion
  cases hversion

end PhsaRuntime
