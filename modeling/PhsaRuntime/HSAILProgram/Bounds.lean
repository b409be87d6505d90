import PhsaRuntime.HSAILProgram.Walk

/-!
# The bounds of the walk

The reads that a call makes of the module, in their order: the section table up to the code
section, the entries up to the module directive, and the fields of the directive. The outcome of a
call is a function of the bytes that it reads (`addModule_congr`). None of the reads is checked
against the size of the module, so that they stay inside exactly if the module itself keeps them
there.

## Main result

* `addModule_reads_inside_iff` — the modules whose walk stays in bounds.
-/

namespace PhsaRuntime

open Brig

/-! ## The reads of a call -/

/-- A read of some bytes. The reads of entries are those behind the header of the section. -/
structure Read where
  address : ℕ
  size : ℕ
  entry : Bool
  deriving DecidableEq, Repr

section Reads

variable (m : Cells Byte)

/-- The reads of `findCodeSection`. -/
def sectionReads (module : ℕ) : ℕ → ℕ → List Read
  | 0, _ => [⟨module + 92, 4, false⟩]
  | remaining + 1, index =>
    let header := sectionHeader m module index
    [⟨module + 92, 4, false⟩, ⟨module + 96, 8, false⟩,
      ⟨module + sectionIndex m module + 8 * index, 8, false⟩,
      ⟨header + 12, 4, false⟩, ⟨header + 16, nameLength m header, false⟩] ++
    if index = sectionIndexCode ∧ sectionName m header = codeSectionName then
      [⟨header, 8, false⟩]
    else sectionReads module remaining (index + 1)

/-- The reads of `findModuleDirective`. -/
def entryReads (codeSection codeSectionSize : ℕ) : ℕ → ℕ → List Read
  | 0, _ => []
  | steps + 1, b =>
    if b < codeSectionSize then
      let entry := codeSection + b
      if isModuleDirective m entry then [⟨entry + 2, 2, true⟩]
      else ⟨entry + 2, 2, true⟩ :: ⟨entry, 2, true⟩ ::
        entryReads codeSection codeSectionSize steps (Word.wrap (b + byteCount m entry))
    else []

/-- The reads of the fields of the module directive. The second field is read for a program with
the profile of the first. -/
def directiveReads (directive : ℕ) (program : Option HSAILProgram) : List Read :=
  ⟨directive + 16, 1, true⟩ ::
    if program.any fun p => profile m directive = p.profile then [⟨directive + 17, 1, true⟩]
    else []

/-- The reads of `hsa_ext_program_add_module`. -/
def addModuleReads (handle module : ℕ) (s : Programs) : List Read :=
  if !s.initialized then []
  else if module = 0 then []
  else
    sectionReads m module (sectionCount m module) 0 ++
    match findCodeSection m module (sectionCount m module) 0 with
    | none => []
    | some codeSection =>
      let codeSectionSize := sectionByteCount m codeSection
      if codeSectionSize = 0 then []
      else
        ⟨codeSection + 8, 4, false⟩ ::
        (entryReads m codeSection codeSectionSize codeSectionSize
          (headerByteCount m codeSection) ++
        match findModuleDirective m codeSection codeSectionSize codeSectionSize
          (headerByteCount m codeSection) with
        | some (some directive) => directiveReads m directive (s.programs handle)
        | _ => [])

end Reads

/-! ## The reads determine the call -/

/-- Two memories have the same bytes in some reads. -/
def SameBytes (m m' : Cells Byte) (reads : List Read) : Prop :=
  ∀ r ∈ reads, m.read r.address r.size = m'.read r.address r.size

variable {m m' : Cells Byte} {handle module header size steps b index remaining directive : ℕ}
  {r : Read} {rs rs' : List Read} {s : Programs}

@[simp] theorem sameBytes_cons :
    SameBytes m m' (r :: rs) ↔
      m.read r.address r.size = m'.read r.address r.size ∧ SameBytes m m' rs :=
  List.forall_mem_cons

@[simp] theorem sameBytes_append :
    SameBytes m m' (rs ++ rs') ↔ SameBytes m m' rs ∧ SameBytes m m' rs' :=
  List.forall_mem_append

theorem Cells.load_congr {α : Type} [Scalar α] {a : ℕ}
    (h : m.read a (Scalar.size α) = m'.read a (Scalar.size α)) : m.load α a = m'.load α a := by
  rw [Cells.load, h, Cells.load]

theorem Cells.byte_congr {a : ℕ} (h : m.read a 1 = m'.read a 1) : m a = m' a := by
  simpa [Cells.read] using h

/-! A field depends on its bytes. -/

theorem sectionCount_congr (h : m.read (module + 92) 4 = m'.read (module + 92) 4) :
    sectionCount m module = sectionCount m' module :=
  congrArg BitVec.toNat (Cells.load_congr h)

theorem sectionIndex_congr (h : m.read (module + 96) 8 = m'.read (module + 96) 8) :
    sectionIndex m module = sectionIndex m' module :=
  congrArg BitVec.toNat (Cells.load_congr h)

theorem sectionHeader_congr (hindex : sectionIndex m module = sectionIndex m' module)
    (h : m.read (module + sectionIndex m module + 8 * index) 8 =
      m'.read (module + sectionIndex m module + 8 * index) 8) :
    sectionHeader m module index = sectionHeader m' module index := by
  rw [sectionHeader, sectionHeader, ← hindex]
  exact congrArg (fun offset => module + BitVec.toNat offset) (Cells.load_congr h)

theorem sectionByteCount_congr (h : m.read header 8 = m'.read header 8) :
    sectionByteCount m header = sectionByteCount m' header :=
  congrArg BitVec.toNat (Cells.load_congr h)

theorem headerByteCount_congr (h : m.read (header + 8) 4 = m'.read (header + 8) 4) :
    headerByteCount m header = headerByteCount m' header :=
  congrArg BitVec.toNat (Cells.load_congr h)

theorem sectionName_congr (hlength : m.read (header + 12) 4 = m'.read (header + 12) 4)
    (h : m.read (header + 16) (nameLength m header) = m'.read (header + 16) (nameLength m header)) :
    sectionName m header = sectionName m' header := by
  have heq : nameLength m header = nameLength m' header :=
    congrArg BitVec.toNat (Cells.load_congr hlength)
  rw [sectionName, sectionName, ← heq]
  exact h

theorem byteCount_congr (h : m.read b 2 = m'.read b 2) : byteCount m b = byteCount m' b :=
  congrArg BitVec.toNat (Cells.load_congr h)

theorem isModuleDirective_congr (h : m.read (b + 2) 2 = m'.read (b + 2) 2) :
    isModuleDirective m b = isModuleDirective m' b := by
  have heq : kind m b = kind m' b := congrArg BitVec.toNat (Cells.load_congr h)
  rw [isModuleDirective, isModuleDirective, heq]

theorem sectionCount_of_sameBytes (h : SameBytes m m' (sectionReads m module remaining index)) :
    sectionCount m module = sectionCount m' module := by
  cases remaining with
  | zero =>
    simp only [sectionReads, sameBytes_cons] at h
    exact sectionCount_congr h.1
  | succ remaining =>
    simp only [sectionReads, List.cons_append, sameBytes_cons] at h
    exact sectionCount_congr h.1

theorem findCodeSection_congr (h : SameBytes m m' (sectionReads m module remaining index)) :
    findCodeSection m module remaining index = findCodeSection m' module remaining index ∧
      ∀ header, findCodeSection m module remaining index = some header →
        sectionByteCount m header = sectionByteCount m' header := by
  induction remaining generalizing index with
  | zero => simp [findCodeSection]
  | succ remaining ih =>
    simp only [sectionReads, List.cons_append, List.nil_append, sameBytes_cons] at h
    obtain ⟨-, htable, hindex, hlength, hname, hrest⟩ := h
    have hheader : sectionHeader m module index = sectionHeader m' module index :=
      sectionHeader_congr (sectionIndex_congr htable) hindex
    have hname' := sectionName_congr hlength hname
    by_cases hcode : index = sectionIndexCode ∧
        sectionName m (sectionHeader m module index) = codeSectionName
    · rw [if_pos hcode, sameBytes_cons] at hrest
      have hcode' : index = sectionIndexCode ∧
          sectionName m' (sectionHeader m' module index) = codeSectionName := by
        rwa [← hheader, ← hname']
      have hfind : findCodeSection m module (remaining + 1) index =
          some (sectionHeader m module index) := if_pos hcode
      have hfind' : findCodeSection m' module (remaining + 1) index =
          some (sectionHeader m' module index) := if_pos hcode'
      rw [hfind, hfind', ← hheader]
      constructor
      · rfl
      · intro header heq
        rw [← Option.some.inj heq]
        exact sectionByteCount_congr hrest.1
    · rw [if_neg hcode] at hrest
      have hcode' : ¬ (index = sectionIndexCode ∧
          sectionName m' (sectionHeader m' module index) = codeSectionName) := by
        rwa [← hheader, ← hname']
      have hfind : findCodeSection m module (remaining + 1) index =
          findCodeSection m module remaining (index + 1) := if_neg hcode
      have hfind' : findCodeSection m' module (remaining + 1) index =
          findCodeSection m' module remaining (index + 1) := if_neg hcode'
      rw [hfind, hfind']
      exact ih hrest

theorem findModuleDirective_congr (h : SameBytes m m' (entryReads m header size steps b)) :
    findModuleDirective m header size steps b = findModuleDirective m' header size steps b := by
  induction steps generalizing b with
  | zero => rfl
  | succ steps ih =>
    by_cases hlt : b < size
    · simp only [entryReads, findModuleDirective, hlt, if_true] at h ⊢
      cases hkind : isModuleDirective m (header + b) with
      | true =>
        simp only [hkind, if_true, sameBytes_cons] at h
        rw [← isModuleDirective_congr h.1, hkind]
        rfl
      | false =>
        simp only [hkind, Bool.false_eq_true, if_false, sameBytes_cons] at h
        obtain ⟨hread, hcount, hrest⟩ := h
        rw [← isModuleDirective_congr hread, hkind, ← byteCount_congr hcount, ih hrest]
    · simp only [findModuleDirective, hlt, if_false]

/-- The comparison of the fields of the directive with those of the program. -/
theorem directive_congr {p : HSAILProgram}
    (h : SameBytes m m' (directiveReads m directive (some p))) :
    (profile m directive ≠ p.profile ∨ machineModel m directive ≠ p.machineModel) ↔
      (profile m' directive ≠ p.profile ∨ machineModel m' directive ≠ p.machineModel) := by
  simp only [directiveReads, Option.any_some, decide_eq_true_eq, sameBytes_cons] at h
  obtain ⟨hread, hrest⟩ := h
  have hprofile : profile m directive = profile m' directive := by
    simp only [profile, Cells.byte_congr hread]
  rw [← hprofile]
  by_cases heq : profile m directive = p.profile
  · rw [if_pos heq, sameBytes_cons] at hrest
    simp only [machineModel, Cells.byte_congr hrest.1]
  · simp only [ne_eq, heq, not_false_eq_true, true_or]

/-- **The reads of a call** are all that it depends on. -/
theorem addModule_congr (h : SameBytes m m' (addModuleReads m handle module s)) :
    hsaExtProgramAddModule m handle module s = hsaExtProgramAddModule m' handle module s := by
  by_cases hinit : s.initialized = true
  · by_cases hmodule : module = 0
    · simp [hsaExtProgramAddModule, hinit, hmodule]
    · simp only [addModuleReads, hsaExtProgramAddModule, hinit, hmodule, Bool.not_true,
        Bool.false_eq_true, if_false, sameBytes_append] at h ⊢
      obtain ⟨htable, hrest⟩ := h
      obtain ⟨hsection, hsize⟩ := findCodeSection_congr htable
      rw [← sectionCount_of_sameBytes htable, ← hsection]
      cases hcode : findCodeSection m module (sectionCount m module) 0 with
      | none => rfl
      | some header =>
        simp only [hcode] at hrest ⊢
        rw [← hsize header hcode]
        by_cases hzero : sectionByteCount m header = 0
        · simp only [hzero, if_true]
        · simp only [hzero, if_false, sameBytes_cons, sameBytes_append] at hrest ⊢
          obtain ⟨hheader, hentries, hfields⟩ := hrest
          rw [← headerByteCount_congr hheader, ← findModuleDirective_congr hentries]
          rcases hwalk : findModuleDirective m header (sectionByteCount m header)
            (sectionByteCount m header) (headerByteCount m header) with _ | _ | directive
          · rfl
          · rfl
          · simp only [hwalk] at hfields
            cases hlive : s.programs handle with
            | none => rfl
            | some p =>
              rw [hlive] at hfields
              simp only [directive_congr hfields]
  · simp [hsaExtProgramAddModule, hinit]

/-! ## Bounds -/

namespace Brig

variable (m : Cells Byte) (module : ℕ)

/-- `BrigModuleHeader::byteCount`. -/
def moduleByteCount : ℕ := (m.load (BitVec 64) (module + 16)).toNat

/-- The offset of the section with the given index. -/
def sectionOffset (index : ℕ) : ℕ :=
  (m.load (BitVec 64) (module + sectionIndex m module + 8 * index)).toNat

/-- The section with the given index is the code section. -/
def IsCodeSection (index : ℕ) : Prop :=
  index = sectionIndexCode ∧ sectionName m (sectionHeader m module index) = codeSectionName

/-- The walk over the section table comes to the section. -/
def Scanned (index : ℕ) : Prop :=
  index < sectionCount m module ∧ ∀ i < index, ¬ IsCodeSection m module i

/-- The offset of a section, its header and its name are inside the module. -/
structure SectionInside (index : ℕ) : Prop where
  offset : sectionIndex m module + 8 * index + 8 ≤ moduleByteCount m module
  name : sectionOffset m module index + 16 + nameLength m (sectionHeader m module index) ≤
    moduleByteCount m module

/-- The header of the module and the sections that the walk comes to are inside the module. -/
structure TableInside : Prop where
  count : 96 ≤ moduleByteCount m module
  index : sectionCount m module ≠ 0 → 104 ≤ moduleByteCount m module
  sections : ∀ index, Scanned m module index → SectionInside m module index

/-- The first `n` bytes of the entry at an offset are inside the code section and the module. -/
structure EntryInside (b n : ℕ) : Prop where
  inSection : b + n ≤ sectionByteCount m (codeSection m module)
  inModule : sectionOffset m module sectionIndexCode + b + n ≤ moduleByteCount m module

/-- The bytes of a module directive up to the last field that is read. -/
def directiveSize (directive : ℕ) (program : Option HSAILProgram) : ℕ :=
  if program.any fun p => profile m directive = p.profile then 18 else 17

/-- The module holds all that the walk comes to: the sections, and if there is a code section, its
entries and the fields of the module directive. -/
structure HoldsWalk (program : Option HSAILProgram) : Prop where
  table : TableInside m module
  entries : HasCodeSection m module → ∀ b, Visits m module b → Inside m module b →
    EntryInside m module b 4
  directive : HasCodeSection m module → ∀ b, Visits m module b → Inside m module b →
    isModuleDirective m (codeSection m module + b) = true →
      EntryInside m module b (directiveSize m (codeSection m module + b) program)

end Brig

/-- A read stays inside the module, and if it is one of an entry, inside the code section. -/
def Read.Inside (m : Cells Byte) (module : ℕ) (r : Read) : Prop :=
  (module ≤ r.address ∧ r.address + r.size ≤ module + moduleByteCount m module) ∧
    (r.entry = true → codeSection m module ≤ r.address ∧
      r.address + r.size ≤ codeSection m module + sectionByteCount m (codeSection m module))

instance (m : Cells Byte) (module : ℕ) (r : Read) : Decidable (r.Inside m module) :=
  inferInstanceAs (Decidable (_ ∧ _))

variable {offset n : ℕ} {program : Option HSAILProgram}

theorem inside_module_iff :
    Read.Inside m module ⟨module + offset, n, false⟩ ↔ offset + n ≤ moduleByteCount m module := by
  simp [Read.Inside, Nat.add_assoc]

theorem inside_header_iff :
    Read.Inside m module ⟨sectionHeader m module index + offset, n, false⟩ ↔
      sectionOffset m module index + offset + n ≤ moduleByteCount m module := by
  have heq : sectionHeader m module index + offset =
      module + (sectionOffset m module index + offset) := Nat.add_assoc ..
  rw [heq, inside_module_iff]

theorem inside_entry_iff :
    Read.Inside m module ⟨codeSection m module + b + offset, n, true⟩ ↔
      EntryInside m module b (offset + n) := by
  have heq : codeSection m module = module + sectionOffset m module sectionIndexCode := rfl
  constructor
  · rintro ⟨⟨-, hmodule⟩, hsection⟩
    obtain ⟨-, hsection⟩ := hsection rfl
    simp only at hmodule hsection
    constructor
    · omega
    · omega
  · rintro ⟨hsection, hmodule⟩
    refine ⟨?_, fun _ => ?_⟩
    · simp only
      omega
    · simp only
      omega

theorem Brig.EntryInside.mono {k : ℕ} (h : EntryInside m module b n) (hk : k ≤ n) :
    EntryInside m module b k := by
  obtain ⟨hsection, hmodule⟩ := h
  constructor
  · omega
  · omega

/-! ### The section table -/

theorem inside_offset_iff :
    Read.Inside m module ⟨module + sectionIndex m module + 8 * index, 8, false⟩ ↔
      sectionIndex m module + 8 * index + 8 ≤ moduleByteCount m module := by
  rw [Nat.add_assoc module, inside_module_iff]

/-- The reads for a section and those for the sections behind it. -/
theorem sectionReads_succ_inside_iff :
    (∀ r ∈ sectionReads m module (remaining + 1) index, r.Inside m module) ↔
      (104 ≤ moduleByteCount m module ∧ SectionInside m module index) ∧
        (¬ IsCodeSection m module index →
          ∀ r ∈ sectionReads m module remaining (index + 1), r.Inside m module) := by
  have hsplit : sectionReads m module (remaining + 1) index =
      [⟨module + 92, 4, false⟩, ⟨module + 96, 8, false⟩,
        ⟨module + sectionIndex m module + 8 * index, 8, false⟩,
        ⟨sectionHeader m module index + 12, 4, false⟩,
        ⟨sectionHeader m module index + 16, nameLength m (sectionHeader m module index), false⟩] ++
      if index = sectionIndexCode ∧
          sectionName m (sectionHeader m module index) = codeSectionName then
        [⟨sectionHeader m module index + 0, 8, false⟩]
      else sectionReads m module remaining (index + 1) := by
    simp only [sectionReads, Nat.add_zero]
  simp only [hsplit, List.forall_mem_append, List.forall_mem_cons, inside_module_iff,
    inside_offset_iff, inside_header_iff]
  by_cases hcode : index = sectionIndexCode ∧
      sectionName m (sectionHeader m module index) = codeSectionName
  · have hsection : IsCodeSection m module index := hcode
    rw [if_pos hcode]
    simp only [List.forall_mem_cons, inside_header_iff, hsection, not_true_eq_false,
      false_imp_iff, and_true]
    constructor
    · rintro ⟨⟨-, htable, hoffset, -, hname, -⟩, -⟩
      exact ⟨htable, hoffset, hname⟩
    · rintro ⟨htable, hoffset, hname⟩
      exact ⟨⟨by omega, htable, hoffset, by omega, hname, by simp⟩, by omega, by simp⟩
  · have hsection : ¬ IsCodeSection m module index := hcode
    rw [if_neg hcode]
    simp only [hsection, not_false_eq_true, forall_const]
    apply and_congr_left
    intro _
    constructor
    · rintro ⟨-, htable, hoffset, -, hname, -⟩
      exact ⟨htable, hoffset, hname⟩
    · rintro ⟨htable, hoffset, hname⟩
      exact ⟨by omega, htable, hoffset, by omega, hname, by simp⟩

/-- The reads of the walk over the section table, from an index on. -/
theorem sectionReads_inside_iff :
    (∀ r ∈ sectionReads m module remaining index, r.Inside m module) ↔
      96 ≤ moduleByteCount m module ∧
        ∀ i, index ≤ i → i < index + remaining →
          (∀ j, index ≤ j → j < i → ¬ IsCodeSection m module j) →
            104 ≤ moduleByteCount m module ∧ SectionInside m module i := by
  induction remaining generalizing index with
  | zero =>
    simp only [sectionReads, List.forall_mem_cons, inside_module_iff, List.not_mem_nil,
      false_imp_iff, implies_true, and_true, iff_self_and]
    intro _ i hle hlt
    omega
  | succ remaining ih =>
    rw [sectionReads_succ_inside_iff, ih]
    constructor
    · rintro ⟨hinside, hrest⟩
      refine ⟨by omega, fun i hle hlt hnot => ?_⟩
      rcases Nat.lt_or_eq_of_le hle with hgt | heq
      · obtain ⟨-, hsections⟩ := hrest (hnot index le_rfl hgt)
        exact hsections i hgt (by omega) fun j hj => hnot j (by omega)
      · rwa [← heq]
    · rintro ⟨hcount, hsections⟩
      refine ⟨hsections index le_rfl (by omega) (by omega), fun hcode => ⟨hcount, ?_⟩⟩
      intro i hle hlt hnot
      apply hsections i (by omega) (by omega)
      intro j hj hji
      rcases Nat.lt_or_eq_of_le hj with hgt | heq
      · exact hnot j hgt hji
      · rwa [← heq]

/-- The walk over the section table stays in bounds. -/
theorem tableReads_inside_iff :
    (∀ r ∈ sectionReads m module (sectionCount m module) 0, r.Inside m module) ↔
      TableInside m module := by
  rw [sectionReads_inside_iff]
  constructor
  · rintro ⟨hcount, hsections⟩
    refine ⟨hcount, fun hne => ?_, fun i hi => ?_⟩
    · exact (hsections 0 le_rfl (by omega) fun j _ hj => absurd hj (Nat.not_lt_zero j)).1
    · have hlt : i < sectionCount m module := hi.1
      exact (hsections i (Nat.zero_le i) (by omega) fun j _ hj => hi.2 j hj).2
  · rintro ⟨hcount, hindex, hsections⟩
    refine ⟨hcount, fun i _ hlt hnot => ?_⟩
    rw [Nat.zero_add] at hlt
    exact ⟨hindex (by omega), hsections i ⟨hlt, fun j hj => hnot j (Nat.zero_le j) hj⟩⟩

/-- The code section is one that the walk comes to. -/
theorem scanned_codeSection (h : HasCodeSection m module) :
    Scanned m module sectionIndexCode := by
  refine ⟨h.1, fun i hi hcode => ?_⟩
  exact absurd hcode.1 (by omega)

/-! ### The entries -/

/-- The reads of the walk over the entries are those of the entries that it comes to. -/
theorem mem_entryReads (h : r ∈ entryReads m header size steps b) :
    ∃ e, (entryLoop m header size).Reaches b e ∧ e < size ∧
      (r = ⟨header + e + 2, 2, true⟩ ∨ r = ⟨header + e + 0, 2, true⟩) := by
  induction steps generalizing b with
  | zero => simp [entryReads] at h
  | succ steps ih =>
    by_cases hlt : b < size
    · cases hkind : isModuleDirective m (header + b) with
      | true =>
        simp only [entryReads, hlt, hkind, if_true, List.mem_singleton] at h
        exact ⟨b, .refl, hlt, .inl h⟩
      | false =>
        simp only [entryReads, hlt, hkind, if_true, Bool.false_eq_true, if_false,
          List.mem_cons] at h
        obtain hread | hread | hrest := h
        · exact ⟨b, .refl, hlt, .inl hread⟩
        · exact ⟨b, .refl, hlt, .inr hread⟩
        · obtain ⟨e, hreaches, hinside, hread⟩ := ih hrest
          have hcond : (entryLoop m header size).cond b = true := by
            apply entryLoop_cond.mpr
            simp [hlt, hkind]
          exact ⟨e, .head ⟨hcond, rfl⟩ hreaches, hinside, hread⟩
    · simp [entryReads, hlt] at h

/-- The walk reads the kind of each entry that it comes to in the given number of iterations. -/
theorem kind_mem_entryReads {k : ℕ} (hk : k < steps)
    (hcond : ∀ j < k, (entryLoop m header size).cond ((entryLoop m header size).body^[j] b) = true)
    (hlt : (entryLoop m header size).body^[k] b < size) :
    ⟨header + (entryLoop m header size).body^[k] b + 2, 2, true⟩ ∈
      entryReads m header size steps b := by
  induction steps generalizing b k with
  | zero => omega
  | succ steps ih =>
    cases k with
    | zero =>
      have hlt' : b < size := hlt
      simp only [entryReads, hlt', if_true, Function.iterate_zero, id]
      split <;> simp
    | succ k =>
      obtain ⟨hlt', hkind⟩ := entryLoop_cond.mp (hcond 0 (by omega))
      simp only [Function.iterate_zero, id] at hlt' hkind
      simp only [entryReads, hlt', hkind, if_true, Bool.false_eq_true, if_false, List.mem_cons]
      have hrest := ih (by omega) (fun j hj => hcond (j + 1) (by omega)) hlt
      exact .inr (.inr hrest)

/-- The walk over the entries of the code section stays in bounds. -/
theorem codeReads_inside_iff :
    (∀ r ∈ entryReads m (codeSection m module) (sectionByteCount m (codeSection m module))
        (sectionByteCount m (codeSection m module)) (headerByteCount m (codeSection m module)),
      r.Inside m module) ↔
      ∀ b, Visits m module b → Inside m module b → EntryInside m module b 4 := by
  constructor
  · intro h b hvisits hinside
    have hstates : ∀ e, (codeLoop m module).cond e = true →
        e ∈ Finset.range (sectionByteCount m (codeSection m module)) := by
      intro e he
      exact Finset.mem_range.mpr (entryLoop_cond.mp he).1
    obtain ⟨k, hk, hcond, rfl⟩ :=
      Loop.exists_iterate_lt hstates (Finset.mem_range.mpr hinside) hvisits
    rw [Finset.card_range] at hk
    exact inside_entry_iff.mp (h _ (kind_mem_entryReads hk hcond hinside))
  · intro h r hr
    obtain ⟨e, hreaches, hlt, rfl | rfl⟩ := mem_entryReads hr
    · exact inside_entry_iff.mpr (h e hreaches hlt)
    · exact inside_entry_iff.mpr ((h e hreaches hlt).mono (by omega))

/-- The reads of the fields of the module directive stay in bounds. -/
theorem directiveReads_inside_iff :
    (∀ r ∈ directiveReads m (codeSection m module + b) program, r.Inside m module) ↔
      EntryInside m module b (directiveSize m (codeSection m module + b) program) := by
  simp only [directiveReads, directiveSize, List.forall_mem_cons, inside_entry_iff]
  split
  · simp only [List.forall_mem_cons, inside_entry_iff, List.not_mem_nil, false_imp_iff,
      implies_true, and_true, and_iff_right_iff_imp]
    intro h
    exact h.mono (by omega)
  · simp

/-! ### The calls -/

/-- A call with a module without a code section reads the section table only. -/
theorem addModuleReads_of_not_codeSection (hinit : s.initialized = true) (hmodule : module ≠ 0)
    (h : ¬ HasCodeSection m module) :
    addModuleReads m handle module s = sectionReads m module (sectionCount m module) 0 := by
  simp only [addModuleReads, hinit, hmodule, Bool.not_true, Bool.false_eq_true, if_false]
  cases hsection : findCodeSection m module (sectionCount m module) 0 with
  | none => simp
  | some header =>
    obtain ⟨hlt, hname, rfl⟩ := findCodeSection_eq_some_iff.mp hsection
    have hcount : sectionByteCount m (codeSection m module) = 0 := by
      by_contra hcount
      exact h ⟨hlt, hname, hcount⟩
    simp [hcount]

theorem addModuleReads_of_codeSection (hinit : s.initialized = true) (hmodule : module ≠ 0)
    (h : HasCodeSection m module) :
    addModuleReads m handle module s = sectionReads m module (sectionCount m module) 0 ++
      ⟨codeSection m module + 8, 4, false⟩ ::
        (entryReads m (codeSection m module) (sectionByteCount m (codeSection m module))
          (sectionByteCount m (codeSection m module)) (headerByteCount m (codeSection m module)) ++
        match codeWalk m module with
        | some (some directive) => directiveReads m directive (s.programs handle)
        | _ => []) := by
  obtain ⟨hlt, hname, hcount⟩ := h
  have hsection := findCodeSection_eq_some_iff.mpr ⟨hlt, hname, rfl⟩
  simp only [addModuleReads, hinit, hmodule, hsection, hcount, Bool.not_true, Bool.false_eq_true,
    if_false]

/-- The reads of a call with a code section stay in bounds. -/
theorem holdsWalk_iff_of_codeSection (hinit : s.initialized = true) (hmodule : module ≠ 0)
    (h : HasCodeSection m module) :
    (∀ r ∈ addModuleReads m handle module s, r.Inside m module) ↔
      HoldsWalk m module (s.programs handle) := by
  simp only [addModuleReads_of_codeSection hinit hmodule h, List.forall_mem_append,
    List.forall_mem_cons, tableReads_inside_iff, codeReads_inside_iff]
  constructor
  · rintro ⟨htable, -, hentries, hfields⟩
    refine ⟨htable, fun _ => hentries, fun _ b hvisits hinside hkind => ?_⟩
    have hwalk := codeWalk_eq_directive_iff.mpr ⟨b, hvisits, hinside, hkind, rfl⟩
    rw [hwalk] at hfields
    exact directiveReads_inside_iff.mp hfields
  · rintro ⟨htable, hentries, hdirective⟩
    have hname := (htable.sections _ (scanned_codeSection h)).name
    refine ⟨htable, ?_, hentries h, ?_⟩
    · exact inside_header_iff.mpr (by omega)
    · rcases hwalk : codeWalk m module with _ | _ | directive
      · simp
      · simp
      · obtain ⟨b, hvisits, hinside, hkind, rfl⟩ := codeWalk_eq_directive_iff.mp hwalk
        exact directiveReads_inside_iff.mpr (hdirective h b hvisits hinside hkind)

/-- The reads of a call stay in bounds exactly if the module holds all that the walk comes to. -/
theorem reads_inside_iff :
    (∀ r ∈ addModuleReads m handle module s, r.Inside m module) ↔
      (s.initialized = true → module ≠ 0 → HoldsWalk m module (s.programs handle)) := by
  by_cases hinit : s.initialized = true
  · by_cases hmodule : module = 0
    · simp [addModuleReads, hmodule]
    · simp only [hinit, ne_eq, hmodule, not_false_eq_true, forall_const]
      by_cases hcode : HasCodeSection m module
      · exact holdsWalk_iff_of_codeSection hinit hmodule hcode
      · rw [addModuleReads_of_not_codeSection hinit hmodule hcode, tableReads_inside_iff]
        constructor
        · intro htable
          exact ⟨htable, fun h => absurd h hcode, fun h => absurd h hcode⟩
        · intro h
          exact h.table
  · simp [addModuleReads, hinit]

/-- **The walk in bounds.** The reads of a call are all inside the module, those of entries inside
its code section, and a module for which one would not be is refused, exactly if the module holds
what the walk comes to: the sections up to the code section, the entries up to the module
directive, and the fields of the directive. -/
theorem addModule_reads_inside_iff (m : Cells Byte) (handle module : ℕ) (s : Programs) :
    ((∀ r ∈ addModuleReads m handle module s, r.Inside m module) ∧
      ((∃ r ∈ addModuleReads m handle module s, ¬ r.Inside m module) →
        hsaExtProgramAddModule m handle module s = some (.errorInvalidModule, s))) ↔
      (s.initialized = true → module ≠ 0 → HoldsWalk m module (s.programs handle)) := by
  rw [← reads_inside_iff, and_iff_left_iff_imp]
  rintro hinside ⟨r, hr, hnot⟩
  exact absurd (hinside r hr) hnot

/-- A module at the address 1000 with 172 bytes: a data section without data at 1120 and a code
section of 28 bytes at 1144, in which the module directive is cut off behind its kind. The fields
of the directive are those that the memory has behind the module. -/
def cutOff : Cells Byte :=
  Cells.copyAll (fun _ => 0)
    [(1016, [172]), (1092, [2]), (1096, [104]), (1104, [120]), (1112, [144]),
      (1120, [24]), (1128, [24]), (1132, [8]),
      (1136, [0x68, 0x73, 0x61, 0x5f, 0x64, 0x61, 0x74, 0x61]),
      (1144, [28]), (1152, [24]), (1156, [8]), (1160, codeSectionName),
      (1168, [20, 0, 0x0b, 0x10]), (1184, [1, 1])]

/-- The module is accepted by the bytes behind it. -/
theorem addModule_reads_outside :
    (∃ r ∈ addModuleReads cutOff 7 1000
        (Programs.set ⟨true, fun _ => none⟩ 7 (some ⟨[], 1, 1⟩)), ¬ r.Inside cutOff 1000) ∧
      (hsaExtProgramAddModule cutOff 7 1000
        (Programs.set ⟨true, fun _ => none⟩ 7 (some ⟨[], 1, 1⟩))).map Prod.fst = some .success := by
  constructor
  · decide +kernel
  · decide +kernel

end PhsaRuntime
