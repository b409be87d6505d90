import PhsaRuntime.HSAILProgram.Admission
import PhsaRuntime.Lib.Loop

/-!
# The termination of the walk

The walk over the entries of a code section is a cursor: it advances by the length of the entry
that it meets. A call returns unless the walk meets an entry without a length before a module
directive, comes again to an entry at which its offset wraps around, or finds the directive for a
program that is not there.

## Main result

* `addModule_returns_iff` — the calls that return.
-/

namespace PhsaRuntime

open Brig

namespace Brig

variable (m : Cells Byte) (module : ℕ)

/-- The loop over the entries. -/
def entryLoop (codeSection codeSectionSize : ℕ) : Loop ℕ :=
  Loop.cursor (fun b => b < codeSectionSize && !isModuleDirective m (codeSection + b))
    fun b => byteCount m (codeSection + b)

/-- The loop over the entries of the code section. -/
def codeLoop : Loop ℕ :=
  entryLoop m (codeSection m module) (sectionByteCount m (codeSection m module))

/-- The walk comes to the offset. -/
def Visits (b : ℕ) : Prop :=
  (codeLoop m module).Reaches (headerByteCount m (codeSection m module)) b

/-- The offset is that of an entry, in the code section. -/
def Inside (b : ℕ) : Prop := b < sectionByteCount m (codeSection m module)

/-- The walk advances: an entry that it comes to has a length unless it is a module directive,
and where the offset of the next entry wraps around, the walk does not come there again. -/
def Advances : Prop :=
  ∀ b, Visits m module b → Inside m module b → ¬ isModuleDirective m (codeSection m module + b) →
    0 < byteCount m (codeSection m module + b) ∧
      (2 ^ 64 ≤ b + byteCount m (codeSection m module + b) → ¬ (codeLoop m module).Returns b)

/-- The walk comes to a module directive. -/
def VisitsDirective : Prop :=
  ∃ b, Visits m module b ∧ Inside m module b ∧ isModuleDirective m (codeSection m module + b)

end Brig

variable {m : Cells Byte} {handle module header size steps b : ℕ} {directive : Option ℕ}
  {s : Programs}

theorem entryLoop_cond :
    (entryLoop m header size).cond b = true ↔ b < size ∧ ¬ isModuleDirective m (header + b) := by
  simp [entryLoop, Loop.cursor]

/-- A walk that is cut off. -/
theorem findModuleDirective_eq_none (h : findModuleDirective m header size steps b = none) :
    (∀ k < steps, (entryLoop m header size).cond ((entryLoop m header size).body^[k] b) = true) ∧
      ∀ k ≤ steps, (entryLoop m header size).body^[k] b < size := by
  induction steps generalizing b with
  | zero =>
    have hlt : b < size := by
      simpa [findModuleDirective] using h
    constructor
    · intro k hk
      omega
    · intro k hk
      obtain rfl := Nat.le_zero.mp hk
      exact hlt
  | succ steps ih =>
    by_cases hlt : b < size
    · cases hdirective : isModuleDirective m (header + b) with
      | true => simp [findModuleDirective, hlt, hdirective] at h
      | false =>
        simp only [findModuleDirective, hlt, hdirective, if_true, Bool.false_eq_true,
          if_false] at h
        obtain ⟨hcond, hbound⟩ := ih h
        constructor
        · intro k hk
          cases k with
          | zero =>
            apply entryLoop_cond.mpr
            simp [hlt, hdirective]
          | succ k => exact hcond k (by omega)
        · intro k hk
          cases k with
          | zero => exact hlt
          | succ k => exact hbound k (by omega)
    · simp [findModuleDirective, hlt] at h

/-- A walk that ends, at the entry that it finds or behind the section. -/
theorem findModuleDirective_eq_some
    (h : findModuleDirective m header size steps b = some directive) :
    ∃ e, (entryLoop m header size).Reaches b e ∧ (entryLoop m header size).cond e = false ∧
      directive = if e < size then some (header + e) else none := by
  induction steps generalizing b with
  | zero =>
    by_cases hlt : b < size
    · simp [findModuleDirective, hlt] at h
    · refine ⟨b, .refl, ?_, ?_⟩
      · simp [entryLoop, Loop.cursor, hlt]
      · simpa [findModuleDirective, hlt, eq_comm] using h
  | succ steps ih =>
    by_cases hlt : b < size
    · cases hdirective : isModuleDirective m (header + b) with
      | true =>
        refine ⟨b, .refl, ?_, ?_⟩
        · simp [entryLoop, Loop.cursor, hdirective]
        · simpa [findModuleDirective, hlt, hdirective, eq_comm] using h
      | false =>
        simp only [findModuleDirective, hlt, hdirective, if_true, Bool.false_eq_true,
          if_false] at h
        obtain ⟨e, hreaches, hend⟩ := ih h
        have hcond : (entryLoop m header size).cond b = true := by
          apply entryLoop_cond.mpr
          simp [hlt, hdirective]
        exact ⟨e, .head ⟨hcond, rfl⟩ hreaches, hend⟩
    · refine ⟨b, .refl, ?_, ?_⟩
      · simp [entryLoop, Loop.cursor, hlt]
      · simpa [findModuleDirective, hlt, eq_comm] using h

/-- **The walk** is cut off exactly if the loop over the entries does not end. -/
theorem findModuleDirective_eq_none_iff (hsteps : size ≤ steps) :
    findModuleDirective m header size steps b = none ↔ ¬ (entryLoop m header size).Ends b := by
  constructor
  · intro h
    obtain ⟨hcond, hbound⟩ := findModuleDirective_eq_none h
    have hmem : ∀ k ≤ steps, (entryLoop m header size).body^[k] b ∈ Finset.range size := by
      intro k hk
      exact Finset.mem_range.mpr (hbound k hk)
    have hcard : (Finset.range size).card ≤ steps := by
      rwa [Finset.card_range]
    obtain ⟨e, hreaches, hreturns⟩ := Loop.exists_returns hcond hmem hcard
    exact hreturns.not_ends hreaches
  · intro h
    cases hfind : findModuleDirective m header size steps b with
    | none => rfl
    | some directive =>
      obtain ⟨e, hreaches, hcond, -⟩ := findModuleDirective_eq_some hfind
      exact absurd ⟨e, hreaches, hcond⟩ h

/-- The loop over the entries ends exactly if its cursor advances. -/
theorem entryLoop_ends_iff (hsize : size < 2 ^ 64) :
    (entryLoop m header size).Ends b ↔
      ∀ e, (entryLoop m header size).Reaches b e → e < size →
        ¬ isModuleDirective m (header + e) → 0 < byteCount m (header + e) ∧
          (2 ^ 64 ≤ e + byteCount m (header + e) → ¬ (entryLoop m header size).Returns e) := by
  have hbound : ∀ e, (decide (e < size) && !isModuleDirective m (header + e)) = true →
      e < size := by
    intro e he
    simp only [Bool.and_eq_true, decide_eq_true_eq] at he
    exact he.1
  rw [entryLoop, Loop.cursor_ends_iff hbound hsize.le]
  simp only [Bool.and_eq_true, decide_eq_true_eq, Bool.not_eq_true', Bool.not_eq_true, and_imp]

/-- The walk over the code section ends exactly if it advances. -/
theorem codeLoop_ends_iff :
    (codeLoop m module).Ends (headerByteCount m (codeSection m module)) ↔ Advances m module :=
  entryLoop_ends_iff (BitVec.isLt _)

/-- The walk over the code section. -/
abbrev Brig.codeWalk (m : Cells Byte) (module : ℕ) : Option (Option ℕ) :=
  findModuleDirective m (codeSection m module) (sectionByteCount m (codeSection m module))
    (sectionByteCount m (codeSection m module)) (headerByteCount m (codeSection m module))

theorem codeWalk_eq_none_iff : codeWalk m module = none ↔ ¬ Advances m module := by
  rw [codeWalk, findModuleDirective_eq_none_iff le_rfl]
  exact not_congr codeLoop_ends_iff

/-- The walk finds the directive that it comes to. -/
theorem codeWalk_eq_directive_iff {d : ℕ} :
    codeWalk m module = some (some d) ↔ ∃ b, Visits m module b ∧ Inside m module b ∧
      isModuleDirective m (codeSection m module + b) = true ∧ codeSection m module + b = d := by
  constructor
  · intro h
    obtain ⟨e, hreaches, hend, hdirective⟩ := findModuleDirective_eq_some h
    by_cases hlt : e < sectionByteCount m (codeSection m module)
    · rw [if_pos hlt, Option.some.injEq] at hdirective
      refine ⟨e, hreaches, hlt, ?_, hdirective.symm⟩
      simpa [entryLoop, Loop.cursor, hlt] using hend
    · rw [if_neg hlt] at hdirective
      cases hdirective
  · rintro ⟨b, hvisits, hinside, hkind, rfl⟩
    have hend : (codeLoop m module).cond b = false := by
      simp [codeLoop, entryLoop, Loop.cursor, hkind]
    cases hwalk : codeWalk m module with
    | none =>
      have hnot := (findModuleDirective_eq_none_iff le_rfl).mp hwalk
      exact absurd ⟨b, hvisits, hend⟩ hnot
    | some directive =>
      obtain ⟨e, hreaches, hend', hdirective⟩ := findModuleDirective_eq_some hwalk
      obtain rfl : b = e := Loop.end_unique hvisits hend hreaches hend'
      have hlt : b < sectionByteCount m (codeSection m module) := hinside
      rw [hdirective, if_pos hlt]

/-- The walk finds a directive exactly if it comes to one. -/
theorem codeWalk_isSome_iff (h : codeWalk m module = some directive) :
    directive.isSome = true ↔ VisitsDirective m module := by
  rw [Option.isSome_iff_exists]
  constructor
  · rintro ⟨d, rfl⟩
    obtain ⟨b, hvisits, hinside, hkind, -⟩ := codeWalk_eq_directive_iff.mp h
    exact ⟨b, hvisits, hinside, hkind⟩
  · rintro ⟨b, hvisits, hinside, hkind⟩
    have heq := codeWalk_eq_directive_iff.mpr ⟨b, hvisits, hinside, hkind, rfl⟩
    rw [h, Option.some.injEq] at heq
    exact ⟨_, heq⟩

/-! ## Calls -/

/-- A call with a module that has a code section, by the result of the walk. -/
theorem addModule_of_codeSection (hinit : s.initialized = true) (hmodule : module ≠ 0)
    (h : HasCodeSection m module) :
    hsaExtProgramAddModule m handle module s = none ↔
      ∀ directive, codeWalk m module = some directive →
        directive.isSome = true ∧ s.programs handle = none := by
  obtain ⟨hlt, hname, hcount⟩ := h
  have hsection := findCodeSection_eq_some_iff.mpr ⟨hlt, hname, rfl⟩
  simp only [hsaExtProgramAddModule, hinit, hmodule, hsection, hcount, Bool.not_true,
    Bool.false_eq_true, if_false]
  rcases hwalk : codeWalk m module with _ | _ | directive
  · simp only [codeWalk] at hwalk
    simp [hwalk]
  · simp only [codeWalk] at hwalk
    simp [hwalk]
  · simp only [codeWalk] at hwalk
    cases hlive : s.programs handle with
    | none => simp [hwalk]
    | some p =>
      simp only [hwalk]
      split
      · simp
      · split <;> simp

/-- A call with a module that has no code section. -/
theorem addModule_of_not_codeSection (h : ¬ HasCodeSection m module) :
    hsaExtProgramAddModule m handle module s ≠ none := by
  simp only [hsaExtProgramAddModule]
  split
  · simp
  · split
    · simp
    · cases hsection : findCodeSection m module (sectionCount m module) 0 with
      | none => simp
      | some header =>
        obtain ⟨hlt, hname, rfl⟩ := findCodeSection_eq_some_iff.mp hsection
        have hcount : sectionByteCount m (codeSection m module) = 0 := by
          by_contra hcount
          exact h ⟨hlt, hname, hcount⟩
        simp [hcount]

/-- The calls that do not return. -/
theorem addModule_eq_none_iff :
    hsaExtProgramAddModule m handle module s = none ↔
      s.initialized = true ∧ module ≠ 0 ∧ HasCodeSection m module ∧
        (Advances m module → VisitsDirective m module ∧ s.programs handle = none) := by
  by_cases hinit : s.initialized = true
  · by_cases hmodule : module = 0
    · simp [hsaExtProgramAddModule, hinit, hmodule]
    · by_cases hcode : HasCodeSection m module
      · rw [addModule_of_codeSection hinit hmodule hcode]
        cases hwalk : codeWalk m module with
        | none =>
          have hadvances : ¬ Advances m module := codeWalk_eq_none_iff.mp hwalk
          simp [hinit, hmodule, hcode, hadvances]
        | some directive =>
          have hadvances : Advances m module := by
            by_contra hnot
            rw [codeWalk_eq_none_iff.mpr hnot] at hwalk
            cases hwalk
          have hvisits := codeWalk_isSome_iff hwalk
          simp [hinit, hmodule, hcode, hadvances, hvisits]
      · simp [addModule_of_not_codeSection hcode, hcode]
  · simp [hsaExtProgramAddModule, hinit]

/-- **The calls that return.** A call returns a status exactly if, where it comes to the code
section of the module, the walk over the entries advances, and the program is there if the walk
comes to a module directive. -/
theorem addModule_returns_iff (m : Cells Byte) (handle module : ℕ) (s : Programs) :
    (∃ status s', hsaExtProgramAddModule m handle module s = some (status, s')) ↔
      (s.initialized = true → module ≠ 0 → HasCodeSection m module →
        Advances m module ∧ (VisitsDirective m module → s.programs handle ≠ none)) := by
  have hreturns : (∃ status s', hsaExtProgramAddModule m handle module s = some (status, s')) ↔
      ¬ hsaExtProgramAddModule m handle module s = none := by
    cases hsaExtProgramAddModule m handle module s with
    | none => simp
    | some r => simp [Prod.ext_iff]
  rw [hreturns, addModule_eq_none_iff]
  simp only [not_and, Classical.not_imp, ne_eq]

/-- A module at the address 1000: a data section without data at 1120 and a code section at 1144
with a single entry, whose length is zero. -/
def noLength : Cells Byte :=
  Cells.copyAll (fun _ => 0)
    [(1092, [2]), (1096, [104]), (1104, [120]), (1112, [144]),
      (1120, [24]), (1128, [24]), (1132, [8]),
      (1136, [0x68, 0x73, 0x61, 0x5f, 0x64, 0x61, 0x74, 0x61]),
      (1144, [28]), (1152, [24]), (1156, [8]), (1160, codeSectionName)]

/-- The walk stays at the entry without a length, although the program is there. -/
theorem addModule_hangs :
    hsaExtProgramAddModule noLength 7 1000
        (Programs.set ⟨true, fun _ => none⟩ 7 (some ⟨[], 1, 1⟩)) = none ∧
      ¬ (codeLoop noLength 1000).Ends 24 := by
  have hstep : (codeLoop noLength 1000).Step 24 24 := by
    constructor
    · decide +kernel
    · decide +kernel
  refine ⟨by decide +kernel, ?_⟩
  exact Loop.Returns.not_ends (.single hstep) .refl

end PhsaRuntime
