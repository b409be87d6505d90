import Mathlib.Data.List.Nodup
import PhsaRuntime.HSAILProgram

/-!
# The admission of modules

For a module whose code section is tiled by its entries, the walk over the entries is a search
in their list (`findModuleDirective_eq`), so that a call depends on the first module directive
only. Every change of the programs is one of three (`step_cases`), from which the lists of
modules are free of duplicates and agree with their programs in every run.

## Main result

* `module_admission` — every call after any run, and the lists.
-/

namespace PhsaRuntime

namespace Brig

/-- The entries of a code section from the offset `b` on: each starts where the one before
ends, and the last one ends at the end of the section. -/
inductive Tiled (m : Cells Byte) (codeSection codeSectionSize : ℕ) : ℕ → List ℕ → Prop
  | nil : Tiled m codeSection codeSectionSize codeSectionSize []
  | cons {b : ℕ} {entries : List ℕ} :
      4 ≤ byteCount m (codeSection + b) →
      Tiled m codeSection codeSectionSize (b + byteCount m (codeSection + b)) entries →
      Tiled m codeSection codeSectionSize b ((codeSection + b) :: entries)

variable (m : Cells Byte) (module : ℕ)

/-- The header of section 1. -/
def codeSection : ℕ := sectionHeader m module sectionIndexCode

/-- Section 1 exists, is named `hsa_code` and is not empty. -/
def HasCodeSection : Prop :=
  sectionIndexCode < sectionCount m module ∧
    sectionName m (codeSection m module) = codeSectionName ∧
    sectionByteCount m (codeSection m module) ≠ 0

/-- The entries that tile the code section. -/
def Entries (entries : List ℕ) : Prop :=
  Tiled m (codeSection m module) (sectionByteCount m (codeSection m module))
    (headerByteCount m (codeSection m module)) entries

/-- What is required of a module: a pointer to it, and entries that tile its code section. A read
is defined everywhere, so that nothing is required of the bounds of its sections. -/
def WellFormed : Prop :=
  module ≠ 0 ∧ (HasCodeSection m module → ∃ entries, Entries m module entries)

/-- The first module directive of the code section. -/
def ModuleDirective (directive : ℕ) : Prop :=
  HasCodeSection m module ∧ ∃ entries, Entries m module entries ∧
    entries.find? (isModuleDirective m) = some directive

/-- The first module directive has the profile and the machine model of the program. -/
def Agrees (p : HSAILProgram) : Prop :=
  ∃ directive, ModuleDirective m module directive ∧ profile m directive = p.profile ∧
    machineModel m directive = p.machineModel

end Brig

open Brig

variable {m : Cells Byte} {handle module b steps size header directive : ℕ} {entries : List ℕ}
  {s s' : Programs} {p : HSAILProgram}

/-! ## The walks -/

theorem findCodeSection_of_lt (m : Cells Byte) (module remaining : ℕ) {index : ℕ}
    (h : sectionIndexCode < index) : findCodeSection m module remaining index = none := by
  induction remaining generalizing index with
  | zero => rfl
  | succ remaining ih =>
    have hne : index ≠ sectionIndexCode := by omega
    simp only [findCodeSection, hne, false_and, if_false]
    exact ih (by omega)

/-- The walk over the section table looks at section 1. -/
theorem findCodeSection_eq_some_iff :
    findCodeSection m module (sectionCount m module) 0 = some header ↔
      sectionIndexCode < sectionCount m module ∧
        sectionName m (codeSection m module) = codeSectionName ∧
        codeSection m module = header := by
  have hzero : ¬ 0 = sectionIndexCode := by decide
  rcases hcount : sectionCount m module with _ | _ | remaining
  · simp [findCodeSection]
  · simp [findCodeSection, sectionIndexCode]
  · have hrest : findCodeSection m module remaining (0 + 1 + 1) = none :=
      findCodeSection_of_lt m module remaining (by decide)
    have hlt : sectionIndexCode < remaining + 1 + 1 := by
      rw [sectionIndexCode]
      omega
    simp only [findCodeSection, hzero, false_and, if_false, hrest, hlt, true_and]
    change (if 0 + 1 = 1 ∧ sectionName m (codeSection m module) = codeSectionName then
      some (codeSection m module) else none) = some header ↔ _
    by_cases hname : sectionName m (codeSection m module) = codeSectionName
    · simp [hname]
    · simp [hname]

theorem Brig.Tiled.le (h : Tiled m header size b entries) : b ≤ size := by
  induction h with
  | nil => exact le_rfl
  | cons _ _ ih => omega

/-- **The walk over the entries** finds the first module directive in their list. -/
theorem findModuleDirective_eq (h : Tiled m header size b entries) (hsize : size < 2 ^ 64)
    (hsteps : size ≤ b + steps) :
    findModuleDirective m header size steps b =
      some (entries.find? (isModuleDirective m)) := by
  induction h generalizing steps with
  | nil => cases steps <;> simp [findModuleDirective]
  | @cons b entries hcount htiled ih =>
    have hle := htiled.le
    have hlt : b < size := by omega
    cases steps with
    | zero => omega
    | succ steps =>
      have hrest := ih (by omega : size ≤ _ + steps)
      have hnext : b + byteCount m (header + b) < 2 ^ 64 := by omega
      simp only [findModuleDirective, hlt, if_true, List.find?_cons, Word.wrap_of_lt hnext, hrest]
      cases isModuleDirective m (header + b) with
      | true => rfl
      | false => rfl

/-- The walk over the entries that tile a code section. -/
theorem findModuleDirective_of_entries (h : Entries m module entries) :
    findModuleDirective m (codeSection m module) (sectionByteCount m (codeSection m module))
        (sectionByteCount m (codeSection m module))
        (headerByteCount m (codeSection m module)) =
      some (entries.find? (isModuleDirective m)) :=
  findModuleDirective_eq h (BitVec.isLt _) (Nat.le_add_left _ _)

/-! ## A call -/

/-- A call with a module without a module directive. -/
theorem addModule_of_not (hinit : s.initialized = true) (hwf : WellFormed m module)
    (h : ¬ ∃ directive, ModuleDirective m module directive) :
    hsaExtProgramAddModule m handle module s = some (.errorInvalidModule, s) := by
  obtain ⟨hmodule, hentries⟩ := hwf
  simp only [hsaExtProgramAddModule, hinit, hmodule, Bool.not_true, Bool.false_eq_true, if_false]
  cases hsection : findCodeSection m module (sectionCount m module) 0 with
  | none => rfl
  | some header =>
    obtain ⟨hlt, hname, rfl⟩ := findCodeSection_eq_some_iff.mp hsection
    by_cases hcount : sectionByteCount m (codeSection m module) = 0
    · simp only [hcount, if_true]
    · have hcode : HasCodeSection m module := ⟨hlt, hname, hcount⟩
      obtain ⟨entries, htiled⟩ := hentries hcode
      simp only [hcount, if_false, findModuleDirective_of_entries htiled]
      cases hfind : entries.find? (isModuleDirective m) with
      | none => rfl
      | some directive => exact absurd ⟨directive, hcode, entries, htiled, hfind⟩ h

/-- A call with a module whose first module directive is known. -/
theorem addModule_of_directive (hinit : s.initialized = true) (hmodule : module ≠ 0)
    (h : ModuleDirective m module directive) :
    hsaExtProgramAddModule m handle module s =
      (s.programs handle).map fun p =>
        if profile m directive ≠ p.profile ∨ machineModel m directive ≠ p.machineModel then
          (.errorIncompatibleModule, s)
        else if p.hasModule module then (.errorModuleAlreadyIncluded, s)
        else (.success, s.set handle (p.addModule module)) := by
  obtain ⟨⟨hlt, hname, hcount⟩, entries, htiled, hfind⟩ := h
  have hsection := findCodeSection_eq_some_iff.mpr ⟨hlt, hname, rfl⟩
  simp only [hsaExtProgramAddModule, hinit, hmodule, hsection, hcount, Bool.not_true,
    Bool.false_eq_true, if_false, findModuleDirective_of_entries htiled, hfind]
  cases s.programs handle with
  | none => rfl
  | some p =>
    simp only [Option.map_some]
    split
    · rfl
    · split <;> rfl

/-- The code section has one first module directive. -/
theorem Brig.ModuleDirective.unique {directive' : ℕ} (h : ModuleDirective m module directive)
    (h' : ModuleDirective m module directive') : directive = directive' := by
  obtain ⟨-, entries, htiled, hfind⟩ := h
  obtain ⟨-, entries', htiled', hfind'⟩ := h'
  have heq := (findModuleDirective_of_entries htiled).symm.trans
    (findModuleDirective_of_entries htiled')
  rw [hfind, hfind'] at heq
  exact Option.some.inj (Option.some.inj heq)

theorem agrees_iff (h : ModuleDirective m module directive) :
    Agrees m module p ↔
      profile m directive = p.profile ∧ machineModel m directive = p.machineModel := by
  constructor
  · rintro ⟨directive', h', hagrees⟩
    rwa [h.unique h']
  · intro hagrees
    exact ⟨directive, h, hagrees⟩

/-- **A call** with a live program: the four outcomes. -/
theorem addModule_cases (hinit : s.initialized = true) (hwf : WellFormed m module)
    (hlive : s.programs handle = some p) :
    (¬ (∃ directive, ModuleDirective m module directive) ∧
      hsaExtProgramAddModule m handle module s = some (.errorInvalidModule, s)) ∨
    ((∃ directive, ModuleDirective m module directive) ∧ ¬ Agrees m module p ∧
      hsaExtProgramAddModule m handle module s = some (.errorIncompatibleModule, s)) ∨
    (Agrees m module p ∧ module ∈ p.brigs ∧
      hsaExtProgramAddModule m handle module s = some (.errorModuleAlreadyIncluded, s)) ∨
    (Agrees m module p ∧ module ∉ p.brigs ∧
      hsaExtProgramAddModule m handle module s =
        some (.success, s.set handle (p.addModule module))) := by
  by_cases hdirective : ∃ directive, ModuleDirective m module directive
  · obtain ⟨directive, h⟩ := hdirective
    have hcall : hsaExtProgramAddModule m handle module s = _ :=
      addModule_of_directive hinit hwf.1 h
    rw [hlive, Option.map_some] at hcall
    by_cases hagrees : Agrees m module p
    · obtain ⟨hprofile, hmodel⟩ := (agrees_iff h).mp hagrees
      by_cases hmem : module ∈ p.brigs
      · refine .inr (.inr (.inl ⟨hagrees, hmem, ?_⟩))
        simpa [hprofile, hmodel, HSAILProgram.hasModule, hmem] using hcall
      · refine .inr (.inr (.inr ⟨hagrees, hmem, ?_⟩))
        simpa [hprofile, hmodel, HSAILProgram.hasModule, hmem] using hcall
    · refine .inr (.inl ⟨⟨directive, h⟩, hagrees, ?_⟩)
      rw [hcall, if_pos]
      by_contra hnot
      simp only [not_or, ne_eq, Decidable.not_not] at hnot
      exact hagrees ((agrees_iff h).mpr hnot)
  · exact .inl ⟨hdirective, addModule_of_not hinit hwf hdirective⟩

/-! ## Runs -/

/-- The module of a call is well-formed. -/
def callOk (_ : Programs) : ProgramAction → Prop
  | .addModule m _ module => WellFormed m module
  | _ => True

/-- A change that a call makes to the program with the given handle. -/
def Changes (s : Programs) (a : ProgramAction) (handle : ℕ) (q : Option HSAILProgram) : Prop :=
  q = none ∨ (∃ machineModel profile, q = some ⟨[], machineModel, profile⟩) ∨
    ∃ m module p, a = .addModule m handle module ∧ s.programs handle = some p ∧
      Agrees m module p ∧ module ∉ p.brigs ∧ q = some (p.addModule module)

theorem create_cases (machineModel profile roundingMode : ℕ) (programIsNull : Bool)
    (handle : ℕ) (s : Programs) :
    (hsaExtProgramCreate machineModel profile roundingMode programIsNull handle s).2 = s ∨
      s.initialized = true ∧
        (hsaExtProgramCreate machineModel profile roundingMode programIsNull handle s).2 =
          s.set handle (some ⟨[], machineModel, profile⟩) := by
  cases hinit : s.initialized with
  | false => simp [hsaExtProgramCreate, hinit]
  | true =>
    simp only [hsaExtProgramCreate, hinit]
    split_ifs <;> simp

theorem destroy_cases (handle : ℕ) (s : Programs) :
    (hsaExtProgramDestroy handle s).2 = s ∨
      s.initialized = true ∧ (hsaExtProgramDestroy handle s).2 = s.set handle none := by
  cases hinit : s.initialized with
  | false => simp [hsaExtProgramDestroy, hinit]
  | true =>
    simp only [hsaExtProgramDestroy, hinit]
    split_ifs <;> simp

theorem addModule_step (hwf : WellFormed m module)
    (hs : (hsaExtProgramAddModule m handle module s).map Prod.snd = some s') :
    s' = s ∨ s.initialized = true ∧ ∃ p, s.programs handle = some p ∧ Agrees m module p ∧
      module ∉ p.brigs ∧ s' = s.set handle (p.addModule module) := by
  cases hinit : s.initialized with
  | false =>
    simp only [hsaExtProgramAddModule, hinit] at hs
    exact .inl (Option.some.inj hs).symm
  | true =>
    cases hlive : s.programs handle with
    | none =>
      by_cases hdirective : ∃ directive, ModuleDirective m module directive
      · obtain ⟨directive, h⟩ := hdirective
        rw [addModule_of_directive hinit hwf.1 h, hlive] at hs
        cases hs
      · rw [addModule_of_not hinit hwf hdirective] at hs
        exact .inl (Option.some.inj hs).symm
    | some p =>
      obtain ⟨-, hcall⟩ | ⟨-, -, hcall⟩ | ⟨-, -, hcall⟩ | ⟨hagrees, hmem, hcall⟩ :=
        addModule_cases hinit hwf hlive
      all_goals
        rw [hcall] at hs
        have heq := (Option.some.inj hs).symm
      · exact .inl heq
      · exact .inl heq
      · exact .inl heq
      · exact .inr ⟨rfl, p, rfl, hagrees, hmem, heq⟩

/-- What a call does to the programs. -/
theorem step_cases {a : ProgramAction} (hok : callOk s a)
    (hs : programMachine.step a s = some s') :
    s' = s ∨ s.initialized = true ∧ ∃ handle q, s' = s.set handle q ∧ Changes s a handle q := by
  cases a with
  | create machineModel profile roundingMode programIsNull handle =>
    simp only [programMachine] at hs
    split at hs
    · cases hs
    · cases hs
      apply (create_cases ..).imp_right
      rintro ⟨hinit, heq⟩
      exact ⟨hinit, handle, _, heq, .inr (.inl ⟨machineModel, profile, rfl⟩)⟩
  | destroy handle =>
    cases hs
    apply (destroy_cases ..).imp_right
    rintro ⟨hinit, heq⟩
    exact ⟨hinit, handle, none, heq, .inl rfl⟩
  | addModule m handle module =>
    apply (addModule_step hok hs).imp_right
    rintro ⟨hinit, p, hlive, hagrees, hmem, heq⟩
    exact ⟨hinit, handle, _, heq, .inr (.inr ⟨m, module, p, rfl, hlive, hagrees, hmem, rfl⟩)⟩

/-- What holds of a live program after a run: its modules are different, and each agreed with
the program when it was added. -/
structure ProgramInv (tr : List (Programs × ProgramAction)) (s : Programs) (handle : ℕ)
    (p : HSAILProgram) : Prop where
  initialized : s.initialized = true
  nodup : p.brigs.Nodup
  agrees : ∀ module ∈ p.brigs, ∃ t m, (t, .addModule m handle module) ∈ tr ∧ Agrees m module p

variable {tr : List (Programs × ProgramAction)} {a : ProgramAction}

/-- A program that a step leaves as it is. -/
theorem ProgramInv.keep (h : ProgramInv tr s handle p) (hinit : s'.initialized = s.initialized) :
    ProgramInv ((s, a) :: tr) s' handle p := by
  obtain ⟨hinit', hnodup, hagrees⟩ := h
  refine ⟨hinit.trans hinit', hnodup, ?_⟩
  intro module hmodule
  obtain ⟨t, m, hmem, h⟩ := hagrees module hmodule
  exact ⟨t, m, List.mem_cons_of_mem _ hmem, h⟩

/-- A program that gets one more module. -/
theorem ProgramInv.addModule (h : ProgramInv tr s handle p)
    (hinit : s'.initialized = s.initialized) (hagrees : Agrees m module p)
    (hmem : module ∉ p.brigs) :
    ProgramInv ((s, .addModule m handle module) :: tr) s' handle (p.addModule module) := by
  refine ⟨hinit.trans h.initialized, ?_, ?_⟩
  · have hdisjoint : List.Disjoint p.brigs [module] := by simpa using hmem
    exact List.Nodup.append h.nodup (List.nodup_singleton module) hdisjoint
  · intro module' hmodule'
    rcases List.mem_append.mp hmodule' with hold | hnew
    · obtain ⟨t, m', ht, h'⟩ := h.agrees module' hold
      exact ⟨t, m', List.mem_cons_of_mem _ ht, h'⟩
    · cases List.mem_singleton.mp hnew
      exact ⟨s, m, List.mem_cons_self, hagrees⟩

theorem programInv_of_run (hrun : programMachine.Run tr s)
    (hok : ∀ step ∈ tr, callOk step.1 step.2) (hlive : s.programs handle = some p) :
    ProgramInv tr s handle p := by
  induction hrun generalizing handle p with
  | init hinit => simp [hinit handle] at hlive
  | @step tr s s' a hrun hs ih =>
    have hpre : ∀ step ∈ tr, callOk step.1 step.2 :=
      fun step hstep => hok step (List.mem_cons_of_mem _ hstep)
    have hcall : callOk s a := hok (s, a) List.mem_cons_self
    obtain rfl | ⟨hinit, handle', q, rfl, hq⟩ := step_cases hcall hs
    · exact (ih hpre hlive).keep rfl
    · by_cases hhandle : handle = handle'
      · subst hhandle
        rw [Programs.programs_set] at hlive
        subst hlive
        obtain hq | ⟨machineModel, profile, hq⟩ |
          ⟨m, module, p', rfl, hlive, hagrees, hmem, hq⟩ := hq
        · cases hq
        · cases hq
          exact ⟨hinit, List.nodup_nil, fun module hmodule => absurd hmodule List.not_mem_nil⟩
        · cases hq
          exact (ih hpre hlive).addModule rfl hagrees hmem
      · rw [Programs.programs_set_of_ne hhandle] at hlive
        exact (ih hpre hlive).keep rfl

/-- **Module admission.** After any run of calls with well-formed modules, a call with a live
program returns; it succeeds exactly if the module has a code section whose first module
directive agrees with the program, which does not have the module yet; it then appends the
module, and otherwise changes nothing and returns the first of the three errors that applies.
The modules of a program are different, and agreed with it when they were added. -/
theorem module_admission (hrun : programMachine.Run tr s)
    (hok : ∀ step ∈ tr, callOk step.1 step.2) :
    (∀ handle p, s.programs handle = some p → p.brigs.Nodup ∧
      ∀ module ∈ p.brigs, ∃ t m, (t, .addModule m handle module) ∈ tr ∧ Agrees m module p) ∧
    ∀ m handle module p, s.programs handle = some p → WellFormed m module →
      ∃ status s', hsaExtProgramAddModule m handle module s = some (status, s') ∧
        (status = .success ↔ ∃ directive, ModuleDirective m module directive ∧
          profile m directive = p.profile ∧ machineModel m directive = p.machineModel ∧
          module ∉ p.brigs) ∧
        (status = .success →
          s' = s.set handle (some { p with brigs := p.brigs ++ [module] })) ∧
        (status ≠ .success → s' = s) ∧
        ((¬ ∃ directive, ModuleDirective m module directive) → status = .errorInvalidModule) ∧
        ((∃ directive, ModuleDirective m module directive) → ¬ Agrees m module p →
          status = .errorIncompatibleModule) ∧
        (Agrees m module p → module ∈ p.brigs → status = .errorModuleAlreadyIncluded) := by
  constructor
  · intro handle p hlive
    have hinv := programInv_of_run hrun hok hlive
    exact ⟨hinv.nodup, hinv.agrees⟩
  · intro m handle module p hlive hwf
    have hinit := (programInv_of_run hrun hok hlive).initialized
    have hsuccess : (∃ directive, ModuleDirective m module directive ∧
        profile m directive = p.profile ∧ machineModel m directive = p.machineModel ∧
        module ∉ p.brigs) ↔ Agrees m module p ∧ module ∉ p.brigs := by
      simp only [Agrees, exists_and_right, ← and_assoc]
    rw [hsuccess]
    obtain ⟨hnot, hcall⟩ | ⟨hdirective, hnot, hcall⟩ | ⟨hagrees, hmem, hcall⟩ |
      ⟨hagrees, hmem, hcall⟩ := addModule_cases hinit hwf hlive
    · have hdisagrees : ¬ Agrees m module p := by
        rintro ⟨directive, h, -⟩
        exact hnot ⟨directive, h⟩
      exact ⟨_, _, hcall, by simp [hdisagrees], by simp, by simp, fun _ => rfl,
        fun h => absurd h hnot, fun h => absurd h hdisagrees⟩
    · exact ⟨_, _, hcall, by simp [hnot], by simp, by simp, fun h => absurd hdirective h,
        fun _ _ => rfl, fun h => absurd h hnot⟩
    · have hdirective : ∃ directive, ModuleDirective m module directive :=
        hagrees.imp fun _ h => h.1
      exact ⟨_, _, hcall, by simp [hmem], by simp, by simp, fun h => absurd hdirective h,
        fun _ h => absurd hagrees h, fun _ _ => rfl⟩
    · have hdirective : ∃ directive, ModuleDirective m module directive :=
        hagrees.imp fun _ h => h.1
      exact ⟨_, _, hcall, by simp [hagrees, hmem], fun _ => rfl, by simp,
        fun h => absurd hdirective h, fun _ h => absurd hagrees h, fun _ h => absurd h hmem⟩

/-- A module at the address 1000: a data section without data at 1120 and a code section at 1144
whose only entry is a module directive for the full profile and the large machine model. -/
def directiveOnly : Cells Byte :=
  Cells.copyAll (fun _ => 0)
    [(1092, [2]), (1096, [104]), (1104, [120]), (1112, [144]),
      (1120, [24]), (1128, [24]), (1132, [8]),
      (1136, [0x68, 0x73, 0x61, 0x5f, 0x64, 0x61, 0x74, 0x61]),
      (1144, [44]), (1152, [24]), (1156, [8]), (1160, codeSectionName),
      (1168, [20, 0, 0x0b, 0x10]), (1184, [1, 1])]

theorem entries_directiveOnly : Entries directiveOnly 1000 [1168] := by
  have hcode : codeSection directiveOnly 1000 = 1144 := by decide
  have hsize : sectionByteCount directiveOnly 1144 = 44 := by decide
  have hheader : headerByteCount directiveOnly 1144 = 24 := by decide
  have hentry : byteCount directiveOnly (1144 + 24) = 20 := by decide
  rw [Entries, hcode, hsize, hheader]
  refine .cons ?_ ?_
  · rw [hentry]
    decide
  · rw [hentry]
    exact .nil

theorem module_admission_created :
    ∃ s', hsaExtProgramAddModule directiveOnly 7 1000
        (Programs.set ⟨true, fun _ => none⟩ 7 (some ⟨[], 1, 1⟩)) = some (.success, s') ∧
      s'.programs 7 = some ⟨[1000], 1, 1⟩ := by
  have hrun : programMachine.Run [(⟨true, fun _ => none⟩, .create 1 1 0 false 7)]
      (Programs.set ⟨true, fun _ => none⟩ 7 (some ⟨[], 1, 1⟩)) :=
    .step (.init fun _ => rfl) rfl
  obtain ⟨-, hcall⟩ := module_admission hrun (by simp [callOk])
  have hwf : WellFormed directiveOnly 1000 := ⟨by decide, fun _ => ⟨[1168], entries_directiveOnly⟩⟩
  obtain ⟨status, s', heq, hsuccess, hlist, -⟩ := hcall _ 7 1000 _ Programs.programs_set hwf
  have hcode : HasCodeSection directiveOnly 1000 := by
    rw [HasCodeSection]
    decide
  have hstatus : status = .success := hsuccess.mpr
    ⟨1168, ⟨hcode, [1168], entries_directiveOnly, by decide⟩, by decide, by decide, by decide⟩
  rw [hlist hstatus, hstatus] at heq
  exact ⟨_, heq, Programs.programs_set⟩

end PhsaRuntime
