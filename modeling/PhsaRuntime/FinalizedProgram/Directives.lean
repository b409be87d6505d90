import PhsaRuntime.FinalizedProgram

/-!
# Control directives

What the check of the control directives should do and what it does. A directive is named by
a `Directive`; a value of 0 is no value, neither declared nor given. The documentation of
`hsa_ext_control_directives_t` tells which declared values go with a given one: not less for
the maximum sizes of a grid and of a work-group, the same for all others.

The check differs from this in one place, the maximum size of the dynamic group memory, which
it compares like the other maxima (`loadAndCheck_iff`). And it loads nothing: the values given
go to a copy of the descriptor, so that they take effect only where every function declares
them already (`takesEffect_iff`).
-/

namespace PhsaRuntime

/-- A checked field of the control directives. -/
inductive Directive
  | maxDynamicGroupSize
  | maxFlatGridSize
  | maxFlatWorkgroupSize
  | requiredGridSizeX
  | requiredGridSizeY
  | requiredGridSizeZ
  | requiredWorkgroupSizeX
  | requiredWorkgroupSizeY
  | requiredWorkgroupSizeZ
  | requiredDim
  deriving DecidableEq, Repr

/-- The value that a function declares. -/
def Descriptor.declared (fd : Descriptor) : Directive → ℕ
  | .maxDynamicGroupSize => fd.maxDynamicGroupSize
  | .maxFlatGridSize => fd.maxFlatGridSize
  | .maxFlatWorkgroupSize => fd.maxFlatWorkgroupSize
  | .requiredGridSizeX => fd.requiredGridSize.x
  | .requiredGridSizeY => fd.requiredGridSize.y
  | .requiredGridSizeZ => fd.requiredGridSize.z
  | .requiredWorkgroupSizeX => fd.requiredWorkgroupSize.x
  | .requiredWorkgroupSizeY => fd.requiredWorkgroupSize.y
  | .requiredWorkgroupSizeZ => fd.requiredWorkgroupSize.z
  | .requiredDim => fd.requiredDim

/-- The value given. -/
def ControlDirectives.given (cd : ControlDirectives) : Directive → ℕ
  | .maxDynamicGroupSize => cd.maxDynamicGroupSize
  | .maxFlatGridSize => cd.maxFlatGridSize
  | .maxFlatWorkgroupSize => cd.maxFlatWorkgroupSize
  | .requiredGridSizeX => cd.requiredGridSize.x
  | .requiredGridSizeY => cd.requiredGridSize.y
  | .requiredGridSizeZ => cd.requiredGridSize.z
  | .requiredWorkgroupSizeX => cd.requiredWorkgroupSize.x
  | .requiredWorkgroupSizeY => cd.requiredWorkgroupSize.y
  | .requiredWorkgroupSizeZ => cd.requiredWorkgroupSize.z
  | .requiredDim => cd.requiredDim

namespace Directive

/-- The declared values that go with a given one. -/
def Allows : Directive → ℕ → ℕ → Prop
  | .maxFlatGridSize, declared, given => given ≤ declared
  | .maxFlatWorkgroupSize, declared, given => given ≤ declared
  | _, declared, given => declared = given

/-- The comparison that the check makes. -/
def check : Directive → ℕ → ℕ → Bool
  | .maxDynamicGroupSize => isBelow
  | .maxFlatGridSize => isBelow
  | .maxFlatWorkgroupSize => isBelow
  | _ => isDifferent

/-- The comparison refutes exactly the values that are not allowed, except that it lets a
larger size of the dynamic group memory pass. -/
theorem check_eq_false_iff {d : Directive} {declared given : ℕ} :
    d.check declared given = false ↔
      d.Allows declared given ∨ d = .maxDynamicGroupSize ∧ given < declared := by
  cases d <;> simp [check, Allows, isBelow, isDifferent]
  omega

end Directive

/-- The value given, if there is one, and else the value declared. -/
def loaded (declared given : ℕ) : ℕ := if given > 0 then given else declared

/-- The descriptor with all values given. -/
def Descriptor.load (fd : Descriptor) (cd : ControlDirectives) : Descriptor :=
  { fd with
    maxDynamicGroupSize := loaded fd.maxDynamicGroupSize cd.maxDynamicGroupSize
    maxFlatGridSize := loaded fd.maxFlatGridSize cd.maxFlatGridSize
    maxFlatWorkgroupSize := loaded fd.maxFlatWorkgroupSize cd.maxFlatWorkgroupSize
    requiredGridSize :=
      { x := loaded fd.requiredGridSize.x cd.requiredGridSize.x
        y := loaded fd.requiredGridSize.y cd.requiredGridSize.y
        z := loaded fd.requiredGridSize.z cd.requiredGridSize.z }
    requiredWorkgroupSize :=
      { x := loaded fd.requiredWorkgroupSize.x cd.requiredWorkgroupSize.x
        y := loaded fd.requiredWorkgroupSize.y cd.requiredWorkgroupSize.y
        z := loaded fd.requiredWorkgroupSize.z cd.requiredWorkgroupSize.z }
    requiredDim := loaded fd.requiredDim cd.requiredDim }

variable {cd : ControlDirectives} {fd fd' : Descriptor} {p : FinalizedProgram}

@[simp] theorem declared_load (fd : Descriptor) (cd : ControlDirectives) (d : Directive) :
    (fd.load cd).declared d = loaded (fd.declared d) (cd.given d) := by
  cases d <;> rfl

/-- The check of one function finds a value declared and a value given that do not go
together, as it compares them. -/
def Refuses (cd : ControlDirectives) (fd : Descriptor) (d : Directive) : Prop :=
  0 < cd.given d ∧ 0 < fd.declared d ∧ d.check (fd.declared d) (cd.given d) = true

theorem handleCtrlDirective_eq_some_iff {check : ℕ → ℕ → Bool} {declared given v : ℕ} :
    handleCtrlDirective check declared given = some v ↔
      ¬ (0 < given ∧ 0 < declared ∧ check declared given = true) ∧ v = loaded declared given := by
  by_cases hgiven : given > 0
  · by_cases hrefused : declared > 0 ∧ check declared given = true
    · simp [handleCtrlDirective, hgiven, hrefused]
    · rw [handleCtrlDirective, if_pos hgiven, if_neg hrefused, loaded, if_pos hgiven,
        Option.some.injEq, eq_comm]
      exact (and_iff_right fun h => hrefused h.2).symm
  · rw [handleCtrlDirective, if_neg hgiven, loaded, if_neg hgiven, Option.some.injEq, eq_comm]
    exact (and_iff_right fun h => hgiven h.1).symm

/-- **The function lemma:** the check of a function goes through if and only if it refuses no
directive, and then its copy of the descriptor has all values given. -/
theorem checkFunction_eq_some_iff :
    checkFunction cd fd = some fd' ↔ (∀ d, ¬ Refuses cd fd d) ∧ fd' = fd.load cd := by
  have hall : (∀ d, ¬ Refuses cd fd d) ↔
      ¬ Refuses cd fd .maxDynamicGroupSize ∧ ¬ Refuses cd fd .maxFlatGridSize ∧
      ¬ Refuses cd fd .maxFlatWorkgroupSize ∧ ¬ Refuses cd fd .requiredGridSizeX ∧
      ¬ Refuses cd fd .requiredGridSizeY ∧ ¬ Refuses cd fd .requiredGridSizeZ ∧
      ¬ Refuses cd fd .requiredWorkgroupSizeX ∧ ¬ Refuses cd fd .requiredWorkgroupSizeY ∧
      ¬ Refuses cd fd .requiredWorkgroupSizeZ ∧ ¬ Refuses cd fd .requiredDim := by
    constructor
    · intro h
      refine ⟨?_, ?_, ?_, ?_, ?_, ?_, ?_, ?_, ?_, ?_⟩ <;> exact h _
    · rintro ⟨_, _, _, _, _, _, _, _, _, _⟩ d
      cases d <;> assumption
  rw [hall]
  simp only [checkFunction, handleDim3, Option.bind_eq_bind, Option.bind_eq_some_iff,
    handleCtrlDirective_eq_some_iff, Refuses, Descriptor.declared, ControlDirectives.given,
    Directive.check, Descriptor.load, Option.pure_def, Option.some.injEq]
  constructor
  · rintro ⟨_, ⟨h₁, rfl⟩, _, ⟨h₂, rfl⟩, _, ⟨h₃, rfl⟩, _, ⟨_, ⟨h₄, rfl⟩, _, ⟨h₅, rfl⟩, _,
      ⟨h₆, rfl⟩, rfl⟩, _, ⟨_, ⟨h₇, rfl⟩, _, ⟨h₈, rfl⟩, _, ⟨h₉, rfl⟩, rfl⟩, _, ⟨h, rfl⟩, rfl⟩
    exact ⟨⟨h₁, h₂, h₃, h₄, h₅, h₆, h₇, h₈, h₉, h⟩, rfl⟩
  · rintro ⟨⟨h₁, h₂, h₃, h₄, h₅, h₆, h₇, h₈, h₉, h⟩, rfl⟩
    exact ⟨_, ⟨h₁, rfl⟩, _, ⟨h₂, rfl⟩, _, ⟨h₃, rfl⟩, _, ⟨_, ⟨h₄, rfl⟩, _, ⟨h₅, rfl⟩, _,
      ⟨h₆, rfl⟩, rfl⟩, _, ⟨_, ⟨h₇, rfl⟩, _, ⟨h₈, rfl⟩, _, ⟨h₉, rfl⟩, rfl⟩, _, ⟨h, rfl⟩, rfl⟩

/-! ## The check -/

/-- The function of some name has the descriptor. -/
def FinalizedProgram.Declares (p : FinalizedProgram) (fd : Descriptor) : Prop :=
  ∃ name, p.findDescriptor name = some fd

theorem declares_iff : p.Declares fd ↔ ∃ f ∈ p.funcDescriptors.entries, f.2 = fd := by
  constructor
  · rintro ⟨name, h⟩
    exact ⟨⟨name, fd⟩, AList.mem_lookup_iff.mp h, rfl⟩
  · rintro ⟨⟨name, fd⟩, h, rfl⟩
    exact ⟨name, AList.mem_lookup_iff.mpr h⟩

/-- The check goes through if and only if it refuses no directive of a function. -/
theorem checkFunctions_eq_true_iff {fs : List (Sigma fun _ : String => Descriptor)} :
    FinalizedProgram.checkFunctions cd fs = true ↔ ∀ f ∈ fs, ∀ d, ¬ Refuses cd f.2 d := by
  induction fs with
  | nil => simp [FinalizedProgram.checkFunctions]
  | cons f fs ih =>
    rw [FinalizedProgram.checkFunctions, List.forall_mem_cons, ← ih]
    cases hf : checkFunction cd f.2 with
    | none =>
      have hrefused : ¬ ∀ d, ¬ Refuses cd f.2 d := by
        intro h
        have hsome := checkFunction_eq_some_iff.mpr ⟨h, rfl⟩
        rw [hf] at hsome
        cases hsome
      simp [hrefused]
    | some fd' =>
      have hpass := (checkFunction_eq_some_iff.mp hf).1
      simp [hpass]

theorem loadAndCheck_eq_true_iff :
    (p.loadAndCheckControlDirectives cd).1 = true ↔
      ∀ fd, p.Declares fd → ∀ d, ¬ Refuses cd fd d := by
  rw [FinalizedProgram.loadAndCheckControlDirectives, checkFunctions_eq_true_iff]
  constructor
  · intro h fd hfd
    obtain ⟨f, hf, rfl⟩ := declares_iff.mp hfd
    exact h f hf
  · intro h f hf
    exact h f.2 (declares_iff.mpr ⟨f, hf, rfl⟩)

/-- Every value given goes with the value that a function declares, if it declares one. -/
def Compatible (cd : ControlDirectives) (p : FinalizedProgram) : Prop :=
  ∀ fd, p.Declares fd → ∀ d, cd.given d ≠ 0 →
    fd.declared d = 0 ∨ d.Allows (fd.declared d) (cd.given d)

/-- Some function declares a larger size of the dynamic group memory than the one given. -/
def ExceedsDynamic (cd : ControlDirectives) (p : FinalizedProgram) : Prop :=
  ∃ fd, p.Declares fd ∧ cd.maxDynamicGroupSize ≠ 0 ∧
    cd.maxDynamicGroupSize < fd.maxDynamicGroupSize

/-- Some declared value and the value given fail the comparison that is made for them. -/
def RefusedElsewhere (cd : ControlDirectives) (p : FinalizedProgram) : Prop :=
  ∃ fd, p.Declares fd ∧ ∃ d, Refuses cd fd d

/-- The values given go with those of a function if and only if the comparisons pass and the
size of the dynamic group memory is not exceeded. -/
theorem allows_iff :
    (∀ d, cd.given d ≠ 0 → fd.declared d = 0 ∨ d.Allows (fd.declared d) (cd.given d)) ↔
      (∀ d, ¬ Refuses cd fd d) ∧
        ¬ (cd.maxDynamicGroupSize ≠ 0 ∧ cd.maxDynamicGroupSize < fd.maxDynamicGroupSize) := by
  constructor
  · intro h
    constructor
    · rintro d ⟨hgiven, hdeclared, hcheck⟩
      have hallows := (h d hgiven.ne').resolve_left hdeclared.ne'
      rw [Directive.check_eq_false_iff.mpr (.inl hallows)] at hcheck
      cases hcheck
    · rintro ⟨hgiven, hlt⟩
      have hsame := h .maxDynamicGroupSize hgiven
      simp only [Descriptor.declared, ControlDirectives.given, Directive.Allows] at hsame
      omega
  · rintro ⟨hpass, hdynamic⟩ d hgiven
    by_cases hdeclared : fd.declared d = 0
    · exact .inl hdeclared
    · have hcheck : d.check (fd.declared d) (cd.given d) = false := by
        rw [← Bool.not_eq_true]
        intro h
        exact hpass d ⟨Nat.pos_of_ne_zero hgiven, Nat.pos_of_ne_zero hdeclared, h⟩
      rcases Directive.check_eq_false_iff.mp hcheck with hallows | ⟨rfl, hlt⟩
      · exact .inr hallows
      · exact absurd ⟨hgiven, hlt⟩ hdynamic

/-- **Compatibility.** The check answers whether the directives are compatible, exactly if no
function declares a larger size of the dynamic group memory than the one given, or the
directives are refused anyway. -/
theorem loadAndCheck_iff :
    ((p.loadAndCheckControlDirectives cd).1 = true ↔ Compatible cd p) ↔
      ¬ ExceedsDynamic cd p ∨ RefusedElsewhere cd p := by
  have hcompatible : Compatible cd p ↔ ¬ RefusedElsewhere cd p ∧ ¬ ExceedsDynamic cd p := by
    simp only [Compatible, allows_iff, RefusedElsewhere, ExceedsDynamic, not_exists, not_and,
      forall_and]
  have htrue : (p.loadAndCheckControlDirectives cd).1 = true ↔ ¬ RefusedElsewhere cd p := by
    simp only [loadAndCheck_eq_true_iff, RefusedElsewhere, not_exists, not_and]
  rw [hcompatible, htrue]
  tauto

/-- A program with one function. -/
def oneFunction (fd : Descriptor) : FinalizedProgram where
  binaryFileName := ""
  elfBlob := .empty
  isa := 0
  machineModel := 0
  profile := 0
  defaultRoundingMode := 0
  version := 1
  funcDescriptors := AList.singleton "f" fd

/-- A function without directives. -/
def plainDescriptor : Descriptor where
  isKernel := 1
  groupSegmentSize := 0
  privateSegmentSize := 0
  kernargSegmentSize := 0
  kernargMaxAlign := 1
  maxDynamicGroupSize := 0
  maxFlatGridSize := 0
  maxFlatWorkgroupSize := 0
  requiredGridSize := ⟨0, 0, 0⟩
  requiredWorkgroupSize := ⟨0, 0, 0⟩
  requiredDim := 0

/-- No directive is given. -/
def noDirectives : ControlDirectives where
  maxDynamicGroupSize := 0
  maxFlatGridSize := 0
  maxFlatWorkgroupSize := 0
  requiredGridSize := ⟨0, 0, 0⟩
  requiredWorkgroupSize := ⟨0, 0, 0⟩
  requiredDim := 0

theorem declares_oneFunction : (oneFunction fd).Declares fd' ↔ fd' = fd := by
  simp [declares_iff, oneFunction, eq_comm]

/-- A function that declares 8 bytes of dynamic group memory is accepted for 4. -/
theorem dynamic_exceeded :
    ((oneFunction { plainDescriptor with maxDynamicGroupSize := 8 }).loadAndCheckControlDirectives
      { noDirectives with maxDynamicGroupSize := 4 }).1 = true ∧
    ¬ Compatible { noDirectives with maxDynamicGroupSize := 4 }
      (oneFunction { plainDescriptor with maxDynamicGroupSize := 8 }) := by
  refine ⟨by decide, ?_⟩
  intro h
  have hdeclared := h _ (declares_oneFunction.mpr rfl) .maxDynamicGroupSize (by decide)
  simp [Directive.Allows, Descriptor.declared, ControlDirectives.given] at hdeclared

/-! ## The load -/

/-- A second set of directives fails the comparisons with the values of the first. -/
def Conflicts (cd cd' : ControlDirectives) : Prop :=
  ∃ d : Directive, cd.given d ≠ 0 ∧ cd'.given d ≠ 0 ∧ d.check (cd.given d) (cd'.given d) = true

/-- The directives are loaded: to the descriptors of all functions, so that a second check
refuses what conflicts with them, and accepts the same again. -/
structure TakesEffect (cd : ControlDirectives) (p : FinalizedProgram) : Prop where
  loads : ∀ name, (p.loadAndCheckControlDirectives cd).2.findDescriptor name =
    (p.findDescriptor name).map fun fd => fd.load cd
  refuses : ∀ cd', Conflicts cd cd' → (∃ fd, p.Declares fd) →
    ((p.loadAndCheckControlDirectives cd).2.loadAndCheckControlDirectives cd').1 = false
  repeats : (p.loadAndCheckControlDirectives cd).2.loadAndCheckControlDirectives cd =
    (true, (p.loadAndCheckControlDirectives cd).2)

/-- The load changes nothing if and only if all values given are declared. -/
theorem load_eq_self_iff :
    fd.load cd = fd ↔ ∀ d, cd.given d ≠ 0 → fd.declared d = cd.given d := by
  constructor
  · intro h d hgiven
    have hload := declared_load fd cd d
    rw [h, loaded, if_pos (Nat.pos_of_ne_zero hgiven)] at hload
    exact hload
  · intro h
    have hsame : ∀ d, loaded (fd.declared d) (cd.given d) = fd.declared d := by
      intro d
      by_cases hgiven : cd.given d = 0
      · rw [loaded, if_neg (by omega)]
      · rw [loaded, if_pos (Nat.pos_of_ne_zero hgiven), h d hgiven]
    obtain ⟨_, _, _, _, _, _, _, _, ⟨_, _, _⟩, ⟨_, _, _⟩, _⟩ := fd
    simp only [Descriptor.load, Descriptor.mk.injEq, Dim3.mk.injEq, true_and]
    exact ⟨hsame .maxDynamicGroupSize, hsame .maxFlatGridSize, hsame .maxFlatWorkgroupSize,
      ⟨hsame .requiredGridSizeX, hsame .requiredGridSizeY, hsame .requiredGridSizeZ⟩,
      ⟨hsame .requiredWorkgroupSizeX, hsame .requiredWorkgroupSizeY,
        hsame .requiredWorkgroupSizeZ⟩, hsame .requiredDim⟩

/-- **The load.** Directives that are accepted take effect if and only if every function
declares every value given already. -/
theorem takesEffect_iff (h : (p.loadAndCheckControlDirectives cd).1 = true) :
    TakesEffect cd p ↔
      ∀ fd, p.Declares fd → ∀ d, cd.given d ≠ 0 → fd.declared d = cd.given d := by
  constructor
  · rintro heffect fd ⟨name, hname⟩
    have hloads : p.findDescriptor name = (p.findDescriptor name).map fun fd => fd.load cd :=
      heffect.loads name
    rw [hname, Option.map_some, Option.some.injEq] at hloads
    exact load_eq_self_iff.mp hloads.symm
  · intro hdeclared
    constructor
    case loads =>
      intro name
      change p.findDescriptor name = _
      cases hname : p.findDescriptor name with
      | none => rfl
      | some fd =>
        rw [Option.map_some, load_eq_self_iff.mpr (hdeclared fd ⟨name, hname⟩)]
    case refuses =>
      rintro cd' ⟨d, hgiven, hgiven', hcheck⟩ ⟨fd, hfd⟩
      change (p.loadAndCheckControlDirectives cd').1 = false
      rw [← Bool.not_eq_true, loadAndCheck_eq_true_iff]
      intro hpass
      have hsame := hdeclared fd hfd d hgiven
      refine hpass fd hfd d ⟨Nat.pos_of_ne_zero hgiven', ?_, ?_⟩
      · rw [hsame]
        exact Nat.pos_of_ne_zero hgiven
      · rwa [hsame]
    case repeats => exact Prod.ext h rfl

/-- A function that declares the dimension given. -/
theorem takesEffect_iff_declared : TakesEffect { noDirectives with requiredDim := 2 }
    (oneFunction { plainDescriptor with requiredDim := 2 }) := by
  refine (takesEffect_iff (by decide)).mpr ?_
  intro fd hfd d hgiven
  obtain rfl := declares_oneFunction.mp hfd
  cases d with
  | requiredDim => rfl
  | _ => exact absurd rfl hgiven

/-- A dimension that is accepted for a function without directives, and not loaded. -/
theorem directives_dropped :
    ((oneFunction plainDescriptor).loadAndCheckControlDirectives
      { noDirectives with requiredDim := 2 }).1 = true ∧
    ¬ TakesEffect { noDirectives with requiredDim := 2 } (oneFunction plainDescriptor) := by
  refine ⟨by decide, ?_⟩
  intro h
  have hloads := h.loads "f"
  revert hloads
  decide

end PhsaRuntime
