import PhsaRuntime.Lib.InsertAll
import PhsaRuntime.TempFiles

/-!
# What the destruction of a code object removes

The destructor removes the directory of its file with all that is in it. A directory that `mkdtemp`
made for the code object has nothing else in it (`Owns`), so that this is right; the directory of
`PHSA_COMPILER_TEMP_DIR` existed before, and is shared by all code objects.

## Main result

* `destruction_frame_iff` — which destructions remove only what was created for the code object.
-/

namespace PhsaRuntime

open TempFiles

/-! ## What the creations add -/

/-- A name that is not one of a directory of `mkdtemp`. -/
def Plain (name : FileName) : Prop := name.head? ≠ some 'p'

/-- The tree has grown by the directory, or by files in it. -/
structure GrowsBy (t : FileTree FileName) (dir : DiskPath) (t' : FileTree FileName) : Prop where
  mono : ∀ q ∈ t, q ∈ t'
  new : ∀ q ∈ t', q ∈ t ∨ q = dir ∨ ∃ name, Plain name ∧ q = dir ++ [name]

/-- A directory that `mkdtemp` makes. -/
structure Fresh (t : FileTree FileName) (dir : DiskPath) : Prop where
  name : ∃ name, dir = tmp ++ ['p' :: name]
  not_mem : dir ∉ t

namespace GrowsBy

variable {t t' : FileTree FileName} {dir : DiskPath} {name : FileName}

theorem refl (t : FileTree FileName) (dir : DiskPath) : GrowsBy t dir t :=
  ⟨fun _ hq => hq, fun _ hq => .inl hq⟩

theorem create (h : GrowsBy t dir t') (hdir : dir ∈ t') (hname : Plain name) :
    GrowsBy t dir (t'.create (dir ++ [name])) ∧ dir ++ [name] ∈ t'.create (dir ++ [name]) := by
  refine ⟨⟨?_, ?_⟩, (FileTree.mem_create hdir).mpr (.inl rfl)⟩
  · intro q hq
    exact (FileTree.mem_create hdir).mpr (.inr (h.mono q hq))
  · intro q hq
    rcases (FileTree.mem_create hdir).mp hq with rfl | hq
    · exact .inr (.inr ⟨name, hname, rfl⟩)
    · exact h.new q hq

theorem dumpBRIGS (h : GrowsBy t dir t') (hdir : dir ∈ t') {names : List FileName}
    (hnames : ∀ name ∈ names, Plain (name ++ ".brig".toList)) :
    GrowsBy t dir (dumpBRIGS dir names t') ∧ dir ∈ TempFiles.dumpBRIGS dir names t' := by
  induction names generalizing t' with
  | nil => exact ⟨h, hdir⟩
  | cons name names ih =>
    obtain ⟨hgrows, -⟩ := h.create hdir (hnames name List.mem_cons_self)
    exact ih hgrows ((FileTree.mem_create hdir).mpr (.inr hdir))
      fun name hname => hnames name (List.mem_cons_of_mem _ hname)

/-- A directory of `mkdtemp` with nothing of the new files in it. -/
theorem not_prefix {d q : DiskPath} (hd : ∃ name, d = tmp ++ ['p' :: name]) (hdir : ¬ d <+: dir)
    (hq : q = dir ∨ ∃ name, Plain name ∧ q = dir ++ [name]) : ¬ d <+: q := by
  rcases hq with rfl | ⟨name, hname, rfl⟩
  · exact hdir
  · rw [List.prefix_concat_iff]
    rintro (heq | hprefix)
    · obtain ⟨n, rfl⟩ := hd
      obtain ⟨-, hlast⟩ := List.append_inj' heq rfl
      obtain rfl : 'p' :: n = name := by simpa using hlast
      exact hname rfl
    · exact hdir hprefix

end GrowsBy

/-- Two directories of `mkdtemp` are not below each other. -/
theorem Fresh.not_prefix {t : FileTree FileName} {d dir : DiskPath} (h : Fresh t dir) (hd : d ∈ t)
    (hname : ∃ name, d = tmp ++ ['p' :: name]) : ¬ d <+: dir := by
  intro hprefix
  obtain ⟨n, rfl⟩ := hname
  obtain ⟨n', rfl⟩ := h.name
  have heq := hprefix.eq_of_length (by simp)
  exact h.not_mem (heq ▸ hd)

theorem plain_of_isUniqueName {name suffix : FileName} (h : isUniqueName name = true) :
    Plain (name ++ suffix) := by
  simp only [isUniqueName, Bool.and_eq_true, List.all_eq_true, decide_eq_true_eq] at h
  obtain ⟨hlength, hall⟩ := h
  cases name with
  | nil => simp at hlength
  | cons c name =>
    rw [Plain, List.cons_append, List.head?_cons]
    intro heq
    have hc := hall c List.mem_cons_self
    rw [Option.some.inj heq] at hc
    exact absurd hc (by decide)

theorem plain_dynObjectName {names : List FileName} (hne : names ≠ [])
    (hnames : names.all isUniqueName = true) : Plain (dynObjectName names) := by
  rw [dynObjectName, List.getLast?_eq_some_getLast hne, Option.getD_some]
  exact plain_of_isUniqueName (List.all_eq_true.mp hnames _ (List.getLast_mem hne))

theorem plain_tempElf : Plain "temp.elf".toList := by
  rw [Plain]
  decide

/-- A new directory of `mkdtemp`. -/
theorem mkdtemp_spec {start suffix : FileName} {t t' : FileTree FileName} {dir : DiskPath}
    (h : mkdtemp ('p' :: start) suffix t = some (dir, t')) :
    Fresh t dir ∧ GrowsBy t dir t' ∧ dir ∈ t' := by
  simp only [mkdtemp] at h
  split at h
  · rename_i hcond
    obtain ⟨rfl, rfl⟩ := Prod.mk.inj (Option.some.inj h)
    refine ⟨⟨⟨start ++ suffix, rfl⟩, hcond.2⟩, ⟨?_, ?_⟩, ?_⟩
    · intro q hq
      exact (FileTree.mem_create hcond.1).mpr (.inr hq)
    · intro q hq
      rcases (FileTree.mem_create hcond.1).mp hq with rfl | hq
      · exact .inr (.inl rfl)
      · exact .inl hq
    · exact (FileTree.mem_create hcond.1).mpr (.inl rfl)
  · cases h

/-- The directories above a directory that is there exist. -/
theorem GrowsBy.createDirectories {t t' : FileTree FileName} {dir : DiskPath} (h : GrowsBy t dir t')
    (hdir : dir ∈ t') :
    GrowsBy t dir (t'.createDirectories dir) ∧ dir ∈ t'.createDirectories dir := by
  have heq : t'.createDirectories dir = t' := by
    ext q
    exact FileTree.mem_createDirectories_of_mem hdir
  rw [heq]
  exact ⟨h, hdir⟩

/-- The directory of a finalization is a new one, or that of the environment. -/
def Placed (env : Option DiskPath) (t : FileTree FileName) (dir : DiskPath) : Prop :=
  (env = none ∧ Fresh t dir) ∨ env = some dir

variable {env : Option DiskPath} {suffix : FileName} {names : List FileName}
  {t t' dumped compiled : FileTree FileName} {dir : DiskPath}

theorem placed_of_finalizeFiles
    (h : finalizeFiles env suffix names t = some (dir, dumped, compiled)) :
    Placed env t dir := by
  obtain ⟨⟨dir', t'⟩, hdir, heq⟩ := Option.map_eq_some_iff.mp h
  obtain ⟨rfl, -⟩ := Prod.mk.inj heq
  cases env with
  | none => exact .inl ⟨rfl, (mkdtemp_spec hdir).1⟩
  | some d =>
    obtain ⟨rfl, -⟩ := Prod.mk.inj (Option.some.inj hdir)
    exact .inr rfl

/-- **What a finalization creates.** -/
theorem finalizeFiles_spec (h : finalizeFiles env suffix names t = some (dir, dumped, compiled))
    (henv : ∀ d ∈ env, d ∈ t) (hne : names ≠ []) (hnames : names.all isUniqueName = true) :
    GrowsBy t dir dumped ∧ GrowsBy t dir compiled ∧ dir ++ [dynObjectName names] ∈ compiled := by
  obtain ⟨⟨dir', t'⟩, hdir, heq⟩ := Option.map_eq_some_iff.mp h
  obtain ⟨rfl, rfl, rfl⟩ : dir' = dir ∧ _ = dumped ∧ _ = compiled := by simpa using heq
  have hstart : GrowsBy t dir' t' ∧ dir' ∈ t' := by
    cases env with
    | none => exact (mkdtemp_spec hdir).2
    | some d =>
      obtain ⟨rfl, rfl⟩ := Prod.mk.inj (Option.some.inj hdir)
      exact ⟨.refl _ _, henv d rfl⟩
  obtain ⟨hdirs, hmem⟩ := hstart.1.createDirectories hstart.2
  have hplain : ∀ name ∈ names, Plain (name ++ ".brig".toList) := fun name hname =>
    plain_of_isUniqueName (List.all_eq_true.mp hnames name hname)
  obtain ⟨hdumped, hmem⟩ := hdirs.dumpBRIGS hmem hplain
  exact ⟨hdumped, hdumped.create hmem (plain_dynObjectName hne hnames)⟩

/-- **What a deserialization creates.** -/
theorem deserializeFiles_spec (h : deserializeFiles suffix t = some (dir, t')) :
    Fresh t dir ∧ GrowsBy t dir t' ∧ dir ++ ["temp.elf".toList] ∈ t' := by
  obtain ⟨⟨dir', t₁⟩, hdir, heq⟩ := Option.map_eq_some_iff.mp h
  obtain ⟨rfl, rfl⟩ := Prod.mk.inj heq
  obtain ⟨hfresh, hgrows, hmem⟩ := mkdtemp_spec hdir
  obtain ⟨hdirs, hmem⟩ := hgrows.createDirectories hmem
  exact ⟨hfresh, hdirs.create hmem plain_tempElf⟩

/-! ## The invariant -/

/-- The directory of a code object was made for it and has only its files. -/
structure Owns (s : TempState) (p : ℕ) (o : TempProgram) : Prop where
  name : ∃ name, o.binaryFileName.dropLast = tmp ++ ['p' :: name]
  notInitial : o.binaryFileName.dropLast ∉ s.initial
  own : ∀ q ∈ s.files, o.binaryFileName.dropLast <+: q → q ∈ o.created
  others : ∀ p' o', s.programs p' = some o' → p' ≠ p →
    ¬ o.binaryFileName.dropLast <+: o'.binaryFileName

/-- All files are there, and the code objects whose directory was made for them own it. -/
structure FilesInv (env : Option DiskPath) (s : TempState) : Prop where
  initial : ∀ q ∈ s.initial, q ∈ s.files
  tempDir : ∀ d ∈ env, d ∈ s.initial
  binary : ∀ p o, s.programs p = some o → o.binaryFileName ∈ s.files
  owns : ∀ p o, s.programs p = some o → (env = none ∨ o.origin = .deserialized) → Owns s p o

namespace FilesInv

variable {s : TempState} {p p' : ℕ} {o : TempProgram} {name : FileName} {origin : Origin}

/-- What is created is not in the directories of the code objects. -/
theorem not_prefix (h : FilesInv env s) (hplaced : Placed env s.files dir ∨ Fresh s.files dir)
    (ho : s.programs p = some o) (howns : Owns s p o) {q : DiskPath}
    (hq : q = dir ∨ ∃ name, Plain name ∧ q = dir ++ [name]) :
    ¬ o.binaryFileName.dropLast <+: q := by
  have hmem : o.binaryFileName.dropLast ∈ s.files :=
    FileTree.mem_above (h.binary p o ho) (List.dropLast_prefix _)
  refine GrowsBy.not_prefix howns.name ?_ hq
  rcases hplaced with (⟨-, hfresh⟩ | henv) | hfresh
  · exact hfresh.not_prefix hmem howns.name
  · intro hprefix
    exact howns.notInitial (FileTree.mem_above (h.tempDir dir henv) hprefix)
  · exact hfresh.not_prefix hmem howns.name

/-- A tree that has grown, with the same code objects. -/
theorem grow (h : FilesInv env s) (hplaced : Placed env s.files dir ∨ Fresh s.files dir)
    (hgrows : GrowsBy s.files dir t') : FilesInv env { s with files := t' } where
  initial q hq := hgrows.mono q (h.initial q hq)
  tempDir := h.tempDir
  binary p o ho := hgrows.mono _ (h.binary p o ho)
  owns := by
    intro p o ho horigin
    have howns := h.owns p o ho horigin
    refine { howns with own := ?_ }
    intro q hq hprefix
    rcases hgrows.new q hq with hold | hnew
    · exact howns.own q hold hprefix
    · exact absurd hprefix (h.not_prefix hplaced ho howns hnew)

/-- A tree that has grown by the files of a new code object. -/
theorem add (h : FilesInv env s) (hplaced : Placed env s.files dir ∨ Fresh s.files dir)
    (hgrows : GrowsBy s.files dir t') (hname : Plain name) (hbinary : dir ++ [name] ∈ t')
    (hfree : s.programs p = none)
    (hfresh : env = none ∨ origin = .deserialized → Fresh s.files dir) :
    FilesInv env (s.setProgram p (some (s.newProgram origin dir name t')) t') where
  initial q hq := hgrows.mono q (h.initial q hq)
  tempDir := h.tempDir
  binary := by
    intro p' o' ho'
    rcases update_eq_some ho' with ⟨rfl, rfl⟩ | ⟨-, ho'⟩
    · exact hbinary
    · exact hgrows.mono _ (h.binary p' o' ho')
  owns := by
    intro p' o' ho' horigin
    rcases update_eq_some ho' with ⟨rfl, rfl⟩ | ⟨hne, hold⟩
    · have hdir : (s.newProgram origin dir name t').binaryFileName.dropLast = dir := by
        simp [TempState.newProgram]
      have hnew := hfresh horigin
      constructor
      case name =>
        rw [hdir]
        exact hnew.name
      case notInitial =>
        rw [hdir]
        exact fun hmem => hnew.not_mem (h.initial dir hmem)
      case own =>
        intro q hq hprefix
        rw [hdir] at hprefix
        exact Finset.mem_sdiff.mpr ⟨hq, FileTree.not_mem_below hnew.not_mem hprefix⟩
      case others =>
        intro p' o' ho' hne
        rcases update_eq_some ho' with ⟨rfl, -⟩ | ⟨-, ho'⟩
        · exact absurd rfl hne
        · rw [hdir]
          exact fun hprefix => hnew.not_mem (FileTree.mem_above (h.binary p' o' ho') hprefix)
    · have howns := h.owns p' o' hold horigin
      refine { name := howns.name, notInitial := howns.notInitial, own := ?_, others := ?_ }
      · intro q hq hprefix
        rcases hgrows.new q hq with hq | hnew
        · exact howns.own q hq hprefix
        · exact absurd hprefix (h.not_prefix hplaced hold howns hnew)
      · intro p'' o'' ho'' hne'
        rcases update_eq_some ho'' with ⟨rfl, rfl⟩ | ⟨-, ho''⟩
        · exact h.not_prefix hplaced hold howns (.inr ⟨name, hname, rfl⟩)
        · exact howns.others p'' o'' ho'' hne'

/-- The destruction of a code object that owns its directory. -/
theorem destroy (h : FilesInv env s) (howns : Owns s p o) :
    FilesInv env (s.setProgram p none (o.destructor s.files)) where
  initial := by
    intro q hq
    refine FileTree.mem_removeAll.mpr ⟨h.initial q hq, ?_⟩
    exact fun hprefix => howns.notInitial (FileTree.mem_above hq hprefix)
  tempDir := h.tempDir
  binary := by
    intro p' o' ho'
    obtain ⟨hne, ho'⟩ := update_none_eq_some ho'
    exact FileTree.mem_removeAll.mpr ⟨h.binary p' o' ho', howns.others p' o' ho' hne⟩
  owns := by
    intro p' o' ho' horigin
    obtain ⟨hne, ho'⟩ := update_none_eq_some ho'
    have howns' := h.owns p' o' ho' horigin
    refine { name := howns'.name, notInitial := howns'.notInitial, own := ?_, others := ?_ }
    · intro q hq hprefix
      exact howns'.own q (FileTree.mem_removeAll.mp hq).1 hprefix
    · intro p'' o'' ho'' hne'
      obtain ⟨-, ho''⟩ := update_none_eq_some ho''
      exact howns'.others p'' o'' ho'' hne'

end FilesInv

/-! ## The frame of a destruction -/

/-- A step that destroys a code object. -/
def TempAction.Destroys : TempAction → Prop
  | .destroy _ => True
  | .finalize _ _ .directiveMismatch => True
  | _ => False

/-- The paths that were created, in earlier steps, for the code object that a step destroys. -/
def TempAction.own (s : TempState) : TempAction → Finset DiskPath
  | .destroy program => (s.programs program).elim ∅ TempProgram.created
  | _ => ∅

/-- A step removes paths of the code object that it destroys only; the files of the others, and
those that existed before, are there. -/
structure RemovesOnlyOwn (s s' : TempState) (own : Finset DiskPath) : Prop where
  own : ∀ q ∈ s.files, q ∉ s'.files → q ∈ own
  binary : ∀ p o, s'.programs p = some o → o.binaryFileName ∈ s'.files
  initial : ∀ q ∈ s'.initial, q ∈ s'.files

/-- A step that destroys a code object whose directory is not one that was made for it. -/
def DestroysShared (env : Option DiskPath) (s : TempState) : TempAction → Prop
  | .destroy program =>
    env ≠ none ∧ ∃ o, s.programs program = some o ∧ o.origin = .finalized
  | .finalize _ names .directiveMismatch => env ≠ none ∧ names ≠ []
  | _ => False

variable {s s' : TempState} {a : TempAction} {outcome : FinalizeOutcome} {p : ℕ} {o : TempProgram}

/-- What a call of `finalizeProgram` does. -/
theorem step_finalize (hs : (tempMachine env).step (.finalize suffix names outcome) s = some s') :
    (s' = s ∧ (names = [] ∨ env = none)) ∨
      ∃ dir dumped compiled, names ≠ [] ∧ names.all isUniqueName = true ∧
        finalizeFiles env suffix names s.files = some (dir, dumped, compiled) ∧
        ((outcome = .commandFailed ∧ s' = { s with files := dumped }) ∨
          (outcome = .directiveMismatch ∧ s' = { s with files := compiled.removeAll dir }) ∨
          ∃ p, outcome = .success p ∧ s.programs p = none ∧
            s' = s.setProgram p
              (some (s.newProgram .finalized dir (dynObjectName names) compiled)) compiled) := by
  simp only [tempMachine] at hs
  split at hs
  · rename_i hempty
    exact .inl ⟨(Option.some.inj hs).symm, .inl hempty⟩
  · rename_i hne
    split at hs
    · cases hs
    · rename_i hnames
      split at hs
      · rename_i hnone
        refine .inl ⟨(Option.some.inj hs).symm, .inr ?_⟩
        cases env with
        | none => rfl
        | some d => simp [finalizeFiles, compilerTempDir] at hnone
      · rename_i dir dumped compiled hfiles
        refine .inr ⟨dir, dumped, compiled, hne, not_not.mp hnames, hfiles, ?_⟩
        cases outcome with
        | commandFailed => exact .inl ⟨rfl, (Option.some.inj hs).symm⟩
        | directiveMismatch =>
          refine .inr (.inl ⟨rfl, ?_⟩)
          simpa [TempProgram.destructor, TempState.newProgram] using (Option.some.inj hs).symm
        | success p =>
          simp only at hs
          split at hs
          · cases hs
          · rename_i hfree
            simp only [not_or, Option.not_isSome_iff_eq_none] at hfree
            exact .inr (.inr ⟨p, rfl, hfree.2, (Option.some.inj hs).symm⟩)

/-- What a call of `deserialize` does. -/
theorem step_deserialize (hs : (tempMachine env).step (.deserialize suffix p) s = some s') :
    ∃ dir t', deserializeFiles suffix s.files = some (dir, t') ∧ s.programs p = none ∧
      s' = s.setProgram p (some (s.newProgram .deserialized dir "temp.elf".toList t')) t' := by
  obtain ⟨⟨dir, t'⟩, hfiles, hrest⟩ := Option.bind_eq_some_iff.mp hs
  split at hrest
  · cases hrest
  · rename_i hfree
    simp only [not_or, Option.not_isSome_iff_eq_none] at hfree
    exact ⟨dir, t', hfiles, hfree.2, (Option.some.inj hrest).symm⟩

/-- What a destruction does. -/
theorem step_destroy (hs : (tempMachine env).step (.destroy p) s = some s') :
    (s.programs p = none ∧ s' = s) ∨
      ∃ o, s.programs p = some o ∧ s' = s.setProgram p none (o.destructor s.files) := by
  simp only [tempMachine] at hs
  split at hs
  · rename_i hnone
    exact .inl ⟨hnone, (Option.some.inj hs).symm⟩
  · rename_i o ho
    exact .inr ⟨o, ho, (Option.some.inj hs).symm⟩

/-- A directory that was made and removed again leaves the tree as it was. -/
theorem Fresh.removeAll_eq (h : Fresh t dir) (hgrows : GrowsBy t dir t') :
    t'.removeAll dir = t := by
  ext q
  rw [FileTree.mem_removeAll]
  constructor
  · rintro ⟨hq, hnot⟩
    rcases hgrows.new q hq with hq | rfl | ⟨name, -, rfl⟩
    · exact hq
    · exact absurd (List.prefix_refl _) hnot
    · exact absurd (List.prefix_append _ _) hnot
  · intro hq
    exact ⟨hgrows.mono q hq, fun hprefix => h.not_mem (FileTree.mem_above hq hprefix)⟩

/-- Nothing changes. -/
theorem FilesInv.removesOnlyOwn_refl (h : FilesInv env s) (own : Finset DiskPath) :
    RemovesOnlyOwn s s own :=
  ⟨fun _ hq hnot => absurd hq hnot, h.binary, h.initial⟩

/-- **One step:** as long as no shared directory is removed, the invariant is kept, and a
destruction removes only what was created for the code object. -/
theorem FilesInv.step (h : FilesInv env s) (hsafe : ¬ DestroysShared env s a)
    (hs : (tempMachine env).step a s = some s') :
    FilesInv env s' ∧ (a.Destroys → RemovesOnlyOwn s s' (a.own s)) := by
  cases a with
  | finalize suffix names outcome =>
    rcases step_finalize hs with ⟨rfl, -⟩ | ⟨dir, dumped, compiled, hne, hnames, hfiles, hcases⟩
    · exact ⟨h, fun _ => h.removesOnlyOwn_refl _⟩
    · have hplaced := placed_of_finalizeFiles hfiles
      obtain ⟨hdumped, hcompiled, hbinary⟩ := finalizeFiles_spec hfiles
        (fun d hd => h.initial d (h.tempDir d hd)) hne hnames
      rcases hcases with ⟨rfl, rfl⟩ | ⟨rfl, rfl⟩ | ⟨p, rfl, hfree, rfl⟩
      · exact ⟨h.grow (.inl hplaced) hdumped, False.elim⟩
      · -- the directory is a new one, so that the removal of the code object leaves nothing
        rcases hplaced with ⟨-, hfresh⟩ | henv
        · rw [hfresh.removeAll_eq hcompiled]
          exact ⟨h, fun _ => h.removesOnlyOwn_refl _⟩
        · exact absurd ⟨by simp [henv], hne⟩ hsafe
      · refine ⟨h.add (.inl hplaced) hcompiled (plain_dynObjectName hne hnames) hbinary hfree ?_,
          False.elim⟩
        rintro (henv | horigin)
        · rcases hplaced with ⟨-, hfresh⟩ | henv'
          · exact hfresh
          · rw [henv] at henv'
            cases henv'
        · cases horigin
  | deserialize suffix p =>
    obtain ⟨dir, t', hfiles, hfree, rfl⟩ := step_deserialize hs
    obtain ⟨hfresh, hgrows, hbinary⟩ := deserializeFiles_spec hfiles
    exact ⟨h.add (.inr hfresh) hgrows plain_tempElf hbinary hfree fun _ => hfresh, False.elim⟩
  | destroy p =>
    rcases step_destroy hs with ⟨-, rfl⟩ | ⟨o, ho, rfl⟩
    · exact ⟨h, fun _ => h.removesOnlyOwn_refl _⟩
    · have howns : Owns s p o := by
        apply h.owns p o ho
        by_contra hnot
        rw [not_or] at hnot
        cases horigin : o.origin with
        | finalized => exact hsafe ⟨hnot.1, o, ho, horigin⟩
        | deserialized => exact hnot.2 horigin
      have hinv := h.destroy howns
      refine ⟨hinv, fun _ => ⟨?_, hinv.binary, hinv.initial⟩⟩
      intro q hq hnot
      simp only [TempAction.own, ho, Option.elim_some]
      apply howns.own q hq
      by_contra hprefix
      exact hnot (FileTree.mem_removeAll.mpr ⟨hq, hprefix⟩)

/-! ## Shared directories -/

/-- Where a finalized code object is, whatever has been destroyed before. -/
structure SharedInv (env : Option DiskPath) (s : TempState) : Prop where
  tempDir : ∀ d ∈ env, d ∈ s.initial
  binary : ∀ p o, s.programs p = some o → o.origin = .finalized → ∀ d ∈ env,
    o.binaryFileName.dropLast = d

theorem SharedInv.step (h : SharedInv env s) (hs : (tempMachine env).step a s = some s') :
    SharedInv env s' := by
  cases a with
  | finalize suffix names outcome =>
    rcases step_finalize hs with ⟨rfl, -⟩ | ⟨dir, dumped, compiled, -, -, hfiles, hcases⟩
    · exact h
    · rcases hcases with ⟨-, rfl⟩ | ⟨-, rfl⟩ | ⟨p, -, -, rfl⟩
      · exact ⟨h.tempDir, h.binary⟩
      · exact ⟨h.tempDir, h.binary⟩
      · refine ⟨h.tempDir, ?_⟩
        intro p' o' ho' horigin d hd
        rcases update_eq_some ho' with ⟨rfl, rfl⟩ | ⟨-, ho'⟩
        · rcases placed_of_finalizeFiles hfiles with ⟨rfl, -⟩ | henv
          · cases hd
          · obtain rfl := Option.some.inj (henv.symm.trans hd)
            simp [TempState.newProgram]
        · exact h.binary p' o' ho' horigin d hd
  | deserialize suffix p =>
    obtain ⟨dir, t', -, -, rfl⟩ := step_deserialize hs
    refine ⟨h.tempDir, ?_⟩
    intro p' o' ho' horigin
    rcases update_eq_some ho' with ⟨rfl, rfl⟩ | ⟨-, ho'⟩
    · cases horigin
    · exact h.binary p' o' ho' horigin
  | destroy p =>
    rcases step_destroy hs with ⟨-, rfl⟩ | ⟨o, -, rfl⟩
    · exact h
    · refine ⟨h.tempDir, ?_⟩
      intro p' o' ho'
      exact h.binary p' o' (update_none_eq_some ho').2

/-- **A shared directory is removed,** although it existed before. -/
theorem SharedInv.not_removesOnlyOwn (h : SharedInv env s) (hshared : DestroysShared env s a)
    (hs : (tempMachine env).step a s = some s') :
    a.Destroys ∧ ¬ RemovesOnlyOwn s s' (a.own s) := by
  cases a with
  | finalize suffix names outcome =>
    cases outcome with
    | directiveMismatch =>
      obtain ⟨henv, hne⟩ := hshared
      refine ⟨trivial, ?_⟩
      intro hframe
      rcases step_finalize hs with ⟨-, hor⟩ | ⟨dir, dumped, compiled, -, -, hfiles, hcases⟩
      · rcases hor with hempty | hnone
        · exact hne hempty
        · exact henv hnone
      · rcases hcases with ⟨hout, -⟩ | ⟨-, rfl⟩ | ⟨p, hout, -⟩
        · cases hout
        · rcases placed_of_finalizeFiles hfiles with ⟨hnone, -⟩ | hdir
          · exact henv hnone
          · have hmem := hframe.initial dir (h.tempDir dir hdir)
            exact (FileTree.mem_removeAll.mp hmem).2 (List.prefix_refl _)
        · cases hout
    | _ => exact hshared.elim
  | deserialize suffix p => exact hshared.elim
  | destroy p =>
    obtain ⟨henv, o, ho, horigin⟩ := hshared
    obtain ⟨d, hd⟩ := Option.ne_none_iff_exists'.mp henv
    refine ⟨trivial, ?_⟩
    intro hframe
    rcases step_destroy hs with ⟨hnone, -⟩ | ⟨o', ho', rfl⟩
    · rw [hnone] at ho
      cases ho
    · obtain rfl := Option.some.inj (ho.symm.trans ho')
      have hmem := hframe.initial d (h.tempDir d hd)
      rw [TempState.setProgram, TempProgram.destructor, h.binary p o ho horigin d hd] at hmem
      exact (FileTree.mem_removeAll.mp hmem).2 (List.prefix_refl _)

/-! ## Runs -/

/-- A step that destroys a code object removes only what was created for it, and leaves the files
of the others and those that existed before. -/
def Framed (env : Option DiskPath) (s : TempState) (a : TempAction) : Prop :=
  a.Destroys → ∀ s', (tempMachine env).step a s = some s' → RemovesOnlyOwn s s' (a.own s)

theorem filesInv_of_reachable
    (h : (tempMachine env).Reachable (fun s a => ¬ DestroysShared env s a) s) :
    FilesInv env s := by
  refine h.induction ?_ ?_
  · rintro s ⟨hprograms, hinitial, henv⟩
    constructor
    case initial => simp [hinitial]
    case tempDir => simpa [hinitial] using henv
    case binary => simp [hprograms]
    case owns => simp [hprograms]
  · intro s a s' _ hsafe hs ih
    exact (ih.step hsafe hs).1

theorem sharedInv_of_reachable (h : (tempMachine env).Reachable Machine.always s) :
    SharedInv env s := by
  refine h.induction ?_ ?_
  · rintro s ⟨hprograms, hinitial, henv⟩
    exact ⟨by simpa [hinitial] using henv, by simp [hprograms]⟩
  · intro s a s' _ _ hs ih
    exact ih.step hs

/-- **Which destructions remove only what was created for the code object:** in every run, all do
so if and only if none removes the directory of `PHSA_COMPILER_TEMP_DIR`. -/
theorem destruction_frame_iff {tr : List (TempState × TempAction)}
    (hrun : (tempMachine env).Run tr s) :
    (∀ q ∈ tr, Framed env q.1 q.2) ↔ ∀ q ∈ tr, ¬ DestroysShared env q.1 q.2 := by
  constructor
  · intro hframed q hq hshared
    obtain ⟨s', -, hs'⟩ := hrun.exists_next hq
    have hinv := sharedInv_of_reachable (hrun.reachable_of_mem (fun _ _ => trivial) hq)
    obtain ⟨hdestroys, hnot⟩ := hinv.not_removesOnlyOwn hshared hs'
    exact hnot (hframed q hq hdestroys s' hs')
  · intro hsafe q hq hdestroys s' hs'
    have hinv := filesInv_of_reachable (hrun.reachable_of_mem hsafe hq)
    exact (hinv.step (hsafe q hq) hs').2 hdestroys

/-- Without `PHSA_COMPILER_TEMP_DIR` there is no shared directory. -/
theorem not_destroysShared_none : ¬ DestroysShared none s a := by
  cases a with
  | finalize suffix names outcome => cases outcome <;> simp [DestroysShared]
  | deserialize suffix p => exact id
  | destroy p => simp [DestroysShared]

/-- A tree with the directories of one path. -/
def treeOf (path : DiskPath) : FileTree FileName :=
  FileTree.createDirectories ⟨∅, by simp⟩ path

/-- Two code objects in directories of their own. -/
theorem destruction_frame_own : ∃ tr s, (tempMachine none).Run tr s ∧ tr.length = 3 ∧
    ∀ q ∈ tr, Framed none q.1 q.2 := by
  obtain ⟨tr, s, hrun, hp⟩ := Machine.exists_run_of_trace (tempMachine none)
    [.finalize "aB3x9Q".toList ["0123456789ab".toList] (.success 1), .deserialize "Zz81kk".toList 2,
      .destroy 1] (fun tr _ => tr.length = 3)
    (s := { files := treeOf tmp, programs := fun _ => none, initial := treeOf tmp })
    ⟨rfl, rfl, by simp⟩ (by decide +kernel)
  exact ⟨tr, s, hrun, of_decide_eq_true hp,
    (destruction_frame_iff hrun).mpr fun _ _ => not_destroysShared_none⟩

/-- Two code objects are finalized in one directory; with the first one, the file of the second
one is removed, and a file that existed before. -/
theorem destruction_removes_shared : ∃ tr s, (tempMachine (some ["work".toList])).Run tr s ∧
    (∃ q ∈ tr, ¬ Framed (some ["work".toList]) q.1 q.2) ∧
    ∃ o, s.programs 2 = some o ∧ o.binaryFileName ∉ s.files ∧
      ["work".toList, "notes".toList] ∈ s.initial ∧
      ["work".toList, "notes".toList] ∉ s.files := by
  obtain ⟨tr, s, hrun, hp⟩ := Machine.exists_run_of_trace (tempMachine (some ["work".toList]))
    [.finalize [] ["0123456789ab".toList] (.success 1),
      .finalize [] ["ba9876543210".toList] (.success 2), .destroy 1]
    (fun tr s => tr.any (fun q => q.2 = .destroy 1 ∧
        (q.1.programs 1).any fun o => o.origin = .finalized) ∧
      (s.programs 2).any (fun o => o.binaryFileName ∉ s.files) ∧
      ["work".toList, "notes".toList] ∈ s.initial ∧ ["work".toList, "notes".toList] ∉ s.files)
    (s := { files := treeOf ["work".toList, "notes".toList], programs := fun _ => none
            initial := treeOf ["work".toList, "notes".toList] })
    ⟨rfl, rfl, by decide +kernel⟩ (by decide +kernel)
  obtain ⟨hdestroyed, hbinary, hinitial, hfiles⟩ := of_decide_eq_true hp
  obtain ⟨o, ho, hbinary⟩ := (Option.any_eq_true _ _).mp hbinary
  refine ⟨tr, s, hrun, ?_, o, ho, of_decide_eq_true hbinary, hinitial, hfiles⟩
  obtain ⟨⟨t, act⟩, hq, hact⟩ := List.any_eq_true.mp hdestroyed
  obtain ⟨rfl, ho⟩ := of_decide_eq_true hact
  obtain ⟨o, ho, horigin⟩ := (Option.any_eq_true _ _).mp ho
  have hshared : DestroysShared (some ["work".toList]) t (.destroy 1) :=
    ⟨Option.some_ne_none _, o, ho, of_decide_eq_true horigin⟩
  refine ⟨_, hq, ?_⟩
  intro hframed
  obtain ⟨s', -, hs'⟩ := hrun.exists_next hq
  have hinv := sharedInv_of_reachable (hrun.reachable_of_mem (fun _ _ => trivial) hq)
  exact (hinv.not_removesOnlyOwn hshared hs').2 (hframed trivial s' hs')

end PhsaRuntime
