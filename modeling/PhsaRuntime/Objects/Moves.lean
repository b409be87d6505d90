import PhsaRuntime.Executable.Registration
import PhsaRuntime.Objects.Lifetimes

/-!
# What calls do to code objects, symbols and executables

Only the finalizer and a deserialization make code objects, only a load makes symbols, and only the
destruction of a code object ends them. A load opens the library of the code object, which stays
open from then on.

## Main results

* `opened_loadCodeObject` — what a load does to the program.
* `ObjectState.symbolMove` — what a call does to code objects and symbols.
* `ObjectState.symbols_subset_invoke` — an executable does not lose symbols.
-/

namespace PhsaRuntime

/-! ## What a load does to the program -/

/-- What a load leaves of a program. The library is opened where it is needed, in any case when a
symbol is registered. -/
structure Opened (dl : DynamicLoader) (p p' : CodeObject) : Prop where
  elfBlob : p'.elfBlob = p.elfBlob
  funcDescriptors : p'.funcDescriptors = p.funcDescriptors
  binaryFileName : p'.binaryFileName = p.binaryFileName
  dlhandle : p'.dlhandle = p.library dl ∨ p'.dlhandle = p.dlhandle ∧ p'.symbols = p.symbols

section Opened

variable {dl : DynamicLoader} {p p' p'' : CodeObject} {name : SymbolName} {addr : ℕ}
  {pointers pointers' : ℕ → ℕ} {l l' : Loading}

/-- A library that is open is not opened again. -/
theorem CodeObject.library_of_isSome {library : Library} (h : p.dlhandle = some library) :
    p.library dl = some library := by
  simp [CodeObject.library, h]

theorem Opened.library (h : Opened dl p p') : p'.library dl = p.library dl := by
  rcases h.dlhandle with hopened | ⟨hsame, -⟩
  · cases hlibrary : p.library dl with
    | none =>
      have hnone : p.dlhandle = none := by
        by_contra hsome
        obtain ⟨library, hlib⟩ := Option.ne_none_iff_exists'.mp hsome
        rw [CodeObject.library_of_isSome hlib] at hlibrary
        cases hlibrary
      rw [hlibrary] at hopened
      simp only [CodeObject.library, hnone] at hlibrary
      simpa [CodeObject.library, hopened, h.binaryFileName] using hlibrary
    | some library =>
      rw [hlibrary] at hopened
      exact CodeObject.library_of_isSome hopened
  · rw [CodeObject.library, CodeObject.library, hsame, h.binaryFileName]

theorem Opened.refl : Opened dl p p := ⟨rfl, rfl, rfl, .inr ⟨rfl, rfl⟩⟩

theorem Opened.trans (h : Opened dl p p') (h' : Opened dl p' p'') : Opened dl p p'' where
  elfBlob := h'.elfBlob.trans h.elfBlob
  funcDescriptors := h'.funcDescriptors.trans h.funcDescriptors
  binaryFileName := h'.binaryFileName.trans h.binaryFileName
  dlhandle := by
    rcases h'.dlhandle with hopened | ⟨hsame, hsymbols⟩
    · exact .inl (hopened.trans h.library)
    · rcases h.dlhandle with hopened | ⟨hsame', hsymbols'⟩
      · exact .inl (hsame.trans hopened)
      · exact .inr ⟨hsame.trans hsame', hsymbols.trans hsymbols'⟩

/-- What a library had under a name, it has afterwards. -/
theorem Opened.keeps {library : Library} (h : Opened dl p p') (hp : p.dlhandle = some library) :
    p'.dlhandle = some library := by
  rcases h.dlhandle with hopened | ⟨hsame, -⟩
  · exact hopened.trans (CodeObject.library_of_isSome hp)
  · exact hsame.trans hp

theorem opened_opened : Opened dl p (p.opened dl) := ⟨rfl, rfl, rfl, .inl rfl⟩

/-- The library has been opened when a symbol is added. -/
theorem opened_addSymbol (x : ℕ) : Opened dl p ((p.opened dl).addSymbol x) :=
  ⟨rfl, rfl, rfl, .inl rfl⟩

theorem opened_setVersion (version : ℕ) : Opened dl p (p.setVersion version) :=
  ⟨rfl, rfl, rfl, .inr ⟨rfl, rfl⟩⟩

theorem CodeObject.defineGlobalSymbolAddress_fst
    (h : p.defineGlobalSymbolAddress dl name addr pointers = .ok (p', pointers')) :
    p' = p.opened dl := by
  simp only [CodeObject.defineGlobalSymbolAddress, CodeObject.openLibrary_eq, Except.bind] at h
  split at h
  · cases h
  · split at h
    · cases h
      rfl
    · split at h <;> cases h
      rfl

theorem CodeObject.symbolAddress_fst (h : p.symbolAddress dl name = .ok (p', addr)) :
    p' = p.opened dl := by
  simp only [CodeObject.symbolAddress, CodeObject.openLibrary_eq, Except.bind] at h
  split at h
  · cases h
    rfl
  · split at h
    · cases h
    · split at h <;> cases h
      rfl

namespace Loading

theorem opened_defineSymbols {defs : List (Sigma fun _ : SymbolName => ℕ)}
    (h : l.defineSymbols dl defs = .ok l') : Opened dl l.program l'.program := by
  induction defs generalizing l with
  | nil =>
    cases h
    exact .refl
  | cons s defs ih =>
    rw [defineSymbols] at h
    cases hdefine : l.program.defineGlobalSymbolAddress dl s.1 s.2 l.pointers with
    | error fault =>
      rw [hdefine] at h
      cases h
    | ok r =>
      rw [hdefine] at h
      have hopened : Opened dl l.program r.1 := by
        rw [CodeObject.defineGlobalSymbolAddress_fst hdefine]
        exact opened_opened
      exact hopened.trans (ih h)

theorem opened_loadSymbols {env : LoadEnv} {table : List (Option ElfSymbol)}
    (h : l.loadSymbols env table = .ok l') : Opened env.dl l.program l'.program := by
  induction table generalizing l with
  | nil =>
    cases h
    exact .refl
  | cons entry table ih =>
    rcases entry with _ | ⟨_ | name, info⟩
    · cases h
    · cases h
    · rw [loadSymbols] at h
      cases hx : exportOf l.program.toFinalizedProgram name info with
      | none =>
        rw [hx] at h
        exact ih h
      | some x =>
        rw [hx] at h
        cases haddress : l.program.symbolAddress env.dl name with
        | error fault =>
          rw [haddress] at h
          cases h
        | ok r =>
          rw [haddress] at h
          have hopened : Opened env.dl l.program
              ((l.program.opened env.dl).addSymbol (env.allocator.new l.heap.keys)) :=
            opened_addSymbol _
          rw [← CodeObject.symbolAddress_fst haddress] at hopened
          exact hopened.trans (ih h)

end Loading

/-- **A load opens the library of the program at most.** -/
theorem opened_loadCodeObject {elf : ElfReader} {env : LoadEnv}
    (h : loadCodeObject elf env l = .ok l') : Opened env.dl l.program l'.program := by
  rw [loadCodeObject] at h
  cases hdefine : l.defineSymbols env.dl (env.order.entries l.executable.definedSymbols) with
  | error fault =>
    rw [hdefine] at h
    cases h
  | ok t =>
    rw [hdefine] at h
    have hopened := Loading.opened_defineSymbols hdefine
    simp only [Except.bind] at h
    split at h
    · cases h
    · rename_i image _
      split at h
      · cases h
      · split at h
        · cases h
        · split at h
          · cases h
          · exact (hopened.trans (opened_setVersion image.version)).trans
              (Loading.opened_loadSymbols h)

end Opened

/-! ## What a call does -/

variable {elf : ElfReader} {s s' : ObjectState} {call : ObjectCall} {status : HsaStatus}

/-- The calls that count the references to the runtime. -/
def ObjectCall.counts : ObjectCall → Bool
  | .init _ | .shutDown => true
  | _ => false

/-- What a call does to the code objects and the symbols. -/
inductive SymbolMove (elf : ElfReader) (s : ObjectState) : ObjectCall → ObjectState → Prop
  | same (call : ObjectCall) (s' : ObjectState) (hcode : s'.codeObjects = s.codeObjects)
      (hheap : s'.heap = s.heap)
      (hcounter : call.counts = false → s'.referenceCounter = s.referenceCounter) :
      SymbolMove elf s call s'
  | made (call : ObjectCall) (s' : ObjectState) (x : ℕ) (p : CodeObject)
      (hfree : s.codeObjects x = none) (hsymbols : p.symbols = [])
      (hcode : s'.codeObjects = Function.update s.codeObjects x (some p))
      (hheap : s'.heap = s.heap) (hcounter : s'.referenceCounter = s.referenceCounter) :
      SymbolMove elf s call s'
  | loaded (env : LoadEnv) (executable agent codeObject : ℕ) (s' : ObjectState) (e : Executable)
      (p p' : CodeObject) (haccepts : Accepts s.toExecutables executable agent codeObject e p)
      (hopened : Opened env.dl p p')
      (hsymbols : p'.symbols = p.symbols ++
        (loadedSymbols elf env (s.toExecutables.loading e p)).map Prod.fst)
      (hcode : s'.codeObjects = Function.update s.codeObjects codeObject (some p'))
      (hheap : s'.heap =
        insertAll s.heap (loadedSymbols elf env (s.toExecutables.loading e p)))
      (hcounter : s'.referenceCounter = s.referenceCounter) :
      SymbolMove elf s (.executable (.load env executable agent codeObject)) s'
  | destroyed (codeObject : ℕ) (s' : ObjectState) (p : CodeObject)
      (hp : s.codeObjects codeObject = some p)
      (hcode : s'.codeObjects = Function.update s.codeObjects codeObject none)
      (hheap : s'.heap = p.symbols.foldl (fun heap symbol => heap.erase symbol) s.heap)
      (hcounter : s'.referenceCounter = s.referenceCounter) :
      SymbolMove elf s (.codeObjectDestroy codeObject) s'
  | ended (s' : ObjectState) (hlast : s.referenceCounter = 1)
      (hcode : s'.codeObjects = fun _ => none) (hheap : s'.heap = ∅) :
      SymbolMove elf s .shutDown s'

namespace ObjectState

/-- The call makes a code object, which has no symbols, or does nothing. -/
def Makes (s s' : ObjectState) : Prop :=
  s' = s ∨ ∃ x p, s.codeObjects x = none ∧ p.symbols = [] ∧
    s' = { s with codeObjects := Function.update s.codeObjects x (some p) }

theorem makes_newCodeObject {newAddress : ℕ} {p : CodeObject} (hsymbols : p.symbols = [])
    (hnew : s.newCodeObject newAddress p = some s') : s.Makes s' := by
  simp only [newCodeObject] at hnew
  split at hnew
  · cases hnew
  · rename_i hfree
    rw [not_or, Option.not_isSome_iff_eq_none] at hfree
    exact .inr ⟨newAddress, p, hfree.2, hsymbols, (Option.some.inj hnew).symm⟩

/-- The finalizer makes a code object without symbols. -/
theorem symbols_of_finalizeProgram {env : FinalizerEnv} {program isa : ℕ} {cd : ControlDirectives}
    {p : CodeObject} (hfinalize : s.finalizeProgram env program isa cd = some (status, some p)) :
    p.symbols = [] := by
  simp only [finalizeProgram] at hfinalize
  split at hfinalize
  · cases hfinalize
  · split at hfinalize
    · cases hfinalize
    · split at hfinalize
      · cases hfinalize
      · split at hfinalize
        · cases hfinalize
        · split at hfinalize
          · cases hfinalize
          · split at hfinalize <;> cases hfinalize
            rfl

theorem makes_finalize {env : FinalizerEnv} {program isa codeObject newAddress : ℕ}
    {cd : ControlDirectives} (hcall : s.hsaExtProgramFinalize env program isa cd codeObject
      newAddress = some (status, s')) : s.Makes s' := by
  simp only [hsaExtProgramFinalize] at hcall
  split_ifs at hcall
  · cases hcall
    exact .inl rfl
  · cases hcall
    exact .inl rfl
  · cases hcall
    exact .inl rfl
  · obtain ⟨⟨status', o⟩, hfinalize, hcall⟩ := Option.bind_eq_some_iff.mp hcall
    cases o with
    | none =>
      cases hcall
      exact .inl rfl
    | some p =>
      obtain ⟨t, hnew, heq⟩ := Option.map_eq_some_iff.mp hcall
      cases heq
      exact makes_newCodeObject (symbols_of_finalizeProgram hfinalize) hnew

theorem makes_deserialize {host : Host} {m : Cells Byte}
    {serializedCodeObject serializedCodeObjectSize codeObject : ℕ}
    (hcall : s.codeObjectDeserialize host m serializedCodeObject serializedCodeObjectSize
      codeObject = some (status, s')) : s.Makes s' := by
  simp only [codeObjectDeserialize] at hcall
  split_ifs at hcall
  · cases hcall
    exact .inl rfl
  · cases hcall
    exact .inl rfl
  · split at hcall
    · cases hcall
    · obtain ⟨t, hnew, heq⟩ := Option.map_eq_some_iff.mp hcall
      cases heq
      exact makes_newCodeObject rfl hnew

theorem Makes.symbolMove (h : s.Makes s') : SymbolMove elf s call s' := by
  rcases h with rfl | ⟨x, p, hfree, hsymbols, rfl⟩
  · exact .same call s' rfl rfl fun _ => rfl
  · exact .made call _ x p hfree hsymbols rfl rfl rfl

theorem Makes.executables (h : s.Makes s') : s'.executables = s.executables := by
  rcases h with rfl | ⟨x, p, -, -, rfl⟩ <;> rfl

theorem symbolMove_programCreate {machineModel profile roundingMode x : ℕ} {programIsNull : Bool}
    (hcall : s.programCreate machineModel profile roundingMode programIsNull x =
      some (status, s')) : SymbolMove elf s call s' := by
  simp only [programCreate] at hcall
  split_ifs at hcall <;>
  · cases hcall
    exact .same call _ rfl rfl fun _ => rfl

theorem symbolMove_init {agents : ℕ → Bool} :
    SymbolMove elf s (.init agents) (s.hsaInit agents).2 := by
  rw [hsaInit]
  split <;> exact .same _ _ rfl rfl (by simp [ObjectCall.counts])

theorem symbolMove_shutDown : SymbolMove elf s .shutDown s.hsaShutDown.2 := by
  rw [hsaShutDown]
  by_cases hzero : s.referenceCounter = 0
  · rw [if_pos hzero]
    exact .same _ s rfl rfl fun _ => rfl
  · rw [if_neg hzero]
    by_cases hlast : s.referenceCounter = 1
    · exact .ended _ hlast (by simp [hlast, deleteRuntime]) (by simp [hlast, deleteRuntime])
    · exact .same _ _ (by simp [hlast]) (by simp [hlast]) (by simp [ObjectCall.counts])

theorem symbolMove_destroy {codeObject : ℕ} :
    SymbolMove elf s (.codeObjectDestroy codeObject) (s.hsaCodeObjectDestroy codeObject).2 := by
  rw [hsaCodeObjectDestroy]
  cases hp : s.codeObjects codeObject with
  | none => exact .same _ s rfl rfl fun _ => rfl
  | some p => exact .destroyed codeObject _ p hp rfl rfl rfl

/-- A load that is accepted opens the library of the program at most. -/
theorem symbolMove_load {env : LoadEnv} {executable agent codeObject : ℕ} {t : ExecutableState}
    (hcall : s.toExecutables.hsaExecutableLoadCodeObject elf env executable agent codeObject =
      .ok (status, t)) :
    SymbolMove elf s (.executable (.load env executable agent codeObject))
      (s.setExecutables t) := by
  by_cases haccepts : ∃ e p, Accepts s.toExecutables executable agent codeObject e p
  · obtain ⟨e, p, haccepts⟩ := haccepts
    obtain ⟨-, -, p', hp', heq⟩ := load_accepted haccepts hcall
    rw [load_of_accepts haccepts] at hcall
    cases hload : loadCodeObject elf env (s.toExecutables.loading e p) with
    | error fault =>
      rw [hload] at hcall
      cases hcall
    | ok l =>
      have hopened : Opened env.dl p l.program := opened_loadCodeObject hload
      rw [hload] at hcall
      cases hcall
      -- both describe what is registered for the handle
      have hprogram : l.program =
          (afterLoad elf env (s.toExecutables.loading e p) p').program := by
        have hupdate := congrFun (congrArg ExecutableState.codeObjects heq) codeObject
        simpa [ExecutableState.loaded] using hupdate
      rw [hprogram] at hopened
      rw [heq]
      refine .loaded env executable agent codeObject _ e p _ haccepts hopened ?_ rfl rfl rfl
      rw [← hp']
      rfl
  · simp only [not_exists] at haccepts
    obtain ⟨status', -, hrefused⟩ := load_of_not_accepts elf env haccepts
    rw [hrefused] at hcall
    cases hcall
    exact .same _ _ rfl rfl fun _ => rfl

/-- The other calls on executables do nothing to code objects and symbols. -/
theorem symbolMove_effect {a : ExecutableAction} {t : ExecutableState}
    (heffect : Effect elf s.toExecutables a status t) (hload : ∀ env executable agent codeObject,
      a ≠ .load env executable agent codeObject)
    (hnew : ∀ codeObject p, a ≠ .newCodeObject codeObject p) :
    SymbolMove elf s (.executable a) (s.setExecutables t) := by
  cases heffect with
  | unchanged | created | destroyed | frozen | defined => exact .same _ _ rfl rfl fun _ => rfl
  | madeCodeObject => exact absurd rfl (hnew _ _)
  | loaded => exact absurd rfl (hload _ _ _ _)

/-- **What a call does to code objects and symbols.** -/
theorem symbolMove (hcall : s.invoke elf call = some (status, s')) : SymbolMove elf s call s' := by
  cases call with
  | init agents =>
    obtain rfl : (s.hsaInit agents).2 = s' := congrArg Prod.snd (Option.some.inj hcall)
    exact symbolMove_init
  | shutDown =>
    obtain rfl : s.hsaShutDown.2 = s' := congrArg Prod.snd (Option.some.inj hcall)
    exact symbolMove_shutDown
  | programCreate => exact symbolMove_programCreate hcall
  | programDestroy =>
    cases hcall
    exact .same _ _ rfl rfl fun _ => rfl
  | programAddModule | programIterateModules | codeObjectSerialize | codeObjectGetInfo =>
    obtain ⟨r, -, heq⟩ := Option.map_eq_some_iff.mp hcall
    cases heq
    exact .same _ _ rfl rfl fun _ => rfl
  | programGetInfo =>
    cases hcall
    exact .same _ _ rfl rfl fun _ => rfl
  | programFinalize => exact (makes_finalize hcall).symbolMove
  | codeObjectDeserialize => exact (makes_deserialize (by rwa [invoke] at hcall)).symbolMove
  | codeObjectDestroy codeObject =>
    obtain rfl : (s.hsaCodeObjectDestroy codeObject).2 = s' :=
      congrArg Prod.snd (Option.some.inj hcall)
    exact symbolMove_destroy
  | executable a =>
    cases a with
    | newCodeObject => cases hcall
    | query q =>
      simp only [invoke] at hcall
      split at hcall
      · cases hcall
      · obtain ⟨r, -, heq⟩ := Option.map_eq_some_iff.mp hcall
        cases heq
        exact .same _ _ rfl rfl fun _ => rfl
    | load env executable agent codeObject =>
      rw [invoke] at hcall
      · obtain ⟨⟨status', t⟩, hexec, heq⟩ := Option.map_eq_some_iff.mp hcall
        cases heq
        exact symbolMove_load (executableCall_load hexec)
      · simp
      · simp
    | create | destroy | freeze | globalVariableDefine | agentGlobalVariableDefine
    | readonlyVariableDefine =>
      rw [invoke] at hcall
      · obtain ⟨⟨status', t⟩, hexec, heq⟩ := Option.map_eq_some_iff.mp hcall
        cases heq
        exact symbolMove_effect (executableCall_effect hexec) (by simp) (by simp)
      · simp
      · simp

end ObjectState

/-- Only `hsa_init` and `hsa_shut_down` count. -/
theorem SymbolMove.referenceCounter (h : SymbolMove elf s call s') (hcounts : call.counts = false) :
    s'.referenceCounter = s.referenceCounter := by
  cases h with
  | same _ _ _ _ hcounter => exact hcounter hcounts
  | made _ _ _ _ _ _ _ _ hcounter => exact hcounter
  | loaded _ _ _ _ _ _ _ _ _ _ _ _ _ hcounter => exact hcounter
  | destroyed _ _ _ _ _ _ hcounter => exact hcounter
  | ended => cases hcounts

/-! ## The executables -/

section Executables

variable {executable x : ℕ} {e : Executable}

theorem exists_subset_setExecutable {t : ExecutableState} {e' : Executable}
    (hexec : t.executables executable = some e) (h : executable = x → e.symbols ⊆ e'.symbols) :
    ∃ e'', (t.setExecutable x (some e')).executables executable = some e'' ∧
      e.symbols ⊆ e''.symbols := by
  by_cases hx : executable = x
  · subst hx
    exact ⟨e', executables_setExecutable_self, h rfl⟩
  · exact ⟨e, by rw [executables_setExecutable_of_ne hx, hexec], List.Subset.refl _⟩

theorem Effect.symbols_subset {t t' : ExecutableState} {a : ExecutableAction}
    (h : Effect elf t a status t') (hexec : t.executables executable = some e)
    (hnot : a ≠ .destroy executable) :
    ∃ e', t'.executables executable = some e' ∧ e.symbols ⊆ e'.symbols := by
  have hsame : ∀ e', t.executables executable = some e' → e = e' := by simp [hexec]
  cases h with
  | unchanged | madeCodeObject => exact ⟨e, hexec, List.Subset.refl _⟩
  | created profile frozen x hfree =>
    refine exists_subset_setExecutable hexec ?_
    rintro rfl
    rw [hfree] at hexec
    cases hexec
  | destroyed x =>
    have hne : executable ≠ x := by
      rintro rfl
      exact hnot rfl
    exact ⟨e, by rw [executables_setExecutable_of_ne hne, hexec], List.Subset.refl _⟩
  | loaded haccepts =>
    refine exists_subset_setExecutable hexec ?_
    rintro rfl
    obtain rfl := hsame _ haccepts.executable
    exact List.subset_append_left _ _
  | frozen hfound =>
    refine exists_subset_setExecutable hexec ?_
    rintro rfl
    obtain rfl := hsame _ hfound
    exact List.Subset.refl _
  | defined _ hfound =>
    refine exists_subset_setExecutable hexec ?_
    rintro rfl
    obtain rfl := hsame _ hfound
    exact List.Subset.refl _

namespace ObjectState

/-- The calls that are not about executables leave them alone. -/
theorem executables_invoke (hcall : s.invoke elf call = some (status, s'))
    (hnot : ∀ a, call ≠ .executable a) : s'.executables = s.executables := by
  cases call with
  | init agents =>
    obtain rfl : (s.hsaInit agents).2 = s' := congrArg Prod.snd (Option.some.inj hcall)
    rw [hsaInit]
    split <;> rfl
  | shutDown =>
    obtain rfl : s.hsaShutDown.2 = s' := congrArg Prod.snd (Option.some.inj hcall)
    rw [hsaShutDown]
    by_cases hzero : s.referenceCounter = 0
    · rw [if_pos hzero]
    · by_cases hlast : s.referenceCounter = 1 <;> simp [hzero, hlast, deleteRuntime]
  | programCreate =>
    simp only [invoke, programCreate] at hcall
    split_ifs at hcall <;>
    · cases hcall
      rfl
  | programDestroy | programGetInfo =>
    cases hcall
    rfl
  | programAddModule | programIterateModules | codeObjectSerialize | codeObjectGetInfo =>
    obtain ⟨r, -, heq⟩ := Option.map_eq_some_iff.mp hcall
    cases heq
    rfl
  | programFinalize => exact (makes_finalize hcall).executables
  | codeObjectDeserialize => exact (makes_deserialize (by rwa [invoke] at hcall)).executables
  | codeObjectDestroy codeObject =>
    obtain rfl : (s.hsaCodeObjectDestroy codeObject).2 = s' :=
      congrArg Prod.snd (Option.some.inj hcall)
    rw [hsaCodeObjectDestroy]
    split <;> rfl
  | executable a => exact absurd rfl (hnot a)

/-- **An executable lists its symbols** as long as it lives. -/
theorem symbols_subset_invoke (hcall : s.invoke elf call = some (status, s'))
    (hexec : s.executables executable = some e)
    (hnot : call ≠ .executable (.destroy executable)) :
    ∃ e', s'.executables executable = some e' ∧ e.symbols ⊆ e'.symbols := by
  by_cases hother : ∀ a, call ≠ .executable a
  · exact ⟨e, by rw [executables_invoke hcall hother, hexec], List.Subset.refl _⟩
  · simp only [not_forall, not_not] at hother
    obtain ⟨a, rfl⟩ := hother
    cases a with
    | newCodeObject => cases hcall
    | query q =>
      simp only [invoke] at hcall
      split at hcall
      · cases hcall
      · obtain ⟨r, -, heq⟩ := Option.map_eq_some_iff.mp hcall
        cases heq
        exact ⟨e, hexec, List.Subset.refl _⟩
    | create | destroy | load | freeze | globalVariableDefine | agentGlobalVariableDefine
    | readonlyVariableDefine =>
      rw [invoke] at hcall
      · obtain ⟨⟨status', t⟩, hstep, heq⟩ := Option.map_eq_some_iff.mp hcall
        cases heq
        exact (executableCall_effect hstep).symbols_subset hexec
          fun heq => hnot (congrArg ObjectCall.executable heq)
      · simp
      · simp

end ObjectState

end Executables

end PhsaRuntime
