import PhsaRuntime.Objects.Lifetimes

/-!
# Dead handles

A handle is dead if no call of the run has made the object, or a later one has destroyed it. What
is dead is not in its registry, so that a call finds a null pointer there. Some calls check for it
first, some after other checks, and some not at all.

## Main result

* `dead_handle_rejected_iff` — the calls that reject a dead handle.
-/

namespace PhsaRuntime

/-! ## The handles of a call -/

/-- The documented status for a handle that is not valid. -/
@[simp]
def HandleClass.invalidStatus : HandleClass → HsaStatus
  | .program => .errorInvalidProgram
  | .codeObject => .errorInvalidCodeObject
  | .executable => .errorInvalidExecutable

/-- The handles of a call, in the order in which they are looked up. -/
def Query.handles : Query → List ObjectHandle
  | .getInfo executable .. | .getSymbol executable .. | .iterateSymbols executable _ =>
    [(.executable, executable)]
  | .symbolGetInfo .. => []
  | .codeObjectIterateSymbols codeObject _ | .codeObjectGetSymbol codeObject .. =>
    [(.codeObject, codeObject)]

/-- The handles of a call on executables. -/
def ExecutableAction.handles : ExecutableAction → List ObjectHandle
  | .create .. | .newCodeObject .. => []
  | .load _ executable _ codeObject => [(.executable, executable), (.codeObject, codeObject)]
  | .destroy executable | .freeze executable | .globalVariableDefine executable ..
  | .agentGlobalVariableDefine executable .. | .readonlyVariableDefine executable .. =>
    [(.executable, executable)]
  | .query q => q.handles

/-- The handles of a call, in the order in which they are looked up. -/
def ObjectCall.handles : ObjectCall → List ObjectHandle
  | .init _ | .shutDown | .programCreate .. | .codeObjectDeserialize .. => []
  | .programDestroy program | .programAddModule _ program _ | .programIterateModules program _
  | .programGetInfo program .. | .programFinalize _ program .. => [(.program, program)]
  | .codeObjectSerialize codeObject .. | .codeObjectGetInfo codeObject ..
  | .codeObjectDestroy codeObject => [(.codeObject, codeObject)]
  | .executable a => a.handles

/-- The first of the handles of a call that is dead after a run. -/
def deadHandle (elf : ElfReader) (tr : List (ObjectState × ObjectCall)) (call : ObjectCall) :
    Option ObjectHandle :=
  call.handles.find? fun h =>
    !Machine.aliveAfter (ObjectState.creates elf) (ObjectState.destroys elf) tr h

/-- A call on executables that has a dead handle gets to a check for it. -/
@[simp]
def ExecutableAction.Guarded (s : ObjectState) : ExecutableAction → Prop
  | .destroy _ | .freeze _ | .globalVariableDefine .. | .agentGlobalVariableDefine ..
  | .readonlyVariableDefine .. | .query (.codeObjectGetSymbol ..) => s.isInitialized = true
  | .load _ executable agent _ =>
    s.isInitialized = true ∧ ∀ e, s.executables executable = some e →
      e.isFrozen = false ∧ s.isAgent agent = true
  | .query (.getInfo _ _ value) => s.isInitialized = true ∧ value ≠ 0
  | .query (.codeObjectIterateSymbols ..) => True
  -- `hsa_executable_get_symbol` and `hsa_executable_iterate_symbols` have no check
  | .query _ | .create .. | .newCodeObject .. => False

/-- A call that has a dead handle gets to a check for it. -/
@[simp]
def ObjectCall.Guarded (s : ObjectState) : ObjectCall → Prop
  | .programDestroy _ | .programGetInfo .. | .codeObjectSerialize .. => s.isInitialized = true
  -- the finalizer is only kept from the null handle
  | .programFinalize _ program isa .. =>
    s.isInitialized = true ∧ s.isIsa isa = true ∧ program = 0
  | .executable a => a.Guarded s
  -- `hsa_ext_program_add_module`, `hsa_ext_program_iterate_modules`, `hsa_code_object_get_info`
  -- and `hsa_code_object_destroy` have no check
  | _ => False

/-! ## Rejection -/

open ObjectState

variable {elf : ElfReader} {tr : List (ObjectState × ObjectCall)} {s : ObjectState}
  {call : ObjectCall} {h : ObjectHandle} {x : ℕ}

theorem deadHandle_eq (hrun : (objectMachine elf).Run tr s) (call : ObjectCall) :
    deadHandle elf tr call = call.handles.find? fun h => !s.live h := by
  simp only [deadHandle, ← live_eq_aliveAfter hrun]

theorem find?_live {k : ObjectHandle} (hfind : ([k].find? fun h => !s.live h) = some h) :
    k = h ∧ s.live k = false := by
  obtain rfl : h = k := List.mem_singleton.mp (List.mem_of_find?_eq_some hfind)
  exact ⟨rfl, by simpa using List.find?_some hfind⟩

theorem program_of_dead (hfind : ([(.program, x)].find? fun h => !s.live h) = some h) :
    (.program, x) = h ∧ s.programs x = none := by
  obtain ⟨heq, hlive⟩ := find?_live hfind
  exact ⟨heq, by simpa [live] using hlive⟩

theorem codeObject_of_dead (hfind : ([(.codeObject, x)].find? fun h => !s.live h) = some h) :
    (.codeObject, x) = h ∧ s.codeObjects x = none := by
  obtain ⟨heq, hlive⟩ := find?_live hfind
  exact ⟨heq, by simpa [live] using hlive⟩

theorem executable_of_dead (hfind : ([(.executable, x)].find? fun h => !s.live h) = some h) :
    (.executable, x) = h ∧ s.executables x = none := by
  obtain ⟨heq, hlive⟩ := find?_live hfind
  exact ⟨heq, by simpa [live] using hlive⟩

theorem defineVariable_of_dead {executable address : ℕ} {name : Option SymbolName}
    (hexec : s.executables executable = none) :
    s.toExecutables.defineVariable executable name address =
      if s.isInitialized then (.errorInvalidExecutable, s.toExecutables)
      else (.errorNotInitialized, s.toExecutables) := by
  by_cases hinit : s.isInitialized <;> simp [ExecutableState.defineVariable, hexec, hinit]

/-- A query with a dead handle. -/
theorem query_rejected_iff {q : Query} (hdead : (q.handles.find? fun h => !s.live h) = some h) :
    s.invoke elf (.executable (.query q)) = some (h.1.invalidStatus, s) ↔
      (ExecutableAction.query q).Guarded s := by
  cases q with
  | symbolGetInfo => cases hdead
  | getInfo executable info value =>
      obtain ⟨rfl, hexec⟩ := executable_of_dead hdead
      by_cases hinit : s.isInitialized <;> by_cases hvalue : value = 0 <;>
        simp [invoke, followsFreed, Query.answer, ExecutableState.hsaExecutableGetInfo, hexec,
          hinit, hvalue]
  | getSymbol executable moduleName symbolName =>
      obtain ⟨rfl, hexec⟩ := executable_of_dead hdead
      rcases symbolName with _ | _ | ⟨c, name⟩ <;>
        simp [invoke, followsFreed, Query.answer, ExecutableState.hsaExecutableGetSymbol, hexec]
  | iterateSymbols executable callback =>
      obtain ⟨rfl, hexec⟩ := executable_of_dead hdead
      by_cases hinit : s.isInitialized <;>
        simp [invoke, followsFreed, Query.answer, ExecutableState.hsaExecutableIterateSymbols,
          hexec, hinit]
  | codeObjectIterateSymbols codeObject callback =>
      obtain ⟨rfl, hcode⟩ := codeObject_of_dead hdead
      simp [invoke, followsFreed, Query.answer, ExecutableState.hsaCodeObjectIterateSymbols,
        hcode]
  | codeObjectGetSymbol codeObject symbolName symbol =>
      obtain ⟨rfl, hcode⟩ := codeObject_of_dead hdead
      by_cases hinit : s.isInitialized <;>
        simp [invoke, followsFreed, Query.answer, ExecutableState.hsaCodeObjectGetSymbol, hcode,
          hinit]

/-- A load with a dead executable, or with a dead code object. -/
theorem load_rejected_iff {env : LoadEnv} {executable agent codeObject : ℕ}
    (hdead : ((ExecutableAction.load env executable agent codeObject).handles.find?
      fun h => !s.live h) = some h) :
    s.invoke elf (.executable (.load env executable agent codeObject)) =
        some (h.1.invalidStatus, s) ↔
      (ExecutableAction.load env executable agent codeObject).Guarded s := by
  cases hexec : s.executables executable with
  | none =>
      have hlive : s.live (.executable, executable) = false := by simp [live, hexec]
      simp only [ExecutableAction.handles, List.find?_cons, hlive, Bool.not_false] at hdead
      obtain rfl := Option.some.inj hdead
      by_cases hinit : s.isInitialized <;>
        simp [invoke, executableCall, ExecutableState.hsaExecutableLoadCodeObject, hexec, hinit,
          Except.toOption]
  | some e =>
      have hlive : s.live (.executable, executable) = true := by simp [live, hexec]
      have hdead : ([(HandleClass.codeObject, codeObject)].find? fun h => !s.live h) = some h := by
        simpa only [ExecutableAction.handles, List.find?_cons, hlive, Bool.not_true] using hdead
      obtain ⟨rfl, hcode⟩ := codeObject_of_dead hdead
      by_cases hinit : s.isInitialized <;> by_cases hfrozen : e.isFrozen <;>
        by_cases hagent : s.isAgent agent <;>
        simp [invoke, executableCall, ExecutableState.hsaExecutableLoadCodeObject, hexec, hinit,
          hfrozen, hagent, hcode, Except.toOption]

/-- A call on executables with a dead handle. -/
theorem executable_rejected_iff {a : ExecutableAction}
    (hdead : (a.handles.find? fun h => !s.live h) = some h) :
    s.invoke elf (.executable a) = some (h.1.invalidStatus, s) ↔ a.Guarded s := by
  cases a with
  | create | newCodeObject => cases hdead
  | destroy executable =>
      obtain ⟨rfl, hexec⟩ := executable_of_dead hdead
      by_cases hinit : s.isInitialized <;>
        simp [invoke, executableCall, ExecutableState.hsaExecutableDestroy, hexec, hinit]
  | load env executable agent codeObject => exact load_rejected_iff hdead
  | freeze executable =>
      obtain ⟨rfl, hexec⟩ := executable_of_dead hdead
      by_cases hinit : s.isInitialized <;>
        simp [invoke, executableCall, ExecutableState.hsaExecutableFreeze, hexec, hinit]
  | globalVariableDefine | agentGlobalVariableDefine | readonlyVariableDefine =>
      obtain ⟨rfl, hexec⟩ := executable_of_dead hdead
      by_cases hinit : s.isInitialized <;>
        simp [invoke, executableCall, ExecutableState.hsaExecutableGlobalVariableDefine,
          ExecutableState.hsaExecutableAgentGlobalVariableDefine,
          ExecutableState.hsaExecutableReadonlyVariableDefine, defineVariable_of_dead hexec,
          hinit]
  | query q => exact query_rejected_iff hdead

/-- **The calls that reject a dead handle.** In every state of a run, a call whose first dead handle
is of some class returns the documented status of that class and leaves all objects as they are,
exactly if it gets to a check for it. -/
theorem dead_handle_rejected_iff (hrun : (objectMachine elf).Run tr s)
    (hdead : deadHandle elf tr call = some h) :
    s.invoke elf call = some (h.1.invalidStatus, s) ↔ call.Guarded s := by
  rw [deadHandle_eq hrun] at hdead
  cases call with
  | init | shutDown | programCreate | codeObjectDeserialize => cases hdead
  | programDestroy program =>
      obtain ⟨rfl, hprog⟩ := program_of_dead hdead
      by_cases hinit : s.isInitialized <;>
        simp [invoke, hsaExtProgramDestroy, toPrograms, hprog, hinit, setPrograms]
  | programAddModule m program module =>
      obtain ⟨rfl, -⟩ := find?_live hdead
      simp only [ObjectCall.Guarded, iff_false]
      intro hcall
      obtain ⟨⟨status, t⟩, hadd, heq⟩ := Option.map_eq_some_iff.mp hcall
      exact (addModule_effect hadd).1 (congrArg Prod.fst heq)
  | programIterateModules program callback =>
      obtain ⟨rfl, hprog⟩ := program_of_dead hdead
      by_cases hinit : s.isInitialized <;>
        simp [invoke, hsaExtProgramIterateModules, hprog, hinit]
  | programGetInfo program info value =>
      obtain ⟨rfl, hprog⟩ := program_of_dead hdead
      by_cases hinit : s.isInitialized <;>
        simp [invoke, hsaExtProgramGetInfo, hprog, hinit]
  | programFinalize env program isa cd codeObject newAddress =>
      obtain ⟨rfl, hprog⟩ := program_of_dead hdead
      simp only [invoke, hsaExtProgramFinalize, finalizeProgram, hprog, ObjectCall.Guarded,
        HandleClass.invalidStatus]
      split_ifs <;> simp_all
  | codeObjectSerialize codeObject allocCallback outputs =>
      obtain ⟨rfl, hcode⟩ := codeObject_of_dead hdead
      by_cases hinit : s.isInitialized <;>
        simp [invoke, hsaCodeObjectSerialize, toRuntime, hcode, hinit, Except.toOption]
  | codeObjectGetInfo codeObject info value =>
      obtain ⟨rfl, hcode⟩ := codeObject_of_dead hdead
      simp only [invoke, hsaCodeObjectGetInfo, hcode, ObjectCall.Guarded,
        HandleClass.invalidStatus, iff_false]
      split_ifs
      · simp
      · simp
      · split <;> simp
  | codeObjectDestroy codeObject =>
      obtain ⟨rfl, hcode⟩ := codeObject_of_dead hdead
      simp [invoke, hsaCodeObjectDestroy, hcode]
  | executable a => exact executable_rejected_iff hdead

/-- A process at its start. -/
def noObjects : ObjectState :=
  { referenceCounter := 0, isAgent := fun _ => false, isIsa := fun _ => false
    programs := fun _ => none, defaultRoundingMode := fun _ => 0, codeObjects := fun _ => none
    executables := fun _ => none, heap := ∅, pointers := fun _ => 0 }

theorem init_noObjects (elf : ElfReader) : (objectMachine elf).init noObjects :=
  ⟨rfl, rfl, rfl, rfl, rfl⟩

/-- A program is destroyed again. -/
theorem dead_handle_rejected_program : ∃ tr s, (objectMachine fun _ => none).Run tr s ∧
    deadHandle (fun _ => none) tr (.programDestroy 7) = some (.program, 7) ∧
    s.invoke (fun _ => none) (.programDestroy 7) = some (.errorInvalidProgram, s) := by
  have hinit := Machine.Run.init (init_noObjects fun _ => none)
  have hone := hinit.step (a := .init fun _ => true) rfl
  have htwo := hone.step (a := .programCreate 1 1 0 false 7) rfl
  have hrun := htwo.step (a := .programDestroy 7) rfl
  refine ⟨_, _, hrun, rfl, ?_⟩
  refine (dead_handle_rejected_iff (h := (.program, 7)) hrun ?_).mpr ?_ <;> rfl

/-- The modules of the program are iterated then, which follows a null pointer, and a code object
that never was is destroyed. -/
theorem dead_handle_followed : ∃ tr s, (objectMachine fun _ => none).Run tr s ∧
    s.isInitialized = true ∧
    deadHandle (fun _ => none) tr (.programIterateModules 7 fun _ => .success) =
      some (.program, 7) ∧
    s.invoke (fun _ => none) (.programIterateModules 7 fun _ => .success) = none ∧
    deadHandle (fun _ => none) tr (.codeObjectDestroy 8) = some (.codeObject, 8) ∧
    s.invoke (fun _ => none) (.codeObjectDestroy 8) = some (.success, s) := by
  have hinit := Machine.Run.init (init_noObjects fun _ => none)
  have hone := hinit.step (a := .init fun _ => true) rfl
  have htwo := hone.step (a := .programCreate 1 1 0 false 7) rfl
  have hrun := htwo.step (a := .programDestroy 7) rfl
  exact ⟨_, _, hrun, rfl, rfl, rfl, rfl, rfl⟩

end PhsaRuntime
