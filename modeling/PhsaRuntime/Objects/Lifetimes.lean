import PhsaRuntime.Executable.Effect
import PhsaRuntime.Objects

/-!
# The lifetimes of objects

A call that succeeds makes an object, destroys one, or does neither; the last `hsa_shut_down`
destroys all programs and code objects, and no executable. What is in the registries is what the
calls so far have made and not destroyed since.

## Main results

* `ObjectState.live_invoke` — what a call makes live and dead.
* `live_eq_aliveAfter` — what a run leaves alive.
-/

namespace PhsaRuntime

/-! ## Handles -/

/-- The classes of objects. -/
inductive HandleClass
  | program
  | codeObject
  | executable
  deriving DecidableEq, Repr

/-- A handle with the class that is expected. -/
abbrev ObjectHandle := HandleClass × ℕ

namespace ObjectCall

/-- The object that a call makes if it succeeds. -/
def made : ObjectCall → Option ObjectHandle
  | .programCreate _ _ _ _ handle => some (.program, handle)
  | .programFinalize _ _ _ _ _ newAddress => some (.codeObject, newAddress)
  | .codeObjectDeserialize host .. => some (.codeObject, host.newAddress)
  | .executable (.create newAddress ..) => some (.executable, newAddress)
  | _ => none

/-- The object that a call destroys if it succeeds. -/
def destroyed : ObjectCall → Option ObjectHandle
  | .programDestroy program => some (.program, program)
  | .codeObjectDestroy codeObject => some (.codeObject, codeObject)
  | .executable (.destroy handle) => some (.executable, handle)
  | _ => none

end ObjectCall

/-! ## Lifetimes -/

namespace ObjectState

/-- The object is in its registry. -/
def live (s : ObjectState) : ObjectHandle → Bool
  | (.program, handle) => (s.programs handle).isSome
  | (.codeObject, handle) => (s.codeObjects handle).isSome
  | (.executable, handle) => (s.executables handle).isSome

/-- The call succeeds. -/
def succeeds (elf : ElfReader) (s : ObjectState) (call : ObjectCall) : Bool :=
  (s.invoke elf call).any fun r => r.1 = .success

/-- The call makes the object. -/
def creates (elf : ElfReader) (s : ObjectState) (call : ObjectCall) (h : ObjectHandle) : Bool :=
  call.made = some h ∧ s.succeeds elf call

/-- The last reference to the runtime is released. -/
def releasesLast (s : ObjectState) : ObjectCall → Bool
  | .shutDown => s.referenceCounter = 1
  | _ => false

/-- The call destroys the object: it is the call to do so, or the last reference to the runtime is
released, with which all programs and code objects are destroyed. -/
def destroys (elf : ElfReader) (s : ObjectState) (call : ObjectCall) (h : ObjectHandle) : Bool :=
  call.destroyed = some h ∧ s.succeeds elf call ∨ s.releasesLast call ∧ h.1 ≠ .executable

end ObjectState

variable {elf : ElfReader} {s s' : ObjectState} {call : ObjectCall} {status : HsaStatus}
  {x : ℕ} {h h' : ObjectHandle}

namespace ObjectState

/-! What a change of a registry makes live and dead. -/

theorem live_of_programs {o : Option HSAILProgram}
    (hprog : s'.programs = Function.update s.programs x o)
    (hcode : s'.codeObjects = s.codeObjects) (hexec : s'.executables = s.executables) :
    s'.live = Function.update s.live (.program, x) o.isSome := by
  ext ⟨k, y⟩
  cases k with
  | program => by_cases hy : y = x <;> simp [live, hprog, hy]
  | codeObject => simp [live, hcode]
  | executable => simp [live, hexec]

theorem live_of_codeObjects {o : Option CodeObject} (hprog : s'.programs = s.programs)
    (hcode : s'.codeObjects = Function.update s.codeObjects x o)
    (hexec : s'.executables = s.executables) :
    s'.live = Function.update s.live (.codeObject, x) o.isSome := by
  ext ⟨k, y⟩
  cases k with
  | program => simp [live, hprog]
  | codeObject => by_cases hy : y = x <;> simp [live, hcode, hy]
  | executable => simp [live, hexec]

theorem live_of_executables {o : Option Executable} (hprog : s'.programs = s.programs)
    (hcode : s'.codeObjects = s.codeObjects)
    (hexec : s'.executables = Function.update s.executables x o) :
    s'.live = Function.update s.live (.executable, x) o.isSome := by
  ext ⟨k, y⟩
  cases k with
  | program => simp [live, hprog]
  | codeObject => simp [live, hcode]
  | executable => by_cases hy : y = x <;> simp [live, hexec, hy]

theorem isSome_update {α : Type} {f : ℕ → Option α} {o : Option α} {y : ℕ}
    (ho : o.isSome = (f x).isSome) : (Function.update f x o y).isSome = (f y).isSome := by
  by_cases hy : y = x <;> simp [hy, ho]

/-! The cases of `live_invoke`. -/

theorem live_of_same (hmade : call.made = none) (hdestroyed : call.destroyed = none)
    (hlast : s.releasesLast call = false) (hlive : s'.live = s.live) :
    s'.live h = (s.creates elf call h || (s.live h && !s.destroys elf call h)) := by
  simp [creates, destroys, hmade, hdestroyed, hlast, hlive]

theorem live_of_made (hcall : s.invoke elf call = some (status, s')) (hmade : call.made = some h')
    (hdestroyed : call.destroyed = none) (hlast : s.releasesLast call = false)
    (hlive : s'.live = if status = .success then Function.update s.live h' true else s.live) :
    s'.live h = (s.creates elf call h || (s.live h && !s.destroys elf call h)) := by
  by_cases hstatus : status = .success
  · by_cases hh : h = h'
    · simp [creates, succeeds, hcall, hmade, hlive, hstatus, hh]
    · simp [creates, destroys, hmade, hdestroyed, hlast, hlive, hstatus, hh, Ne.symm hh]
  · simp [creates, destroys, succeeds, hcall, hdestroyed, hlast, hlive, hstatus]

theorem live_of_destroyed (hcall : s.invoke elf call = some (status, s'))
    (hmade : call.made = none) (hdestroyed : call.destroyed = some h')
    (hlast : s.releasesLast call = false)
    (hlive : s'.live = if status = .success then Function.update s.live h' false else s.live) :
    s'.live h = (s.creates elf call h || (s.live h && !s.destroys elf call h)) := by
  by_cases hstatus : status = .success
  · by_cases hh : h = h'
    · simp [creates, destroys, succeeds, hcall, hmade, hdestroyed, hlive, hstatus, hh]
    · simp [creates, destroys, hmade, hdestroyed, hlast, hlive, hstatus, hh, Ne.symm hh]
  · simp [creates, destroys, succeeds, hcall, hmade, hlast, hlive, hstatus]

theorem live_hsaInit (agents : ℕ → Bool) : (s.hsaInit agents).2.live = s.live := by
  rw [hsaInit]
  split <;> rfl

theorem live_hsaShutDown :
    s.hsaShutDown.2.live h = (s.live h && !(s.referenceCounter = 1 ∧ h.1 ≠ .executable)) := by
  rw [hsaShutDown]
  by_cases hzero : s.referenceCounter = 0
  · simp [hzero]
  · by_cases hone : s.referenceCounter = 1
    · obtain ⟨k, y⟩ := h
      cases k <;> simp [live, deleteRuntime, hone]
    · simp [live, hzero, hone]

theorem set_of_hsaExtProgramCreate {machineModel profile roundingMode : ℕ} {programIsNull : Bool}
    {t : Programs}
    (hstatus : (hsaExtProgramCreate machineModel profile roundingMode programIsNull x t).1 =
      .success) :
    (hsaExtProgramCreate machineModel profile roundingMode programIsNull x t).2 =
      t.set x (some ⟨[], machineModel, profile⟩) := by
  rw [hsaExtProgramCreate] at hstatus ⊢
  split_ifs at hstatus ⊢
  rfl

/-- A call that returns adds the module or leaves the programs as they are. It never finds the
program invalid. -/
theorem addModule_effect {m : Cells Byte} {module : ℕ} {t t' : Programs}
    (hcall : hsaExtProgramAddModule m x module t = some (status, t')) :
    status ≠ .errorInvalidProgram ∧
      (t' = t ∨ ∃ p, t.programs x = some p ∧ t' = t.set x (p.addModule module)) := by
  simp only [hsaExtProgramAddModule] at hcall
  split at hcall
  · cases hcall
    simp
  · split at hcall
    · cases hcall
      simp
    · split at hcall
      · cases hcall
        simp
      · split at hcall
        · cases hcall
          simp
        · split at hcall
          · cases hcall
          · cases hcall
            simp
          · split at hcall
            · cases hcall
            · rename_i p hlive
              split at hcall
              · cases hcall
                simp
              · split at hcall
                · cases hcall
                  simp
                · cases hcall
                  exact ⟨by simp, .inr ⟨p, hlive, rfl⟩⟩

theorem live_programCreate {machineModel profile roundingMode : ℕ} {programIsNull : Bool}
    (hcall : s.programCreate machineModel profile roundingMode programIsNull x =
      some (status, s')) :
    s'.live = if status = .success then Function.update s.live (.program, x) true else s.live := by
  simp only [programCreate] at hcall
  split at hcall
  · rename_i hstatus
    cases hcall
    rw [if_neg hstatus]
  · rename_i hstatus
    split at hcall
    · cases hcall
    · cases hcall
      rw [if_pos (not_not.mp hstatus)]
      apply live_of_programs (o := some ⟨[], machineModel, profile⟩)
      · exact congrArg Programs.programs (set_of_hsaExtProgramCreate (not_not.mp hstatus))
      · rfl
      · rfl

theorem live_programDestroy :
    (s.setPrograms (hsaExtProgramDestroy x s.toPrograms).2).live =
      if (hsaExtProgramDestroy x s.toPrograms).1 = .success then
        Function.update s.live (.program, x) false
      else s.live := by
  simp only [hsaExtProgramDestroy]
  split
  · rfl
  · split
    · rfl
    · exact live_of_programs (o := none) rfl rfl rfl

theorem live_addModule {m : Cells Byte} {module : ℕ} {t : Programs}
    (hcall : hsaExtProgramAddModule m x module s.toPrograms = some (status, t)) :
    (s.setPrograms t).live = s.live := by
  obtain ⟨-, rfl | ⟨p, hlive, rfl⟩⟩ := addModule_effect hcall
  · rfl
  · ext ⟨k, y⟩
    cases k with
    | program => exact isSome_update (by simp [hlive])
    | codeObject | executable => rfl

theorem live_newCodeObject {p : CodeObject} (hnew : s.newCodeObject x p = some s') :
    s'.live = Function.update s.live (.codeObject, x) true := by
  simp only [newCodeObject] at hnew
  split at hnew
  · cases hnew
  · cases hnew
    exact live_of_codeObjects (o := some p) rfl rfl rfl

theorem live_hsaCodeObjectDestroy :
    (s.hsaCodeObjectDestroy x).2.live =
      if (s.hsaCodeObjectDestroy x).1 = .success then
        Function.update s.live (.codeObject, x) false
      else s.live := by
  rw [hsaCodeObjectDestroy]
  cases hcode : s.codeObjects x with
  | none =>
      have hself : s.live (.codeObject, x) = false := by simp [live, hcode]
      simp [← hself]
  | some p => exact live_of_codeObjects (o := none) rfl rfl rfl

/-- A call on executables that neither creates nor destroys one leaves alive what is alive. -/
theorem live_effect {a : ExecutableAction} {t : ExecutableState}
    (heffect : Effect elf s.toExecutables a status t)
    (hmade : (ObjectCall.executable a).made = none)
    (hdestroyed : (ObjectCall.executable a).destroyed = none)
    (hnew : ∀ codeObject p, a ≠ .newCodeObject codeObject p) :
    (s.setExecutables t).live = s.live := by
  cases heffect with
  | unchanged => rfl
  | created => cases hmade
  | destroyed => cases hdestroyed
  | @madeCodeObject codeObject p => exact absurd rfl (hnew codeObject p)
  | @loaded env executable agent codeObject e p p' haccepts =>
      ext ⟨k, y⟩
      cases k with
      | program => rfl
      | codeObject => exact isSome_update (by simp [haccepts.program])
      | executable => exact isSome_update (by simp [haccepts.executable])
  | @frozen executable e hexec =>
      ext ⟨k, y⟩
      cases k with
      | program | codeObject => rfl
      | executable => exact isSome_update (by simp [hexec])
  | @defined a executable address name e hdefinition hexec =>
      ext ⟨k, y⟩
      cases k with
      | program | codeObject => rfl
      | executable => exact isSome_update (by simp [hexec])

theorem live_create {newAddress profile : ℕ} {frozen : Bool} :
    (s.setExecutables (s.toExecutables.hsaExecutableCreate newAddress profile frozen x).2).live =
      if (s.toExecutables.hsaExecutableCreate newAddress profile frozen x).1 = .success then
        Function.update s.live (.executable, newAddress) true
      else s.live := by
  rw [ExecutableState.hsaExecutableCreate]
  split
  · rfl
  · split
    · rfl
    · exact live_of_executables (o := some (.create profile frozen)) rfl rfl rfl

theorem live_destroy :
    (s.setExecutables (s.toExecutables.hsaExecutableDestroy x).2).live =
      if (s.toExecutables.hsaExecutableDestroy x).1 = .success then
        Function.update s.live (.executable, x) false
      else s.live := by
  rw [ExecutableState.hsaExecutableDestroy]
  split
  · rfl
  · split
    · rfl
    · exact live_of_executables (o := none) rfl rfl rfl

/-- The finalizer makes a code object exactly if it succeeds. -/
theorem success_iff_of_finalizeProgram {env : FinalizerEnv} {program isa : ℕ}
    {cd : ControlDirectives} {o : Option CodeObject}
    (hfinalize : s.finalizeProgram env program isa cd = some (status, o)) :
    status = .success ↔ o.isSome = true := by
  simp only [finalizeProgram] at hfinalize
  split at hfinalize
  · cases hfinalize
    simp
  · split at hfinalize
    · cases hfinalize
    · split at hfinalize
      · cases hfinalize
        simp
      · split at hfinalize
        · cases hfinalize
          simp
        · split at hfinalize
          · cases hfinalize
          · split at hfinalize
            · cases hfinalize
              simp
            · cases hfinalize
              simp

theorem live_finalize {env : FinalizerEnv} {program isa codeObject : ℕ} {cd : ControlDirectives}
    (hcall : s.hsaExtProgramFinalize env program isa cd codeObject x = some (status, s')) :
    s'.live = if status = .success then Function.update s.live (.codeObject, x) true
      else s.live := by
  simp only [hsaExtProgramFinalize] at hcall
  split_ifs at hcall
  · cases hcall
    rfl
  · cases hcall
    rfl
  · cases hcall
    rfl
  · obtain ⟨⟨status', o⟩, hfinalize, hcall⟩ := Option.bind_eq_some_iff.mp hcall
    have hsuccess := success_iff_of_finalizeProgram hfinalize
    cases o with
    | none =>
        cases hcall
        rw [if_neg (by simp [hsuccess])]
    | some p =>
        obtain ⟨t, hnew, heq⟩ := Option.map_eq_some_iff.mp hcall
        cases heq
        rw [if_pos (by simp [hsuccess]), live_newCodeObject hnew]

theorem live_deserialize {host : Host} {m : Cells Byte}
    {serializedCodeObject serializedCodeObjectSize codeObject : ℕ}
    (hcall : s.codeObjectDeserialize host m serializedCodeObject serializedCodeObjectSize
      codeObject = some (status, s')) :
    s'.live = if status = .success then Function.update s.live (.codeObject, host.newAddress) true
      else s.live := by
  simp only [codeObjectDeserialize] at hcall
  split_ifs at hcall
  · cases hcall
    rfl
  · cases hcall
    rfl
  · split at hcall
    · cases hcall
    · obtain ⟨t, hnew, heq⟩ := Option.map_eq_some_iff.mp hcall
      cases heq
      rw [if_pos rfl, live_newCodeObject hnew]

/-- **What a call makes live and dead.** -/
theorem live_invoke (hcall : s.invoke elf call = some (status, s')) (h : ObjectHandle) :
    s'.live h = (s.creates elf call h || (s.live h && !s.destroys elf call h)) := by
  cases call with
  | init agents =>
      obtain rfl : (s.hsaInit agents).2 = s' := congrArg Prod.snd (Option.some.inj hcall)
      exact live_of_same rfl rfl rfl (live_hsaInit agents)
  | shutDown =>
      obtain rfl : s.hsaShutDown.2 = s' := congrArg Prod.snd (Option.some.inj hcall)
      rw [live_hsaShutDown]
      simp [creates, destroys, releasesLast, ObjectCall.made, ObjectCall.destroyed]
  | programCreate => exact live_of_made hcall rfl rfl rfl (live_programCreate hcall)
  | programDestroy =>
      obtain ⟨rfl, rfl⟩ := Prod.mk.inj (Option.some.inj hcall)
      exact live_of_destroyed hcall rfl rfl rfl live_programDestroy
  | programAddModule m program module =>
      obtain ⟨⟨status', t⟩, hadd, heq⟩ := Option.map_eq_some_iff.mp hcall
      cases heq
      exact live_of_same rfl rfl rfl (live_addModule hadd)
  | programIterateModules | codeObjectSerialize | codeObjectGetInfo =>
      obtain ⟨r, -, heq⟩ := Option.map_eq_some_iff.mp hcall
      cases heq
      exact live_of_same rfl rfl rfl rfl
  | programGetInfo =>
      cases hcall
      exact live_of_same rfl rfl rfl rfl
  | programFinalize => exact live_of_made hcall rfl rfl rfl (live_finalize hcall)
  | codeObjectDeserialize host m serializedCodeObject serializedCodeObjectSize codeObject =>
      have hlive := live_deserialize (by rwa [invoke] at hcall)
      exact live_of_made hcall (by rfl) (by rfl) (by rfl) hlive
  | codeObjectDestroy codeObject =>
      obtain ⟨rfl, rfl⟩ := Prod.ext_iff.mp (Option.some.inj hcall)
      exact live_of_destroyed hcall rfl rfl rfl live_hsaCodeObjectDestroy
  | executable a =>
      cases a with
      | create newAddress profile frozen x =>
          have hmade := hcall
          simp only [invoke, executableCall] at hcall
          split at hcall
          · cases hcall
          · obtain ⟨rfl, rfl⟩ := Prod.mk.inj (Option.some.inj hcall)
            exact live_of_made hmade rfl rfl rfl live_create
      | destroy x =>
          obtain ⟨rfl, rfl⟩ := Prod.mk.inj (Option.some.inj hcall)
          exact live_of_destroyed hcall rfl rfl rfl live_destroy
      | newCodeObject => cases hcall
      | query q =>
          simp only [invoke] at hcall
          split at hcall
          · cases hcall
          · obtain ⟨r, -, heq⟩ := Option.map_eq_some_iff.mp hcall
            cases heq
            exact live_of_same rfl rfl rfl rfl
      | load | freeze | globalVariableDefine | agentGlobalVariableDefine
      | readonlyVariableDefine =>
          rw [invoke] at hcall
          · obtain ⟨⟨status', t⟩, hexec, heq⟩ := Option.map_eq_some_iff.mp hcall
            cases heq
            refine live_of_same rfl rfl rfl (live_effect (executableCall_effect hexec) rfl rfl ?_)
            simp
          · simp
          · simp

end ObjectState

/-- **Lifetimes.** What is in the registries is what the run has left alive. -/
theorem live_eq_aliveAfter {tr : List (ObjectState × ObjectCall)}
    (hrun : (objectMachine elf).Run tr s) (h : ObjectHandle) :
    s.live h =
      Machine.aliveAfter (ObjectState.creates elf) (ObjectState.destroys elf) tr h := by
  have hinit : ∀ t k, (objectMachine elf).init t → ObjectState.live t k = false := by
    rintro t ⟨k, y⟩ ⟨-, hprog, hcode, hexec, -⟩
    cases k <;> simp [ObjectState.live, hprog, hcode, hexec]
  refine Machine.Run.live_eq hinit ?_ hrun h
  intro s call s' h hstep
  obtain ⟨⟨status, t⟩, hcall, rfl⟩ := Option.map_eq_some_iff.mp hstep
  exact ObjectState.live_invoke hcall h

end PhsaRuntime
