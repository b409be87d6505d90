import PhsaRuntime.Executable.Loading

/-!
# What a call does to the state

Most calls read, or are refused and leave the state as it is. `Effect` lists the others, so that
an invariant of the calls has one case for each.

A load is refused if a check fails; `Accepts` says that none does. Everything that a load
registers is new: `Registered` says that the index by name is that of the list of symbols, and
that all of these exist.

## Main results

* `executableCall_effect`, `Effect.changed` — what a call does, and what it does to one executable.
* `load_of_accepts`, `load_of_not_accepts` — the loads by the checks.
* `wellFormed` — the invariant of the runs.
-/

namespace PhsaRuntime

namespace ExecutableAction

/-- The executable, the name and the address of a call that defines a variable. -/
def definition : ExecutableAction → Option (ℕ × Option SymbolName × ℕ)
  | .globalVariableDefine executable name address => some (executable, name, address)
  | .agentGlobalVariableDefine executable _ name address => some (executable, name, address)
  | .readonlyVariableDefine executable _ name address => some (executable, name, address)
  | _ => none

end ExecutableAction

/-- A call of `hsa_executable_load_code_object` gets to the load. -/
structure Accepts (s : ExecutableState) (executable agent codeObject : ℕ) (e : Executable)
    (p : CodeObject) : Prop where
  initialized : s.initialized = true
  executable : s.executables executable = some e
  unfrozen : e.isFrozen = false
  agent : s.isAgent agent = true
  handle : codeObject ≠ 0
  program : s.codeObjects codeObject = some p

/-- What a load registers. -/
def afterLoad (elf : ElfReader) (env : LoadEnv) (l : Loading) (p : CodeObject) : Loading :=
  { l with program := p, pointers := storedPointers env l : Loading }.registerAll
    (loadedSymbols elf env l)

/-- The calls that succeed, with the states afterwards; every other call leaves the state as it
is. -/
inductive Effect (elf : ElfReader) (s : ExecutableState) :
    ExecutableAction → HsaStatus → ExecutableState → Prop
  | unchanged (a : ExecutableAction) (status : HsaStatus) : Effect elf s a status s
  | created {newAddress : ℕ} (profile : ℕ) (frozen : Bool) (executable : ℕ) :
      s.executables newAddress = none →
      Effect elf s (.create newAddress profile frozen executable) .success
        (s.setExecutable newAddress (some (.create profile frozen)))
  | destroyed (executable : ℕ) :
      Effect elf s (.destroy executable) .success (s.setExecutable executable none)
  | madeCodeObject {codeObject : ℕ} {p : CodeObject} :
      s.codeObjects codeObject = none → p.symbols = [] →
      Effect elf s (.newCodeObject codeObject p) .success
        { s with codeObjects := Function.update s.codeObjects codeObject (some p) }
  | loaded {env : LoadEnv} {executable agent codeObject : ℕ} {e : Executable} {p p' : CodeObject} :
      Accepts s executable agent codeObject e p → Loads elf env.dl e p →
      p'.symbols = p.symbols →
      Effect elf s (.load env executable agent codeObject) .success
        (s.loaded executable codeObject (afterLoad elf env (s.loading e p) p'))
  | frozen {executable : ℕ} {e : Executable} :
      s.executables executable = some e → e.isFrozen = false →
      Effect elf s (.freeze executable) .success (s.setExecutable executable (some e.freeze))
  | defined {a : ExecutableAction} {executable address : ℕ} {name : SymbolName} {e : Executable} :
      a.definition = some (executable, some name, address) → s.executables executable = some e →
      Effect elf s a .success
        (s.setExecutable executable (some (e.defineGlobalSymbolAddress name address)))

variable {elf : ElfReader} {env : LoadEnv} {s s' : ExecutableState} {a : ExecutableAction}
  {executable agent codeObject address : ℕ} {e e' : Executable} {p : CodeObject}
  {status : HsaStatus} {name : Option SymbolName}

@[simp] theorem executables_setExecutable_self {o : Option Executable} :
    (s.setExecutable executable o).executables executable = o :=
  Function.update_self ..

theorem executables_setExecutable_of_ne {x : ℕ} {o : Option Executable} (h : x ≠ executable) :
    (s.setExecutable executable o).executables x = s.executables x :=
  Function.update_of_ne h ..

/-- An executable that is found after an update was put there, or was there before. -/
theorem setExecutable_eq_some {x : ℕ} {o : Option Executable}
    (h : (s.setExecutable executable o).executables x = some e) :
    (x = executable ∧ o = some e) ∨ (x ≠ executable ∧ s.executables x = some e) := by
  by_cases hx : x = executable
  · rw [hx, executables_setExecutable_self] at h
    exact .inl ⟨hx, h⟩
  · rw [executables_setExecutable_of_ne hx] at h
    exact .inr ⟨hx, h⟩

/-! ## Loads -/

/-- A call that passes the checks is the load. -/
theorem load_of_accepts (h : Accepts s executable agent codeObject e p) :
    s.hsaExecutableLoadCodeObject elf env executable agent codeObject =
      (loadCodeObject elf env (s.loading e p)).map fun l =>
        (.success, s.loaded executable codeObject l) := by
  simp [ExecutableState.hsaExecutableLoadCodeObject, h.initialized, h.executable, h.unfrozen,
    h.agent, h.handle, h.program]

/-- A call that fails a check returns an error and changes nothing. -/
theorem load_of_not_accepts (elf : ElfReader) (env : LoadEnv)
    (h : ∀ e p, ¬ Accepts s executable agent codeObject e p) :
    ∃ status, status ≠ .success ∧
      s.hsaExecutableLoadCodeObject elf env executable agent codeObject = .ok (status, s) := by
  rw [ExecutableState.hsaExecutableLoadCodeObject]
  by_cases hinit : s.initialized = true
  · cases hexec : s.executables executable with
    | none => exact ⟨.errorInvalidExecutable, by decide, by simp [hinit]⟩
    | some e =>
      by_cases hfrozen : e.isFrozen = true
      · exact ⟨.errorFrozenExecutable, by decide, by simp [hinit, hfrozen]⟩
      · by_cases hagent : s.isAgent agent = true
        · by_cases hhandle : codeObject = 0
          · exact ⟨.errorInvalidCodeObject, by decide, by simp [hinit, hfrozen, hagent, hhandle]⟩
          · cases hprogram : s.codeObjects codeObject with
            | none =>
              exact ⟨.errorInvalidCodeObject, by decide, by simp [hinit, hfrozen, hagent, hhandle]⟩
            | some p =>
              exact absurd ⟨hinit, hexec, by simpa using hfrozen, hagent, hhandle, hprogram⟩ (h e p)
        · exact ⟨.errorInvalidAgent, by decide, by simp [hinit, hfrozen, hagent]⟩
  · exact ⟨.errorNotInitialized, by decide, by simp [hinit]⟩

/-- A load that returns. -/
theorem executableCall_load
    (h : executableCall elf s (.load env executable agent codeObject) = some (status, s')) :
    s.hsaExecutableLoadCodeObject elf env executable agent codeObject = .ok (status, s') := by
  simp only [executableCall] at h
  cases hload : s.hsaExecutableLoadCodeObject elf env executable agent codeObject with
  | error fault => simp [hload, Except.toOption] at h
  | ok r => simpa [hload, Except.toOption] using h

/-- What a load that is accepted and returns has done. -/
theorem load_accepted (h : Accepts s executable agent codeObject e p)
    (hcall : s.hsaExecutableLoadCodeObject elf env executable agent codeObject =
      .ok (status, s')) :
    Loads elf env.dl e p ∧ status = .success ∧ ∃ p', p'.symbols = p.symbols ∧
      s' = s.loaded executable codeObject (afterLoad elf env (s.loading e p) p') := by
  rw [load_of_accepts h] at hcall
  by_cases hloads : Loads elf env.dl e p
  · obtain ⟨p', hp', heq⟩ := loadCodeObject_eq (l := s.loading e p) hloads
    rw [heq] at hcall
    obtain ⟨rfl, rfl⟩ := Prod.mk.inj (Except.ok.inj hcall)
    exact ⟨hloads, rfl, p', hp', rfl⟩
  · obtain ⟨fault, hfault⟩ := loadCodeObject_error (l := s.loading e p) hloads
    rw [hfault] at hcall
    cases hcall

/-! ## The other calls -/

theorem executableCall_definition (h : a.definition = some (executable, name, address)) :
    executableCall elf s a = some (s.defineVariable executable name address) := by
  cases a with
  | globalVariableDefine | agentGlobalVariableDefine | readonlyVariableDefine =>
    obtain ⟨rfl, rfl, rfl⟩ := by simpa [ExecutableAction.definition] using h
    rfl
  | create | destroy | newCodeObject | load | freeze | query => cases h

theorem defineVariable_effect (h : a.definition = some (executable, name, address))
    (hcall : s.defineVariable executable name address = (status, s')) :
    Effect elf s a status s' := by
  simp only [ExecutableState.defineVariable] at hcall
  split at hcall
  · cases hcall
    exact .unchanged a _
  · split at hcall
    · cases hcall
      exact .unchanged a _
    · rename_i hexec
      split at hcall
      · cases hcall
        exact .unchanged a _
      · cases hcall
        exact .defined h hexec

/-- `hsa_executable_create`, at an address that is not in use. -/
theorem hsaExecutableCreate_effect {newAddress profile : ℕ} {frozen : Bool}
    (hfree : s.executables newAddress = none)
    (hcall : s.hsaExecutableCreate newAddress profile frozen executable = (status, s')) :
    Effect elf s (.create newAddress profile frozen executable) status s' := by
  simp only [ExecutableState.hsaExecutableCreate] at hcall
  split at hcall
  · cases hcall
    exact .unchanged _ _
  · split at hcall
    · cases hcall
      exact .unchanged _ _
    · cases hcall
      exact .created profile frozen executable hfree

theorem hsaExecutableDestroy_effect
    (hcall : s.hsaExecutableDestroy executable = (status, s')) :
    Effect elf s (.destroy executable) status s' := by
  simp only [ExecutableState.hsaExecutableDestroy] at hcall
  split at hcall
  · cases hcall
    exact .unchanged _ _
  · split at hcall
    · cases hcall
      exact .unchanged _ _
    · cases hcall
      exact .destroyed executable

/-- A load that returns is refused or succeeds. -/
theorem hsaExecutableLoadCodeObject_effect
    (hcall : s.hsaExecutableLoadCodeObject elf env executable agent codeObject =
      .ok (status, s')) :
    Effect elf s (.load env executable agent codeObject) status s' := by
  by_cases haccepts : ∃ e p, Accepts s executable agent codeObject e p
  · obtain ⟨e, p, haccepts⟩ := haccepts
    obtain ⟨hloads, rfl, p', hp', rfl⟩ := load_accepted haccepts hcall
    exact .loaded haccepts hloads hp'
  · simp only [not_exists] at haccepts
    obtain ⟨status', -, hrefused⟩ := load_of_not_accepts elf env haccepts
    rw [hrefused] at hcall
    cases hcall
    exact .unchanged _ _

theorem hsaExecutableFreeze_effect (hcall : s.hsaExecutableFreeze executable = (status, s')) :
    Effect elf s (.freeze executable) status s' := by
  simp only [ExecutableState.hsaExecutableFreeze] at hcall
  split at hcall
  · cases hcall
    exact .unchanged _ _
  · split at hcall
    · cases hcall
      exact .unchanged _ _
    · rename_i hexec
      split at hcall
      · cases hcall
        exact .unchanged _ _
      · rename_i hfrozen
        cases hcall
        exact .frozen hexec (by simpa using hfrozen)

/-- **What a call does.** -/
theorem executableCall_effect (h : executableCall elf s a = some (status, s')) :
    Effect elf s a status s' := by
  cases a with
  | create newAddress profile frozen executable =>
    simp only [executableCall] at h
    split at h
    · cases h
    · rename_i hfree
      apply hsaExecutableCreate_effect
      · simpa using (not_or.mp hfree).2
      · exact Option.some.inj h
  | destroy executable => exact hsaExecutableDestroy_effect (Option.some.inj h)
  | newCodeObject codeObject p =>
    simp only [executableCall] at h
    split at h
    · cases h
    · rename_i hfree
      simp only [not_or, not_not] at hfree
      cases h
      exact .madeCodeObject (by simpa using hfree.2.1) hfree.2.2
  | load env executable agent codeObject =>
    exact hsaExecutableLoadCodeObject_effect (executableCall_load h)
  | freeze executable => exact hsaExecutableFreeze_effect (Option.some.inj h)
  | globalVariableDefine executable name address =>
    exact defineVariable_effect rfl (Option.some.inj h)
  | agentGlobalVariableDefine executable agent name address =>
    exact defineVariable_effect rfl (Option.some.inj h)
  | readonlyVariableDefine executable agent name address =>
    exact defineVariable_effect rfl (Option.some.inj h)
  | query q =>
    obtain ⟨r, -, heq⟩ := Option.map_eq_some_iff.mp h
    cases heq
    exact .unchanged _ _

/-- What a step of the machine does. -/
theorem step_effect (h : (executableMachine elf).step a s = some s') :
    ∃ status, executableCall elf s a = some (status, s') ∧ Effect elf s a status s' := by
  obtain ⟨⟨status, t⟩, hcall, rfl⟩ := Option.map_eq_some_iff.mp h
  exact ⟨status, hcall, executableCall_effect hcall⟩

/-- The call creates an executable at the address. -/
def ExecutableAction.creates (executable : ℕ) : ExecutableAction → Bool
  | .create x _ _ _ => x = executable
  | _ => false

/-- What a call leaves of an executable that it does not create. -/
inductive Changed (elf : ElfReader) (s : ExecutableState) (a : ExecutableAction) (executable : ℕ)
    (e : Executable) : Executable → Prop
  | same : Changed elf s a executable e e
  | frozen : Changed elf s a executable e e.freeze
  | defined {name : SymbolName} {address : ℕ} :
      a.definition = some (executable, some name, address) →
      Changed elf s a executable e (e.defineGlobalSymbolAddress name address)
  | loaded {env : LoadEnv} {agent codeObject : ℕ} {p : CodeObject} :
      a = .load env executable agent codeObject → Accepts s executable agent codeObject e p →
      Changed elf s a executable e (e.registerAll (loadedSymbols elf env (s.loading e p)))

/-- Where an executable comes from. -/
theorem Effect.changed (h : Effect elf s a status s') (hcreates : a.creates executable = false)
    (hexec : s'.executables executable = some e') :
    ∃ e, s.executables executable = some e ∧ Changed elf s a executable e e' := by
  cases h with
  | unchanged | madeCodeObject => exact ⟨e', hexec, .same⟩
  | @created newAddress profile frozen x hfree =>
    rcases setExecutable_eq_some hexec with ⟨rfl, -⟩ | ⟨-, hexec⟩
    · simp [ExecutableAction.creates] at hcreates
    · exact ⟨e', hexec, .same⟩
  | destroyed x =>
    rcases setExecutable_eq_some hexec with ⟨-, hnone⟩ | ⟨-, hexec⟩
    · cases hnone
    · exact ⟨e', hexec, .same⟩
  | @loaded env x agent codeObject e p p' haccepts =>
    rcases update_eq_some hexec with ⟨rfl, rfl⟩ | ⟨-, hexec⟩
    · exact ⟨e, haccepts.executable, .loaded rfl haccepts⟩
    · exact ⟨e', hexec, .same⟩
  | @frozen x e hexec' =>
    rcases setExecutable_eq_some hexec with ⟨rfl, heq⟩ | ⟨-, hexec⟩
    · cases heq
      exact ⟨e, hexec', .frozen⟩
    · exact ⟨e', hexec, .same⟩
  | @defined a x address name e hdef hexec' =>
    rcases setExecutable_eq_some hexec with ⟨rfl, heq⟩ | ⟨-, hexec⟩
    · cases heq
      exact ⟨e, hexec', .defined hdef⟩
    · exact ⟨e', hexec, .same⟩

/-- A new executable is empty. -/
theorem create_of_creates (hcall : executableCall elf s a = some (status, s'))
    (hcreates : a.creates executable = true) (hexec : s'.executables executable = some e) :
    ∃ profile frozen, e = .create profile frozen := by
  cases a with
  | create newAddress profile frozen x =>
    obtain rfl : newAddress = executable := by simpa [ExecutableAction.creates] using hcreates
    have hnone : s.executables newAddress = none := by
      by_contra hsome
      have hsome : (s.executables newAddress).isSome := Option.isSome_iff_ne_none.mpr hsome
      simp [executableCall, hsome] at hcall
    have heffect := executableCall_effect hcall
    cases heffect with
    | unchanged =>
      rw [hnone] at hexec
      cases hexec
    | created =>
      rw [executables_setExecutable_self, Option.some.injEq] at hexec
      exact ⟨profile, frozen, hexec.symm⟩
    | defined hdef => cases hdef
  | destroy | newCodeObject | load | freeze | globalVariableDefine | agentGlobalVariableDefine
  | readonlyVariableDefine | query => cases hcreates

/-! ## The symbols in memory -/

/-- Symbols stay where they are, as they are. -/
def Grows (heap heap' : SymbolHeap) : Prop :=
  ∀ x symbol, heap.lookup x = some symbol → heap'.lookup x = some symbol

/-- The name of the symbol at an address. -/
def nameIn (heap : SymbolHeap) (x : ℕ) : SymbolName :=
  ((heap.lookup x).map Symbol.name).getD []

/-- The symbols of an executable exist, and its index is that of the list. -/
structure Registered (heap : SymbolHeap) (e : Executable) : Prop where
  live : ∀ x ∈ e.symbols, x ∈ heap
  index : e.symbolsByName = insertAll ∅ (e.symbols.map fun x => (nameIn heap x, x))

/-- What holds in every state. -/
structure WellFormed (s : ExecutableState) : Prop where
  initialized : s.initialized = true
  executables : ∀ x e, s.executables x = some e → Registered s.heap e
  codeObjects : ∀ c p, s.codeObjects c = some p → ∀ x ∈ p.symbols, x ∈ s.heap

section Heap

variable {heap heap' heap'' : SymbolHeap} {news : List (ℕ × Symbol)} {l : Loading} {x : ℕ}
  {symbol : Symbol} {y : ℕ × Symbol}

theorem Grows.refl : Grows heap heap := fun _ _ h => h

theorem Grows.trans (h : Grows heap heap') (h' : Grows heap' heap'') : Grows heap heap'' :=
  fun x symbol hx => h' x symbol (h x symbol hx)

theorem Grows.mem (h : Grows heap heap') (hx : x ∈ heap) : x ∈ heap' := by
  obtain ⟨symbol, hsymbol⟩ := Option.isSome_iff_exists.mp (AList.lookup_isSome.mpr hx)
  exact AList.lookup_isSome.mp (Option.isSome_iff_exists.mpr ⟨symbol, h x symbol hsymbol⟩)

theorem Grows.nameIn (h : Grows heap heap') (hx : x ∈ heap) : nameIn heap' x = nameIn heap x := by
  obtain ⟨symbol, hsymbol⟩ := Option.isSome_iff_exists.mp (AList.lookup_isSome.mpr hx)
  rw [PhsaRuntime.nameIn, PhsaRuntime.nameIn, h x symbol hsymbol, hsymbol]

/-- The symbols that a load creates. -/
theorem lookup_loadedSymbols (h : y ∈ loadedSymbols elf env l) :
    (insertAll l.heap (loadedSymbols elf env l)).lookup y.1 = some y.2 :=
  lookup_insertAll_of_mem nodup_newSymbols h

/-- A load leaves the other symbols alone. -/
theorem grows_loadedSymbols : Grows l.heap (insertAll l.heap (loadedSymbols elf env l)) := by
  intro x symbol hx
  rw [lookup_insertAll_of_notMem, hx]
  intro hmem
  obtain ⟨y, hy, rfl⟩ := List.mem_map.mp hmem
  apply (fresh_of_mem_newSymbols hy).1
  exact AList.lookup_isSome.mp (Option.isSome_iff_exists.mpr ⟨symbol, hx⟩)

/-- No call changes a symbol. -/
theorem Effect.grows (h : Effect elf s a status s') : Grows s.heap s'.heap := by
  cases h with
  | unchanged | created | destroyed | madeCodeObject | frozen | defined => exact Grows.refl
  | @loaded env executable agent codeObject e p p' haccepts =>
    exact grows_loadedSymbols (l := s.loading e p)

theorem nameIn_loadedSymbols (h : y ∈ loadedSymbols elf env l) :
    nameIn (insertAll l.heap (loadedSymbols elf env l)) y.1 = y.2.name := by
  rw [nameIn, lookup_loadedSymbols h]
  rfl

theorem Registered.grows (h : Registered heap e) (hgrows : Grows heap heap') :
    Registered heap' e where
  live x hx := hgrows.mem (h.live x hx)
  index := by
    rw [h.index]
    congr 1
    apply List.map_congr_left
    intro x hx
    rw [hgrows.nameIn (h.live x hx)]

theorem registered_create (profile : ℕ) (frozen : Bool) :
    Registered heap (.create profile frozen) :=
  ⟨by simp [Executable.create], rfl⟩

/-- A load keeps the index that of the list. -/
theorem Registered.afterLoad (h : Registered l.heap l.executable) :
    Registered (afterLoad elf env l p).heap (afterLoad elf env l p).executable := by
  have hold : Registered (insertAll l.heap (loadedSymbols elf env l)) l.executable :=
    h.grows grows_loadedSymbols
  have hnames : (loadedSymbols elf env l).map (fun y => (y.2.name, y.1)) =
      ((loadedSymbols elf env l).map Prod.fst).map fun x =>
        (nameIn (insertAll l.heap (loadedSymbols elf env l)) x, x) := by
    rw [List.map_map]
    apply List.map_congr_left
    intro y hy
    rw [Function.comp_apply, nameIn_loadedSymbols hy]
  refine ⟨?_, ?_⟩
  · intro x hx
    rcases List.mem_append.mp hx with hx | hx
    · exact hold.live x hx
    · exact mem_insertAll.mpr (.inr hx)
  · simp only [PhsaRuntime.afterLoad, Loading.registerAll, Executable.registerAll]
    rw [hold.index, hnames, ← insertAll_append, List.map_append]

theorem WellFormed.setExecutable {o : Option Executable} (h : WellFormed s)
    (ho : ∀ e, o = some e → Registered s.heap e) : WellFormed (s.setExecutable x o) := by
  refine ⟨h.initialized, ?_, h.codeObjects⟩
  intro y e he
  rcases setExecutable_eq_some he with ⟨-, he⟩ | ⟨-, he⟩
  · exact ho e he
  · exact h.executables y e he

/-- **The invariant is kept by every call.** -/
theorem WellFormed.effect (h : WellFormed s) (heffect : Effect elf s a status s') :
    WellFormed s' := by
  cases heffect with
  | unchanged => exact h
  | created profile frozen executable hfree =>
    apply h.setExecutable
    rintro _ ⟨⟩
    exact registered_create profile frozen
  | destroyed executable =>
    apply h.setExecutable
    rintro _ ⟨⟩
  | madeCodeObject hfree hsymbols =>
    refine ⟨h.initialized, h.executables, ?_⟩
    intro c q hq x hx
    rcases update_eq_some hq with ⟨-, rfl⟩ | ⟨-, hq⟩
    · simp [hsymbols] at hx
    · exact h.codeObjects c q hq x hx
  | @loaded env executable agent codeObject e p p' haccepts hloads hp' =>
    have hgrows : Grows s.heap (afterLoad elf env (s.loading e p) p').heap :=
      grows_loadedSymbols (l := s.loading e p)
    refine ⟨h.initialized, ?_, ?_⟩
    · intro y f hf
      rcases update_eq_some hf with ⟨-, rfl⟩ | ⟨-, hf⟩
      · exact Registered.afterLoad (h.executables executable e haccepts.executable)
      · exact (h.executables y f hf).grows hgrows
    · intro c q hq x hx
      rcases update_eq_some hq with ⟨-, rfl⟩ | ⟨-, hq⟩
      · rcases List.mem_append.mp hx with hx | hx
        · exact hgrows.mem (h.codeObjects codeObject p haccepts.program x (hp' ▸ hx))
        · exact mem_insertAll.mpr (.inr hx)
      · exact hgrows.mem (h.codeObjects c q hq x hx)
  | @frozen executable e hexec hfrozen =>
    apply h.setExecutable
    rintro _ ⟨⟩
    exact ⟨(h.executables executable e hexec).live, (h.executables executable e hexec).index⟩
  | @defined a executable address name e hdef hexec =>
    apply h.setExecutable
    rintro _ ⟨⟩
    exact ⟨(h.executables executable e hexec).live, (h.executables executable e hexec).index⟩

/-- **The invariant of the runs.** -/
theorem wellFormed {ok : ExecutableState → ExecutableAction → Prop}
    (h : (executableMachine elf).Reachable ok s) : WellFormed s := by
  refine h.induction ?_ ?_
  · rintro s ⟨hinit, hexec, hcode, -⟩
    exact ⟨hinit, by simp [hexec], by simp [hcode]⟩
  · intro s a s' _ _ hstep hs
    obtain ⟨status, -, heffect⟩ := step_effect hstep
    exact hs.effect heffect

end Heap

end PhsaRuntime
