import PhsaRuntime.Executable.Effect

/-!
# Loads that fail half-way

A load that cannot be completed should return an error and leave the executable and the code
object as they were. The checks before the load do that. Behind them nothing returns an error:
the load goes on with a null address where the library cannot be opened, and ends the process
in every other case.

## Main results

* `atomicLoad_iff` — a call is all or nothing if and only if a check refuses it or nothing can
  fail.
-/

namespace PhsaRuntime

/-- The load is all or nothing: it returns, and everything that it has registered has an address,
or it returns an error and has registered nothing. -/
def AtomicLoad (elf : ElfReader) (env : LoadEnv) (executable agent codeObject : ℕ)
    (s : ExecutableState) : Prop :=
  ∃ status s', s.hsaExecutableLoadCodeObject elf env executable agent codeObject =
      .ok (status, s') ∧
    (status = .success → ∀ e e', s.executables executable = some e →
      s'.executables executable = some e' →
      ∀ x ∈ e'.symbols.drop e.symbols.length,
        ∃ symbol, s'.heap.lookup x = some symbol ∧ symbol.address ≠ 0) ∧
    (status ≠ .success → s'.executables = s.executables ∧ s'.codeObjects = s.codeObjects)

variable {elf : ElfReader} {env : LoadEnv} {s : ExecutableState} {l : Loading} {p : CodeObject}
  {executable agent codeObject : ℕ} {x : ℕ} {e : Executable}

/-- Behind the symbols of the executable are the new ones. -/
theorem mem_drop_afterLoad :
    x ∈ (afterLoad elf env l p).executable.symbols.drop l.executable.symbols.length ↔
      ∃ y ∈ loadedSymbols elf env l, y.1 = x := by
  simp [afterLoad, Loading.registerAll, Executable.registerAll]

/-- The new symbols have addresses if those of the table do. -/
theorem addresses_afterLoad :
    (∀ x ∈ (afterLoad elf env l p).executable.symbols.drop l.executable.symbols.length,
      ∃ symbol, (afterLoad elf env l p).heap.lookup x = some symbol ∧ symbol.address ≠ 0) ↔
    ∀ y ∈ codeExports elf l.program.toFinalizedProgram,
      addressIn (l.program.library env.dl) y.1 ≠ 0 := by
  constructor
  · intro h y hy
    obtain ⟨z, hz, heq⟩ :=
      exists_mem_newSymbols env.allocator (l.program.library env.dl) l.heap hy
    obtain ⟨symbol, hsymbol, haddress⟩ := h z.1 (mem_drop_afterLoad.mpr ⟨z, hz, rfl⟩)
    have hz' : (afterLoad elf env l p).heap.lookup z.1 = some z.2 := lookup_loadedSymbols hz
    rw [hz', Option.some.injEq] at hsymbol
    rw [← hsymbol, heq, address_symbol] at haddress
    exact haddress
  · intro h x hx
    obtain ⟨z, hz, rfl⟩ := mem_drop_afterLoad.mp hx
    obtain ⟨y, hy, heq⟩ := exists_of_mem_newSymbols hz
    refine ⟨z.2, lookup_loadedSymbols hz, ?_⟩
    rw [heq, address_symbol]
    exact h y hy

/-- **A load is all or nothing** if and only if it is refused, or every defined symbol can be
stored, the symbol table can be read and every exported symbol has an address. -/
theorem atomicLoad_iff (elf : ElfReader) (env : LoadEnv) (executable agent codeObject : ℕ)
    (s : ExecutableState) :
    AtomicLoad elf env executable agent codeObject s ↔
      ∀ e p, Accepts s executable agent codeObject e p → Loads elf env.dl e p ∧
        ∀ y ∈ codeExports elf p.toFinalizedProgram, addressIn (p.library env.dl) y.1 ≠ 0 := by
  constructor
  · rintro ⟨status, s', hcall, hsuccess, -⟩ e p haccepts
    obtain ⟨hloads, rfl, p', hp', rfl⟩ := load_accepted haccepts hcall
    refine ⟨hloads, (addresses_afterLoad (l := s.loading e p) (p := p')).mp ?_⟩
    exact hsuccess rfl e _ haccepts.executable (Function.update_self ..)
  · intro h
    by_cases haccepts : ∃ e p, Accepts s executable agent codeObject e p
    · obtain ⟨e, p, haccepts⟩ := haccepts
      obtain ⟨hloads, haddresses⟩ := h e p haccepts
      obtain ⟨p', hp', hload⟩ := loadCodeObject_eq (l := s.loading e p) hloads
      refine ⟨.success, s.loaded executable codeObject (afterLoad elf env (s.loading e p) p'),
        ?_, ?_, fun hne => absurd rfl hne⟩
      · rw [load_of_accepts haccepts, hload]
        rfl
      · intro _ e₁ e₂ he₁ he₂
        rw [haccepts.executable, Option.some.injEq] at he₁
        rcases update_eq_some he₂ with ⟨-, rfl⟩ | ⟨hne, -⟩
        · rw [← he₁]
          exact (addresses_afterLoad (l := s.loading e p)).mpr haddresses
        · exact absurd rfl hne
    · simp only [not_exists] at haccepts
      obtain ⟨status, herror, hrefused⟩ := load_of_not_accepts elf env haccepts
      exact ⟨status, s, hrefused, fun hsuccess => absurd hsuccess herror, fun _ => ⟨rfl, rfl⟩⟩

/-- An image without a symbol table. -/
theorem not_atomicLoad_without_symbolTable :
    ¬ AtomicLoad (fun _ => some ⟨1, []⟩) (libraryEnv fun _ => none) 1 0 2
      (oneExecutable 1 2 (.create 0 false) variableProgram) := by
  rintro ⟨status, s', hcall, -⟩
  have hfault : (oneExecutable 1 2 (.create 0 false) variableProgram).hsaExecutableLoadCodeObject
      (fun _ => some ⟨1, []⟩) (libraryEnv fun _ => none) 1 0 2 = .error .nullPointer := rfl
  rw [hfault] at hcall
  cases hcall

end PhsaRuntime
