import PhsaRuntime.Objects.Moves

/-!
# The symbols and their code objects

A symbol is made by a load, for an entry of the symbol table of a code object, and belongs to that
code object from then on: it is deleted with it, and not before. The executables that list it and
the other code objects do not matter. The address of a symbol is what the open library of its code
object has under its name, or 0, with which a load registers it that cannot open the library.

## Main results

* `symbolsBacked_of_reachable` — every symbol has the code object that it was made for.
* `Owned.invoked`, `Owned.not_mem_of_destroys` — which calls a symbol outlives.
-/

namespace PhsaRuntime

variable {elf : ElfReader} {s s' : ObjectState} {call : ObjectCall} {status : HsaStatus}

/-! ## Who the symbols belong to -/

/-- The symbol at `x` was made for the entry `name` of the symbol table of the code object, and
belongs to it. -/
structure Backs (elf : ElfReader) (p : CodeObject) (name : SymbolName) (info x : ℕ)
    (symbol : Symbol) : Prop where
  owned : x ∈ p.symbols
  entry : (name, info) ∈ registrableEntries p.toFinalizedProgram
    ((symbolTable elf p.toFinalizedProgram).getD [])
  registered : RegisteredAs p.toFinalizedProgram name info x symbol.address symbol
  /-- The address is 0, or the open library has the name there. -/
  address : symbol.address = 0 ∨ ∃ library, p.dlhandle = some library ∧
    library (stripAmpersand name) = some symbol.address

/-- Every symbol belongs to one code object, which backs it. -/
structure SymbolsBacked (elf : ElfReader) (s : ObjectState) : Prop where
  backed : ∀ x symbol, s.heap.lookup x = some symbol → ∃ codeObject p name info,
    s.codeObjects codeObject = some p ∧ Backs elf p name info x symbol
  owner : ∀ c c' p p' x, s.codeObjects c = some p → s.codeObjects c' = some p' →
    x ∈ p.symbols → x ∈ p'.symbols → c = c'
  registered : ∀ c p, s.codeObjects c = some p → ∀ x ∈ p.symbols, x ∈ s.heap

section Backs

variable {dl : DynamicLoader} {p p' : CodeObject} {q q' : FinalizedProgram} {name : SymbolName}
  {info x address : ℕ} {symbol : Symbol} {env : LoadEnv} {y : ℕ × Symbol} {t : ExecutableState}
  {e : Executable}

theorem RegisteredAs.address_eq (h : RegisteredAs q name info x address symbol) :
    symbol.address = address := by
  cases h <;> rfl

theorem describes_congr (h : q'.funcDescriptors = q.funcDescriptors) :
    Describes q' name = Describes q name := by
  funext d
  rw [Describes, Describes, FinalizedProgram.findDescriptor, FinalizedProgram.findDescriptor, h]

theorem RegisteredAs.congr (hq : q'.funcDescriptors = q.funcDescriptors)
    (h : RegisteredAs q name info x address symbol) :
    RegisteredAs q' name info x address symbol := by
  have hsame : Describes q' name = Describes q name := describes_congr hq
  cases h with
  | kernel hd => exact .kernel (by rwa [hsame])
  | phsaKernel hd hname => exact .phsaKernel (by rwa [hsame]) hname
  | object hd hname hinfo => exact .object (by rwa [hsame]) hname hinfo

theorem registrable_congr (h : q'.funcDescriptors = q.funcDescriptors) :
    Registrable q' name info ↔ Registrable q name info := by
  have hsame : Describes q' name = Describes q name := describes_congr h
  constructor <;> intro hr
  · exact ⟨hr.ne_nil, hr.visible, by simpa [hsame] using hr.kind⟩
  · exact ⟨hr.ne_nil, hr.visible, by simpa [hsame] using hr.kind⟩

/-- The table of a program is that of its image and its descriptors. -/
theorem Opened.entries (h : Opened dl p p') :
    registrableEntries p'.toFinalizedProgram ((symbolTable elf p'.toFinalizedProgram).getD []) =
      registrableEntries p.toFinalizedProgram
        ((symbolTable elf p.toFinalizedProgram).getD []) := by
  rw [symbolTable, symbolTable, h.elfBlob]
  simp only [registrableEntries, registrable_congr h.funcDescriptors]

/-- A code object backs its symbols after a load, too. -/
theorem Backs.opened (h : Backs elf p name info x symbol) (hopened : Opened dl p p')
    (howned : x ∈ p'.symbols) : Backs elf p' name info x symbol where
  owned := howned
  entry := by
    rw [hopened.entries]
    exact h.entry
  registered := h.registered.congr hopened.funcDescriptors
  address := by
    rcases h.address with hzero | ⟨library, hlibrary, hfind⟩
    · exact .inl hzero
    · exact .inr ⟨library, hopened.keeps hlibrary, hfind⟩

/-- The entry that a new symbol was made for. -/
theorem exists_entry_of_mem_loadedSymbols {l : Loading} (hy : y ∈ loadedSymbols elf env l) :
    ∃ name info, (name, info) ∈ registrableEntries l.program.toFinalizedProgram
        ((symbolTable elf l.program.toFinalizedProgram).getD []) ∧
      RegisteredAs l.program.toFinalizedProgram name info y.1
        (addressIn (l.program.library env.dl) name) y.2 := by
  have hregistered := forall₂_newSymbols env.allocator (l.program.library env.dl)
    l.program.toFinalizedProgram ((symbolTable elf l.program.toFinalizedProgram).getD []) l.heap
  obtain ⟨i, hi, rfl⟩ := List.mem_iff_getElem.mp hy
  have hi' := hregistered.length_eq.symm ▸ hi
  exact ⟨_, _, List.getElem_mem hi', hregistered.get hi' hi⟩

/-- The code object that is loaded backs the new symbols. -/
theorem backs_of_mem_loadedSymbols (hopened : Opened env.dl p p')
    (hsymbols : p'.symbols = p.symbols ++
      (loadedSymbols elf env (t.loading e p)).map Prod.fst)
    (hy : y ∈ loadedSymbols elf env (t.loading e p)) :
    ∃ name info, Backs elf p' name info y.1 y.2 := by
  obtain ⟨name, info, hentry, hregistered⟩ := exists_entry_of_mem_loadedSymbols hy
  have haddress : y.2.address = addressIn (p.library env.dl) name := hregistered.address_eq
  have hmem : y.1 ∈ (loadedSymbols elf env (t.loading e p)).map Prod.fst :=
    List.mem_map_of_mem hy
  have hdlhandle : p'.dlhandle = p.library env.dl := by
    rcases hopened.dlhandle with h | ⟨-, h⟩
    · exact h
    · rw [h, List.self_eq_append_right] at hsymbols
      rw [hsymbols] at hmem
      cases hmem
  refine ⟨name, info, ?_, ?_, ?_, ?_⟩
  · rw [hsymbols]
    exact List.mem_append_right _ hmem
  · rw [hopened.entries]
    exact hentry
  · rw [haddress]
    exact hregistered.congr hopened.funcDescriptors
  · rw [haddress, hdlhandle, addressIn]
    cases p.library env.dl with
    | none => exact .inl rfl
    | some library =>
      cases hfind : library (stripAmpersand name) with
      | none => exact .inl (by simp [hfind])
      | some a => exact .inr ⟨library, rfl, by simp [hfind]⟩

/-- The addresses of the new symbols are not in use. -/
theorem not_mem_of_mem_loadedSymbols
    (hx : x ∈ (loadedSymbols elf env (t.loading e p)).map Prod.fst) : x ∉ t.heap := by
  obtain ⟨z, hz, rfl⟩ := List.mem_map.mp hx
  exact (fresh_of_mem_newSymbols hz).1

end Backs

namespace SymbolsBacked

/-- The symbol of a live code object is one that it backs. -/
theorem exists_backs (h : SymbolsBacked elf s) {codeObject x : ℕ} {p : CodeObject}
    {symbol : Symbol} (hp : s.codeObjects codeObject = some p) (hx : x ∈ p.symbols)
    (hsymbol : s.heap.lookup x = some symbol) : ∃ name info, Backs elf p name info x symbol := by
  obtain ⟨c, q, name, info, hq, hbacks⟩ := h.backed x symbol hsymbol
  obtain rfl := h.owner _ _ _ _ x hp hq hx hbacks.owned
  obtain rfl := Option.some.inj (hp.symm.trans hq)
  exact ⟨name, info, hbacks⟩

/-- A new code object has no symbols. -/
theorem made (h : SymbolsBacked elf s) {x : ℕ} {p : CodeObject} (hfree : s.codeObjects x = none)
    (hsymbols : p.symbols = [])
    (hcode : s'.codeObjects = Function.update s.codeObjects x (some p))
    (hheap : s'.heap = s.heap) : SymbolsBacked elf s' := by
  constructor
  case backed =>
    intro y symbol hy
    rw [hheap] at hy
    obtain ⟨c, q, name, info, hq, hbacks⟩ := h.backed y symbol hy
    have hne : c ≠ x := by
      rintro rfl
      rw [hfree] at hq
      cases hq
    exact ⟨c, q, name, info, by rw [hcode, Function.update_of_ne hne, hq], hbacks⟩
  case owner =>
    intro c c' q q' y hq hq' hy hy'
    rw [hcode] at hq hq'
    rcases update_eq_some hq with ⟨-, rfl⟩ | ⟨-, hq⟩
    · simp [hsymbols] at hy
    · rcases update_eq_some hq' with ⟨-, rfl⟩ | ⟨-, hq'⟩
      · simp [hsymbols] at hy'
      · exact h.owner c c' q q' y hq hq' hy hy'
  case registered =>
    intro c q hq y hy
    rw [hcode] at hq
    rw [hheap]
    rcases update_eq_some hq with ⟨-, rfl⟩ | ⟨-, hq⟩
    · simp [hsymbols] at hy
    · exact h.registered c q hq y hy

/-- The new symbols of a load belong to the code object that is loaded. -/
theorem loaded (h : SymbolsBacked elf s) {env : LoadEnv} {codeObject : ℕ} {e : Executable}
    {p p' : CodeObject} (hp : s.codeObjects codeObject = some p) (hopened : Opened env.dl p p')
    (hsymbols : p'.symbols = p.symbols ++
      (loadedSymbols elf env (s.toExecutables.loading e p)).map Prod.fst)
    (hcode : s'.codeObjects = Function.update s.codeObjects codeObject (some p'))
    (hheap : s'.heap = insertAll s.heap (loadedSymbols elf env (s.toExecutables.loading e p))) :
    SymbolsBacked elf s' := by
  have hself : s'.codeObjects codeObject = some p' := by rw [hcode, Function.update_self]
  have hnew : ∀ y, y ∈ (loadedSymbols elf env (s.toExecutables.loading e p)).map Prod.fst →
      y ∉ s.heap := fun _ => not_mem_of_mem_loadedSymbols
  -- an old symbol that the program has now, it had before
  have hold : ∀ c q y, s'.codeObjects c = some q → y ∈ q.symbols → y ∈ s.heap →
      ∃ q₀, s.codeObjects c = some q₀ ∧ y ∈ q₀.symbols := by
    intro c q y hq hy hmem
    rw [hcode] at hq
    rcases update_eq_some hq with ⟨rfl, rfl⟩ | ⟨-, hq⟩
    · rw [hsymbols, List.mem_append] at hy
      exact ⟨p, hp, hy.resolve_right fun hy => hnew y hy hmem⟩
    · exact ⟨q, hq, hy⟩
  have hlater : ∀ c q y, s'.codeObjects c = some q → y ∈ q.symbols → y ∉ s.heap →
      c = codeObject := by
    intro c q y hq hy hmem
    rw [hcode] at hq
    rcases update_eq_some hq with ⟨rfl, -⟩ | ⟨-, hq⟩
    · rfl
    · exact absurd (h.registered c q hq y hy) hmem
  constructor
  case backed =>
    intro y symbol hy
    rw [hheap] at hy
    rcases mem_of_lookup_insertAll hy with hmem | hy
    · obtain ⟨name, info, hbacks⟩ := backs_of_mem_loadedSymbols hopened hsymbols hmem
      exact ⟨codeObject, p', name, info, hself, hbacks⟩
    · obtain ⟨c, q, name, info, hq, hbacks⟩ := h.backed y symbol hy
      by_cases hc : c = codeObject
      · subst hc
        obtain rfl := Option.some.inj (hp.symm.trans hq)
        refine ⟨c, p', name, info, hself, hbacks.opened hopened ?_⟩
        rw [hsymbols]
        exact List.mem_append_left _ hbacks.owned
      · exact ⟨c, q, name, info, by rw [hcode, Function.update_of_ne hc, hq], hbacks⟩
  case owner =>
    intro c c' q q' y hq hq' hy hy'
    by_cases hmem : y ∈ s.heap
    · obtain ⟨q₀, hq₀, hy₀⟩ := hold c q y hq hy hmem
      obtain ⟨q₁, hq₁, hy₁⟩ := hold c' q' y hq' hy' hmem
      exact h.owner c c' q₀ q₁ y hq₀ hq₁ hy₀ hy₁
    · rw [hlater c q y hq hy hmem, hlater c' q' y hq' hy' hmem]
  case registered =>
    intro c q hq y hy
    rw [hheap, mem_insertAll]
    rw [hcode] at hq
    rcases update_eq_some hq with ⟨-, rfl⟩ | ⟨-, hq⟩
    · rw [hsymbols, List.mem_append] at hy
      exact hy.imp (h.registered codeObject p hp y) id
    · exact .inl (h.registered c q hq y hy)

/-- The symbols of a code object go with it. -/
theorem destroyed (h : SymbolsBacked elf s) {codeObject : ℕ} {p : CodeObject}
    (hp : s.codeObjects codeObject = some p)
    (hcode : s'.codeObjects = Function.update s.codeObjects codeObject none)
    (hheap : s'.heap = p.symbols.foldl (fun heap symbol => heap.erase symbol) s.heap) :
    SymbolsBacked elf s' := by
  constructor
  case backed =>
    intro y symbol hy
    rw [hheap, lookup_foldl_erase] at hy
    split at hy
    · cases hy
    · rename_i hnot
      obtain ⟨c, q, name, info, hq, hbacks⟩ := h.backed y symbol hy
      have hne : c ≠ codeObject := by
        rintro rfl
        obtain rfl := Option.some.inj (hp.symm.trans hq)
        exact hnot hbacks.owned
      exact ⟨c, q, name, info, by rw [hcode, Function.update_of_ne hne, hq], hbacks⟩
  case owner =>
    intro c c' q q' y hq hq' hy hy'
    rw [hcode] at hq hq'
    exact h.owner c c' q q' y (update_none_eq_some hq).2 (update_none_eq_some hq').2 hy hy'
  case registered =>
    intro c q hq y hy
    rw [hcode] at hq
    obtain ⟨hne, hq⟩ := update_none_eq_some hq
    have hnot : y ∉ p.symbols := fun hmem => hne (h.owner _ _ _ _ y hq hp hy hmem)
    rw [hheap, ← AList.lookup_isSome, lookup_foldl_erase, if_neg hnot, AList.lookup_isSome]
    exact h.registered c q hq y hy

/-- **The invariant is kept by every call.** -/
theorem move (h : SymbolsBacked elf s) (hmove : SymbolMove elf s call s') :
    SymbolsBacked elf s' := by
  cases hmove with
  | same _ _ hcode hheap _ =>
    constructor
    case backed => rw [hcode, hheap]; exact h.backed
    case owner => rw [hcode]; exact h.owner
    case registered => rw [hcode, hheap]; exact h.registered
  | made _ _ x p hfree hsymbols hcode hheap _ => exact h.made hfree hsymbols hcode hheap
  | loaded env executable agent codeObject _ e p p' haccepts hopened hsymbols hcode hheap _ =>
    exact h.loaded haccepts.program hopened hsymbols hcode hheap
  | destroyed codeObject _ p hp hcode hheap _ => exact h.destroyed hp hcode hheap
  | ended _ _ hcode hheap =>
    constructor
    case backed => simp [hheap]
    case owner => simp [hcode]
    case registered => simp [hcode]

/-- At first there are no symbols. -/
theorem init (hcode : s.codeObjects = fun _ => none) (hheap : s.heap = ∅) :
    SymbolsBacked elf s where
  backed := by simp [hheap]
  owner := by simp [hcode]
  registered := by simp [hcode]

end SymbolsBacked

/-- **Every symbol has the code object that it was made for.** -/
theorem symbolsBacked_of_reachable (h : (objectMachine elf).Reachable Machine.always s) :
    SymbolsBacked elf s := by
  refine h.induction ?_ ?_
  · rintro s ⟨-, -, hcode, -, hheap⟩
    exact .init hcode hheap
  · intro s call s' _ _ hstep ih
    obtain ⟨⟨status, t⟩, hcall, rfl⟩ := Option.map_eq_some_iff.mp hstep
    exact ih.move (ObjectState.symbolMove hcall)

/-! ## How long a symbol lives -/

/-- The symbol is at `x`, and belongs to the code object. -/
structure Owned (s : ObjectState) (codeObject x : ℕ) (symbol : Symbol) : Prop where
  lookup : s.heap.lookup x = some symbol
  owned : ∃ p, s.codeObjects codeObject = some p ∧ x ∈ p.symbols

section Owned

variable {codeObject x : ℕ} {symbol : Symbol}

/-- A code object is destroyed by the call for it, or with the runtime. -/
theorem ObjectState.destroys_codeObject
    (h : s.destroys elf call (.codeObject, codeObject) = true) :
    call = .codeObjectDestroy codeObject ∨ call = .shutDown ∧ s.referenceCounter = 1 := by
  simp only [destroys, Bool.decide_or, Bool.decide_and, Bool.or_eq_true, Bool.and_eq_true,
    decide_eq_true_eq] at h
  rcases h with ⟨hdestroyed, -⟩ | ⟨hlast, -⟩
  · left
    cases call with
    | codeObjectDestroy c => simpa [ObjectCall.destroyed] using hdestroyed
    | executable a => cases a <;> simp [ObjectCall.destroyed] at hdestroyed
    | _ => simp [ObjectCall.destroyed] at hdestroyed
  · right
    cases call with
    | shutDown => exact ⟨rfl, by simpa [releasesLast] using hlast⟩
    | _ => cases hlast

/-- The destruction of the code object ends its symbols. -/
theorem Owned.not_mem_of_destroys (h : Owned s codeObject x symbol)
    (hcall : s.invoke elf call = some (status, s'))
    (hdestroys : s.destroys elf call (.codeObject, codeObject) = true) : x ∉ s'.heap := by
  rcases ObjectState.destroys_codeObject hdestroys with rfl | ⟨rfl, hone⟩
  · obtain ⟨p, hp, hx⟩ := h.owned
    obtain rfl : (s.hsaCodeObjectDestroy codeObject).2 = s' :=
      congrArg Prod.snd (Option.some.inj hcall)
    rw [← AList.lookup_eq_none, ObjectState.hsaCodeObjectDestroy, hp, lookup_foldl_erase,
      if_pos hx]
  · obtain rfl : s.hsaShutDown.2 = s' := congrArg Prod.snd (Option.some.inj hcall)
    simp [ObjectState.hsaShutDown, hone, ObjectState.deleteRuntime]

/-- No other call does. -/
theorem Owned.invoked (h : Owned s codeObject x symbol) (hs : SymbolsBacked elf s)
    (hcall : s.invoke elf call = some (status, s'))
    (hkeeps : s.destroys elf call (.codeObject, codeObject) = false) :
    Owned s' codeObject x symbol := by
  obtain ⟨p, hp, hx⟩ := h.owned
  cases ObjectState.symbolMove hcall with
  | same _ _ hcode hheap _ =>
    constructor
    case lookup => rw [hheap, h.lookup]
    case owned => exact ⟨p, by rw [hcode, hp], hx⟩
  | made _ _ y q hfree _ hcode hheap _ =>
    have hne : codeObject ≠ y := by
      rintro rfl
      rw [hfree] at hp
      cases hp
    constructor
    case lookup => rw [hheap, h.lookup]
    case owned => exact ⟨p, by rw [hcode, Function.update_of_ne hne, hp], hx⟩
  | loaded env executable agent c _ e q q' haccepts hopened hsymbols hcode hheap _ =>
    have hmem : x ∈ s.heap := AList.lookup_isSome.mp (by simp [h.lookup])
    have hold : x ∉ (loadedSymbols elf env (s.toExecutables.loading e q)).map Prod.fst :=
      fun hnew => not_mem_of_mem_loadedSymbols hnew hmem
    constructor
    case lookup => rw [hheap, lookup_insertAll_of_notMem hold, h.lookup]
    case owned =>
      by_cases hc : codeObject = c
      · subst hc
        obtain rfl := Option.some.inj (hp.symm.trans haccepts.program)
        refine ⟨q', by rw [hcode, Function.update_self], ?_⟩
        rw [hsymbols]
        exact List.mem_append_left _ hx
      · exact ⟨p, by rw [hcode, Function.update_of_ne hc, hp], hx⟩
  | destroyed c _ q hq hcode hheap _ =>
    have hne : codeObject ≠ c := by
      rintro rfl
      simp [ObjectState.destroys, ObjectCall.destroyed, ObjectState.succeeds, ObjectState.invoke,
        ObjectState.hsaCodeObjectDestroy, hp] at hkeeps
    have hnot : x ∉ q.symbols := fun hmem => hne (hs.owner _ _ _ _ x hp hq hx hmem)
    constructor
    case lookup => rw [hheap, lookup_foldl_erase, if_neg hnot, h.lookup]
    case owned => exact ⟨p, by rw [hcode, Function.update_of_ne hne, hp], hx⟩
  | ended _ hlast _ _ =>
    simp [ObjectState.destroys, ObjectState.releasesLast, hlast] at hkeeps

end Owned

end PhsaRuntime
