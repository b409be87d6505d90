import PhsaRuntime.Executable.Effect
import PhsaRuntime.Packet

/-!
# What a load registers

A load goes over the symbol table once. A name of the compiler or of the linker is passed over; of
the others, a kernel is told by its descriptor, then by the prefix of its name, and a variable by
the type of its symbol.

## Main results

* `exportOf_eq_none_iff`, `registeredAs_of_exportOf` — the entries that are registered, and what
  as.
* `load_registers_exactly` — a load appends the symbols of these entries, in the order of the
  table, and every kernel that is ever registered has an alignment that is not zero.
-/

namespace PhsaRuntime

open Machine

/-! ## The entries that are registered -/

/-- The name has something behind `phsa_kernel.`. -/
def ExtendsPHSAKernel (name : SymbolName) : Prop :=
  phsaKernelPrefix <+: name ∧ name ≠ phsaKernelPrefix

instance (name : SymbolName) : Decidable (ExtendsPHSAKernel name) :=
  inferInstanceAs (Decidable (_ ∧ _))

/-- A name of the linker, or one of the compiler. -/
def Hidden (name : SymbolName) : Prop :=
  name ∈ internalSymbols ∨
    (7 < name.length ∧ '.' ∈ name ∧ ¬ gccbrigPrefix <+: name ∧ ¬ ExtendsPHSAKernel name)

instance (name : SymbolName) : Decidable (Hidden name) := inferInstanceAs (Decidable (_ ∨ _))

/-- The function has a descriptor, which says that it is a kernel. -/
def Describes (p : FinalizedProgram) (name : SymbolName) (d : Descriptor) : Prop :=
  p.findDescriptor (String.ofList name) = some d ∧ d.isKernel ≠ 0

/-- The entry of the table is that of a kernel or a variable, and its name is not hidden. -/
structure Registrable (p : FinalizedProgram) (name : SymbolName) (info : ℕ) : Prop where
  ne_nil : name ≠ []
  visible : ¬ Hidden name
  kind : (∃ d, Describes p name d) ∨ ExtendsPHSAKernel name ∨ info % 16 = sttObject

/-- What an entry is registered as: a kernel with a descriptor, a kernel without one, and a
variable, in this order. -/
inductive RegisteredAs (p : FinalizedProgram) (name : SymbolName) (info this address : ℕ) :
    Symbol → Prop
  | kernel {d : Descriptor} (hd : Describes p name d) : RegisteredAs p name info this address
      { name := '&' :: name
        detail := .kernel this address d.kernargSegmentSize (max 16 d.kernargMaxAlign)
          d.groupSegmentSize d.privateSegmentSize }
  | phsaKernel (hd : ∀ d, ¬ Describes p name d) (hname : ExtendsPHSAKernel name) :
      RegisteredAs p name info this address
        { name := '&' :: name, detail := .kernel this address 2048 1 0 0 }
  | object (hd : ∀ d, ¬ Describes p name d) (hname : ¬ ExtendsPHSAKernel name)
      (hinfo : info % 16 = sttObject) : RegisteredAs p name info this address
        { name := '&' :: name, detail := .variable address }

variable {p : FinalizedProgram} {name : SymbolName} {info this address : ℕ} {x : Export}
  {d : Descriptor}

theorem isPHSAKernel_iff : isPHSAKernel name = true ↔ ExtendsPHSAKernel name := by
  rw [isPHSAKernel, Bool.and_eq_true, decide_eq_true_eq, List.isPrefixOf_iff_prefix,
    ExtendsPHSAKernel, and_comm]
  apply and_congr_right
  intro hstart
  constructor
  · intro hlength heq
    rw [heq] at hlength
    exact Nat.lt_irrefl _ hlength
  · intro hne
    have hle := hstart.length_le
    have hlength : phsaKernelPrefix.length ≠ name.length := fun heq =>
      hne (hstart.eq_of_length heq).symm
    omega

theorem isHidden_iff : isHidden name = true ↔ name = [] ∨ Hidden name := by
  have hkernel : isPHSAKernel name = false ↔ ¬ ExtendsPHSAKernel name := by
    rw [← isPHSAKernel_iff, Bool.not_eq_true]
  have hprefix : gccbrigPrefix.isPrefixOf name = false ↔ ¬ gccbrigPrefix <+: name := by
    rw [← List.isPrefixOf_iff_prefix, Bool.not_eq_true]
  simp only [isHidden, Hidden, Bool.or_eq_true, Bool.and_eq_true, Bool.not_eq_true',
    decide_eq_true_eq, List.isEmpty_iff, hkernel, hprefix]
  tauto

theorem kernelDescriptor_eq_some : kernelDescriptor p name = some d ↔ Describes p name d := by
  rw [kernelDescriptor, Option.filter_eq_some_iff, decide_eq_true_eq, Describes]

theorem kernelDescriptor_eq_none :
    kernelDescriptor p name = none ↔ ∀ d, ¬ Describes p name d := by
  rw [Option.eq_none_iff_forall_ne_some]
  exact forall_congr' fun d => not_congr kernelDescriptor_eq_some

/-- **The entries that a load passes over.** -/
theorem exportOf_eq_none_iff : exportOf p name info = none ↔ ¬ Registrable p name info := by
  rw [exportOf]
  by_cases hhidden : isHidden name = true
  · rw [if_pos hhidden]
    refine iff_of_true rfl ?_
    intro h
    rcases isHidden_iff.mp hhidden with hnil | hhidden
    · exact h.ne_nil hnil
    · exact h.visible hhidden
  · rw [if_neg hhidden]
    rw [isHidden_iff, not_or] at hhidden
    cases hd : kernelDescriptor p name with
    | some d =>
      refine iff_of_false (by simp) ?_
      exact not_not.mpr ⟨hhidden.1, hhidden.2, .inl ⟨d, kernelDescriptor_eq_some.mp hd⟩⟩
    | none =>
      have hnone := kernelDescriptor_eq_none.mp hd
      by_cases hkernel : ExtendsPHSAKernel name
      · rw [if_pos (isPHSAKernel_iff.mpr hkernel)]
        exact iff_of_false (by simp) (not_not.mpr ⟨hhidden.1, hhidden.2, .inr (.inl hkernel)⟩)
      · have hnot : ¬ isPHSAKernel name = true := isPHSAKernel_iff.not.mpr hkernel
        by_cases hinfo : info % 16 = sttObject
        · simp only [if_neg hnot, if_pos hinfo]
          exact iff_of_false (by simp) (not_not.mpr ⟨hhidden.1, hhidden.2, .inr (.inr hinfo)⟩)
        · simp only [if_neg hnot, if_neg hinfo, true_iff]
          rintro ⟨-, -, ⟨d, hd⟩ | hname | hobject⟩
          · exact hnone d hd
          · exact hkernel hname
          · exact hinfo hobject

/-- **What the others are registered as.** -/
theorem registeredAs_of_exportOf (h : exportOf p name info = some x) :
    RegisteredAs p name info this address (x.symbol name this address) := by
  rw [exportOf] at h
  split at h
  · cases h
  · split at h
    · rename_i d hd
      obtain rfl := Option.some.inj h
      exact .kernel (kernelDescriptor_eq_some.mp hd)
    · rename_i hd
      have hnone := kernelDescriptor_eq_none.mp hd
      split at h
      · rename_i hkernel
        obtain rfl := Option.some.inj h
        exact .phsaKernel hnone (isPHSAKernel_iff.mp hkernel)
      · rename_i hkernel
        split at h
        · rename_i hinfo
          obtain rfl := Option.some.inj h
          exact .object hnone (isPHSAKernel_iff.not.mp hkernel) hinfo
        · cases h

instance (p : FinalizedProgram) (name : SymbolName) (info : ℕ) :
    Decidable (Registrable p name info) :=
  decidable_of_iff (exportOf p name info ≠ none) exportOf_eq_none_iff.not_left

/-! ## The symbols of a table -/

/-- The name and the type of each entry that is registered, in the order of the table. -/
def registrableEntries (p : FinalizedProgram) (table : List (Option ElfSymbol)) :
    List (SymbolName × ℕ) :=
  table.filterMap fun entry => entry.bind fun s => s.name.bind fun name =>
    if Registrable p name s.info then some (name, s.info) else none

/-- Each entry gives one symbol, in the order of the table. -/
theorem forall₂_newSymbols (allocator : Allocator) (library : Option Library)
    (p : FinalizedProgram) (table : List (Option ElfSymbol)) (heap : SymbolHeap) :
    List.Forall₂ (fun entry y => RegisteredAs p entry.1 entry.2 y.1 (addressIn library entry.1) y.2)
      (registrableEntries p table)
      (newSymbols allocator library (tableExports p table) heap) := by
  induction table generalizing heap with
  | nil => exact .nil
  | cons entry table ih =>
    rcases entry with _ | ⟨_ | name, info⟩
    · exact ih heap
    · exact ih heap
    · cases hx : exportOf p name info with
      | none =>
        have hentries : registrableEntries p (some ⟨some name, info⟩ :: table) =
            registrableEntries p table := by
          simp [registrableEntries, exportOf_eq_none_iff.mp hx]
        rw [hentries, tableExports_cons_of_none hx]
        exact ih heap
      | some x =>
        have hregistrable : Registrable p name info := by
          by_contra hnot
          rw [exportOf_eq_none_iff.mpr hnot] at hx
          cases hx
        have hentries : registrableEntries p (some ⟨some name, info⟩ :: table) =
            (name, info) :: registrableEntries p table := by
          simp [registrableEntries, hregistrable]
        rw [hentries, tableExports_cons_of_some hx, newSymbols]
        exact .cons (registeredAs_of_exportOf hx) (ih _)

/-! ## Loads -/

/-- The load into the executable has appended the symbols of the table of the code object, each
one new. -/
structure AppendsSymbols (elf : ElfReader) (env : LoadEnv) (s s' : ExecutableState) (e : Executable)
    (p : CodeObject) (e' : Executable) (news : List (ℕ × Symbol)) : Prop where
  symbols : e'.symbols = e.symbols ++ news.map Prod.fst
  registered : List.Forall₂
    (fun entry y => RegisteredAs p.toFinalizedProgram entry.1 entry.2 y.1
      (addressIn (p.library env.dl) entry.1) y.2)
    (registrableEntries p.toFinalizedProgram ((symbolTable elf p.toFinalizedProgram).getD [])) news
  stored : ∀ y ∈ news, s'.heap.lookup y.1 = some y.2
  fresh : ∀ y ∈ news, y.1 ∉ s.heap
  nodup : (news.map Prod.fst).Nodup

variable {elf : ElfReader} {env : LoadEnv} {s s' : ExecutableState}
  {executable agent codeObject : ℕ} {symbol : Symbol}

/-- A load that succeeds. -/
theorem appendsSymbols_of_load
    (h : s.hsaExecutableLoadCodeObject elf env executable agent codeObject = .ok (.success, s')) :
    ∃ e p e' news, s.executables executable = some e ∧ s.codeObjects codeObject = some p ∧
      (symbolTable elf p.toFinalizedProgram).isSome ∧ s'.executables executable = some e' ∧
      AppendsSymbols elf env s s' e p e' news := by
  by_cases haccepts : ∃ e p, Accepts s executable agent codeObject e p
  · obtain ⟨e, p, haccepts⟩ := haccepts
    obtain ⟨hloads, -, p', -, rfl⟩ := load_accepted haccepts h
    refine ⟨e, p, _, loadedSymbols elf env (s.loading e p), haccepts.executable,
      haccepts.program, hloads.table, Function.update_self .., ?_⟩
    constructor
    case symbols => rfl
    case registered => exact forall₂_newSymbols _ _ _ _ _
    case stored => exact fun y hy => lookup_loadedSymbols hy
    case fresh => exact fun y hy => (fresh_of_mem_newSymbols hy).1
    case nodup => exact nodup_newSymbols
  · simp only [not_exists] at haccepts
    obtain ⟨status, hstatus, hrefused⟩ := load_of_not_accepts elf env haccepts
    rw [hrefused] at h
    obtain ⟨rfl, -⟩ := Prod.mk.inj (Except.ok.inj h)
    exact absurd rfl hstatus

/-! ## Kernels -/

/-- The symbol is the kernel. -/
def Symbol.IsKernel (symbol : Symbol) (k : Kernel) : Prop :=
  ∃ object groupSegmentSize privateSegmentSize, symbol.detail =
    .kernel object k.address k.kernargSegmentSize k.kernargSegmentAlignment groupSegmentSize
      privateSegmentSize

/-- A kernel has an alignment that is not zero, so that it is one that a packet can be dispatched
to. -/
def Aligned (symbol : Symbol) : Prop :=
  (∃ address, symbol.detail = .variable address) ∨ ∃ k : Kernel, symbol.IsKernel k

theorem RegisteredAs.aligned (h : RegisteredAs p name info this address symbol) :
    Aligned symbol := by
  cases h with
  | @kernel d hd =>
    exact .inr ⟨⟨address, d.kernargSegmentSize, max 16 d.kernargMaxAlign, by omega⟩, _, _, _, rfl⟩
  | phsaKernel hd hname => exact .inr ⟨⟨address, 2048, 1, Nat.one_pos⟩, _, _, _, rfl⟩
  | object hd hname hinfo => exact .inl ⟨address, rfl⟩

/-- The symbols of a load are those of its table. -/
theorem aligned_of_mem_loadedSymbols {l : Loading} {y : ℕ × Symbol}
    (h : y ∈ loadedSymbols elf env l) : Aligned y.2 := by
  have hregistered := forall₂_newSymbols env.allocator (l.program.library env.dl)
    l.program.toFinalizedProgram ((symbolTable elf l.program.toFinalizedProgram).getD []) l.heap
  obtain ⟨i, hi, rfl⟩ := List.mem_iff_getElem.mp h
  have hlength := hregistered.length_eq
  exact (hregistered.get (by rw [hlength]; exact hi) hi).aligned

/-- **The kernels of a run.** -/
theorem aligned_of_reachable (h : (executableMachine elf).Reachable always s) :
    ∀ x symbol, s.heap.lookup x = some symbol → Aligned symbol := by
  refine h.induction (P := fun s => ∀ x symbol, s.heap.lookup x = some symbol → Aligned symbol)
    ?_ ?_
  · rintro s ⟨-, -, -, hheap⟩ x symbol hx
    simp [hheap] at hx
  · intro s a s' _ _ hstep haligned
    obtain ⟨status, -, heffect⟩ := step_effect hstep
    cases heffect with
    | unchanged | created | destroyed | madeCodeObject | frozen | defined => exact haligned
    | @loaded env executable agent codeObject e p p' _ _ _ =>
      intro x symbol hx
      rcases mem_of_lookup_insertAll hx with hnew | hold
      · exact aligned_of_mem_loadedSymbols hnew
      · exact haligned x symbol hold

/-- **A load registers exactly the symbols of the program.** It appends one symbol for each entry
of the table that is registered, in the order of the table; and every kernel that is registered in
a run has an alignment that is not zero. -/
theorem load_registers_exactly (elf : ElfReader) :
    (∀ (env : LoadEnv) (s s' : ExecutableState) (executable agent codeObject : ℕ),
      s.hsaExecutableLoadCodeObject elf env executable agent codeObject = .ok (.success, s') →
      ∃ e p e' news, s.executables executable = some e ∧ s.codeObjects codeObject = some p ∧
        (symbolTable elf p.toFinalizedProgram).isSome ∧ s'.executables executable = some e' ∧
        AppendsSymbols elf env s s' e p e' news) ∧
      ∀ s, (executableMachine elf).Reachable always s →
        ∀ x symbol, s.heap.lookup x = some symbol → Aligned symbol := by
  constructor
  · intro env s s' executable agent codeObject h
    exact appendsSymbols_of_load h
  · intro s h
    exact aligned_of_reachable h

/-- The descriptor of a kernel whose arguments are aligned to 4 bytes. -/
def smallKernel : Descriptor where
  isKernel := 1
  groupSegmentSize := 0
  privateSegmentSize := 8
  kernargSegmentSize := 24
  kernargMaxAlign := 4
  maxDynamicGroupSize := 0
  maxFlatGridSize := 0
  maxFlatWorkgroupSize := 0
  requiredGridSize := ⟨0, 0, 0⟩
  requiredWorkgroupSize := ⟨0, 0, 0⟩
  requiredDim := 0

/-- A program with the kernel `k`. -/
def kernelProgram : CodeObject :=
  { variableProgram with funcDescriptors := AList.insert "k" smallKernel ∅ }

/-- The kernel, a variable, and a clone that the compiler has made. -/
def kernelImage : ElfImage :=
  { version := 1
    sections := [{ shType := shtSymtab, shSize := 72, shEntsize := 24,
                   data := some [⟨some ['k'], 2⟩, ⟨some ['v'], sttObject⟩,
                     ⟨some "helper.part.0".toList, 2⟩] }] }

/-- A load of the program in a run. -/
theorem load_registers_exactly_kernel :
    ∃ s s', (executableMachine fun _ => some kernelImage).Reachable always s ∧
      (∃ e p e' news, s.executables 1 = some e ∧ s.codeObjects 2 = some p ∧
        (symbolTable (fun _ => some kernelImage) p.toFinalizedProgram).isSome ∧
        s'.executables 1 = some e' ∧
        AppendsSymbols (fun _ => some kernelImage) (libraryEnv fun _ => some 64) s s' e p e' news) ∧
      ∀ x symbol, s.heap.lookup x = some symbol → Aligned symbol := by
  obtain ⟨s, hreach, hs⟩ := exists_reachable_of_run
    (executableMachine fun _ => some kernelImage) always
    [.create 1 0 false 8, .newCodeObject 2 kernelProgram,
      .load (libraryEnv fun _ => some 64) 1 0 2]
    (fun s => (s.hsaExecutableLoadCodeObject (fun _ => some kernelImage)
      (libraryEnv fun _ => some 64) 1 0 2).toOption.any fun r => r.1 = .success)
    init_emptyState (by decide +kernel)
  obtain ⟨⟨status, s'⟩, hload, hstatus⟩ := (Option.any_eq_true _ _).mp hs
  obtain rfl : status = .success := of_decide_eq_true hstatus
  refine ⟨s, s', hreach, ?_, (load_registers_exactly _).2 s hreach⟩
  apply (load_registers_exactly _).1 _ s s' 1 0 2
  cases hcall : s.hsaExecutableLoadCodeObject (fun _ => some kernelImage)
      (libraryEnv fun _ => some 64) 1 0 2 with
  | error fault => simp [hcall, Except.toOption] at hload
  | ok r => simpa [hcall, Except.toOption] using hload

end PhsaRuntime
