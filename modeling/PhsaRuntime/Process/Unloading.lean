import PhsaRuntime.Process.Kernels

/-!
# The libraries under the worker

`~DLFinalizedProgram` closes the library of a code object. `hsa_code_object_destroy` does so
without a look at the worker, which may be in a kernel of that library. The last `hsa_shut_down`
waits for the worker first.

The source calls this safe because an application may destroy a code object only after the
executables that it was loaded into, and these only while no kernel of theirs is in flight. Here
these are conditions on the steps of the application.

## Main results

* `never_unloaded_iff` — when the worker's kernel stays loaded all the time.
* `never_unloaded_of_ordered` — the argument of the source.
-/

namespace PhsaRuntime

open Machine

variable {Q C : Type} [DecidableEq Q] [DecidableEq C] {elf : ElfReader} {cfg : Q → Config}
  {s s' : ProcessState Q C} {a : ProcessAction Q C}
  {ok : ProcessState Q C → ProcessAction Q C → Prop}

namespace ProcessState

/-- The kernel that the worker has looked up and not left. -/
def held (s : ProcessState Q C) : Option (Handle × Symbol) := s.found.join.or s.running

/-- The worker has no kernel, or one whose symbol is there, and whose code object lives and has the
kernel at this address of its open library, or at the address 0. -/
def Mapped (elf : ElfReader) (s : ProcessState Q C) : Prop :=
  ∀ x symbol, s.held = some (x, symbol) → s.objects.heap.lookup x = some symbol ∧
    ∃ codeObject p name info, s.objects.codeObjects codeObject = some p ∧
      Backs elf p name info x symbol

/-- The step destroys the code object of the kernel that the worker has. -/
def unloads (s : ProcessState Q C) : ProcessAction Q C → Bool
  | .call (.codeObjectDestroy codeObject) => s.held.any fun kernel =>
      (s.objects.codeObjects codeObject).any fun p => decide (kernel.1 ∈ p.symbols)
  | _ => false

end ProcessState

omit [DecidableEq Q] [DecidableEq C] in
theorem mapped_iff (h : SymbolsBacked elf s.objects) : s.Mapped elf ↔
    ∀ x symbol, s.held = some (x, symbol) → ∃ codeObject, Owned s.objects codeObject x symbol := by
  constructor
  · intro hmapped x symbol hheld
    obtain ⟨hlookup, codeObject, p, name, info, hp, hbacks⟩ := hmapped x symbol hheld
    exact ⟨codeObject, hlookup, p, hp, hbacks.owned⟩
  · intro howned x symbol hheld
    obtain ⟨codeObject, hlookup, p, hp, hx⟩ := howned x symbol hheld
    obtain ⟨name, info, hbacks⟩ := h.exists_backs hp hx hlookup
    exact ⟨hlookup, codeObject, p, name, info, hp, hbacks⟩

/-! ## One step -/

theorem isExited_of_held {x : Handle × Symbol} (hinv : ProcessInv cfg s)
    (h : s.held = some x) : s.agent.worker.isExited = false := by
  cases hfound : s.found with
  | some y =>
    obtain ⟨p, hp, -⟩ := hinv.found y hfound
    exact isExited_of_packet hp
  | none =>
    have hrunning : s.running = some x := by simpa [ProcessState.held, hfound] using h
    exact Worker.isExited_of_inKernel (hinv.running (by simp [hrunning]))

/-- A step that is not a lookup gives the worker no other kernel. -/
theorem held_step {x : Handle × Symbol} (hs : (kernelMachine C elf cfg).step a s = some s')
    (ha : a ≠ .lookup) (h : s'.held = some x) : s.held = some x := by
  cases processMove hs with
  | init | invoked => exact h
  | lookup => exact absurd rfl ha
  | agent b g hadmits hstep =>
    cases b with
    | worker r =>
      have hcalls : s.calls (.worker r) = some x := h
      simp [ProcessState.held, (calls_eq_some hcalls).1]
    | deliver => cases h
    | _ => exact h

/-- A lookup gives it the kernel that is at the handle of its packet. -/
theorem held_lookup {x : Handle × Symbol}
    (hs : (kernelMachine C elf cfg).step .lookup s = some s') (h : s'.held = some x) :
    (∃ p, s.packet = some p ∧ s.objects.kernelAt p.kernelObject = some x) ∨ s.held = some x := by
  cases processMove hs with
  | lookup p hfound hpacket =>
    cases hkernel : s.objects.kernelAt p.kernelObject with
    | some y =>
      obtain rfl : y = x := by simpa [ProcessState.held, hkernel] using h
      exact .inl ⟨p, hpacket, hkernel⟩
    | none =>
      right
      simpa [ProcessState.held, hkernel, hfound] using h

/-- While the worker has a kernel, only the call for its code object ends its symbol. -/
theorem unloads_of_destroys {call : ObjectCall} {codeObject x : ℕ} {symbol : Symbol}
    (hinv : ProcessInv cfg s) (howned : Owned s.objects codeObject x symbol)
    (hheld : s.held = some (x, symbol)) (hreturns : s.Returns call)
    (hdestroys : s.objects.destroys elf call (.codeObject, codeObject) = true) :
    s.unloads (.call call) = true := by
  rcases ObjectState.destroys_codeObject hdestroys with rfl | ⟨rfl, hone⟩
  · obtain ⟨p, hp, hx⟩ := howned.owned
    simp [ProcessState.unloads, hheld, hp, hx]
  · have hin := isExited_of_held hinv hheld
    rw [hreturns hone] at hin
    cases hin

/-- **A step keeps the library open**, unless it destroys the code object. -/
theorem ProcessState.Mapped.step (h : s.Mapped elf) (hr : (kernelMachine C elf cfg).Reachable ok s)
    (hs : (kernelMachine C elf cfg).step a s = some s') (hkeeps : s.unloads a = false) :
    s'.Mapped elf := by
  have hbacked := symbolsBacked_of_process hr
  have hbacked' : SymbolsBacked elf s'.objects := by
    rcases objects_step hs with ⟨call, status, -, hcall⟩ | ⟨-, hheap, hcode⟩
    · exact hbacked.move (ObjectState.symbolMove hcall)
    · exact hbacked.move (.same .shutDown _ hcode hheap (by simp [ObjectCall.counts]))
  rw [mapped_iff hbacked] at h
  rw [mapped_iff hbacked']
  intro x symbol hheld
  have hkept : ∀ codeObject, Owned s.objects codeObject x symbol →
      s.destroysCode elf codeObject a = false →
        ∃ codeObject, Owned s'.objects codeObject x symbol :=
    fun codeObject howned hdestroys => ⟨codeObject, howned.step hr hs hdestroys⟩
  cases a with
  | lookup =>
    rcases held_lookup hs hheld with ⟨p, -, hkernel⟩ | hheld
    · obtain ⟨rfl, hlookup, -⟩ := ObjectState.kernelAt_eq_some_iff.mp hkernel
      obtain ⟨codeObject, q, name, info, hq, hbacks⟩ := hbacked.backed _ _ hlookup
      exact hkept codeObject ⟨hlookup, q, hq, hbacks.owned⟩ rfl
    · obtain ⟨codeObject, howned⟩ := h x symbol hheld
      exact hkept codeObject howned rfl
  | init | agent =>
    obtain ⟨codeObject, howned⟩ := h x symbol (held_step hs (by simp) hheld)
    exact hkept codeObject howned rfl
  | call call =>
    have hbefore := held_step hs (by simp) hheld
    obtain ⟨codeObject, howned⟩ := h x symbol hbefore
    refine hkept codeObject howned ?_
    rw [← Bool.not_eq_true]
    intro hdestroys
    cases processMove hs with
    | invoked _ status objects hreturns hcall =>
      have hunloads := unloads_of_destroys (processInv_of_reachable hr) howned hbefore hreturns
        hdestroys
      rw [hkeeps] at hunloads
      cases hunloads

/-- The step that destroys the code object leaves the worker with a library that is closed. -/
theorem ProcessState.Mapped.not_mapped_step (h : s.Mapped elf)
    (hr : (kernelMachine C elf cfg).Reachable ok s)
    (hs : (kernelMachine C elf cfg).step a s = some s') (hunloads : s.unloads a = true) :
    ¬ s'.Mapped elf := by
  rw [mapped_iff (symbolsBacked_of_process hr)] at h
  cases processMove hs with
  | init | lookup | agent => cases hunloads
  | invoked call status objects hreturns hcall =>
    cases call with
    | codeObjectDestroy codeObject =>
      obtain ⟨⟨x, symbol⟩, hheld, hany⟩ := (Option.any_eq_true _ _).mp hunloads
      obtain ⟨p, hp, hmem⟩ := (Option.any_eq_true _ _).mp hany
      have hx : x ∈ p.symbols := of_decide_eq_true hmem
      obtain ⟨c, howned⟩ := h x symbol hheld
      have howned' : Owned s.objects codeObject x symbol := ⟨howned.lookup, p, hp, hx⟩
      have hgone : x ∉ objects.heap := howned'.not_mem_step hs
        (by simp [ProcessState.destroysCode, ObjectState.destroys, ObjectCall.destroyed,
          ObjectState.succeeds, ObjectState.invoke, ObjectState.hsaCodeObjectDestroy, hp])
      intro hmapped
      obtain ⟨hlookup, -⟩ := hmapped x symbol hheld
      exact hgone (AList.lookup_isSome.mp (by rw [hlookup]; rfl))
    | _ => cases hunloads

/-! ## Runs -/

/-- **The library of the kernel** that the worker has looked up and not left is open in all states
of a run if and only if no step destroys its code object. -/
theorem never_unloaded_iff {tr : List (ProcessState Q C × ProcessAction Q C)}
    (hrun : (kernelMachine C elf cfg).Run tr s) :
    (∀ t ∈ states tr s, t.Mapped elf) ↔ ∀ step ∈ tr, step.1.unloads step.2 = false := by
  induction hrun with
  | init hinit =>
    obtain ⟨-, -, -, hfound, hrunning⟩ := hinit
    simp [states, ProcessState.Mapped, ProcessState.held, hfound, hrunning]
  | @step tr s s' a hrun hs ih =>
    have hstates : states ((s, a) :: tr) s' = s' :: states tr s := rfl
    rw [hstates, List.forall_mem_cons, List.forall_mem_cons, ih]
    constructor
    · intro h
      have hmapped : s.Mapped elf := ih.mpr h.2 s List.mem_cons_self
      refine ⟨?_, h.2⟩
      rw [← Bool.not_eq_true]
      exact fun hunloads => hmapped.not_mapped_step hrun.reachable hs hunloads h.1
    · intro h
      have hmapped : s.Mapped elf := ih.mpr h.2 s List.mem_cons_self
      exact ⟨hmapped.step hrun.reachable hs h.1, h.2⟩

/-- A step destroys the code object of the kernel that the worker has. -/
def Kernels.hasUnloaded (tr : List (ProcessState Unit Unit × ProcessAction Unit Unit))
    (_ : ProcessState Unit Unit) : Bool :=
  tr.any fun step => step.1.unloads step.2

/-- The code object of the kernel `k` is destroyed while the worker is in it. -/
theorem never_unloaded_unloaded : ∃ tr, ∃ s : ProcessState Unit Unit,
    (kernelMachine Unit (fun _ => some kernelImage) Exec.config).Run tr s ∧
      ¬ ∀ t ∈ states tr s, t.Mapped (fun _ => some kernelImage) := by
  obtain ⟨tr, s, hrun, hp⟩ := exists_run_of_trace
    (kernelMachine Unit (fun _ => some kernelImage) Exec.config)
    (Kernels.load ++ Kernels.dispatch ++ [.call (.codeObjectDestroy 2)]) Kernels.hasUnloaded
    Kernels.init_start (by decide +kernel)
  obtain ⟨step, hstep, hunloads⟩ := List.any_eq_true.mp hp
  refine ⟨tr, s, hrun, ?_⟩
  rw [never_unloaded_iff hrun]
  intro hkeeps
  rw [hkeeps step hstep] at hunloads
  cases hunloads

/-! ## The order that the source expects -/

/-- A live executable lists the symbol. -/
def ObjectState.Listed (s : ObjectState) (x : ℕ) : Prop :=
  ∃ executable e, s.executables executable = some e ∧ x ∈ e.symbols

namespace ProcessState

/-- The step keeps the order in which objects may be destroyed: a code object after the executables
that list its symbols, an executable while the worker has no kernel of it, and no packet names a
kernel after its executable has been destroyed. -/
def Ordered (s : ProcessState Q C) : ProcessAction Q C → Prop
  | .call (.codeObjectDestroy codeObject) => ∀ p, s.objects.codeObjects codeObject = some p →
      ∀ x ∈ p.symbols, ¬ s.objects.Listed x
  | .call (.executable (.destroy executable)) => ∀ e, s.objects.executables executable = some e →
      ∀ kernel, s.held = some kernel → kernel.1 ∉ e.symbols
  | .lookup => ∀ p, s.packet = some p → ∀ kernel, s.objects.kernelAt p.kernelObject = some kernel →
      s.objects.Listed kernel.1
  | _ => True

/-- The kernel that the worker has belongs to a live executable. -/
def HoldsListed (s : ProcessState Q C) : Prop :=
  ∀ kernel, s.held = some kernel → s.objects.Listed kernel.1

end ProcessState

omit [DecidableEq Q] [DecidableEq C] in
theorem unloads_of_ordered (h : s.HoldsListed) (ha : s.Ordered a) : s.unloads a = false := by
  rw [← Bool.not_eq_true]
  intro hunloads
  cases a with
  | init | lookup | agent => cases hunloads
  | call call =>
    cases call with
    | codeObjectDestroy codeObject =>
      obtain ⟨kernel, hheld, hany⟩ := (Option.any_eq_true _ _).mp hunloads
      obtain ⟨p, hp, hmem⟩ := (Option.any_eq_true _ _).mp hany
      exact ha p hp kernel.1 (of_decide_eq_true hmem) (h kernel hheld)
    | _ => cases hunloads

/-- An executable lists its symbols until it is destroyed. -/
theorem listed_step {x : ℕ} (h : s.objects.Listed x)
    (hs : (kernelMachine C elf cfg).step a s = some s')
    (hkeeps : ∀ executable e, a = .call (.executable (.destroy executable)) →
      s.objects.executables executable = some e → x ∉ e.symbols) : s'.objects.Listed x := by
  obtain ⟨executable, e, he, hx⟩ := h
  cases processMove hs with
  | lookup | agent => exact ⟨executable, e, he, hx⟩
  | init agents buffer signal hreleasing =>
    have hinit : s.objects.invoke elf (.init agents) = some (s.objects.hsaInit agents) := rfl
    have hsame := ObjectState.executables_invoke hinit (by simp)
    exact ⟨executable, e, by rw [← he]; exact congrFun hsame executable, hx⟩
  | invoked call status objects hreturns hcall =>
    have hnot : call ≠ .executable (.destroy executable) := by
      rintro rfl
      exact hkeeps executable e rfl he hx
    obtain ⟨e', he', hsubset⟩ := ObjectState.symbols_subset_invoke hcall he hnot
    exact ⟨executable, e', he', hsubset hx⟩

theorem ProcessState.HoldsListed.step (h : s.HoldsListed) (ha : s.Ordered a)
    (hs : (kernelMachine C elf cfg).step a s = some s') : s'.HoldsListed := by
  intro kernel hheld
  by_cases hlookup : a = .lookup
  · subst hlookup
    have hlisted : s.objects.Listed kernel.1 := by
      rcases held_lookup hs hheld with ⟨p, hpacket, hkernel⟩ | hheld
      · exact ha p hpacket kernel hkernel
      · exact h kernel hheld
    exact listed_step hlisted hs fun _ _ heq => by cases heq
  · have hbefore := held_step hs hlookup hheld
    refine listed_step (h kernel hbefore) hs ?_
    rintro executable e rfl he
    exact ha e he kernel hbefore

/-- **The argument of the source.** If the application keeps this order, then the library of the
kernel that the worker has looked up and not left is always open, although
`hsa_code_object_destroy` checks nothing. -/
theorem never_unloaded_of_ordered
    (h : (kernelMachine C elf cfg).Reachable ProcessState.Ordered s) : s.Mapped elf := by
  have hboth : s.HoldsListed ∧ s.Mapped elf := by
    refine h.induction (P := fun s => s.HoldsListed ∧ s.Mapped elf) ?_ ?_
    · rintro s ⟨-, -, -, hfound, hrunning⟩
      simp [ProcessState.HoldsListed, ProcessState.Mapped, ProcessState.held, hfound, hrunning]
    · rintro s a s' hr ha hs ⟨hlisted, hmapped⟩
      exact ⟨hlisted.step ha hs, hmapped.step hr hs (unloads_of_ordered hlisted ha)⟩
  exact hboth.2

namespace Kernels

/-- The executable at the address 1 lists the kernel that is looked up. No objects are destroyed. -/
def isOrdered (s : ProcessState Unit Unit) : ProcessAction Unit Unit → Bool
  | .call (.codeObjectDestroy _) | .call (.executable (.destroy _)) => false
  | .lookup => s.packet.all fun p => (s.objects.kernelAt p.kernelObject).all fun kernel =>
      (s.objects.executables 1).any fun e => decide (kernel.1 ∈ e.symbols)
  | _ => true

theorem ordered_of_isOrdered {s : ProcessState Unit Unit} {a : ProcessAction Unit Unit}
    (h : isOrdered s a = true) : s.Ordered a := by
  cases a with
  | init | agent => trivial
  | lookup =>
    intro p hpacket kernel hkernel
    have hall := (Option.all_eq_true _ _).mp h p hpacket
    have hany := (Option.all_eq_true _ _).mp hall kernel hkernel
    obtain ⟨e, he, hmem⟩ := (Option.any_eq_true _ _).mp hany
    exact ⟨1, e, he, of_decide_eq_true hmem⟩
  | call call =>
    cases call with
    | codeObjectDestroy => cases h
    | executable b => cases b <;> trivial
    | _ => trivial

/-- All steps are ordered, and the worker is in a kernel. -/
def isOrderedRun (tr : List (ProcessState Unit Unit × ProcessAction Unit Unit))
    (s : ProcessState Unit Unit) : Bool :=
  (tr.all fun step => isOrdered step.1 step.2) && s.running.isSome

end Kernels

/-- The kernel `k` is running. -/
theorem never_unloaded_of_ordered_kernel : ∃ s : ProcessState Unit Unit,
    s.running.isSome ∧ s.Mapped (fun _ => some kernelImage) := by
  obtain ⟨tr, s, hrun, hp⟩ := exists_run_of_trace
    (kernelMachine Unit (fun _ => some kernelImage) Exec.config)
    (Kernels.load ++ Kernels.dispatch) Kernels.isOrderedRun Kernels.init_start (by decide +kernel)
  obtain ⟨hall, hsome⟩ := Bool.and_eq_true_iff.mp hp
  refine ⟨s, hsome, never_unloaded_of_ordered ⟨tr, hrun, fun step hstep => ?_⟩⟩
  exact Kernels.ordered_of_isOrdered (List.all_eq_true.mp hall step hstep)

end PhsaRuntime
