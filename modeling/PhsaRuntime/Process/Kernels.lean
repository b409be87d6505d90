import PhsaRuntime.Execute.Dispatch
import PhsaRuntime.Objects.DeadHandles
import PhsaRuntime.Process.Invariant
import PhsaRuntime.Scan.PacketId

/-!
# The kernels that the worker calls

A packet names its kernel by a handle, which may be any number. What the worker calls is a function
that a code object exports, as long as the code object lives: executables come and go without
changing what a kernel object stands for.

## Main results

* `launches_backed` — what the worker calls.
* `kernelObject_good` — how long a kernel object is good.
-/

namespace PhsaRuntime

open Machine

variable {Q C : Type} [DecidableEq Q] [DecidableEq C] {elf : ElfReader} {cfg : Q → Config}
  {s s' : ProcessState Q C} {a : ProcessAction Q C}
  {ok : ProcessState Q C → ProcessAction Q C → Prop}

/-! ## What is called -/

/-- The kernel is the function `name` that the code object exports: its descriptor says that it is a
kernel, and gives the segment of the arguments, or it is told by its name. -/
structure KernelOf (elf : ElfReader) (p : CodeObject) (name : SymbolName) (k : Kernel) : Prop where
  exported : ∃ info, (name, info) ∈ registrableEntries p.toFinalizedProgram
    ((symbolTable elf p.toFinalizedProgram).getD [])
  kernarg : (∃ d, Describes p.toFinalizedProgram name d ∧
      k.kernargSegmentSize = d.kernargSegmentSize ∧
      k.kernargSegmentAlignment = max 16 d.kernargMaxAlign) ∨
    ((∀ d, ¬ Describes p.toFinalizedProgram name d) ∧ ExtendsPHSAKernel name ∧
      k.kernargSegmentSize = 2048 ∧ k.kernargSegmentAlignment = 1)
  /-- The address is 0, or the open library has the function there. -/
  address : k.address = 0 ∨ ∃ library, p.dlhandle = some library ∧
    library (stripAmpersand name) = some k.address

theorem Backs.kernelOf {p : CodeObject} {name : SymbolName} {info x : ℕ} {symbol : Symbol}
    {k : Kernel} (h : Backs elf p name info x symbol) (hk : symbol.kernel = some k) :
    KernelOf elf p name k := by
  have hregistered := h.registered
  have haddress := h.address
  generalize symbol.address = address at hregistered haddress
  cases hregistered with
  | @kernel d hd =>
    have halign : 0 < max 16 d.kernargMaxAlign := by omega
    simp only [Symbol.kernel, halign, dif_pos, Option.some.injEq] at hk
    subst hk
    exact ⟨⟨info, h.entry⟩, .inl ⟨d, hd, rfl, rfl⟩, haddress⟩
  | phsaKernel hd hname =>
    simp only [Symbol.kernel, Nat.one_pos, dif_pos, Option.some.injEq] at hk
    subst hk
    exact ⟨⟨info, h.entry⟩, .inr ⟨hd, hname, rfl, rfl⟩, haddress⟩
  | object => cases hk

/-- A kernel object is the handle of a kernel that a live code object exports. -/
theorem SymbolsBacked.exists_kernelOf {s : ObjectState} (h : SymbolsBacked elf s) {handle : Handle}
    {k : Kernel} (hk : s.kernel handle = some k) :
    ∃ codeObject p name, s.codeObjects codeObject = some p ∧ KernelOf elf p name k := by
  obtain ⟨found, hfound, hk⟩ := Option.bind_eq_some_iff.mp hk
  obtain ⟨-, hlookup, -⟩ := ObjectState.kernelAt_eq_some_iff.mp hfound
  obtain ⟨codeObject, p, name, info, hp, hbacks⟩ := h.backed handle found.2 hlookup
  exact ⟨codeObject, p, name, hp, hbacks.kernelOf hk⟩

theorem kernel_of_dispatch {kernel : Option Kernel} {groupMemory : Option ℕ} {p : AQLPacket}
    {k : Kernel} (h : dispatch kernel groupMemory p = .launch k) : kernel = some k := by
  simp only [dispatch] at h
  split at h
  · rename_i k' hk
    cases h
    exact (Option.filter_eq_some_iff.mp hk).1
  · split_ifs at h

/-- The launch that a step adds to the history of the queue `q`. -/
theorem exists_launch {g g' : ExecState Q C} {b : ExecAction Q C} {q : Q}
    (hr : (executeMachine C cfg).Reachable always g)
    (hstep : (executeMachine C cfg).step b g = some g')
    (hmore : (g.memory.queue q).history.launches.length <
      (g'.memory.queue q).history.launches.length) :
    ∃ r l k f slot completion groupMemory, b = .worker r ∧
      AtStep g q (.launch f slot completion groupMemory) ∧
      (g'.memory.queue q).history.launches = (g.memory.queue q).history.launches ++ [l] ∧
      l.data.dp = (g.memory.queue q).packetBuffer slot ∧
      dispatch (r.kernel l.data.dp.kernelObject) l.groupMemory l.data.dp = .launch k := by
  have hmove := memoryMove hstep
  generalize g'.memory = m' at hmove hmore ⊢
  generalize g'.worker = w' at hmove
  cases hmove with
  | control | deliver | other => exact absurd hmore (lt_irrefl _)
  | environment e _ he =>
    rcases (externalMove he).queue_cases q with heq | ⟨p, -, hp⟩
    · rw [heq] at hmore
      exact absurd hmore (lt_irrefl _)
    · rw [(Queue.producerStep_frame (ringInv_of_reachable hr q) hp).launches] at hmore
      exact absurd hmore (lt_irrefl _)
  | work r q' rest job _ p hw hp =>
    cases jobMove hp with
    | op => exact absurd hmore (lt_irrefl _)
    | scan closing pc pc' queue hwork =>
      by_cases hq : q = q'
      · subst hq
        simp only [Function.update_self] at hmore ⊢
        rcases workerStep_launches hwork with
          ⟨-, hsame⟩ | ⟨f, slot, completion, groupMemory, l, rfl, -⟩
        · rw [hsame] at hmore
          exact absurd hmore (lt_irrefl _)
        · cases launchMove_step hwork with
          | aligned k hk =>
            exact ⟨r, _, k, f, slot, completion, groupMemory, rfl, ⟨rest, closing, hw⟩, rfl, rfl,
              hk⟩
          | moved k buffer hk =>
            exact ⟨r, _, k, f, slot, completion, groupMemory, rfl, ⟨rest, closing, hw⟩, rfl, rfl,
              hk⟩
          | aborted | callback => exact absurd hmore (lt_irrefl _)
      · simp only [Function.update_of_ne hq] at hmore
        exact absurd hmore (lt_irrefl _)

/-- What the worker has found, it has found in an earlier state, when it was at the same packet. -/
theorem exists_lookup {tr : List (ProcessState Q C × ProcessAction Q C)} {x : Handle × Symbol}
    (hrun : (kernelMachine C elf cfg).Run tr s) (hfound : s.found = some (some x)) :
    ∃ t ∈ states tr s, t.packet = s.packet ∧ t.objects.kernelAt x.1 = some x := by
  induction hrun with
  | init hinit =>
    obtain ⟨-, -, -, hnone, -⟩ := hinit
    rw [hnone] at hfound
    cases hfound
  | @step tr s s' a hrun hs ih =>
    have hstates : states ((s, a) :: tr) s' = s' :: states tr s := rfl
    rw [hstates]
    have hinv := processInv_of_reachable hrun.reachable
    -- as long as the worker has not used it, it stays at the packet
    have hbefore : s.found = some (some x) → s'.packet = s.packet →
        ∃ t ∈ s' :: states tr s, t.packet = s'.packet ∧ t.objects.kernelAt x.1 = some x := by
      intro hfound hpacket
      obtain ⟨t, ht, hsame, hx⟩ := ih hfound
      exact ⟨t, List.mem_cons_of_mem _ ht, hsame.trans hpacket.symm, hx⟩
    cases processMove hs with
    | init agents buffer signal hreleasing =>
      obtain ⟨p, hp, -⟩ := hinv.found _ hfound
      have hcounter : s.objects.referenceCounter ≠ 0 := by
        intro hzero
        have hexited := hinv.absent hzero
        simp [isExited_of_packet hp] at hexited
      have hagent : (s.init agents buffer signal).agent = s.agent := if_neg hcounter
      exact hbefore hfound (by rw [ProcessState.packet, hagent, ProcessState.packet])
    | invoked call status objects => exact hbefore hfound rfl
    | lookup p hnone hpacket =>
      have hkernel : s.objects.kernelAt p.kernelObject = some x := Option.some.inj hfound
      obtain ⟨hhandle, -⟩ := ObjectState.kernelAt_eq_some_iff.mp hkernel
      exact ⟨s, List.mem_cons_of_mem _ List.mem_cons_self, rfl, by rw [hhandle, hkernel]⟩
    | agent b g hadmits hstep =>
      cases b with
      | worker | deliver => cases hfound
      | _ =>
        obtain ⟨p, hp, -⟩ := hinv.found _ hfound
        have hagent := hinv.agent (isInitialized_of_admits hadmits)
        exact hbefore hfound ((packet_others hagent rfl rfl hstep hp).trans hp.symm)

/-- **What the worker calls.** Whatever the packets of a queue contain, a launch that is added to
its history is the call of a kernel that the worker has looked up in an earlier state, when it was
at the same packet, and a code object that was live then exports that kernel. -/
theorem launches_backed {tr : List (ProcessState Q C × ProcessAction Q C)}
    (hrun : (kernelMachine C elf cfg).Run tr s)
    (hs : (kernelMachine C elf cfg).step a s = some s') {q : Q}
    (hmore : (s.agent.memory.queue q).history.launches.length <
      (s'.agent.memory.queue q).history.launches.length) :
    ∃ l k, (s'.agent.memory.queue q).history.launches =
        (s.agent.memory.queue q).history.launches ++ [l] ∧ s.kernel = some k ∧
      ∃ t ∈ states tr s, t.packet = some l.data.dp ∧
        t.objects.kernel l.data.dp.kernelObject = some k ∧
        ∃ codeObject p name, t.objects.codeObjects codeObject = some p ∧
          KernelOf elf p name k := by
  cases processMove hs with
  | init agents buffer signal =>
    by_cases hzero : s.objects.referenceCounter = 0
    · simp [ProcessState.init, hzero, AgentState.start, ProcessState.newMemory,
        Queue.create] at hmore
    · simp [ProcessState.init, hzero] at hmore
  | invoked | lookup => exact absurd hmore (lt_irrefl _)
  | agent b g hadmits hstep =>
    have hinv := processInv_of_reachable hrun.reachable
    have hr := hinv.agent (isInitialized_of_admits hadmits)
    obtain ⟨r, l, k, f, slot, completion, groupMemory, hb, hstep', hlaunches, hdp, hk⟩ :=
      exists_launch hr hstep hmore
    have hlooked : r.kernel l.data.dp.kernelObject = s.kernel := by
      cases b <;> simp only [ProcessState.lookedUp, AgentAction.worker.injEq, reduceCtorEq] at hb
      rw [← hb]
    have hkernel := hlooked ▸ kernel_of_dispatch hk
    obtain ⟨x, hx, hxk⟩ := Option.bind_eq_some_iff.mp hkernel
    have hfound := Option.join_eq_some_iff.mp hx
    have hpacket : s.packet = some l.data.dp :=
      packet_eq_some_iff.mpr ⟨q, f, slot, completion, groupMemory, hstep', hdp.symm⟩
    obtain ⟨p, hp, hhandle⟩ := hinv.found _ hfound
    obtain rfl := Option.some.inj (hpacket.symm.trans hp)
    obtain ⟨t, ht, hsame, hat⟩ := exists_lookup hrun hfound
    rw [hhandle x rfl] at hat
    have htk : t.objects.kernel l.data.dp.kernelObject = some k := by
      rw [ObjectState.kernel, hat, Option.bind_some, hxk]
    have hreachable : (kernelMachine C elf cfg).Reachable always t :=
      hrun.reachable_of_mem_states (fun _ _ => trivial) ht
    exact ⟨l, k, hlaunches, hkernel, t, ht, hsame.trans hpacket, htk,
      (symbolsBacked_of_process hreachable).exists_kernelOf htk⟩

namespace Kernels

/-- Each library has the symbol table of `kernelImage`, and a descriptor of the kernel `k`. -/
def host : Host where
  libelf := fun _ => some ⟨1, [⟨"phsa.desc.k", smallKernel⟩]⟩
  tempDir := some "/tmp"
  newAddress := 2

/-- A process at its start. -/
def start : ProcessState Unit Unit where
  objects := noObjects
  agent := { Exec.start Unit Unit (fun _ => none) with worker := .exited }
  found := none
  running := none

theorem init_start : (kernelMachine Unit (fun _ => some kernelImage) Exec.config).init start :=
  ⟨init_noObjects _, rfl, rfl, rfl, rfl⟩

/-- The kernel `k` is loaded, and gets the handle 1. -/
def load : List (ProcessAction Unit Unit) :=
  [.init (fun _ => true) (fun _ _ => Scan.emptyPacket) (fun _ => none),
    .call (.codeObjectDeserialize host (fun _ => 0) 1 1 1),
    .call (.executable (.create 1 0 false 8)),
    .call (.executable (.load (libraryEnv fun _ => some 64) 1 0 2))]

/-- A packet for the kernel `k` is submitted, and the worker gets to it. -/
def dispatch : List (ProcessAction Unit Unit) :=
  .agent (.register ()) ::
    (Exec.submit () 0 { Scan.emptyPacket with kernelObject := 1 } ++ Exec.work 20).map .agent ++
    [.lookup, .agent (.worker Exec.reply)]

/-- The last step has added a launch. -/
def hasLaunched (tr : List (ProcessState Unit Unit × ProcessAction Unit Unit))
    (s : ProcessState Unit Unit) : Bool :=
  tr.head?.any fun step => (step.1.agent.memory.queue ()).history.launches.length <
    (s.agent.memory.queue ()).history.launches.length

end Kernels

/-- The kernel of a library is launched. -/
theorem launches_backed_kernel : ∃ tr, ∃ s s' : ProcessState Unit Unit,
    (kernelMachine Unit (fun _ => some kernelImage) Exec.config).Run tr s ∧
    ∃ l k, (s'.agent.memory.queue ()).history.launches =
        (s.agent.memory.queue ()).history.launches ++ [l] ∧ s.kernel = some k ∧
      ∃ t ∈ states tr s, t.packet = some l.data.dp ∧
        t.objects.kernel l.data.dp.kernelObject = some k ∧
        ∃ codeObject p name, t.objects.codeObjects codeObject = some p ∧
          KernelOf (fun _ => some kernelImage) p name k := by
  obtain ⟨tr, s', hrun, hp⟩ := exists_run_of_trace
    (kernelMachine Unit (fun _ => some kernelImage) Exec.config)
    (Kernels.load ++ Kernels.dispatch) Kernels.hasLaunched Kernels.init_start (by decide +kernel)
  cases hrun with
  | init => simp [Kernels.hasLaunched] at hp
  | @step tr s _ a hrun hstep =>
    have hmore : (s.agent.memory.queue ()).history.launches.length <
        (s'.agent.memory.queue ()).history.launches.length := by
      simpa [Kernels.hasLaunched] using hp
    exact ⟨tr, s, s', hrun, launches_backed hrun hstep hmore⟩

/-! ## How long a kernel object is good -/

/-- `hsa_executable_symbol_get_info` says that the symbol is a kernel, and what its object is. -/
structure IsKernelObject (s : ObjectState) (symbol kernelObject : ℕ) : Prop where
  type : ∃ value, s.toExecutables.hsaExecutableSymbolGetInfo symbol .type value =
    (.success, some 1)
  kernelObject : ∃ value, s.toExecutables.hsaExecutableSymbolGetInfo symbol .kernelObject value =
    (.success, some kernelObject)

/-- The dispatch packet is as the source wants it, apart from its kernel. -/
def AQLPacket.Valid (p : AQLPacket) (groupMemory : Option ℕ) : Prop :=
  (hasIterations p && areDimensionsValid p && isPacketTypeValid p.header &&
    validGroupMemory p groupMemory) = true

namespace ProcessState

/-- The step destroys the code object. -/
def destroysCode (elf : ElfReader) (s : ProcessState Q C) (codeObject : ℕ) :
    ProcessAction Q C → Bool
  | .call call => s.objects.destroys elf call (.codeObject, codeObject)
  | _ => false

/-- The step registers a new symbol at the address. -/
def registers (elf : ElfReader) (s : ProcessState Q C) (x : ℕ) : ProcessAction Q C → Bool
  | .call call => x ∉ s.objects.heap ∧
      (s.objects.invoke elf call).any fun r => decide (x ∈ r.2.heap)
  | _ => false

end ProcessState

section Owned

variable {codeObject x : ℕ} {symbol : Symbol}

theorem Owned.step (h : Owned s.objects codeObject x symbol)
    (hr : (kernelMachine C elf cfg).Reachable ok s)
    (hs : (kernelMachine C elf cfg).step a s = some s')
    (hkeeps : s.destroysCode elf codeObject a = false) :
    Owned s'.objects codeObject x symbol := by
  rcases objects_step hs with ⟨call, status, rfl, hcall⟩ | ⟨-, hheap, hcode⟩
  · exact h.invoked (symbolsBacked_of_process hr) hcall hkeeps
  · constructor
    case lookup => rw [hheap, h.lookup]
    case owned => rw [hcode]; exact h.owned

theorem Owned.not_mem_step (h : Owned s.objects codeObject x symbol)
    (hs : (kernelMachine C elf cfg).step a s = some s')
    (hdestroys : s.destroysCode elf codeObject a = true) : x ∉ s'.objects.heap := by
  rcases objects_step hs with ⟨call, status, rfl, hcall⟩ | ⟨hnot, -⟩
  · exact h.not_mem_of_destroys hcall hdestroys
  · cases a with
    | call call => exact absurd rfl (hnot call)
    | init | lookup | agent => cases hdestroys

/-- What is gone comes back by a registration only. -/
theorem not_mem_step (h : x ∉ s.objects.heap)
    (hs : (kernelMachine C elf cfg).step a s = some s') (hnew : s.registers elf x a = false) :
    x ∉ s'.objects.heap := by
  rcases objects_step hs with ⟨call, status, rfl, hcall⟩ | ⟨-, hheap, -⟩
  · simpa [ProcessState.registers, h, hcall] using hnew
  · rwa [hheap]

/-- **How long a symbol lives**, along any run. -/
theorem owned_run {tr : List (ProcessState Q C × ProcessAction Q C)} {t : ProcessState Q C}
    (hr : (kernelMachine C elf cfg).Reachable always s)
    (h : Owned s.objects codeObject x symbol)
    (hrun : ((kernelMachine C elf cfg).startingAt s).Run tr t) :
    (kernelMachine C elf cfg).Reachable always t ∧
      ((∀ step ∈ tr, step.1.destroysCode elf codeObject step.2 = false) →
        Owned t.objects codeObject x symbol) ∧
      ((∃ step ∈ tr, step.1.destroysCode elf codeObject step.2 = true) →
        (∀ step ∈ tr, step.1.registers elf x step.2 = false) → x ∉ t.objects.heap) := by
  induction hrun with
  | init heq =>
    obtain rfl := heq
    exact ⟨hr, fun _ => h, fun hex => by simp at hex⟩
  | @step tr t t' a hrun hs ih =>
    obtain ⟨ht, hkept, hgone⟩ := ih
    have hs' : (kernelMachine C elf cfg).step a t = some t' := hs
    refine ⟨ht.step trivial hs', fun hkeeps => ?_, fun hdestroys hnew => ?_⟩
    · have howned := hkept fun step hstep => hkeeps step (List.mem_cons_of_mem _ hstep)
      exact howned.step ht hs' (hkeeps (t, a) List.mem_cons_self)
    · by_cases hbefore : ∃ step ∈ tr, step.1.destroysCode elf codeObject step.2 = true
      · have hnot := hgone hbefore fun step hstep => hnew step (List.mem_cons_of_mem _ hstep)
        exact not_mem_step hnot hs' (hnew (t, a) List.mem_cons_self)
      · -- the last step is the one
        simp only [not_exists, not_and, Bool.not_eq_true] at hbefore
        obtain ⟨step, hstep, hlast⟩ := hdestroys
        rcases List.mem_cons.mp hstep with rfl | hstep
        · exact (hkept hbefore).not_mem_step hs' hlast
        · simp [hbefore step hstep] at hlast

end Owned

theorem dispatch_of_valid {p : AQLPacket} {groupMemory : Option ℕ} (h : p.Valid groupMemory)
    (kernel : Option Kernel) : dispatch kernel groupMemory p =
      match kernel with
      | some k => .launch k
      | none => .callback .errorInvalidCodeObject := by
  have hall := h
  simp only [AQLPacket.Valid, Bool.and_eq_true] at hall
  obtain ⟨⟨⟨-, hdimensions⟩, htype⟩, hmemory⟩ := hall
  cases kernel with
  | none => simp [dispatch, htype, hdimensions, hmemory]
  | some k =>
    have hcondition : (hasIterations p && areDimensionsValid p && isPacketTypeValid p.header &&
        validGroupMemory p groupMemory) = true := h
    simp only [dispatch, Option.filter, hcondition, if_true]

/-- The object of a kernel is its handle. -/
theorem RegisteredAs.kernel_of_type {p : FinalizedProgram} {name : SymbolName}
    {info x address : ℕ} {v : Symbol} (h : RegisteredAs p name info x address v)
    (htype : v.info .type = some 1) :
    (∃ k, v.kernel = some k) ∧ v.info .kernelObject = some x := by
  cases h with
  | @kernel d hd =>
    have halign : 0 < max 16 d.kernargMaxAlign := by omega
    exact ⟨⟨_, dif_pos halign⟩, rfl⟩
  | phsaKernel hd hname => exact ⟨⟨_, rfl⟩, rfl⟩
  | object => simp [Symbol.info] at htype

theorem lookup_of_symbolGetInfo {s : ExecutableState} {symbol value v : ℕ} {info : SymbolInfo}
    (h : s.hsaExecutableSymbolGetInfo symbol info value = (.success, some v)) :
    ∃ y, s.heap.lookup symbol = some y ∧ y.info info = some v := by
  simp only [ExecutableState.hsaExecutableSymbolGetInfo] at h
  split at h
  · cases h
  · split at h
    · cases h
    · split at h
      · cases h
      · rename_i y hy
        exact ⟨y, hy, congrArg Prod.snd h⟩

/-- The worker finds a kernel under its object. -/
theorem SymbolsBacked.exists_owned {s : ObjectState} (h : SymbolsBacked elf s)
    {symbol kernelObject : ℕ} (ho : IsKernelObject s symbol kernelObject) :
    ∃ codeObject p name k v, s.codeObjects codeObject = some p ∧ KernelOf elf p name k ∧
      Owned s codeObject kernelObject v ∧ v.kernel = some k := by
  obtain ⟨value, htype⟩ := ho.type
  obtain ⟨value', hobject⟩ := ho.kernelObject
  obtain ⟨v, hv, htype⟩ := lookup_of_symbolGetInfo htype
  obtain ⟨v', hv', hobject⟩ := lookup_of_symbolGetInfo hobject
  obtain rfl := Option.some.inj (hv.symm.trans hv')
  obtain ⟨codeObject, p, name, info, hp, hbacks⟩ := h.backed symbol v hv
  obtain ⟨⟨k, hk⟩, hself⟩ := hbacks.registered.kernel_of_type htype
  obtain rfl : symbol = kernelObject := Option.some.inj (hself.symm.trans hobject)
  exact ⟨codeObject, p, name, k, v, hp, hbacks.kernelOf hk, ⟨hv, p, hp, hbacks.owned⟩, hk⟩

/-- **How long a kernel object is good.** It stands for a kernel of one code object, and the worker
launches that kernel for what it looks up as long as the code object has not been destroyed,
whatever becomes of the executables. Afterwards the packets that name it are reported, until a load
gives the handle to a new symbol. -/
theorem kernelObject_good {symbol kernelObject : ℕ}
    (h : (kernelMachine C elf cfg).Reachable always s)
    (ho : IsKernelObject s.objects symbol kernelObject) :
    ∃ codeObject p name k, s.objects.codeObjects codeObject = some p ∧ KernelOf elf p name k ∧
      ∀ tr t, ((kernelMachine C elf cfg).startingAt s).Run tr t → ∀ packet groupMemory,
        packet.kernelObject = kernelObject → packet.Valid groupMemory →
          ((∀ step ∈ tr, step.1.destroysCode elf codeObject step.2 = false) →
            dispatch (t.objects.kernel packet.kernelObject) groupMemory packet = .launch k) ∧
          ((∃ step ∈ tr, step.1.destroysCode elf codeObject step.2 = true) →
            (∀ step ∈ tr, step.1.registers elf kernelObject step.2 = false) →
            dispatch (t.objects.kernel packet.kernelObject) groupMemory packet =
              .callback .errorInvalidCodeObject) := by
  obtain ⟨codeObject, p, name, k, v, hp, hkernel, howned, hk⟩ :=
    (symbolsBacked_of_process h).exists_owned ho
  refine ⟨codeObject, p, name, k, hp, hkernel, ?_⟩
  rintro tr t hrun packet groupMemory rfl hvalid
  obtain ⟨-, hkept, hgone⟩ := owned_run h howned hrun
  rw [dispatch_of_valid hvalid]
  constructor
  · intro hkeeps
    rw [ObjectState.kernel_of_lookup (hkept hkeeps).lookup, hk]
  · intro hdestroys hnew
    rw [ObjectState.kernel_of_lookup_none (AList.lookup_eq_none.mpr (hgone hdestroys hnew))]

namespace Kernels

/-- The handle 1 is that of a kernel. -/
def hasKernel (_ : List (ProcessState Unit Unit × ProcessAction Unit Unit))
    (s : ProcessState Unit Unit) : Bool :=
  s.objects.toExecutables.hsaExecutableSymbolGetInfo 1 .type 8 = (.success, some 1) ∧
    s.objects.toExecutables.hsaExecutableSymbolGetInfo 1 .kernelObject 8 = (.success, some 1)

end Kernels

/-- The object of the kernel `k`. -/
theorem kernelObject_good_kernel : ∃ s : ProcessState Unit Unit,
    IsKernelObject s.objects 1 1 ∧ ∃ codeObject p name k,
      s.objects.codeObjects codeObject = some p ∧ KernelOf (fun _ => some kernelImage) p name k ∧
      ∀ tr t, ((kernelMachine Unit (fun _ => some kernelImage) Exec.config).startingAt s).Run tr t →
        ∀ packet groupMemory, packet.kernelObject = 1 → packet.Valid groupMemory →
          ((∀ step ∈ tr, step.1.destroysCode (fun _ => some kernelImage) codeObject step.2 =
              false) →
            dispatch (t.objects.kernel packet.kernelObject) groupMemory packet = .launch k) ∧
          ((∃ step ∈ tr, step.1.destroysCode (fun _ => some kernelImage) codeObject step.2 =
              true) →
            (∀ step ∈ tr, step.1.registers (fun _ => some kernelImage) 1 step.2 = false) →
            dispatch (t.objects.kernel packet.kernelObject) groupMemory packet =
              .callback .errorInvalidCodeObject) := by
  obtain ⟨tr, s, hrun, hp⟩ := exists_run_of_trace
    (kernelMachine Unit (fun _ => some kernelImage) Exec.config) Kernels.load Kernels.hasKernel
    Kernels.init_start (by decide +kernel)
  obtain ⟨htype, hobject⟩ := of_decide_eq_true hp
  have ho : IsKernelObject s.objects 1 1 := ⟨⟨8, htype⟩, 8, hobject⟩
  exact ⟨s, ho, kernelObject_good hrun.reachable ho⟩

end PhsaRuntime
