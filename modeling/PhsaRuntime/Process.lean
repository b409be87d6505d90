import PhsaRuntime.Execute
import PhsaRuntime.Objects
import PhsaRuntime.Runtime

/-!
# The process

The objects of a process and the agent of its runtime in one machine. The worker looks the kernel
of a packet up among the symbols of the code objects, while other threads make, load and destroy
code objects.

The last `hsa_shut_down` sets `ShutDown`, waits until the worker has left, and then destroys the
objects. It owns `ReferenceCounterMutex` all the while, so that no `hsa_init` comes in between.
The worker looks up a kernel in one step, and decides on the packet and calls it in the next one.

## Main definitions

* `ProcessState.lookup` — what the worker finds under the kernel object of a packet.
* `kernelMachine` — all calls on objects, with all steps of the agent.
-/

namespace PhsaRuntime

/-- `dynamic_cast<Kernel *>`. The alignment of a kernel is never 0. -/
def Symbol.kernel (symbol : Symbol) : Option Kernel :=
  match symbol.detail with
  | .variable _ => none
  | .kernel _ address kernargSegmentSize kernargSegmentAlignment _ _ =>
    if alignment_pos : 0 < kernargSegmentAlignment then
      some { address, kernargSegmentSize, kernargSegmentAlignment, alignment_pos }
    else none

/-- `dynamic_cast<Kernel *>(Symbol::fromHandle(handle))`: the symbol, with its handle. -/
def ObjectState.kernelAt (s : ObjectState) (handle : Handle) : Option (Handle × Symbol) :=
  ((s.heap.lookup handle).filter fun symbol => symbol.kernel.isSome).map fun symbol =>
    (handle, symbol)

/-- The kernel at a handle. -/
def ObjectState.kernel (s : ObjectState) (handle : Handle) : Option Kernel :=
  (s.kernelAt handle).bind fun found => found.2.kernel

theorem ObjectState.kernelAt_eq_some_iff {s : ObjectState} {handle : Handle}
    {x : Handle × Symbol} : s.kernelAt handle = some x ↔
      x.1 = handle ∧ s.heap.lookup handle = some x.2 ∧ x.2.kernel.isSome := by
  obtain ⟨y, symbol⟩ := x
  simp only [kernelAt, Option.map_eq_some_iff, Option.filter_eq_some_iff, Prod.mk.injEq]
  constructor
  · rintro ⟨v, ⟨hlookup, hkernel⟩, rfl, rfl⟩
    exact ⟨rfl, hlookup, hkernel⟩
  · rintro ⟨rfl, hlookup, hkernel⟩
    exact ⟨symbol, ⟨hlookup, hkernel⟩, rfl, rfl⟩

theorem ObjectState.kernel_of_lookup {s : ObjectState} {handle : Handle} {symbol : Symbol}
    (h : s.heap.lookup handle = some symbol) : s.kernel handle = symbol.kernel := by
  rw [kernel, kernelAt, h]
  cases hkernel : symbol.kernel <;> simp [Option.filter, hkernel]

theorem ObjectState.kernel_of_lookup_none {s : ObjectState} {handle : Handle}
    (h : s.heap.lookup handle = none) : s.kernel handle = none := by
  rw [kernel, kernelAt, h]
  rfl

/-- The objects, and the agent. -/
structure ProcessState (Q C : Type) where
  objects : ObjectState
  agent : ExecState Q C
  /-- What the worker has found for its packet, as long as it has not used it. -/
  found : Option (Option (Handle × Symbol))
  /-- The kernel that the worker is in: the handle and the symbol that it was called by. -/
  running : Option (Handle × Symbol)

/-- The steps of a process. -/
inductive ProcessAction (Q C : Type)
  /-- `hsa_init`. A new runtime has the agents; the packet buffers of its queues have some contents,
  and the signals some values. -/
  | init (agents : ℕ → Bool) (buffer : Q → ℕ → AQLPacket) (signal : Handle → Option ℤ)
  /-- Any other call on objects. -/
  | call (call : ObjectCall)
  /-- The worker looks up the kernel of its packet. -/
  | lookup
  /-- A step of the agent. -/
  | agent (a : ExecAction Q C)

namespace ProcessState

variable {Q C : Type}

/-- The last `hsa_shut_down` has set `ShutDown` and has not returned. -/
def releasing (s : ProcessState Q C) : Bool :=
  s.objects.isInitialized && (s.agent.shutDown || s.agent.worker.isExited)

/-- The memory of the agent of a new runtime. -/
def newMemory (buffer : Q → ℕ → AQLPacket) (signal : Handle → Option ℤ) : Memory Q :=
  { queue := fun q => Queue.create (buffer q), signal, locks := [], groupMemory := []
    kernargs := [] }

/-- `hsa_init`, with the agent of a new runtime. -/
def init (agents : ℕ → Bool) (buffer : Q → ℕ → AQLPacket) (signal : Handle → Option ℤ)
    (s : ProcessState Q C) : ProcessState Q C :=
  { s with
    objects := (s.objects.hsaInit agents).2
    agent :=
      if s.objects.referenceCounter = 0 then .start s.agent.shutDown (newMemory buffer signal)
      else s.agent }

/-- The packet that the worker is to launch. -/
def packet (s : ProcessState Q C) : Option AQLPacket :=
  match s.agent.worker with
  | .process q _ { ops := [], closing := _, pc := .launch _ slot _ _ } =>
    some ((s.agent.memory.queue q).packetBuffer slot)
  | _ => none

/-- The symbol registry answers the worker. -/
def lookup (s : ProcessState Q C) : Option (ProcessState Q C) :=
  if s.found.isSome then none
  else s.packet.map fun p => { s with found := some (s.objects.kernelAt p.kernelObject) }

/-- `K`. -/
def kernel (s : ProcessState Q C) : Option Kernel := s.found.join.bind fun found => found.2.kernel

/-- The worker goes on with what it has found. -/
def lookedUp (s : ProcessState Q C) : ExecAction Q C → ExecAction Q C
  | .worker r => .worker { r with kernel := fun _ => s.kernel }
  | a => a

/-- The kernel that a step calls, with its handle. -/
def calls (s : ProcessState Q C) : ExecAction Q C → Option (Handle × Symbol)
  | .worker r =>
    match s.agent.worker with
    | .process q _ { ops := [], closing := _, pc := .launch _ slot _ groupMemory } =>
      let p := (s.agent.memory.queue q).packetBuffer slot
      match dispatch s.kernel groupMemory p with
      | .launch k =>
        -- arguments that are moved need a buffer
        if p.kernargAddress % k.kernargSegmentAlignment = 0 ∨ r.kernargBuffer.isSome then
          s.found.join
        else none
      | .callback _ => none
    | _ => none
  | _ => none

/-- What the worker has found and not used after a step. A signal takes it away from its packet. -/
def foundAfter (s : ProcessState Q C) : ExecAction Q C → Option (Option (Handle × Symbol))
  | .worker _ | .deliver => none
  | _ => s.found

/-- The kernel that the worker is in after a step. -/
def runningAfter (s : ProcessState Q C) (a : ExecAction Q C) : Option (Handle × Symbol) :=
  match a with
  | .worker _ => s.calls a
  | .deliver => none
  | _ => s.running

/-- The call returns now: the last `hsa_shut_down` waits for the worker. `hsa_init` is a step of its
own. -/
def Returns (s : ProcessState Q C) : ObjectCall → Prop
  | .init _ => False
  | .shutDown => s.objects.referenceCounter = 1 → s.agent.worker.isExited = true
  | _ => True

/-- The step is possible now. The agent is there as long as the runtime is, `ShutDown` is set once,
by the last `hsa_shut_down`, and the worker looks up a kernel before it decides on a packet. -/
def Admits (s : ProcessState Q C) : ExecAction Q C → Prop
  | .shutDown => s.objects.referenceCounter = 1 ∧ s.releasing = false
  | .worker _ => s.objects.isInitialized = true ∧ (s.packet.isSome → s.found.isSome)
  | _ => s.objects.isInitialized = true

instance (s : ProcessState Q C) : (call : ObjectCall) → Decidable (s.Returns call)
  | .init _ => .isFalse id
  | .shutDown => inferInstanceAs (Decidable (_ → _))
  | .programCreate .. | .programDestroy _ | .programAddModule .. | .programIterateModules ..
  | .programGetInfo .. | .programFinalize .. | .codeObjectSerialize .. | .codeObjectDeserialize ..
  | .codeObjectGetInfo .. | .codeObjectDestroy _ | .executable _ => .isTrue trivial

instance (s : ProcessState Q C) : (a : ExecAction Q C) → Decidable (s.Admits a)
  | .shutDown | .worker _ => inferInstanceAs (Decidable (_ ∧ _))
  | .call _ _ | .client _ | .deliver | .register _ | .destroy _ | .environment _ =>
    inferInstanceAs (Decidable (_ = _))

end ProcessState

/-- A process. At first there is no runtime, and no worker. -/
def kernelMachine {Q : Type} (C : Type) [DecidableEq Q] [DecidableEq C] (elf : ElfReader)
    (cfg : Q → Config) : Machine (ProcessState Q C) (ProcessAction Q C) where
  init s := (objectMachine elf).init s.objects ∧ s.agent.worker = .exited ∧
    s.agent.shutDown = false ∧ s.found = none ∧ s.running = none
  step
    | .init agents buffer signal, s =>
      if s.releasing then none else some (s.init agents buffer signal)
    | .call call, s =>
      if s.Returns call then
        (s.objects.invoke elf call).map fun r => { s with objects := r.2 }
      else none
    | .lookup, s => s.lookup
    | .agent a, s =>
      if s.Admits a then
        ((executeMachine C cfg).step (s.lookedUp a) s.agent).map fun agent =>
          { s with agent, found := s.foundAfter a, running := s.runningAfter a }
      else none

/-! ## What a step does -/

section Moves

variable {Q C : Type} [DecidableEq Q] [DecidableEq C] {elf : ElfReader} {cfg : Q → Config}
  {s s' : ProcessState Q C} {a : ProcessAction Q C}

/-- The steps of a process, with their conditions. -/
inductive ProcessMove (elf : ElfReader) (cfg : Q → Config) (s : ProcessState Q C) :
    ProcessAction Q C → ProcessState Q C → Prop
  | init (agents : ℕ → Bool) (buffer : Q → ℕ → AQLPacket) (signal : Handle → Option ℤ)
      (hreleasing : s.releasing = false) :
      ProcessMove elf cfg s (.init agents buffer signal) (s.init agents buffer signal)
  | invoked (call : ObjectCall) (status : HsaStatus) (objects : ObjectState)
      (hreturns : s.Returns call) (hcall : s.objects.invoke elf call = some (status, objects)) :
      ProcessMove elf cfg s (.call call) { s with objects }
  | lookup (p : AQLPacket) (hfound : s.found = none) (hpacket : s.packet = some p) :
      ProcessMove elf cfg s .lookup { s with found := some (s.objects.kernelAt p.kernelObject) }
  | agent (a : ExecAction Q C) (agent : ExecState Q C) (hadmits : s.Admits a)
      (hstep : (executeMachine C cfg).step (s.lookedUp a) s.agent = some agent) :
      ProcessMove elf cfg s (.agent a)
        { s with agent, found := s.foundAfter a, running := s.runningAfter a }

theorem processMove (hs : (kernelMachine C elf cfg).step a s = some s') :
    ProcessMove elf cfg s a s' := by
  cases a with
  | init agents buffer signal =>
    simp only [kernelMachine] at hs
    split at hs
    · cases hs
    · rename_i hreleasing
      cases hs
      exact .init agents buffer signal (by simpa using hreleasing)
  | lookup =>
    simp only [kernelMachine, ProcessState.lookup] at hs
    split at hs
    · cases hs
    · rename_i hfound
      obtain ⟨p, hpacket, rfl⟩ := Option.map_eq_some_iff.mp hs
      exact .lookup p (by simpa using hfound) hpacket
  | agent a =>
    simp only [kernelMachine, Option.ite_none_right_eq_some] at hs
    obtain ⟨g, hstep, rfl⟩ := Option.map_eq_some_iff.mp hs.2
    exact .agent a g hs.1 hstep
  | call call =>
    simp only [kernelMachine, Option.ite_none_right_eq_some] at hs
    obtain ⟨⟨status, objects⟩, hcall, rfl⟩ := Option.map_eq_some_iff.mp hs.2
    exact .invoked call status objects hs.1 hcall

end Moves

end PhsaRuntime
