import PhsaRuntime.Execute.Packet
import PhsaRuntime.Objects.Symbols
import PhsaRuntime.Process
import PhsaRuntime.Runtime.Sessions

/-!
# The parts of a process

The objects of a process make a run of their own, and so does, while there is a runtime, its agent.
The worker is in a kernel only as long as it has not left `Execute`.

## Main results

* `objects_of_reachable`, `agent_of_reachable` — a process is a run of its objects and, while there
  is a runtime, of its agent.
* `processInv_of_reachable` — the agent by the state of the runtime.
-/

namespace PhsaRuntime

open Machine

variable {Q C : Type} [DecidableEq Q] [DecidableEq C] {elf : ElfReader} {cfg : Q → Config}
  {s s' : ProcessState Q C} {a : ProcessAction Q C}
  {ok : ProcessState Q C → ProcessAction Q C → Prop}

/-! ## The objects and the agent -/

/-- **The objects of a process** make a run of their own. -/
theorem objects_of_reachable (h : (kernelMachine C elf cfg).Reachable ok s) :
    (objectMachine elf).Reachable always s.objects := by
  refine h.simulate ProcessState.objects (fun _ => True) ?_ (fun _ _ _ _ _ => trivial) ?_ trivial
  · rintro s ⟨hobjects, -⟩
    exact hobjects
  intro s a s' _ _ hs _
  cases processMove hs with
  | init agents buffer signal => exact .inr ⟨.init agents, trivial, rfl⟩
  | invoked call status objects _ hcall =>
    exact .inr ⟨call, trivial, by simp [objectMachine, hcall]⟩
  | lookup | agent => exact .inl rfl

theorem symbolsBacked_of_process (h : (kernelMachine C elf cfg).Reachable ok s) :
    SymbolsBacked elf s.objects :=
  symbolsBacked_of_reachable (objects_of_reachable h)

/-- A step is a call on the objects, or leaves their symbols alone. -/
theorem objects_step (hs : (kernelMachine C elf cfg).step a s = some s') :
    (∃ call status, a = .call call ∧ s.objects.invoke elf call = some (status, s'.objects)) ∨
      (∀ call, a ≠ .call call) ∧ s'.objects.heap = s.objects.heap ∧
        s'.objects.codeObjects = s.objects.codeObjects := by
  cases processMove hs with
  | invoked call status objects _ hcall => exact .inl ⟨call, status, rfl, hcall⟩
  | lookup | agent => exact .inr ⟨by simp, rfl, rfl⟩
  | init agents buffer signal =>
    refine .inr ⟨by simp, ?_, ?_⟩
    · simp only [ProcessState.init, ObjectState.hsaInit]
      split <;> rfl
    · simp only [ProcessState.init, ObjectState.hsaInit]
      split <;> rfl

/-- The worker is in a kernel, or in a callback of the queue. -/
def Worker.inKernel : Worker Q Job → Bool
  | .process _ _ { ops := _, closing := _, pc := .running _ _ _ _ _ } => true
  | _ => false

/-- What holds of the agent by the state of the runtime. -/
structure ProcessInv (cfg : Q → Config) (s : ProcessState Q C) : Prop where
  absent : s.objects.referenceCounter = 0 → s.agent.worker.isExited = true
  flag : s.agent.worker.isExited = true → s.agent.shutDown = false
  agent : s.objects.isInitialized = true → (executeMachine C cfg).Reachable always s.agent
  found : ∀ y, s.found = some y → ∃ p, s.packet = some p ∧ ∀ x ∈ y, x.1 = p.kernelObject
  running : s.running.isSome → s.agent.worker.inKernel = true

omit [DecidableEq Q] [DecidableEq C] in
theorem Worker.isExited_of_inKernel {w : Worker Q Job} (h : w.inKernel = true) :
    w.isExited = false := by
  cases w <;> first | rfl | cases h

omit [DecidableEq Q] [DecidableEq C] in
theorem packet_eq_some_iff {p : AQLPacket} : s.packet = some p ↔
    ∃ q f slot completion groupMemory, AtStep s.agent q (.launch f slot completion groupMemory) ∧
      (s.agent.memory.queue q).packetBuffer slot = p := by
  constructor
  · intro h
    unfold ProcessState.packet at h
    split at h
    · rename_i q rest closing f slot completion groupMemory hw
      exact ⟨q, f, slot, completion, groupMemory, ⟨rest, closing, hw⟩, Option.some.inj h⟩
    · cases h
  · rintro ⟨q, f, slot, completion, groupMemory, ⟨rest, closing, hw⟩, rfl⟩
    simp [ProcessState.packet, hw]

omit [DecidableEq Q] [DecidableEq C] in
theorem isExited_of_packet {p : AQLPacket} (h : s.packet = some p) :
    s.agent.worker.isExited = false := by
  obtain ⟨q, f, slot, completion, groupMemory, ⟨rest, closing, hw⟩, -⟩ := packet_eq_some_iff.mp h
  rw [hw]
  rfl

/-- Steps of others leave the packet of the worker alone. -/
theorem packet_others {b : ExecAction Q C} {p : AQLPacket}
    (hr : (executeMachine C cfg).Reachable always s.agent) (hdeliver : isDeliver b = false)
    (hworker : isWorker b = false) (hstep : (executeMachine C cfg).step b s.agent = some s'.agent)
    (h : s.packet = some p) : s'.packet = some p := by
  obtain ⟨q, f, slot, completion, groupMemory, ⟨rest, closing, hw⟩, hslot⟩ :=
    packet_eq_some_iff.mp h
  have hbefore : Before s.agent q rest (.launch f slot completion groupMemory) := ⟨[], closing, hw⟩
  have hwaits := waits_others hr hw hdeliver hworker hstep
  have hsame := (others_step hdeliver hworker hstep).1
  rw [packet_eq_some_iff]
  refine ⟨q, f, slot, completion, groupMemory, ⟨rest, closing, hsame.trans hw⟩, ?_⟩
  rw [(hwaits.queue.slot slot (hbefore.branch hr rfl).1).1, hslot]

omit [DecidableEq Q] [DecidableEq C] in
/-- The step that calls a kernel. -/
theorem calls_eq_some {a : ExecAction Q C} {x : Handle × Symbol} (h : s.calls a = some x) :
    s.found = some (some x) ∧ ∃ r q f slot completion groupMemory k, a = .worker r ∧
      AtStep s.agent q (.launch f slot completion groupMemory) ∧
      dispatch s.kernel groupMemory ((s.agent.memory.queue q).packetBuffer slot) = .launch k ∧
      (((s.agent.memory.queue q).packetBuffer slot).kernargAddress %
        k.kernargSegmentAlignment = 0 ∨ r.kernargBuffer.isSome) := by
  unfold ProcessState.calls at h
  split at h
  · rename_i r
    split at h
    · rename_i q rest closing f slot completion groupMemory hw
      simp only at h
      split at h
      · rename_i k hk
        split at h
        · rename_i hargs
          exact ⟨Option.join_eq_some_iff.mp h, r, q, f, slot, completion, groupMemory, k, rfl,
            ⟨rest, closing, hw⟩, hk, hargs⟩
        · cases h
      · cases h
    · cases h
  · cases h

/-- After it the worker is in the kernel. -/
theorem inKernel_of_calls {a : ExecAction Q C} {g : ExecState Q C} (h : (s.calls a).isSome)
    (hstep : (executeMachine C cfg).step (s.lookedUp a) s.agent = some g) :
    g.worker.inKernel = true := by
  obtain ⟨x, hcalls⟩ := Option.isSome_iff_exists.mp h
  obtain ⟨-, r, q, f, slot, completion, groupMemory, k, rfl, ⟨rest, closing, hw⟩, hk, hargs⟩ :=
    calls_eq_some hcalls
  simp only [ProcessState.lookedUp, executeMachine, agentMachine, Agent.workerStep, hw] at hstep
  obtain ⟨⟨m, p⟩, hp, rfl⟩ := Option.map_eq_some_iff.mp hstep
  cases jobMove hp with
  | scan closing pc pc' queue hwork =>
    cases launchMove_step hwork with
    | aligned | moved | callback => rfl
    | aborted k' hk' hunaligned hbuffer =>
      obtain rfl : k = k' := Dispatch.launch.inj (hk.symm.trans hk')
      rcases hargs with haligned | hsome
      · exact absurd haligned hunaligned
      · have hnone : r.kernargBuffer = none := hbuffer
        rw [hnone] at hsome
        cases hsome

omit [DecidableEq Q] [DecidableEq C] in
theorem isInitialized_of_admits {a : ExecAction Q C} (h : s.Admits a) :
    s.objects.isInitialized = true := by
  cases a with
  | shutDown =>
    obtain ⟨hlast, -⟩ := h
    simp [ObjectState.isInitialized, hlast]
  | worker => exact h.1
  | _ => exact h

namespace ProcessInv

/-- `hsa_init` makes a runtime, with an agent, or shares the one that there is. -/
theorem init (h : ProcessInv cfg s) (agents : ℕ → Bool) (buffer : Q → ℕ → AQLPacket)
    (signal : Handle → Option ℤ) : ProcessInv cfg (s.init agents buffer signal) := by
  by_cases hzero : s.objects.referenceCounter = 0
  · have hexited := h.absent hzero
    have hcounter : (s.init agents buffer signal).objects.referenceCounter = 1 := by
      simp [ProcessState.init, ObjectState.hsaInit, hzero]
    have hagent : (s.init agents buffer signal).agent =
        .start false (ProcessState.newMemory buffer signal) := by
      simp [ProcessState.init, hzero, h.flag hexited]
    constructor
    case absent => simp [hcounter]
    case flag => simp [hagent, AgentState.start]
    case agent =>
      intro _
      rw [hagent]
      exact .init ⟨⟨fun q => ⟨buffer q, rfl⟩, rfl, rfl, rfl⟩, rfl, rfl, rfl, fun _ => rfl,
        fun _ => rfl, rfl, rfl, fun _ => rfl, rfl, rfl, rfl⟩
    case found =>
      intro y hy
      obtain ⟨p, hp, -⟩ := h.found y hy
      simp [isExited_of_packet hp] at hexited
    case running =>
      intro hsome
      have hkernel := Worker.isExited_of_inKernel (h.running hsome)
      simp [hexited] at hkernel
  · have hagent : (s.init agents buffer signal).agent = s.agent := if_neg hzero
    have hcounter : (s.init agents buffer signal).objects.referenceCounter ≠ 0 := by
      simp only [ProcessState.init, ObjectState.hsaInit]
      split
      · exact hzero
      · simp
    constructor
    case absent => simp [hcounter]
    case flag =>
      rw [hagent]
      exact h.flag
    case agent =>
      intro _
      rw [hagent]
      exact h.agent (by simpa [ObjectState.isInitialized, Nat.pos_iff_ne_zero] using hzero)
    case found =>
      rw [ProcessState.packet, hagent]
      exact h.found
    case running =>
      rw [hagent]
      exact h.running

/-- The last `hsa_shut_down` returns after the worker has left. -/
theorem invoked (h : ProcessInv cfg s) {call : ObjectCall} {status : HsaStatus}
    {objects : ObjectState} (hreturns : s.Returns call)
    (hcall : s.objects.invoke elf call = some (status, objects)) :
    ProcessInv cfg { s with objects } := by
  have hmove := ObjectState.symbolMove hcall
  have hcounter : (objects.referenceCounter = 0 → s.agent.worker.isExited = true) ∧
      (0 < objects.referenceCounter → 0 < s.objects.referenceCounter) := by
    cases hcounts : call.counts with
    | false =>
      rw [hmove.referenceCounter hcounts]
      exact ⟨h.absent, id⟩
    | true =>
      cases call with
      | init agents => exact hreturns.elim
      | shutDown =>
        obtain rfl : s.objects.hsaShutDown.2 = objects := congrArg Prod.snd (Option.some.inj hcall)
        rw [ObjectState.hsaShutDown]
        by_cases hzero : s.objects.referenceCounter = 0
        · simp [hzero, h.absent hzero]
        · simp only [hzero, if_false]
          refine ⟨fun hlast => hreturns (by omega), fun _ => by omega⟩
      | _ => cases hcounts
  constructor
  case absent => exact hcounter.1
  case flag => exact h.flag
  case agent =>
    intro hinit
    simp only [ObjectState.isInitialized, decide_eq_true_eq] at hinit
    exact h.agent (by simpa [ObjectState.isInitialized] using hcounter.2 hinit)
  case found => exact h.found
  case running => exact h.running

/-- The worker has found what is at the handle of its packet. -/
theorem lookup (h : ProcessInv cfg s) {p : AQLPacket} (hpacket : s.packet = some p) :
    ProcessInv cfg { s with found := some (s.objects.kernelAt p.kernelObject) } where
  absent := h.absent
  flag := h.flag
  agent := h.agent
  found := by
    intro y hy
    obtain rfl := Option.some.inj hy
    refine ⟨p, hpacket, fun x hx => ?_⟩
    exact (ObjectState.kernelAt_eq_some_iff.mp hx).1
  running := h.running

/-- A step of the agent. -/
theorem agentStep (h : ProcessInv cfg s) {a : ExecAction Q C} {g : ExecState Q C}
    (hadmits : s.Admits a)
    (hstep : (executeMachine C cfg).step (s.lookedUp a) s.agent = some g) :
    ProcessInv cfg { s with agent := g, found := s.foundAfter a, running := s.runningAfter a } := by
  have hinit := isInitialized_of_admits hadmits
  constructor
  case absent =>
    intro hzero
    simp only [ObjectState.isInitialized, decide_eq_true_eq] at hinit
    exact absurd hzero hinit.ne'
  case flag =>
    intro hexited
    cases a with
    | shutDown =>
      obtain ⟨-, hnot⟩ := hadmits
      obtain ⟨hworker, -⟩ := others_step rfl rfl hstep
      rw [hworker] at hexited
      simp [ProcessState.releasing, hinit, hexited] at hnot
    | _ =>
      rcases isExited_step hstep (by simp [ProcessState.lookedUp]) with ⟨hflag, hsame⟩ | hleft
      · rw [hflag]
        exact h.flag (hsame ▸ hexited)
      · exact hleft.2.2.1
  case agent =>
    intro _
    exact (h.agent hinit).step trivial hstep
  case found =>
    intro y hy
    cases a with
    | worker | deliver => cases hy
    | _ =>
      obtain ⟨p, hp, hhandle⟩ := h.found y hy
      exact ⟨p, packet_others (h.agent hinit) rfl rfl hstep hp, hhandle⟩
  case running =>
    intro hsome
    cases a with
    | worker r =>
      have hcalls : (s.calls (.worker r)).isSome := hsome
      exact inKernel_of_calls hcalls hstep
    | deliver => cases hsome
    | _ =>
      obtain ⟨hworker, -⟩ := others_step rfl rfl hstep
      rw [hworker]
      exact h.running hsome

end ProcessInv

theorem processInv_of_reachable (h : (kernelMachine C elf cfg).Reachable ok s) :
    ProcessInv cfg s := by
  refine h.induction ?_ ?_
  · rintro s ⟨⟨hcounter, -⟩, hworker, hflag, hfound, hrunning⟩
    constructor
    case absent => simp [hworker, Worker.isExited]
    case flag => simp [hflag]
    case agent => simp [ObjectState.isInitialized, hcounter]
    case found => simp [hfound]
    case running => simp [hrunning]
  · intro s a s' _ _ hs ih
    cases processMove hs with
    | init agents buffer signal => exact ih.init agents buffer signal
    | invoked call status objects hreturns hcall => exact ih.invoked hreturns hcall
    | lookup p _ hpacket => exact ih.lookup hpacket
    | agent a g hadmits hstep => exact ih.agentStep hadmits hstep

/-- **The agent of a process**, while there is a runtime, is one that the agent machine reaches. -/
theorem agent_of_reachable (h : (kernelMachine C elf cfg).Reachable ok s)
    (hinit : s.objects.isInitialized = true) : (executeMachine C cfg).Reachable always s.agent :=
  (processInv_of_reachable h).agent hinit

end PhsaRuntime
