import PhsaRuntime.Execute.Abort
import PhsaRuntime.Execute.Packet
import PhsaRuntime.Lib.Bytes

/-!
# The dispatch decision

What the processing of a kernel dispatch packet comes to: the kernel is called once, or the queue
callback is, with the first of three errors that applies. In either case the memory that has been
allocated for the packet is freed, and the packet is completed.

There is one exception. The process is aborted if the kernel arguments have to be moved and
`posix_memalign` fails.

## Main results

* `areDimensionsValid_iff`, `dispatch_eq` — the tests of the source, in plain terms.
* `dispatch_decided` — the outcome of every processing that is not interrupted.
-/

namespace PhsaRuntime

open Machine

/-! ## The tests -/

/-- The number of dimensions in `setup` is 1, 2 or 3, and the grid and the workgroup have the size
1 in every dimension that is not used. -/
def AQLPacket.DimensionsRight (p : AQLPacket) : Prop :=
  p.setup.toNat % 4 ≠ 0 ∧
    (p.setup.toNat % 4 < 2 → p.gridSizeY = 1 ∧ p.workgroupSizeY = 1) ∧
    (p.setup.toNat % 4 < 3 → p.gridSizeZ = 1 ∧ p.workgroupSizeZ = 1)

instance (p : AQLPacket) : Decidable p.DimensionsRight :=
  inferInstanceAs (Decidable (_ ∧ _))

/-- The expression of the source is the two lower bits. -/
theorem dimensions_eq (setup : BitVec 16) :
    (((1 <<< (0 + 2)) - 1#16) &&& setup) >>> 0 = BitVec.ofNat 16 (setup.toNat % 4) := by
  apply BitVec.eq_of_toNat_eq
  have hlt : setup.toNat % 4 < 2 ^ 16 := (Nat.mod_lt _ (by decide)).trans (by decide)
  have hmask : (((1 <<< (0 + 2)) - 1#16) &&& setup).toNat = setup.toNat % 4 := by
    rw [BitVec.toNat_and, Nat.and_comm]
    exact Nat.and_two_pow_sub_one_eq_mod setup.toNat 2
  rw [BitVec.ushiftRight_zero, hmask, BitVec.toNat_ofNat, Nat.mod_eq_of_lt hlt]

theorem areDimensionsValid_iff (p : AQLPacket) :
    areDimensionsValid p = true ↔ p.DimensionsRight := by
  unfold areDimensionsValid AQLPacket.DimensionsRight
  rw [dimensions_eq]
  have hcases : p.setup.toNat % 4 = 0 ∨ p.setup.toNat % 4 = 1 ∨ p.setup.toNat % 4 = 2 ∨
      p.setup.toNat % 4 = 3 := by omega
  rcases hcases with h | h | h | h
  · simp [h]
  · simp [h, and_assoc, and_left_comm]
  · simp [h]
  · simp [h]

/-- The type of a dispatch packet is valid. -/
theorem isPacketTypeValid_of_dispatch {header : BitVec 16}
    (h : packetType header = packetTypeKernelDispatch) : isPacketTypeValid header = true := by
  have htype : ((header >>> 0).setWidth 8).toNat = packetType header := by
    simp only [packetType, BitVec.toNat_setWidth, BitVec.toNat_and]
    rw [show (0xff#16).toNat = 2 ^ 8 - 1 from rfl, Nat.and_two_pow_sub_one_eq_mod]
  simp only [isPacketTypeValid, htype, h]
  decide

/-! ## The decision -/

/-- The block of group memory that the packet gets. -/
def Reply.groupBlock (r : Reply) (p : AQLPacket) : Option ℕ :=
  if p.groupSegmentSize ≠ 0 then r.groupMemory else none

/-- The handle is that of a registered kernel, the workgroup has iterations, the dimensions are
right, and group memory was obtained or not requested. -/
def Launchable (r : Reply) (p : AQLPacket) : Prop :=
  (r.kernel p.kernelObject).isSome ∧
    (p.workgroupSizeX ≠ 0 ∧ p.workgroupSizeY ≠ 0 ∧ p.workgroupSizeZ ≠ 0) ∧
    p.DimensionsRight ∧ (p.groupSegmentSize ≠ 0 → r.groupMemory.isSome)

instance (r : Reply) (p : AQLPacket) : Decidable (Launchable r p) :=
  inferInstanceAs (Decidable (_ ∧ _))

/-- The error of a packet that cannot be launched. -/
def failureStatus (r : Reply) (p : AQLPacket) : Status :=
  if ¬ p.DimensionsRight then .errorIncompatibleArguments
  else if p.groupSegmentSize ≠ 0 ∧ r.groupMemory = none then .errorInvalidAllocation
  else .errorInvalidCodeObject

theorem hasIterations_iff (p : AQLPacket) : hasIterations p = true ↔
    p.workgroupSizeX ≠ 0 ∧ p.workgroupSizeY ≠ 0 ∧ p.workgroupSizeZ ≠ 0 := by
  simp [hasIterations, and_assoc]

theorem validGroupMemory_iff (r : Reply) (p : AQLPacket) :
    validGroupMemory p (r.groupBlock p) = true ↔
      (p.groupSegmentSize ≠ 0 → r.groupMemory.isSome) := by
  by_cases hsize : p.groupSegmentSize = 0 <;> simp [validGroupMemory, Reply.groupBlock, hsize]

/-- The last three branches. -/
theorem status_eq (r : Reply) {p : AQLPacket}
    (htype : packetType p.header = packetTypeKernelDispatch) :
    (if !isPacketTypeValid p.header then Dispatch.callback .errorInvalidPacketFormat
      else if !areDimensionsValid p then .callback .errorIncompatibleArguments
      else if !validGroupMemory p (r.groupBlock p) then .callback .errorInvalidAllocation
      else .callback .errorInvalidCodeObject) = .callback (failureStatus r p) := by
  have hdimensions : areDimensionsValid p = decide p.DimensionsRight := by
    rw [Bool.eq_iff_iff, decide_eq_true_iff, areDimensionsValid_iff]
  have hmemory : validGroupMemory p (r.groupBlock p) =
      !decide (p.groupSegmentSize ≠ 0 ∧ r.groupMemory = none) := by
    rw [Bool.eq_iff_iff, validGroupMemory_iff]
    cases r.groupMemory <;> simp
  rw [isPacketTypeValid_of_dispatch htype, hdimensions, hmemory, failureStatus]
  by_cases hright : p.DimensionsRight
  · by_cases hlacks : p.groupSegmentSize ≠ 0 ∧ r.groupMemory = none
    · simp [hright, hlacks]
    · rw [if_neg (not_not.mpr hright), if_neg hlacks]
      simp [hright, hlacks]
  · simp [hright]

/-- **The branches of the source** decide what the packet leads to. -/
theorem dispatch_eq (r : Reply) {p : AQLPacket}
    (htype : packetType p.header = packetTypeKernelDispatch) :
    (∃ k, r.kernel p.kernelObject = some k ∧ Launchable r p ∧
        dispatch (r.kernel p.kernelObject) (r.groupBlock p) p = .launch k) ∨
      ¬ Launchable r p ∧
        dispatch (r.kernel p.kernelObject) (r.groupBlock p) p = .callback (failureStatus r p) := by
  have hconditions : (hasIterations p && areDimensionsValid p && isPacketTypeValid p.header &&
      validGroupMemory p (r.groupBlock p)) = true ↔
      (p.workgroupSizeX ≠ 0 ∧ p.workgroupSizeY ≠ 0 ∧ p.workgroupSizeZ ≠ 0) ∧
        p.DimensionsRight ∧ (p.groupSegmentSize ≠ 0 → r.groupMemory.isSome) := by
    simp only [Bool.and_eq_true, isPacketTypeValid_of_dispatch htype, hasIterations_iff,
      areDimensionsValid_iff, validGroupMemory_iff, and_true, and_assoc]
  cases hk : r.kernel p.kernelObject with
  | none =>
    refine .inr ⟨fun h => by simp [Launchable, hk] at h, ?_⟩
    exact status_eq r htype
  | some k =>
    by_cases h : Launchable r p
    · refine .inl ⟨k, rfl, h, ?_⟩
      simp only [dispatch, Option.filter, hconditions.mpr h.2, if_true]
    · refine .inr ⟨h, ?_⟩
      have hfalse : (hasIterations p && areDimensionsValid p && isPacketTypeValid p.header &&
          validGroupMemory p (r.groupBlock p)) = false := by
        rw [← Bool.not_eq_true, hconditions]
        exact fun hall => h ⟨by rw [hk]; rfl, hall⟩
      simp only [dispatch, Option.filter, hfalse, Bool.false_eq_true, if_false]
      exact status_eq r htype

/-! ## The outcome -/

/-- The memory when the kernel is called with its arguments at `kernargAddr`: where they had to be
moved, `memcpy` has put them there. -/
def launchCells (cells : Cells Byte) (k : Kernel) (p : AQLPacket) (kernargAddr : ℕ) : Cells Byte :=
  if p.kernargAddress % k.kernargSegmentAlignment = 0 then cells
  else cells.write kernargAddr (cells.read p.kernargAddress k.kernargSegmentSize)

/-- `posix_memalign` returns an address with the alignment it was asked for. -/
def Reply.Aligned (r : Reply) (p : AQLPacket) : Prop :=
  ∀ k, r.kernel p.kernelObject = some k → ∀ buffer, r.kernargBuffer = some buffer →
    buffer % k.kernargSegmentAlignment = 0

/-- The arguments of the kernel are at `kernargAddr`: aligned, and with the bytes that are at
`kernarg_address`. -/
structure KernargsAt (k : Kernel) (p : AQLPacket) (kernargAddr : ℕ) : Prop where
  aligned : kernargAddr % k.kernargSegmentAlignment = 0
  bytes : ∀ cells : Cells Byte,
    (launchCells cells k p kernargAddr).read kernargAddr k.kernargSegmentSize =
      cells.read p.kernargAddress k.kernargSegmentSize

variable {Q C : Type}

/-- The symbol registry and the allocators answer the worker at the queue `q` with `r`: with its
group memory where the packet allocates, with its kernel and its buffer at the launch. -/
def Answers (q : Q) (r : Reply) (s : ExecState Q C) : ExecAction Q C → Prop
  | .worker r' => (∀ f slot, AtStep s q (.dispatch f slot) → r'.groupMemory = r.groupMemory) ∧
      ∀ f slot completion groupMemory, AtStep s q (.launch f slot completion groupMemory) →
        r'.kernel = r.kernel ∧ r'.kernargBuffer = r.kernargBuffer
  | _ => True

/-- The kernel is called once, and the callback is not. -/
def CalledOnce (q : Q) (f : Frame) (slot : ℕ) (r : Reply) (p : AQLPacket)
    (s₀ s : ExecState Q C) : Prop :=
  ∃ k l, r.kernel p.kernelObject = some k ∧ l.index = (s₀.memory.queue q).history.tag slot ∧
    l.data.dp = p ∧ l.data.packetId = f.currentIndex ∧ l.groupMemory = r.groupBlock p ∧
    KernargsAt k p l.data.kernargAddr ∧
    (s.memory.queue q).history.launches = (s₀.memory.queue q).history.launches ++ [l] ∧
    (s.memory.queue q).history.callbacks = (s₀.memory.queue q).history.callbacks

/-- No kernel is called, and the callback is called once, with the error of the packet. -/
structure ReportedOnce (q : Q) (r : Reply) (p : AQLPacket) (s₀ s : ExecState Q C) : Prop where
  launches : (s.memory.queue q).history.launches = (s₀.memory.queue q).history.launches
  callbacks : (s.memory.queue q).history.callbacks =
    (s₀.memory.queue q).history.callbacks ++ [failureStatus r p]
  /-- The callback of a queue that has one. -/
  invoked : ∀ x : CreatedQueue, x.invocations [failureStatus r p] =
    x.args.callback.toList.map fun callback =>
      { callback, status := failureStatus r p, source := x.this, data := 0 }

/-- The packet is launchable, the arguments have to be moved, and `posix_memalign` fails. -/
def LacksBuffer (r : Reply) (p : AQLPacket) : Prop :=
  Launchable r p ∧ r.kernargBuffer = none ∧
    ∃ k, r.kernel p.kernelObject = some k ∧ p.kernargAddress % k.kernargSegmentAlignment ≠ 0

/-- The process is aborted before anything is called. -/
structure AbortedBefore (q : Q) (s₀ s : ExecState Q C) : Prop where
  aborted : Aborted s
  launches : (s.memory.queue q).history.launches = (s₀.memory.queue q).history.launches
  callbacks : (s.memory.queue q).history.callbacks = (s₀.memory.queue q).history.callbacks

/-- What the processing of the dispatch packet `p` comes to. -/
structure Dispatched [DecidableEq Q] [DecidableEq C] (cfg : Q → Config) (q : Q) (rest : List Q)
    (f : Frame) (slot : ℕ) (r : Reply) (p : AQLPacket)
    (tr : List (ExecState Q C × ExecAction Q C)) (s₀ s : ExecState Q C) : Prop where
  called : Launchable r p → CalledOnce q f slot r p s₀ s
  reported : ¬ Launchable r p → ReportedOnce q r p s₀ s
  groupMemory : s.memory.groupMemory = s₀.memory.groupMemory
  kernargs : s.memory.kernargs = s₀.memory.kernargs
  completes : Completes cfg q rest slot p tr s

theorem invocations_singleton (x : CreatedQueue) (status : Status) :
    x.invocations [status] = x.args.callback.toList.map fun callback =>
      { callback, status, source := x.this, data := 0 } := by
  rw [CreatedQueue.invocations, List.filterMap_cons, x.executeCallback_eq]
  cases x.args.callback <;> rfl

theorem kernargsAt_of_aligned {k : Kernel} {p : AQLPacket}
    (h : p.kernargAddress % k.kernargSegmentAlignment = 0) : KernargsAt k p p.kernargAddress :=
  ⟨h, fun cells => by rw [launchCells, if_pos h]⟩

theorem kernargsAt_of_moved {k : Kernel} {p : AQLPacket} {buffer : ℕ}
    (h : p.kernargAddress % k.kernargSegmentAlignment ≠ 0)
    (hbuffer : buffer % k.kernargSegmentAlignment = 0) : KernargsAt k p buffer := by
  refine ⟨hbuffer, fun cells => ?_⟩
  rw [launchCells, if_neg h]
  exact Cells.read_write_of_length Cells.length_read

/-! ## The steps of the packet -/

/-- What the launch step does. -/
inductive LaunchStep (r : Reply) (p : AQLPacket) (x : Queue) (f : Frame) (slot : ℕ)
    (completion : Option Handle) : Queue → Pc → Prop
  | aborted (hlacks : LacksBuffer r p) :
      LaunchStep r p x f slot completion x (.halted .aborted)
  | called (k : Kernel) (kernargAddr : ℕ) (kernargs : Option ℕ) (hlacks : ¬ LacksBuffer r p)
      (hlaunch : Launchable r p) (hk : r.kernel p.kernelObject = some k)
      (hargs : r.Aligned p → KernargsAt k p kernargAddr) :
      LaunchStep r p x f slot completion (startKernel x f slot (r.groupBlock p) kernargAddr)
        (.running f slot completion (r.groupBlock p) kernargs)
  | reported (hlacks : ¬ LacksBuffer r p) (hlaunch : ¬ Launchable r p) :
      LaunchStep r p x f slot completion
        { x with history :=
          { x.history with callbacks := x.history.callbacks ++ [failureStatus r p] } }
        (.running f slot completion (r.groupBlock p) none)

/-- The kernel with which the packet is launched. -/
theorem launchable_of_launch {r : Reply} {p : AQLPacket} {k : Kernel}
    (htype : packetType p.header = packetTypeKernelDispatch)
    (hk : dispatch (r.kernel p.kernelObject) (r.groupBlock p) p = .launch k) :
    Launchable r p ∧ r.kernel p.kernelObject = some k := by
  rcases dispatch_eq r htype with ⟨k', hk', hlaunch, hdispatch⟩ | ⟨-, hdispatch⟩
  · rw [hdispatch] at hk
    cases hk
    exact ⟨hlaunch, hk'⟩
  · rw [hdispatch] at hk
    cases hk

theorem launch_step {env : Env} {r : Reply} {p : AQLPacket} {x x' : Queue} {f : Frame} {slot : ℕ}
    {completion : Option Handle} {pc' : Pc} (hkernel : env.kernel = r.kernel)
    (hbuffer : env.kernargBuffer = r.kernargBuffer) (hp : x.packetBuffer slot = p)
    (htype : packetType p.header = packetTypeKernelDispatch)
    (hmove : LaunchMove env x f slot completion (r.groupBlock p) x' pc') :
    LaunchStep r p x f slot completion x' pc' := by
  subst hp
  cases hmove with
  | aligned k hk haligned =>
    rw [hkernel] at hk
    obtain ⟨hlaunch, hk⟩ := launchable_of_launch htype hk
    refine .called k _ none ?_ hlaunch hk fun _ => kernargsAt_of_aligned haligned
    rintro ⟨-, -, k', hk', hne⟩
    rw [hk] at hk'
    cases hk'
    exact hne haligned
  | moved k buffer hk hunaligned hsome =>
    rw [hkernel] at hk
    rw [hbuffer] at hsome
    obtain ⟨hlaunch, hk⟩ := launchable_of_launch htype hk
    refine .called k buffer (some buffer) ?_ hlaunch hk fun h => ?_
    · rintro ⟨-, hnone, -⟩
      rw [hsome] at hnone
      cases hnone
    · exact kernargsAt_of_moved hunaligned (h k hk buffer hsome)
  | aborted k hk hunaligned hnone =>
    rw [hkernel] at hk
    obtain ⟨hlaunch, hk⟩ := launchable_of_launch htype hk
    exact .aborted ⟨hlaunch, hbuffer.symm.trans hnone, k, hk, hunaligned⟩
  | callback status hstatus =>
    rw [hkernel] at hstatus
    rcases dispatch_eq r htype with ⟨k, -, -, hdispatch⟩ | ⟨hlaunch, hdispatch⟩
    · rw [hdispatch] at hstatus
      cases hstatus
    · rw [hdispatch] at hstatus
      cases hstatus
      exact .reported (fun h => hlaunch h.1) hlaunch

variable [DecidableEq Q] [DecidableEq C] {cfg : Q → Config} {q : Q} {rest : List Q}
  {s₀ s : ExecState Q C} {tr : List (ExecState Q C × ExecAction Q C)} {f : Frame} {slot : ℕ}
  {completion : Option Handle} {r : Reply} {p : AQLPacket}

/-- Nothing else is called, `blocks` and `buffers` are left of what is allocated, and the packet
is completed. -/
structure Freed (cfg : Q → Config) (q : Q) (rest : List Q) (slot : ℕ) (completion : Option Handle)
    (blocks buffers : List ℕ) (tr : List (ExecState Q C × ExecAction Q C))
    (s₀ s : ExecState Q C) : Prop where
  completed : Completed cfg q rest slot completion tr s
  launches : (s.memory.queue q).history.launches = (s₀.memory.queue q).history.launches
  callbacks : (s.memory.queue q).history.callbacks = (s₀.memory.queue q).history.callbacks
  groupMemory : s.memory.groupMemory = blocks
  kernargs : s.memory.kernargs = buffers

/-- The group memory is freed. -/
theorem freed_freeGroup {groupMemory : Option ℕ} {blocks : List ℕ}
    (hr : (executeMachine C cfg).Reachable always s₀)
    (hbefore : Before s₀ q rest (.freeGroup f slot completion groupMemory))
    (hgroup : s₀.memory.groupMemory = groupMemory.toList ++ blocks)
    (hrun : (packetMachine C cfg q s₀).Run tr s) (hend : s.worker.inPacket q = false) :
    Freed cfg q rest slot completion blocks s₀.memory.kernargs tr s₀ s := by
  obtain ⟨t, u, r, queue, pc', earlier, later, h⟩ := exists_scan hr hbefore rfl hrun hend
  have hstep := h.workerStep
  cases hstep
  obtain ⟨hdone, hquiet⟩ := completed h.reachable (h.before rfl) h.run hend
  refine ⟨h.trace ▸ hdone.append _, ?_, ?_, ?_, ?_⟩
  · rw [hquiet.launches, h.launches_eq]
  · rw [hquiet.callbacks, h.callbacks_eq]
  · rw [hquiet.groupMemory, h.groupMemory_eq, hgroup]
    cases groupMemory with
    | none => rfl
    | some block => exact List.erase_cons_head ..
  · rw [hquiet.kernargs, h.kernargs_eq]
    rfl

/-- The kernel, or the callback, has returned: the arguments are freed. -/
theorem freed_running {groupMemory kernargs : Option ℕ} {blocks buffers : List ℕ}
    (hr : (executeMachine C cfg).Reachable always s₀)
    (hbefore : Before s₀ q rest (.running f slot completion groupMemory kernargs))
    (hgroup : s₀.memory.groupMemory = groupMemory.toList ++ blocks)
    (hkernargs : s₀.memory.kernargs = kernargs.toList ++ buffers)
    (hrun : (packetMachine C cfg q s₀).Run tr s) (hend : s.worker.inPacket q = false) :
    Freed cfg q rest slot completion blocks buffers tr s₀ s := by
  obtain ⟨t, u, r, queue, pc', earlier, later, h⟩ := exists_scan hr hbefore rfl hrun hend
  have hstep := h.workerStep
  cases hstep
  have hgroup' : u.memory.groupMemory = groupMemory.toList ++ blocks := by
    rw [h.groupMemory_eq, hgroup]
    rfl
  have hbuffers : u.memory.kernargs = buffers := by
    rw [h.kernargs_eq, hkernargs]
    cases kernargs with
    | none => rfl
    | some buffer => exact List.erase_cons_head ..
  have hfreed := freed_freeGroup h.reachable (h.before rfl) hgroup' h.run hend
  refine ⟨h.trace ▸ hfreed.completed.append _, ?_, ?_, hfreed.groupMemory, ?_⟩
  · rw [hfreed.launches, h.launches_eq]
  · rw [hfreed.callbacks, h.callbacks_eq]
  · rw [hfreed.kernargs, hbuffers]

/-- The launch step and what follows it. -/
structure Launched (cfg : Q → Config) (q : Q) (rest : List Q) (f : Frame) (slot : ℕ)
    (completion : Option Handle) (r : Reply) (p : AQLPacket) (blocks : List ℕ)
    (tr : List (ExecState Q C × ExecAction Q C)) (s₀ s : ExecState Q C) : Prop where
  called : Launchable r p → CalledOnce q f slot r p s₀ s
  reported : ¬ Launchable r p → ReportedOnce q r p s₀ s
  groupMemory : s.memory.groupMemory = blocks
  kernargs : s.memory.kernargs = s₀.memory.kernargs
  completed : Completed cfg q rest slot completion tr s

theorem launched {blocks : List ℕ} (hr : (executeMachine C cfg).Reachable always s₀)
    (hbefore : Before s₀ q rest (.launch f slot completion (r.groupBlock p)))
    (hp : (s₀.memory.queue q).packetBuffer slot = p)
    (hgroup : s₀.memory.groupMemory = (r.groupBlock p).toList ++ blocks)
    (hrun : (packetMachine C cfg q s₀).Run tr s) (hend : s.worker.inPacket q = false)
    (hanswers : ∀ step ∈ tr, Answers q r step.1 step.2) (haligned : r.Aligned p) :
    (LacksBuffer r p → AbortedBefore q s₀ s) ∧
      (¬ LacksBuffer r p → Launched cfg q rest f slot completion r p blocks tr s₀ s) := by
  obtain ⟨t, u, r', queue, pc', earlier, later, h⟩ := exists_scan hr hbefore rfl hrun hend
  obtain ⟨hvalid, htype⟩ := hbefore.branch hr rfl
  obtain ⟨hpacket, htag⟩ := h.waits.queue.slot slot hvalid
  rw [hp] at hpacket htype
  obtain ⟨hkernel, hbuffer⟩ := (hanswers (t, .worker r') (by simp [h.trace])).2 f slot _ _ h.atStep
  have hlaunch := launch_step hkernel hbuffer hpacket htype (launchMove_step h.workerStep)
  have hgroup' : groupMemoryAfter s₀.memory.groupMemory
      (.launch f slot completion (r.groupBlock p)) pc' = (r.groupBlock p).toList ++ blocks := by
    rw [← hgroup]
    rfl
  cases hlaunch with
  | aborted hlacks =>
    refine ⟨fun _ => ?_, fun hnot => absurd hlacks hnot⟩
    obtain ⟨closing, hu⟩ := h.worker
    obtain ⟨rfl, rfl⟩ := eq_of_not_inPacket h.run (by rw [hu]; rfl)
    exact ⟨⟨q, _, hu, rfl⟩, h.launches_eq, h.callbacks_eq⟩
  | called k kernargAddr kernargs hlacks hlaunch hk hargs =>
    refine ⟨fun hyes => absurd hyes hlacks, fun _ => ?_⟩
    have hkernargs : u.memory.kernargs = kernargs.toList ++ s₀.memory.kernargs := by
      rw [h.kernargs_eq]
      cases kernargs <;> rfl
    have hfreed := freed_running h.reachable (h.before rfl) (h.groupMemory_eq.trans hgroup')
      hkernargs h.run hend
    let l : Launch :=
      { index := (t.memory.queue q).history.tag slot
        data :=
          { dp := (t.memory.queue q).packetBuffer slot, packetId := f.currentIndex, kernargAddr }
        groupMemory := r.groupBlock p }
    refine ⟨fun _ => ⟨k, l, hk, htag, hpacket, rfl, rfl, hargs haligned, ?_, ?_⟩,
      fun hnot => absurd hlaunch hnot, hfreed.groupMemory, hfreed.kernargs,
      h.trace ▸ hfreed.completed.append _⟩
    · rw [hfreed.launches, h.queue_eq, ← h.waits.queue.launches]
      rfl
    · rw [hfreed.callbacks, h.queue_eq, ← h.waits.queue.callbacks]
      rfl
  | reported hlacks hlaunch =>
    refine ⟨fun hyes => absurd hyes hlacks, fun _ => ?_⟩
    have hfreed := freed_running h.reachable (h.before rfl) (h.groupMemory_eq.trans hgroup')
      h.kernargs_eq h.run hend
    refine ⟨fun hyes => absurd hyes hlaunch, fun _ => ⟨?_, ?_, fun x => invocations_singleton x _⟩,
      hfreed.groupMemory, hfreed.kernargs, h.trace ▸ hfreed.completed.append _⟩
    · rw [hfreed.launches, h.queue_eq, ← h.waits.queue.launches]
    · rw [hfreed.callbacks, h.queue_eq, ← h.waits.queue.callbacks]

/-- **The dispatch decision.** The processing of a dispatch packet that is not interrupted comes
to an end, unless an interruption before it has left `AllocationsLock` acquired. It calls the
kernel once or the callback once, frees what it has allocated and completes the packet; or the
process is aborted, if the arguments have to be moved and there is no memory for them. -/
theorem dispatch_decided (hr : (executeMachine C cfg).Reachable always s₀)
    (harrives : Arrives s₀ q rest (.dispatch f slot)) :
    (.allocations ∉ s₀.memory.locks → Finishes C cfg q s₀) ∧
      ∀ tr s r, (packetMachine C cfg q s₀).Run tr s → s.worker.inPacket q = false →
        (∀ step ∈ tr, Answers q r step.1 step.2) →
        r.Aligned ((s₀.memory.queue q).packetBuffer slot) →
        (LacksBuffer r ((s₀.memory.queue q).packetBuffer slot) → AbortedBefore q s₀ s) ∧
          (¬ LacksBuffer r ((s₀.memory.queue q).packetBuffer slot) →
            Dispatched cfg q rest f slot r ((s₀.memory.queue q).packetBuffer slot) tr s₀ s) := by
  refine ⟨fun hfree => finishes harrives fun _ => hfree, ?_⟩
  intro tr s r hrun hend hanswers haligned
  obtain ⟨t, u, r', queue, pc', earlier, later, h⟩ :=
    exists_scan hr harrives.before rfl hrun hend
  obtain ⟨hpacket, htag⟩ := h.waits.queue.slot slot (harrives.before.branch hr rfl).1
  generalize hp : (s₀.memory.queue q).packetBuffer slot = p at haligned hpacket ⊢
  have hmemory := (hanswers (t, .worker r') (by simp [h.trace])).1 f slot h.atStep
  obtain ⟨rfl, rfl⟩ : queue = t.memory.queue q ∧ pc' =
      .launch f slot (completionSignal (t.memory.env r') p) (r.groupBlock p) := by
    have hstep := h.workerStep
    simp only [workerStep, hpacket, Option.some.injEq, Prod.mk.injEq] at hstep
    obtain ⟨hqueue, hpc'⟩ := hstep
    refine ⟨hqueue.symm, ?_⟩
    rw [← hpc', Reply.groupBlock, ← hmemory]
    rfl
  have hgroup : u.memory.groupMemory = (r.groupBlock p).toList ++ s₀.memory.groupMemory := by
    rw [h.groupMemory_eq]
    cases r.groupBlock p <;> rfl
  have hlater : ∀ step ∈ later, Answers q r step.1 step.2 := by
    intro step hmem
    exact hanswers step (h.trace ▸ List.mem_append_left _ hmem)
  obtain ⟨haborted, hlaunched⟩ := launched h.reachable (h.before rfl)
    (by rw [h.queue_eq]; exact hpacket) hgroup h.run hend hlater haligned
  constructor
  · intro hlacks
    obtain ⟨hdead, hnone, hquiet⟩ := haborted hlacks
    exact ⟨hdead, hnone.trans h.launches_eq, hquiet.trans h.callbacks_eq⟩
  · intro hlacks
    obtain ⟨hcalled, hreported, hfreed, hkernargs, hdone⟩ := hlaunched hlacks
    refine ⟨fun hlaunch => ?_, fun hlaunch => ?_, hfreed, hkernargs.trans h.kernargs_eq,
      hdone.found h⟩
    · obtain ⟨k, l, hk, hindex, hdp, hid, hblock, hargs, hone, hquiet⟩ := hcalled hlaunch
      rw [h.queue_eq, htag] at hindex
      rw [h.launches_eq] at hone
      exact ⟨k, l, hk, hindex, hdp, hid, hblock, hargs, hone, hquiet.trans h.callbacks_eq⟩
    · obtain ⟨hnone, hone, hinvoked⟩ := hreported hlaunch
      rw [h.callbacks_eq] at hone
      exact ⟨hnone.trans h.launches_eq, hone, hinvoked⟩

/-! ## Some packets -/

/-- A packet with group memory, whose arguments are at an odd address. -/
def movedPacket : AQLPacket :=
  { Scan.emptyPacket with groupSegmentSize := 4, kernargAddress := 1 }

/-- Every kernel needs its 8 bytes of arguments at a multiple of 16. -/
def movedReply (buffer : Option ℕ) : Reply where
  kernel := fun _ => some ⟨0, 8, 16, by decide⟩
  groupMemory := some 64
  kernargBuffer := buffer

theorem aligned_movedReply {buffer : Option ℕ} (h : ∀ a ∈ buffer, a % 16 = 0) (p : AQLPacket) :
    (movedReply buffer).Aligned p := by
  rintro k hk a ha
  cases hk
  exact h a ha

theorem answers_of_eq {tr : List (ExecState Unit Unit × ExecAction Unit Unit)} {r : Reply}
    (h : ∀ step ∈ tr, step.2 = .worker r) : ∀ step ∈ tr, Answers () r step.1 step.2 := by
  intro step hstep
  rw [h step hstep]
  exact ⟨fun _ _ _ => rfl, fun _ _ _ _ _ => ⟨rfl, rfl⟩⟩

/-- The worker has come to a dispatch packet in slot 0. -/
def isAtDispatch (q : Q) (s : ExecState Q C) : Bool :=
  match Exec.arrival q s with
  | some (_, .dispatch _ 0) => true
  | _ => false

omit [DecidableEq C] in
theorem arrives_of_isAtDispatch (h : isAtDispatch q s = true) :
    ∃ rest f, Arrives s q rest (.dispatch f 0) := by
  unfold isAtDispatch at h
  split at h
  · rename_i rest f harrival
    exact ⟨rest, f, Exec.arrives_of_arrival harrival⟩
  · cases h

/-- The packet is left, after some launches. -/
def isLeft (launches : List ℕ) (_ : List (ExecState Unit Unit × ExecAction Unit Unit))
    (s : ExecState Unit Unit) : Bool :=
  !s.worker.inPacket () &&
    (s.memory.queue ()).history.launches.map (fun l => l.data.kernargAddr) = launches

/-- The arguments are moved to the address 32. -/
theorem dispatch_decided_moved : ∃ (s₀ s : ExecState Unit Unit) (rest : List Unit) (f : Frame)
    (tr : List (ExecState Unit Unit × ExecAction Unit Unit)),
    Dispatched Exec.config () rest f 0 (movedReply (some 32))
      ((s₀.memory.queue ()).packetBuffer 0) tr s₀ s ∧
      (s.memory.queue ()).history.launches.map (fun l => l.data.kernargAddr) = [32] := by
  obtain ⟨s₀, hr, hp⟩ := Machine.exists_reachable_of_run (executeMachine Unit Exec.config)
    Machine.always ([.register ()] ++ Exec.submit () 0 movedPacket ++ Exec.work 15)
    (fun s₀ => isAtDispatch () s₀ &&
      ((packetMachine Unit Exec.config () s₀).trace
        (List.replicate 15 (.worker (movedReply (some 32)))) [] s₀).any fun r =>
          isLeft [32] r.1 r.2)
    (Exec.init_start _ fun _ => none) (by decide +kernel)
  rw [Bool.and_eq_true] at hp
  obtain ⟨rest, f, harrives⟩ := arrives_of_isAtDispatch hp.1
  obtain ⟨tr, s, hrun, hreplies, hleft⟩ := exists_run_of_replicate
    (packetMachine Unit Exec.config () s₀) 15 (.worker (movedReply (some 32))) (isLeft [32]) rfl
    hp.2
  simp only [isLeft, Bool.and_eq_true, Bool.not_eq_true', decide_eq_true_eq] at hleft
  have hlacks : ¬ LacksBuffer (movedReply (some 32)) ((s₀.memory.queue ()).packetBuffer 0) :=
    fun h => Option.some_ne_none _ h.2.1
  exact ⟨s₀, s, rest, f, tr, ((dispatch_decided hr harrives).2 tr s _ hrun hleft.1
    (answers_of_eq hreplies) (aligned_movedReply (by simp) _)).2 hlacks, hleft.2⟩

/-- The process is aborted, and neither the kernel nor the callback has been called. -/
def isAborted (_ : List (ExecState Unit Unit × ExecAction Unit Unit)) (s : ExecState Unit Unit) :
    Bool :=
  (match s.worker with
    | .dead _ { ops := _, closing := _, pc := .halted .aborted } => true
    | _ => false) &&
    (s.memory.queue ()).history.launches.isEmpty && (s.memory.queue ()).history.callbacks.isEmpty

theorem aborted_of_isAborted {tr : List (ExecState Unit Unit × ExecAction Unit Unit)}
    {s : ExecState Unit Unit} (h : isAborted tr s = true) :
    Aborted s ∧ s.worker.inPacket () = false ∧ (s.memory.queue ()).history.launches = [] ∧
      (s.memory.queue ()).history.callbacks = [] := by
  simp only [isAborted, Bool.and_eq_true, List.isEmpty_iff] at h
  obtain ⟨⟨hdead, hlaunches⟩, hcallbacks⟩ := h
  split at hdead
  · rename_i q ops closing hw
    exact ⟨⟨q, _, hw, rfl⟩, by rw [hw]; rfl, hlaunches, hcallbacks⟩
  · cases hdead

/-- There is no memory for the arguments: the kernel is not called, and neither is the callback. -/
theorem exists_dispatch_aborted : ∃ (s₀ s : ExecState Unit Unit) (rest : List Unit) (f : Frame)
    (tr : List (ExecState Unit Unit × ExecAction Unit Unit)),
    (executeMachine Unit Exec.config).Reachable always s₀ ∧ Arrives s₀ () rest (.dispatch f 0) ∧
      (packetMachine Unit Exec.config () s₀).Run tr s ∧ s.worker.inPacket () = false ∧
      (∀ step ∈ tr, step.2 = .worker (movedReply none)) ∧
      Launchable (movedReply none) ((s₀.memory.queue ()).packetBuffer 0) ∧ Aborted s ∧
      (s.memory.queue ()).history.launches = [] ∧
      (s.memory.queue ()).history.callbacks = [] := by
  obtain ⟨s₀, hr, hp⟩ := Machine.exists_reachable_of_run (executeMachine Unit Exec.config)
    Machine.always ([.register ()] ++ Exec.submit () 0 movedPacket ++ Exec.work 15)
    (fun s₀ => isAtDispatch () s₀ &&
      Launchable (movedReply none) ((s₀.memory.queue ()).packetBuffer 0) &&
      ((packetMachine Unit Exec.config () s₀).trace
        (List.replicate 8 (.worker (movedReply none))) [] s₀).any fun r => isAborted r.1 r.2)
    (Exec.init_start _ fun _ => none) (by decide +kernel)
  simp only [Bool.and_eq_true, decide_eq_true_eq] at hp
  obtain ⟨⟨hat, hlaunch⟩, hany⟩ := hp
  obtain ⟨rest, f, harrives⟩ := arrives_of_isAtDispatch hat
  obtain ⟨tr, s, hrun, hreplies, haborted⟩ := exists_run_of_replicate
    (packetMachine Unit Exec.config () s₀) 8 (.worker (movedReply none)) isAborted rfl hany
  obtain ⟨hdead, hend, hlaunches, hcallbacks⟩ := aborted_of_isAborted haborted
  exact ⟨s₀, s, rest, f, tr, hr, harrives, hrun, hend, hreplies, hlaunch, hdead, hlaunches,
    hcallbacks⟩

/-- An earlier interruption has left `AllocationsLock` acquired: the worker waits for itself. -/
theorem exists_dispatch_stuck : ∃ (s₀ : ExecState Bool Unit) (rest : List Bool) (f : Frame),
    (executeMachine Unit Exec.config).Reachable always s₀ ∧
      Arrives s₀ true rest (.dispatch f 0) ∧ ¬ Finishes Unit Exec.config true s₀ := by
  obtain ⟨s₀, hr, hp⟩ := Machine.exists_reachable_of_run (executeMachine Unit Exec.config)
    Machine.always ([.register false, .register true] ++ Exec.submit false 0 groupPacket ++
      Exec.submit true 0 groupPacket ++ Exec.work 19 ++ [.call () false] ++ Exec.client () 5 ++
      [.deliver] ++ Exec.work 1 ++ Exec.client () 2 ++ Exec.work 17)
    (fun s₀ => isAtDispatch true s₀ &&
      ((packetMachine Unit Exec.config true s₀).trace
        (List.replicate 2 (.worker Exec.reply)) [] s₀).any fun r =>
          r.2.worker.inPacket true &&
            ((executeMachine Unit Exec.config).step (.worker Exec.reply) r.2).isNone)
    (Exec.init_start _ fun _ => none) (by decide +kernel)
  rw [Bool.and_eq_true] at hp
  obtain ⟨rest, f, harrives⟩ := arrives_of_isAtDispatch hp.1
  obtain ⟨r, htrace, hstuck⟩ := (Option.any_eq_true _ _).mp hp.2
  rw [Bool.and_eq_true, Option.isNone_iff_eq_none] at hstuck
  refine ⟨s₀, rest, f, hr, harrives, ?_⟩
  rintro ⟨n, hfinishes⟩
  have hsome := (hfinishes r.1 r.2 (run_of_trace (.init rfl) htrace)).2 hstuck.1 Exec.reply
  rw [hstuck.2] at hsome
  cases hsome

/-- **The two exceptions**: a processing that ends with neither call, although the packet can be
launched, and one that does not end. -/
theorem dispatch_undecided :
    (∃ (s₀ s : ExecState Unit Unit) (rest : List Unit) (f : Frame)
      (tr : List (ExecState Unit Unit × ExecAction Unit Unit)),
      (executeMachine Unit Exec.config).Reachable always s₀ ∧
        Arrives s₀ () rest (.dispatch f 0) ∧ (packetMachine Unit Exec.config () s₀).Run tr s ∧
        s.worker.inPacket () = false ∧
        (∀ step ∈ tr, Answers () (movedReply none) step.1 step.2) ∧
        Launchable (movedReply none) ((s₀.memory.queue ()).packetBuffer 0) ∧ Aborted s ∧
        (s.memory.queue ()).history.launches = [] ∧
        (s.memory.queue ()).history.callbacks = [] ∧
        ¬ Dispatched Exec.config () rest f 0 (movedReply none)
          ((s₀.memory.queue ()).packetBuffer 0) tr s₀ s) ∧
      ∃ (s₀ : ExecState Bool Unit) (rest : List Bool) (f : Frame),
        (executeMachine Unit Exec.config).Reachable always s₀ ∧
          Arrives s₀ true rest (.dispatch f 0) ∧ ¬ Finishes Unit Exec.config true s₀ := by
  refine ⟨?_, exists_dispatch_stuck⟩
  obtain ⟨s₀, s, rest, f, tr, hr, harrives, hrun, hend, hreplies, hlaunch, hdead, hlaunches,
    hcallbacks⟩ := exists_dispatch_aborted
  refine ⟨s₀, s, rest, f, tr, hr, harrives, hrun, hend, answers_of_eq hreplies, hlaunch, hdead,
    hlaunches, hcallbacks, ?_⟩
  intro h
  obtain ⟨k, l, -, -, -, -, -, -, hone, -⟩ := h.called hlaunch
  rw [hlaunches] at hone
  simp at hone

end PhsaRuntime
