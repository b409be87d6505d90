import PhsaRuntime.Allocations.Owners

/-!
# What outlives the runtime

A block that is live when the last `hsa_shut_down` has returned is in the book of no region. No
later call frees it, whatever the application passes to it, and no allocation returns it again.
A signal that is registered then, with its value live, stays registered at the same handle: no
later signal has its address, no queue owns it, and the call that destroys it does not return.

## Main definitions

* `Unreached` — the blocks that are live and in no book.

## Main results

* `outlives` — what is live, and what is registered, stays so for ever.
-/

namespace PhsaRuntime

open AllocState

variable {s s' t : AllocState} {a : AllocAction} {order : List ℕ}
  {this b region ptr signal value : ℕ}

/-- The block is live, and nobody has it. -/
def Unreached (s : AllocState) (b : ℕ) : Prop := b ∈ s.heap ∧ ∀ i, b ∉ s.book i

/-- The signal is not one of the present runtime, and nobody has its value. -/
structure Outlived (s : AllocState) (signal : ℕ) : Prop where
  unreached : Unreached s signal
  registered : (s.signals signal).isSome
  past : s.initialized = true → (s.signalMemory signal).1 < s.session

/-- The signal is registered as before. -/
def SameSignal (s s' : AllocState) (signal : ℕ) : Prop :=
  s'.signals signal = s.signals signal ∧ s'.signalMemory signal = s.signalMemory signal

theorem Unreached.freed (h : AllocInv s) (hb : Unreached s b) :
    Unreached (s.freed region ptr) b := by
  refine ⟨mem_heap_freed.mpr ⟨hb.1, ?_⟩, fun i hi => hb.2 i ((mem_book_freed h).mp hi).1⟩
  rintro hmem rfl
  exact hb.2 _ hmem

theorem Unreached.allocate (hregion : (s.regions region).isSome) (hptr : ptr ∉ s.heap)
    (hb : Unreached s b) : Unreached (s.allocate region ptr) b := by
  by_cases hzero : ptr = 0
  · rwa [AllocState.allocate, if_pos hzero]
  · refine ⟨(mem_heap_allocate hzero).mpr (.inr hb.1), ?_⟩
    intro i hi
    rcases (mem_book_allocate hzero hregion).mp hi with ⟨-, rfl⟩ | hold
    · exact hptr hb.1
    · exact hb.2 i hold

theorem Unreached.dropDoorbell (h : AllocInv s) (hb : Unreached s b) (q : UserModeQueue) :
    Unreached (s.dropDoorbell q) b := by
  rw [AllocState.dropDoorbell]
  split
  · exact hb.freed h
  · exact hb

/-- The deletion of the queues does not reach it. -/
theorem Unreached.deleteQueues (h : AllocInv s) (hb : Unreached s b)
    (hd : AllocState.deleteQueues order s = .ok t) : Unreached t b := by
  induction order generalizing s with
  | nil =>
    cases hd
    exact hb
  | cons this order ih =>
    rw [AllocState.deleteQueues] at hd
    cases hu : s.deleteQueue this with
    | error f =>
      rw [hu] at hd
      cases hd
    | ok u =>
      rw [hu] at hd
      have hinv := (deleteQueue_deleted h hu).inv
      obtain ⟨q, -, rfl⟩ := deleteQueue_ok hu
      exact ih hinv ((hb.freed h).dropDoorbell h.freed q) hd

theorem Unreached.begun {globalMemRegion groupMemRegion cpuAgent : ℕ} (hb : Unreached s b) :
    Unreached (s.begun globalMemRegion groupMemRegion cpuAgent) b := by
  refine ⟨hb.1, ?_⟩
  intro i hi
  cases i with
  | none => exact hb.2 none hi
  | some r =>
    obtain ⟨blocks, hblocks, hmem⟩ := hi
    rw [AllocInv.begun_regions hblocks] at hmem
    cases hmem

/-- The regions of the runtime are deleted with their books. -/
theorem Unreached.finished (hb : Unreached t b) : Unreached t.finished b := by
  refine ⟨hb.1, ?_⟩
  intro i hi
  cases i with
  | none => exact hb.2 none hi
  | some r =>
    obtain ⟨blocks, hblocks, -⟩ := hi
    cases hblocks

theorem Unreached.relocate {buffer : ℕ} (hb : Unreached s b) (hfresh : buffer ∉ s.heap) :
    Unreached (s.relocate buffer) b := by
  refine ⟨Finset.mem_insert_of_mem hb.1, ?_⟩
  intro i hi
  cases i with
  | none =>
    have hbuffer : some buffer = some b := hi
    cases hbuffer
    exact hfresh hb.1
  | some r => exact hb.2 (some r) hi

theorem Unreached.kernargsFree {buffer : ℕ} (hb : Unreached s b)
    (hbuffer : s.kernargs = some buffer) :
    Unreached { s with heap := s.heap.erase buffer, kernargs := none } b := by
  refine ⟨Finset.mem_erase.mpr ⟨?_, hb.1⟩, ?_⟩
  · rintro rfl
    exact hb.2 none hbuffer
  · intro i hi
    cases i with
    | none => cases hi
    | some r => exact hb.2 (some r) hi

theorem Unreached.interrupt (hb : Unreached s b) : Unreached s.interrupt b := by
  refine ⟨hb.1, ?_⟩
  intro i hi
  cases i with
  | none => cases hi
  | some r => exact hb.2 (some r) hi

/-- **A block that nobody has stays live, and nobody gets it.** -/
theorem AllocSettled.unreached_move (h : AllocSettled s) (hadm : s.Admits a)
    (hmove : AllocMove s a s') (hb : Unreached s b) : Unreached s' b := by
  have hregions := h.regions
  cases hmove with
  | stay => exact hb
  | begun hcounter => exact hb.begun
  | retain => exact hb
  | release => exact hb
  | finished hcounter hd =>
    have ht : Unreached _ b := Unreached.deleteQueues (h.withoutAgents fun _ => none) hb hd
    exact ht.finished
  | memoryAllocate _ hregion _ => exact hb.allocate hregion hadm
  | memoryFree _ _ _ _ => exact hb.freed h.toAllocInv
  | signalCreate _ hi _ => exact hb.allocate (hregions hi).1 hadm
  | signalDestroy _ _ _ _ => exact hb.freed h.toAllocInv
  | queueCreate hi hbuffer _ _ _ _ _ =>
    obtain ⟨-, -, hfresh, hfresh', hne⟩ := hadm
    have hbuf := hb.allocate (hregions hi).1 hfresh
    refine hbuf.allocate (by rw [isSome_allocate_regions]; exact (hregions hi).1) ?_
    rw [mem_heap_allocate hbuffer, not_or]
    exact ⟨fun heq => hbuffer (hne heq.symm), hfresh'⟩
  | softQueueCreate _ hregion _ _ _ _ =>
    obtain ⟨-, -, hfresh⟩ := hadm
    exact hb.allocate hregion hfresh
  | queueDestroy => exact hb
  | groupAllocate =>
    obtain ⟨hi, -, -, hfresh⟩ := hadm
    exact hb.allocate (hregions hi).2 hfresh
  | groupFree => exact hb.freed h.toAllocInv
  | relocate =>
    obtain ⟨-, -, -, hfresh⟩ := hadm
    exact hb.relocate hfresh
  | kernargsFree => exact hb.kernargsFree hadm
  | interrupt => exact hb.interrupt

/-! ## Signals -/

theorem SameSignal.trans (h : SameSignal s s' signal) (h' : SameSignal s' t signal) :
    SameSignal s t signal :=
  ⟨h'.1.trans h.1, h'.2.trans h.2⟩

/-- The signals of a queue are those of the present runtime. -/
theorem sameSignal_dropDoorbell {q : UserModeQueue} (hpast : (s.signalMemory signal).1 < s.session)
    (howned : q.isDoorbellOwned = true → (s.signals q.doorbellSignal).isSome →
      (s.signalMemory q.doorbellSignal).1 = s.session) :
    SameSignal s (s.dropDoorbell q) signal := by
  rw [dropDoorbell]
  split
  · rename_i hdoorbell
    obtain ⟨hown, hsome⟩ := Bool.and_eq_true_iff.mp hdoorbell
    have hsession := howned hown hsome
    have hne : signal ≠ q.doorbellSignal := by
      rintro rfl
      omega
    exact ⟨by simp [dropSignal, Function.update_of_ne hne], rfl⟩
  · exact ⟨rfl, rfl⟩

/-- The deletion of the queues does not remove it. -/
theorem sameSignal_deleteQueues (h : AllocInv s) (hpast : (s.signalMemory signal).1 < s.session)
    (hd : deleteQueues order s = .ok t) : SameSignal s t signal := by
  induction order generalizing s with
  | nil =>
    cases hd
    exact ⟨rfl, rfl⟩
  | cons this order ih =>
    rw [deleteQueues] at hd
    cases hu : s.deleteQueue this with
    | error f =>
      rw [hu] at hd
      cases hd
    | ok u =>
      rw [hu] at hd
      have hone := deleteQueue_deleted h hu
      have hsame : SameSignal s u signal := by
        obtain ⟨q, hq, rfl⟩ := deleteQueue_ok hu
        exact sameSignal_dropDoorbell (s := s.freed (s.queueRegion this) q.baseAddress) hpast
          (h.owned this q hq)
      refine hsame.trans (ih hone.inv ?_ hd)
      rw [hone.signalMemory, hone.session]
      exact hpast

/-- **A signal that has outlived its runtime stays registered.** -/
theorem AllocSettled.sameSignal_move (h : AllocSettled s) (hadm : s.Admits a)
    (hmove : AllocMove s a s') (ho : Outlived s signal) : SameSignal s s' signal := by
  have hlive := ho.unreached.1
  cases hmove with
  | finished hcounter hd =>
    obtain ⟨hperm, -⟩ := hadm hcounter
    have hi := h.counter.mpr (by omega)
    have hsame := sameSignal_deleteQueues (h.withoutAgents fun _ => none) (ho.past hi) hd
    exact hsame
  | @signalCreate _ _ _ _ allocated _ hi _ =>
    have hne : signal ≠ allocated.signalValue := by
      rintro rfl
      exact hadm hlive
    simp [SameSignal, registerSignal, Function.update_of_ne hne]
  | @signalDestroy x hi _ _ hsession =>
    have hpast := ho.past hi
    have hne : signal ≠ x := by
      rintro rfl
      omega
    exact ⟨by simp [dropSignal, Function.update_of_ne hne], rfl⟩
  | @queueCreate _ this allocated q agents hi _ _ _ _ _ _ =>
    obtain ⟨-, -, -, hfresh, -⟩ := hadm
    have hne : signal ≠ allocated.signalValue := by
      rintro rfl
      exact hfresh hlive
    simp [SameSignal, AllocState.registerQueue, Function.update_of_ne hne]
  | memoryAllocate => simp [SameSignal]
  | softQueueCreate => simp [SameSignal, AllocState.registerQueue]
  | groupAllocate => simp [SameSignal, groupAllocate]
  | _ => exact ⟨rfl, rfl⟩

/-- It is of a past runtime then as well. -/
theorem AllocSettled.outlived_move (h : AllocSettled s) (hadm : s.Admits a)
    (hmove : AllocMove s a s') (ho : Outlived s signal) : Outlived s' signal := by
  have hsame := h.sameSignal_move hadm hmove ho
  refine ⟨h.unreached_move hadm hmove ho.unreached, hsame.1 ▸ ho.registered, ?_⟩
  intro hi'
  rw [hsame.2]
  have hpast := ho.past
  have hle := h.past signal ho.registered
  cases hmove with
  | begun => exact Nat.lt_succ_of_le hle
  | finished => cases hi'
  | memoryAllocate =>
    simp only [allocate_initialized, allocate_session] at hi' ⊢
    exact hpast hi'
  | signalCreate _ hi _ => simpa [registerSignal] using hpast hi
  | queueCreate hi _ _ _ _ _ _ => simpa [AllocState.registerQueue] using hpast hi
  | softQueueCreate hi _ _ _ _ _ => simpa [AllocState.registerQueue] using hpast hi
  | groupAllocate =>
    obtain ⟨hi, -⟩ := hadm
    simpa [groupAllocate] using hpast hi
  | _ => exact hpast hi'

/-! ## Runs -/

/-- **What outlives the runtime.** Whatever is called after the last `hsa_shut_down`, a block that
is live then stays live, is in the book of no region, and is not the kernel arguments of the
worker. A signal whose value is live stays registered as it is, and belongs to no later
runtime. -/
theorem outlives (h : allocMachine.Reachable Machine.always s) (hcounter : s.referenceCounter = 0)
    (hl : allocMachine.Leads s t) :
    (∀ b ∈ s.heap, b ∈ t.heap ∧ ∀ i, b ∉ t.book i) ∧
      ∀ signal ∈ s.heap, (s.signals signal).isSome →
        SameSignal s t signal ∧ t.isPresent signal = false := by
  have hclosed : ∀ u : AllocState, AllocInv u → u.referenceCounter = 0 → u.initialized = false := by
    intro u hu hzero
    rw [← Bool.not_eq_true, hu.counter]
    simp [hzero]
  have hsettled := allocSettled_of_reachable h
  have hi := hclosed s hsettled.toAllocInv hcounter
  have hunreached : ∀ b ∈ s.heap, Unreached s b := by
    intro b hb
    refine ⟨hb, ?_⟩
    intro i hmem
    cases i with
    | none =>
      have hkernargs := (hsettled.closed hi).2.2
      rw [mem_book_none, hkernargs] at hmem
      cases hmem
    | some r =>
      obtain ⟨blocks, hblocks, -⟩ := hmem
      rw [hsettled.deleted hi r] at hblocks
      cases hblocks
  have hsteps := h.leads_induction (P := fun t => (∀ b ∈ s.heap, Unreached t b) ∧
      ∀ signal ∈ s.heap, (s.signals signal).isSome → SameSignal s t signal ∧ Outlived t signal)
    ⟨hunreached, ?_⟩ ?_ hl
  · obtain ⟨-, hblocks, hsignals⟩ := hsteps
    refine ⟨hblocks, ?_⟩
    intro signal hsignal hsome
    obtain ⟨hsame, ho⟩ := hsignals signal hsignal hsome
    refine ⟨hsame, ?_⟩
    rw [isPresent]
    cases hi : t.initialized with
    | false => rfl
    | true =>
      have hpast := ho.past hi
      simp only [Bool.true_and, Bool.and_eq_false_iff, beq_eq_false_iff_ne]
      exact .inr (by omega)
  · intro signal hsignal hsome
    refine ⟨⟨rfl, rfl⟩, hunreached signal hsignal, hsome, ?_⟩
    intro hi'
    rw [hi] at hi'
    cases hi'
  · intro u a u' hu hs ih
    obtain ⟨hblocks, hsignals⟩ := ih
    have hsettled' := allocSettled_of_reachable hu
    simp only [allocMachine] at hs
    split at hs
    · rename_i hadm
      have hmove := allocMove (eq_ok_of_toOption hs)
      refine ⟨fun b hb => hsettled'.unreached_move hadm hmove (hblocks b hb), ?_⟩
      intro signal hsignal hsome
      obtain ⟨hsame, ho⟩ := hsignals signal hsignal hsome
      exact ⟨hsame.trans (hsettled'.sameSignal_move hadm hmove ho),
        hsettled'.outlived_move hadm hmove ho⟩
    · cases hs

/-- The signal at 64 is registered when the second runtime begins. -/
theorem outlives_second : ∃ s t, allocMachine.Leads s t ∧ 64 ∈ t.heap ∧ SameSignal s t 64 ∧
    t.isPresent 64 = false := by
  obtain ⟨s, h, hlast⟩ := Machine.exists_reachable_of_run allocMachine Machine.always
    [.init 1 2 3, .signalCreate 0 0 0 8 ⟨0, 64⟩, .shutDown []]
    (fun s => s.referenceCounter = 0 && 64 ∈ s.heap && (s.signals 64).isSome &&
      (allocMachine.step (.init 1 2 3) s).isSome) init_unusedAllocState rfl
  simp only [Bool.and_eq_true, decide_eq_true_eq] at hlast
  obtain ⟨⟨⟨hcounter, hlive⟩, hsome⟩, hstep⟩ := hlast
  obtain ⟨t, ht⟩ := Option.isSome_iff_exists.mp hstep
  have hl : allocMachine.Leads s t := .single ⟨.init 1 2 3, ht⟩
  obtain ⟨hblocks, hsignals⟩ := outlives h hcounter hl
  exact ⟨s, t, hl, (hblocks 64 hlive).1, hsignals 64 hlive hsome⟩

end PhsaRuntime
