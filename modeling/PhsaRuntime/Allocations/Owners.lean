import PhsaRuntime.Allocations.Frees

/-!
# Who has which block

A signal of the present runtime has the block of its value, a queue that of its packets, and the
worker the group memory and the kernel arguments of its packet. They keep their blocks, and no
block has two owners, as long as the application does not pass a block of theirs to
`hsa_memory_free`, which frees whatever a region has in its book. The handle of a signal is the
address of its value, and the packets of a queue are known to the application.

## Main definitions

* `AllocState.held` — the pool and the block of an owner.
* `FreesHeld` — the calls of `hsa_memory_free` with the block of an owner.

## Main results

* `blocks_kept_iff` — the owners keep their blocks in a run if and only if there is no such call.
-/

namespace PhsaRuntime

open AllocState

/-- The owners of blocks, other than the application. -/
inductive BlockOwner
  | signal (handle : ℕ)
  | queue (this : ℕ)
  | groupMemory
  | kernargs
  deriving DecidableEq, Repr

namespace AllocState

/-- The signal is one of the present runtime. -/
def isPresent (s : AllocState) (signal : ℕ) : Bool :=
  s.initialized && (s.signals signal).isSome && (s.signalMemory signal).1 == s.session

/-- What the owner has taken, and from which pool. -/
def held (s : AllocState) : BlockOwner → Option (Option ℕ × ℕ)
  | .signal handle =>
    if s.isPresent handle then some (some (s.signalMemory handle).2, handle) else none
  | .queue this => (s.queues this).map fun q => (some (s.queueRegion this), q.baseAddress)
  | .groupMemory => s.groupMemory.map fun block => (some s.groupRegion, block)
  | .kernargs => s.kernargs.map fun buffer => (none, buffer)

/-- Every owner still has its block. -/
def Intact (s : AllocState) : Prop := ∀ o i b, s.held o = some (i, b) → b ∈ s.book i

end AllocState

/-- `hsa_memory_free` of a block that a region has given to an owner. -/
def FreesHeld (s : AllocState) : AllocAction → Prop
  | .memoryFree ptr =>
    s.initialized = true ∧ ptr ≠ 0 ∧ ∃ o region, s.held o = some (some region, ptr)
  | _ => False

/-- The calls of `hsa_memory_free`. -/
def isMemoryFree : AllocAction → Bool
  | .memoryFree _ => true
  | _ => false

/-- The other calls free no block that has an owner. -/
theorem not_freesHeld_of_isMemoryFree {s : AllocState} {a : AllocAction}
    (ha : isMemoryFree a = false) : ¬ FreesHeld s a := by
  cases a with
  | memoryFree ptr => cases ha
  | _ => exact id

/-- The condition on the steps of a run. -/
def KeepsHeld (s : AllocState) (a : AllocAction) : Prop := ¬ FreesHeld s a

variable {s s' : AllocState} {a : AllocAction} {i : Option ℕ} {o : BlockOwner}
  {region ptr value this signal b : ℕ}

/-! ## The moves -/

section Moves

/-- Without a runtime nobody but the application has a block. -/
theorem held_of_closed (h : AllocInv s) (hi : s.initialized = false) : s.held o = none := by
  obtain ⟨-, hgroup, hkernargs⟩ := h.closed hi
  cases o with
  | signal handle => simp [held, isPresent, hi]
  | queue this => simp [held, h.queues_of_closed hi]
  | groupMemory => simp [held, hgroup]
  | kernargs => simp [held, hkernargs]

/-- Before the first signal and the first queue of a runtime it is the same. -/
theorem held_begun (h : AllocInv s) (hcounter : s.referenceCounter = 0) {g p c : ℕ} :
    (s.begun g p c).held o = none := by
  have hi : s.initialized = false := by
    rw [← Bool.not_eq_true, h.counter]
    simp [hcounter]
  obtain ⟨-, hgroup, hkernargs⟩ := h.closed hi
  cases o with
  | signal handle =>
    have hpast := h.past handle
    have hnot : (s.begun g p c).isPresent handle = false := by
      simp only [isPresent, AllocState.begun, Bool.true_and, Bool.and_eq_false_iff]
      cases hsome : (s.signals handle).isSome with
      | false => exact .inl rfl
      | true =>
        have hle := hpast hsome
        exact .inr (by simp; omega)
    simp [held, hnot]
  | queue this =>
    simp [held, show (s.begun g p c).queues = s.queues from rfl, h.queues_of_closed hi]
  | groupMemory => simp [held, show (s.begun g p c).groupMemory = s.groupMemory from rfl, hgroup]
  | kernargs => simp [held, show (s.begun g p c).kernargs = s.kernargs from rfl, hkernargs]

theorem holding_of_none {book : Option ℕ → Set ℕ} {held : BlockOwner → Option (Option ℕ × ℕ)}
    (h : ∀ o, held o = none) : Holding book held where
  booked o i b ho := by
    rw [h] at ho
    cases ho
  unique o o' i j b ho := by
    rw [h] at ho
    cases ho

theorem held_allocate : (s.allocate region ptr).held = s.held := by
  funext o
  cases o with
  | signal handle => simp [held, isPresent]
  | queue this => simp [held]
  | groupMemory => simp [held]
  | kernargs => simp [held]

/-- The present runtime registers a signal. -/
theorem held_registerSignal_self {v : ℤ} (hi : s.initialized = true) :
    (s.registerSignal value region v).held (.signal value) = some (some region, value) := by
  simp [held, isPresent, registerSignal, hi]

theorem held_registerSignal_of_ne {v : ℤ} (ho : o ≠ .signal value) :
    (s.registerSignal value region v).held o = s.held o := by
  cases o with
  | signal handle =>
    have hne : handle ≠ value := fun heq => ho (heq ▸ rfl)
    simp [held, isPresent, registerSignal, hne]
  | queue this => rfl
  | groupMemory => rfl
  | kernargs => rfl

theorem held_dropSignal_self : (s.dropSignal signal).held (.signal signal) = none := by
  simp [held, isPresent, dropSignal]

theorem held_dropSignal_of_ne (ho : o ≠ .signal signal) :
    (s.dropSignal signal).held o = s.held o := by
  cases o with
  | signal handle =>
    have hne : handle ≠ signal := fun heq => ho (heq ▸ rfl)
    simp [held, isPresent, dropSignal, hne]
  | queue this => rfl
  | groupMemory => rfl
  | kernargs => rfl

theorem held_registerQueue_self {q : UserModeQueue} {agents : ℕ → Option (List ℕ)} :
    (s.registerQueue this region q agents).held (.queue this) =
      some (some region, q.baseAddress) := by
  simp [held, registerQueue]

theorem held_registerQueue_of_ne {q : UserModeQueue} {agents : ℕ → Option (List ℕ)}
    (ho : o ≠ .queue this) : (s.registerQueue this region q agents).held o = s.held o := by
  cases o with
  | signal handle => rfl
  | queue x =>
    have hne : x ≠ this := fun heq => ho (heq ▸ rfl)
    simp [held, registerQueue, hne]
  | groupMemory => rfl
  | kernargs => rfl

/-- The flag of a queue says nothing about its packets. -/
theorem held_setDestroyed {q : UserModeQueue} (hq : s.queues this = some q) :
    ({ s with queues := Function.update s.queues this (some { q with destroyed := true }) } :
      AllocState).held = s.held := by
  funext o
  cases o with
  | signal handle => rfl
  | queue x =>
    by_cases hx : x = this
    · simp [held, hx, hq]
    · simp [held, hx]
  | groupMemory => rfl
  | kernargs => rfl

end Moves

/-! ## Runs -/

/-- The state between calls, if the owners keep their blocks. -/
structure AllocOwned (s : AllocState) : Prop extends AllocSettled s where
  holding : Holding s.book s.held

/-- The block of the owner `o` leaves the book, and the owner is gone. -/
theorem Holding.release_owner (h : Holding s.book s.held) (hinv : AllocInv s)
    (hheld : s.held o = some (some region, b)) (hself : s'.held o = none)
    (hother : ∀ o', o' ≠ o → s'.held o' = s.held o')
    (hbook : s'.book = (s.freed region b).book) : Holding s'.book s'.held := by
  refine h.give (b := b) ?_ ?_
  · intro j c hc hne
    rw [hbook, mem_book_freed hinv]
    exact ⟨hc, fun _ => hne⟩
  · intro o' j c ho'
    by_cases ho : o' = o
    · rw [ho, hself] at ho'
      cases ho'
    · rw [hother o' ho] at ho'
      refine ⟨ho', ?_⟩
      rintro rfl
      exact ho (h.unique o' o j (some region) c ho' hheld)

/-- Everyone but the worker takes blocks of a region. -/
theorem exists_region_of_held {j : Option ℕ} (h : s.held o = some (j, b)) (ho : o ≠ .kernargs) :
    ∃ region, j = some region := by
  cases o with
  | kernargs => exact absurd rfl ho
  | signal handle =>
    simp only [held] at h
    split at h
    · exact ⟨_, (Prod.mk.inj (Option.some.inj h)).1.symm⟩
    · cases h
  | queue this =>
    obtain ⟨q, -, hq⟩ := Option.map_eq_some_iff.mp h
    exact ⟨_, (Prod.mk.inj hq).1.symm⟩
  | groupMemory =>
    obtain ⟨block, -, hblock⟩ := Option.map_eq_some_iff.mp h
    exact ⟨_, (Prod.mk.inj hblock).1.symm⟩

/-- The worker has no kernel arguments any more, and no more than before of anything else. -/
theorem Holding.forget (h : Holding s.book s.held) (hregions : s'.regions = s.regions)
    (hheld : ∀ o, s'.held o = none ∨ o ≠ .kernargs ∧ s'.held o = s.held o) :
    Holding s'.book s'.held := by
  refine h.drop ?_ ?_
  · intro o j c ho hc
    rcases hheld o with hnone | ⟨hne, heq⟩
    · rw [hnone] at ho
      cases ho
    · obtain ⟨region, rfl⟩ := exists_region_of_held (heq ▸ ho) hne
      rwa [mem_book_some, hregions]
  · intro o j c ho
    rcases hheld o with hnone | ⟨-, heq⟩
    · rw [hnone] at ho
      cases ho
    · exact heq ▸ ho

/-- The books only grow when a region takes a block. -/
theorem book_subset_allocate (hregion : (s.regions region).isSome) {c : ℕ} (hc : c ∈ s.book i) :
    c ∈ (s.allocate region b).book i := by
  by_cases hb : b = 0
  · rwa [allocate, if_pos hb]
  · exact (mem_book_allocate hb hregion).mpr (.inr hc)

/-- A region takes a block, for the application or for an owner that is to come. -/
theorem Holding.allocate (h : Holding s.book s.held) (hregion : (s.regions region).isSome) :
    Holding (s.allocate region b).book (s.allocate region b).held := by
  rw [held_allocate]
  exact h.drop (fun _ _ _ _ hc => book_subset_allocate hregion hc) fun _ _ _ ho => ho

theorem mem_book_prepareQueue {allocated : Allocated} {c : ℕ}
    (hglobal : (s.regions s.globalRegion).isSome) (hbuffer : allocated.packetBuffer ≠ 0)
    (hvalue : allocated.signalValue ≠ 0) :
    c ∈ (s.prepareQueue allocated).book i ↔
      i = some s.globalRegion ∧ (c = allocated.signalValue ∨ c = allocated.packetBuffer) ∨
        c ∈ s.book i := by
  have hglobal' : ((s.allocate s.globalRegion allocated.packetBuffer).regions
      s.globalRegion).isSome := by rwa [isSome_allocate_regions]
  have hboth := mem_book_allocate (c := c) (i := i) hvalue hglobal'
  rw [mem_book_allocate hbuffer hglobal] at hboth
  refine hboth.trans ?_
  rw [and_or_left, or_assoc]

/-- The doorbell of a new queue is held as a signal. -/
theorem Holding.prepareQueue {allocated : Allocated} (h : Holding s.book s.held)
    (hi : s.initialized = true) (hglobal : (s.regions s.globalRegion).isSome)
    (hbuffer : allocated.packetBuffer ≠ 0) (hvalue : allocated.signalValue ≠ 0)
    (hfree : ∀ o j, s.held o ≠ some (j, allocated.signalValue)) :
    Holding (s.prepareQueue allocated).book (s.prepareQueue allocated).held := by
  have hold : Holding (s.prepareQueue allocated).book s.held := by
    refine h.drop ?_ fun _ _ _ ho => ho
    intro o j c _ hc
    exact (mem_book_prepareQueue hglobal hbuffer hvalue).mpr (.inr hc)
  refine hold.own (i := some s.globalRegion) (b := allocated.signalValue)
    (o := .signal allocated.signalValue) ?_ hfree ?_ ?_
  · exact (mem_book_prepareQueue hglobal hbuffer hvalue).mpr (.inl ⟨rfl, .inl rfl⟩)
  · exact held_registerSignal_self (by simpa using hi)
  · intro o ho
    rw [AllocState.prepareQueue, held_registerSignal_of_ne ho, held_allocate, held_allocate]

/-- The application gives a block back that nobody holds. -/
theorem AllocOwned.holding_freed {ptr : ℕ} (h : AllocOwned s)
    (hkeeps : ∀ o, s.held o ≠ some (some region, ptr)) :
    Holding (s.freed region ptr).book (s.freed region ptr).held := by
  by_cases hmem : ptr ∈ s.book (some region)
  · refine h.holding.give (b := ptr) ?_ ?_
    · intro j c hc hne
      rw [mem_book_freed h.toAllocInv]
      exact ⟨hc, fun _ => hne⟩
    · intro o j c ho
      refine ⟨ho, ?_⟩
      rintro rfl
      have hj := h.booked.unique j (some region) c (h.holding.booked o j c ho) hmem
      exact hkeeps o (hj ▸ ho)
  · rw [freed_of_not_mem (by rwa [mem_getD_iff])]
    exact h.holding

theorem AllocOwned.not_held (h : AllocOwned s) {c : ℕ} (hc : c ∉ s.heap) (o : BlockOwner)
    (j : Option ℕ) : s.held o ≠ some (j, c) :=
  h.holding.not_held h.booked hc

/-- A new signal holds its value. -/
theorem AllocOwned.holding_registerSignal {value : ℕ} {initialValue : ℤ} (h : AllocOwned s)
    (hi : s.initialized = true) (hvalue : value ≠ 0) (hfresh : value ∉ s.heap) :
    Holding ((s.allocate s.globalRegion value).registerSignal value s.globalRegion
      initialValue).book ((s.allocate s.globalRegion value).registerSignal value s.globalRegion
        initialValue).held := by
  have hglobal := (h.regions hi).1
  have hold := h.holding.allocate (b := value) hglobal
  refine hold.own (i := some s.globalRegion) (b := value) (o := .signal value) ?_ ?_ ?_ ?_
  · exact (mem_book_allocate hvalue hglobal).mpr (.inl ⟨rfl, rfl⟩)
  · rw [held_allocate]
    exact h.not_held hfresh
  · exact held_registerSignal_self (by rwa [allocate_initialized])
  · exact fun o ho => held_registerSignal_of_ne ho

/-- A new queue holds its packets, and its doorbell is held as a signal. -/
theorem AllocOwned.holding_queueCreate {allocated : Allocated} {q : UserModeQueue}
    {agents : ℕ → Option (List ℕ)} (h : AllocOwned s) (hi : s.initialized = true)
    (hbuffer : allocated.packetBuffer ≠ 0) (hvalue : allocated.signalValue ≠ 0)
    (hfresh : allocated.packetBuffer ∉ s.heap) (hfresh' : allocated.signalValue ∉ s.heap)
    (hne : allocated.packetBuffer ≠ allocated.signalValue)
    (hbase : q.baseAddress = allocated.packetBuffer) :
    Holding ((s.prepareQueue allocated).registerQueue this s.globalRegion q agents).book
      ((s.prepareQueue allocated).registerQueue this s.globalRegion q agents).held := by
  have hglobal := (h.regions hi).1
  have hprepared := h.holding.prepareQueue hi hglobal hbuffer hvalue (h.not_held hfresh')
  refine hprepared.own (i := some s.globalRegion) (b := allocated.packetBuffer)
    (o := .queue this) ?_ ?_ ?_ ?_
  · exact (mem_book_prepareQueue hglobal hbuffer hvalue).mpr (.inl ⟨rfl, .inr rfl⟩)
  · intro o j ho
    by_cases hsig : o = .signal allocated.signalValue
    · rw [hsig, prepareQueue, held_registerSignal_self (by simpa using hi)] at ho
      exact hne (Prod.mk.inj (Option.some.inj ho)).2.symm
    · rw [prepareQueue, held_registerSignal_of_ne hsig, held_allocate, held_allocate] at ho
      exact h.not_held hfresh o j ho
  · rw [held_registerQueue_self, hbase]
  · exact fun o ho => held_registerQueue_of_ne ho

/-- A new soft queue holds its packets. -/
theorem AllocOwned.holding_softQueueCreate {allocated : Allocated} {q : UserModeQueue}
    (h : AllocOwned s) (hregion : (s.regions region).isSome)
    (hbuffer : allocated.packetBuffer ≠ 0) (hfresh : allocated.packetBuffer ∉ s.heap)
    (hbase : q.baseAddress = allocated.packetBuffer) :
    Holding ((s.allocate region allocated.packetBuffer).registerQueue this region q
      s.agents).book ((s.allocate region allocated.packetBuffer).registerQueue this region q
        s.agents).held := by
  have hold := h.holding.allocate (b := allocated.packetBuffer) hregion
  refine hold.own (i := some region) (b := allocated.packetBuffer) (o := .queue this) ?_ ?_ ?_ ?_
  · exact (mem_book_allocate hbuffer hregion).mpr (.inl ⟨rfl, rfl⟩)
  · rw [held_allocate]
    exact h.not_held hfresh
  · rw [held_registerQueue_self, hbase]
  · exact fun o ho => held_registerQueue_of_ne ho

theorem held_groupAllocate_of_ne {block : ℕ} (ho : o ≠ .groupMemory) :
    (s.groupAllocate block).held o = (s.allocate s.groupRegion block).held o := by
  cases o with
  | groupMemory => exact absurd rfl ho
  | signal handle => rfl
  | queue this => rfl
  | kernargs => rfl

/-- The worker holds the group memory, if it gets any. -/
theorem AllocOwned.holding_groupAllocate {block : ℕ} (h : AllocOwned s)
    (hi : s.initialized = true) (hgroup : s.groupMemory = none) (hfresh : block ∉ s.heap) :
    Holding (s.groupAllocate block).book (s.groupAllocate block).held := by
  have hold := h.holding.allocate (b := block) (h.regions hi).2
  by_cases hblock : block = 0
  · have hsame : (s.groupAllocate block).held = (s.allocate s.groupRegion block).held := by
      funext o
      by_cases ho : o = .groupMemory
      · simp [ho, held, groupAllocate, hblock, hgroup]
      · exact held_groupAllocate_of_ne ho
    rw [hsame]
    exact hold
  · refine hold.own (i := some s.groupRegion) (b := block) (o := .groupMemory) ?_ ?_ ?_
      fun o ho => held_groupAllocate_of_ne ho
    · exact (mem_book_allocate hblock (h.regions hi).2).mpr (.inl ⟨rfl, rfl⟩)
    · rw [held_allocate]
      exact h.not_held hfresh
    · simp [held, groupAllocate, hblock, AllocState.allocate]

/-- The worker gives the group memory back. -/
theorem AllocOwned.holding_groupFree {block : ℕ} (h : AllocOwned s)
    (hgroup : s.groupMemory = some block) :
    Holding ({ s.freed s.groupRegion block with groupMemory := none } : AllocState).book
      ({ s.freed s.groupRegion block with groupMemory := none } : AllocState).held := by
  have hheld : s.held .groupMemory = some (some s.groupRegion, block) := by simp [held, hgroup]
  refine h.holding.release_owner h.toAllocInv hheld rfl ?_ rfl
  intro o ho
  cases o with
  | groupMemory => exact absurd rfl ho
  | signal handle => rfl
  | queue this => rfl
  | kernargs => rfl

/-- The worker holds the buffer for the kernel arguments. -/
theorem AllocOwned.holding_relocate {buffer : ℕ} (h : AllocOwned s) (hnone : s.kernargs = none)
    (hfresh : buffer ∉ s.heap) : Holding (s.relocate buffer).book (s.relocate buffer).held := by
  have hbook : ∀ j c, c ∈ s.book j → c ∈ (s.relocate buffer).book j := by
    intro j c hc
    cases j with
    | none => simp [hnone] at hc
    | some r => exact hc
  have hold : Holding (s.relocate buffer).book s.held :=
    h.holding.drop (fun _ j c _ hc => hbook j c hc) fun _ _ _ ho => ho
  refine hold.own (i := none) (b := buffer) (o := .kernargs) rfl (h.not_held hfresh) rfl ?_
  intro o ho
  cases o with
  | kernargs => exact absurd rfl ho
  | signal handle => rfl
  | queue this => rfl
  | groupMemory => rfl

/-- **What a call or a step keeps**, if it frees no block of an owner. -/
theorem AllocOwned.move (h : AllocOwned s) (hadm : s.Admits a) (hkeeps : KeepsHeld s a)
    (hmove : AllocMove s a s') : Holding s'.book s'.held := by
  cases hmove with
  | stay => exact h.holding
  | begun hcounter => exact holding_of_none fun o => held_begun h.toAllocInv hcounter
  | retain => exact h.holding
  | release => exact h.holding
  | finished hcounter hd =>
    have hsettled := h.toAllocSettled.move hadm (.finished hcounter hd)
    exact holding_of_none fun o => held_of_closed hsettled.toAllocInv rfl
  | memoryAllocate _ hregion _ => exact h.holding.allocate hregion
  | memoryFree hi hptr hregion hbook =>
    exact h.holding_freed fun o ho => hkeeps ⟨hi, hptr, o, _, ho⟩
  | signalCreate _ hi hvalue => exact h.holding_registerSignal hi hvalue hadm
  | @signalDestroy signal hi _ hsome hsession =>
    have hheld : s.held (.signal signal) = some (some (s.signalMemory signal).2, signal) := by
      simp [held, isPresent, hi, hsome, hsession]
    exact h.holding.release_owner h.toAllocInv hheld held_dropSignal_self
      (fun o ho => held_dropSignal_of_ne ho) rfl
  | queueCreate hi hbuffer hvalue hbase _ _ _ =>
    obtain ⟨-, -, hfresh, hfresh', hne⟩ := hadm
    exact h.holding_queueCreate hi hbuffer hvalue hfresh hfresh' (fun heq => hbuffer (hne heq))
      hbase
  | softQueueCreate _ hregion hbuffer hbase _ _ =>
    obtain ⟨-, -, hfresh⟩ := hadm
    exact h.holding_softQueueCreate hregion hbuffer hfresh hbase
  | queueDestroy hq =>
    rw [held_setDestroyed hq]
    exact h.holding
  | groupAllocate =>
    obtain ⟨hi, hgroup, -, hfresh⟩ := hadm
    exact h.holding_groupAllocate hi hgroup hfresh
  | groupFree => exact h.holding_groupFree hadm.1
  | relocate =>
    obtain ⟨-, hnone, -, hfresh⟩ := hadm
    exact h.holding_relocate hnone hfresh
  | kernargsFree =>
    refine h.holding.forget rfl ?_
    intro o
    cases o with
    | kernargs => exact .inl rfl
    | signal handle => exact .inr ⟨by simp, rfl⟩
    | queue this => exact .inr ⟨by simp, rfl⟩
    | groupMemory => exact .inr ⟨by simp, rfl⟩
  | interrupt =>
    refine h.holding.forget rfl ?_
    intro o
    cases o with
    | kernargs => exact .inl rfl
    | signal handle => exact .inr ⟨by simp, rfl⟩
    | queue this => exact .inr ⟨by simp, rfl⟩
    | groupMemory => exact .inl rfl

/-- The state between calls, as long as no block of an owner is passed to `hsa_memory_free`. -/
theorem allocOwned_of_reachable (h : allocMachine.Reachable KeepsHeld s) : AllocOwned s := by
  refine h.induction ?_ ?_
  · intro s hs
    have hsettled := allocSettled_of_reachable (.init hs)
    exact ⟨hsettled, holding_of_none fun o => held_of_closed hsettled.toAllocInv hs.1⟩
  · intro s a s' _ hok hs ih
    simp only [allocMachine] at hs
    split at hs
    · rename_i hadm
      have hmove := allocMove (eq_ok_of_toOption hs)
      exact ⟨ih.toAllocSettled.move hadm hmove, ih.move hadm hok hmove⟩
    · cases hs

/-- The block is freed, and its owner does not know. -/
theorem not_intact_of_freesHeld (h : AllocSettled s) (hintact : s.Intact) (hfrees : FreesHeld s a)
    (hperform : s.perform a = .ok s') : ¬ s'.Intact := by
  cases a with
  | memoryFree ptr =>
    obtain ⟨hi, hptr, o, region, hheld⟩ := hfrees
    obtain ⟨r, hr, rfl⟩ := exists_of_map_eq_ok hperform
    simp only [hsaMemoryFree, hi, Bool.not_true, if_neg hptr] at hr
    obtain ⟨t, ht, rfl⟩ := exists_of_map_eq_ok hr
    obtain ⟨region', hregion', rfl, hbook⟩ := freePointer_ok ht
    have hmem := hintact o (some region) ptr hheld
    have hsome : (s.regions region).isSome := by
      obtain ⟨blocks, hblocks, -⟩ := hmem
      rw [hblocks]
      rfl
    have hboth : ptr ∈ s.book (some s.globalRegion) ∨ ptr ∈ s.book (some s.groupRegion) := by
      rcases h.two region hsome with hglobal | hgroup
      · exact .inl (hglobal ▸ hmem)
      · exact .inr (hgroup ▸ hmem)
    have hsame := h.booked.unique (some region') (some region) ptr (hbook hboth) hmem
    intro hintact'
    have hmem' := hintact' o (some region) ptr hheld
    exact ((mem_book_freed h.toAllocInv).mp hmem').2 hsame.symm rfl
  | _ => exact absurd hfrees id

/-- **The owners keep their blocks.** In a run, every signal of the present runtime, every queue
and the worker have their blocks in the books of the regions all the time if and only if the
application never passes a block of theirs to `hsa_memory_free`. -/
theorem blocks_kept_iff {tr : List (AllocState × AllocAction)} (h : allocMachine.Run tr s) :
    (∀ t ∈ Machine.states tr s, t.Intact) ↔ ∀ p ∈ tr, ¬ FreesHeld p.1 p.2 := by
  constructor
  · intro hintact p hp hfrees
    obtain ⟨t, ht, hstep⟩ := h.exists_next hp
    have hreach : allocMachine.Reachable Machine.always p.1 :=
      h.reachable_of_mem (fun _ _ => trivial) hp
    simp only [allocMachine] at hstep
    split at hstep
    · refine not_intact_of_freesHeld (allocSettled_of_reachable hreach) ?_ hfrees
        (eq_ok_of_toOption hstep) (hintact t ht)
      exact hintact p.1 (List.mem_cons_of_mem s (List.mem_map_of_mem hp))
    · cases hstep
  · intro hkeeps t ht o i b
    exact (allocOwned_of_reachable (h.reachable_of_mem_states hkeeps ht)).holding.booked o i b

/-- The handle of a signal is passed to `hsa_memory_free`. -/
theorem blocks_kept_iff_handle : ∃ tr s, allocMachine.Run tr s ∧
    ¬ ∀ t ∈ Machine.states tr s, t.Intact := by
  obtain ⟨tr, s, hrun, hlast⟩ := Machine.exists_run_of_trace allocMachine
    [.init 1 2 3, .signalCreate 0 0 0 8 ⟨0, 64⟩, .memoryFree 64]
    (fun tr _ => match tr with
      | (s, a) :: _ => s.isPresent 64 && a = .memoryFree 64
      | [] => false) init_unusedAllocState rfl
  refine ⟨tr, s, hrun, ?_⟩
  rw [blocks_kept_iff hrun]
  intro hkeeps
  cases tr with
  | nil => cases hlast
  | cons p tr =>
    obtain ⟨hpresent, ha⟩ := Bool.and_eq_true_iff.mp hlast
    apply hkeeps p List.mem_cons_self
    rw [of_decide_eq_true ha]
    refine ⟨?_, by decide, .signal 64, (p.1.signalMemory 64).2, by simp [held, hpresent]⟩
    rw [isPresent, Bool.and_assoc] at hpresent
    exact (Bool.and_eq_true_iff.mp hpresent).1

end PhsaRuntime
