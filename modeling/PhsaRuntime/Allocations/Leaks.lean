import PhsaRuntime.Allocations.Owners

/-!
# What the last `hsa_shut_down` leaves

The queues give their packets back, and the doorbells they own are deleted, when the runtime is
deleted. Everything else that is live then is left: what `hsa_memory_allocate` returned, signals
that were not destroyed, and the blocks of a packet at which the worker was interrupted. A signal
whose value has the address of a doorbell that was destroyed is deleted with the queue that owned
the doorbell.

## Main definitions

* `AllocState.isLeft` — the live blocks that no queue gives back.
* `takes`, `givesBack` — what a call or a step adds to them and takes from them.

## Main results

* `heap_eq_left` — without a runtime, what has been taken and not given back is live, and
  nothing else.
-/

namespace PhsaRuntime

open AllocState

namespace AllocState

/-- The block has the packets of a queue. -/
def isPacketBuffer (s : AllocState) (b : ℕ) : Bool :=
  s.registry.any fun this => (s.queues this).any fun q => q.baseAddress == b

/-- The block is where a queue has, or had, a doorbell of its own. -/
def ownsDoorbell (s : AllocState) (b : ℕ) : Bool :=
  s.registry.any fun this =>
    (s.queues this).any fun q => q.isDoorbellOwned && q.doorbellSignal == b

/-- The block is live, and no queue gives it back. -/
def isLeft (s : AllocState) (b : ℕ) : Bool :=
  b ∈ s.heap && !s.isPacketBuffer b && !((s.signals b).isSome && s.ownsDoorbell b)

end AllocState

/-- The call or the step takes the block, for someone who is not a queue. -/
def takes (s : AllocState) (a : AllocAction) (b : ℕ) : Bool :=
  match a with
  | .memoryAllocate region size ptr block =>
    (s.hsaMemoryAllocate region size ptr block).1 = .success && block == b
  | .signalCreate initialValue numConsumers consumers signal allocated =>
    succeeded (s.hsaSignalCreate initialValue numConsumers consumers signal allocated) &&
      allocated.signalValue == b && !s.ownsDoorbell b
  | .groupAllocate block => block != 0 && block == b
  | .relocate buffer => buffer == b
  | _ => false

/-- The call or the step gives the block back. -/
def givesBack (s : AllocState) (a : AllocAction) (b : ℕ) : Bool :=
  match a with
  | .memoryFree ptr =>
    s.initialized && ptr != 0 && ptr == b &&
      (ptr ∈ (s.regions s.globalRegion).getD [] || ptr ∈ (s.regions s.groupRegion).getD [])
  | .signalDestroy signal =>
    s.initialized && signal != 0 && (s.signals signal).isSome && signal == b
  | .groupFree block | .kernargsFree block => block == b
  | _ => false

variable {s s' t : AllocState} {a : AllocAction} {order : List ℕ} {this b : ℕ}

/-! ## Membership -/

theorem isPacketBuffer_iff (h : AllocInv s) : s.isPacketBuffer b = true ↔
    ∃ this q, s.queues this = some q ∧ q.baseAddress = b := by
  simp only [isPacketBuffer, List.any_eq_true, Option.any_eq_true, beq_iff_eq]
  constructor
  · rintro ⟨this, -, q, hq, hb⟩
    exact ⟨this, q, hq, hb⟩
  · rintro ⟨this, q, hq, hb⟩
    exact ⟨this, (h.registered this q hq).1, q, hq, hb⟩

theorem ownsDoorbell_iff (h : AllocInv s) : s.ownsDoorbell b = true ↔
    ∃ this q, s.queues this = some q ∧ q.isDoorbellOwned = true ∧ q.doorbellSignal = b := by
  simp only [ownsDoorbell, List.any_eq_true, Option.any_eq_true, Bool.and_eq_true, beq_iff_eq]
  constructor
  · rintro ⟨this, -, q, hq, hb⟩
    exact ⟨this, q, hq, hb⟩
  · rintro ⟨this, q, hq, hb⟩
    exact ⟨this, (h.registered this q hq).1, q, hq, hb⟩

/-- The block is given back with the queue `q`, while the signals are those of `s`. -/
def GoesWith (s : AllocState) (q : UserModeQueue) (b : ℕ) : Prop :=
  q.baseAddress = b ∨ (s.signals b).isSome ∧ q.isDoorbellOwned = true ∧ q.doorbellSignal = b

theorem isLeft_iff (h : AllocInv s) : s.isLeft b = true ↔
    b ∈ s.heap ∧ ∀ this q, s.queues this = some q → ¬ GoesWith s q b := by
  simp only [isLeft, Bool.and_eq_true, decide_eq_true_eq, Bool.not_eq_true',
    Bool.eq_false_iff, ne_eq, isPacketBuffer_iff h, ownsDoorbell_iff h, GoesWith]
  constructor
  · rintro ⟨⟨hheap, hbuffer⟩, hdoorbell⟩
    refine ⟨hheap, ?_⟩
    rintro this q hq (hb | ⟨hsome, howned, hb⟩)
    · exact hbuffer ⟨this, q, hq, hb⟩
    · exact hdoorbell ⟨hsome, this, q, hq, howned, hb⟩
  · rintro ⟨hheap, hnot⟩
    refine ⟨⟨hheap, ?_⟩, ?_⟩
    · rintro ⟨this, q, hq, hb⟩
      exact hnot this q hq (.inl hb)
    · rintro ⟨hsome, this, q, hq, howned, hb⟩
      exact hnot this q hq (.inr ⟨hsome, howned, hb⟩)

/-! ## The queues of a runtime -/

/-- The queue is removed before its doorbell is deleted, or after. -/
theorem dropQueue_dropDoorbell (q : UserModeQueue) :
    (s.dropDoorbell q).dropQueue this = (s.dropQueue this).dropDoorbell q := by
  have hsignals : (s.dropQueue this).signals = s.signals := rfl
  rw [dropDoorbell, dropDoorbell, hsignals]
  split <;> rfl

/-- A doorbell that is there is deleted, and its block with it. -/
theorem dropDoorbell_spec {q : UserModeQueue} (h : AllocInv s) (hi : s.initialized = true)
    (hholding : Holding s.book s.held)
    (howned : q.isDoorbellOwned = true → (s.signals q.doorbellSignal).isSome →
      (s.signalMemory q.doorbellSignal).1 = s.session) :
    Holding (s.dropDoorbell q).book (s.dropDoorbell q).held ∧ (∀ c, c ∈ (s.dropDoorbell q).heap ↔
      c ∈ s.heap ∧ ¬ ((s.signals c).isSome ∧ q.isDoorbellOwned = true ∧ q.doorbellSignal = c)) ∧
      ∀ c, ((s.dropDoorbell q).signals c).isSome = true ↔ (s.signals c).isSome ∧
        ¬ (q.isDoorbellOwned = true ∧ q.doorbellSignal = c) := by
  rw [dropDoorbell]
  split
  · rename_i hdoorbell
    obtain ⟨hown, hsome⟩ := Bool.and_eq_true_iff.mp hdoorbell
    have hheld : s.held (.signal q.doorbellSignal) =
        some (some (s.signalMemory q.doorbellSignal).2, q.doorbellSignal) := by
      simp [held, isPresent, hi, hsome, howned hown hsome]
    refine ⟨?_, ?_, ?_⟩
    · exact hholding.release_owner h hheld held_dropSignal_self
        (fun o ho => held_dropSignal_of_ne ho) rfl
    · intro c
      have hheap := mem_heap_freed_of_mem (hholding.booked _ _ _ hheld) c
      refine hheap.trans (and_congr_right' ?_)
      constructor
      · rintro hne ⟨-, -, rfl⟩
        exact hne rfl
      · rintro hnot rfl
        exact hnot ⟨hsome, hown, rfl⟩
    · intro c
      simp only [dropSignal, freed_signals, Function.update_apply, hown, true_and]
      by_cases hc : c = q.doorbellSignal
      · simp [hc]
      · simp [hc, Ne.symm hc]
  · rename_i hdoorbell
    rw [Bool.and_eq_true, not_and] at hdoorbell
    refine ⟨hholding, ?_, ?_⟩
    · intro c
      refine ⟨fun hc => ⟨hc, ?_⟩, And.left⟩
      rintro ⟨hsome, hown, rfl⟩
      exact hdoorbell hown hsome
    · intro c
      refine ⟨fun hsome => ⟨hsome, ?_⟩, And.left⟩
      rintro ⟨hown, rfl⟩
      exact hdoorbell hown hsome

/-- A queue is deleted, and what goes with it is free. -/
theorem deleteQueue_spec (h : AllocInv s) (hi : s.initialized = true)
    (hholding : Holding s.book s.held) (hd : s.deleteQueue this = .ok t) :
    ∃ q, s.queues this = some q ∧ Holding t.book t.held ∧
      (∀ c, c ∈ t.heap ↔ c ∈ s.heap ∧ ¬ GoesWith s q c) ∧
      ∀ c, (t.signals c).isSome = true ↔ (s.signals c).isSome ∧
        ¬ (q.isDoorbellOwned = true ∧ q.doorbellSignal = c) := by
  obtain ⟨q, hq, rfl⟩ := deleteQueue_ok hd
  rw [dropQueue_dropDoorbell]
  have hheld : s.held (.queue this) = some (some (s.queueRegion this), q.baseAddress) := by
    simp [held, hq]
  have hrest : Holding ((s.freed (s.queueRegion this) q.baseAddress).dropQueue this).book
      ((s.freed (s.queueRegion this) q.baseAddress).dropQueue this).held := by
    refine hholding.release_owner h hheld ?_ ?_ rfl
    · simp [held, dropQueue]
    · intro o ho
      cases o with
      | queue x =>
        have hne : x ≠ this := fun heq => ho (heq ▸ rfl)
        simp [held, dropQueue, hne]
      | signal handle => rfl
      | groupMemory => rfl
      | kernargs => rfl
  obtain ⟨hholding', hheap, hsignals⟩ := dropDoorbell_spec (q := q) h.freed.dropQueue hi hrest
    (h.owned this q hq)
  refine ⟨q, hq, hholding', ?_, hsignals⟩
  intro c
  have hfreed := mem_heap_freed_of_mem (hholding.booked _ _ _ hheld) c
  refine (hheap c).trans ?_
  rw [show c ∈ ((s.freed (s.queueRegion this) q.baseAddress).dropQueue this).heap ↔ _ from hfreed]
  simp only [GoesWith, not_or, and_assoc]
  refine and_congr_right' (and_congr ⟨Ne.symm, Ne.symm⟩ Iff.rfl)

/-- **The loop over the queues** frees what goes with one of them. -/
theorem mem_heap_deleteQueues (h : AllocInv s) (hi : s.initialized = true)
    (hholding : Holding s.book s.held) (hnodup : order.Nodup)
    (hd : deleteQueues order s = .ok t) (c : ℕ) :
    c ∈ t.heap ↔ c ∈ s.heap ∧ ∀ this ∈ order, ∀ q, s.queues this = some q → ¬ GoesWith s q c := by
  induction order generalizing s with
  | nil =>
    cases hd
    simp
  | cons this order ih =>
    obtain ⟨hnot, hnodup⟩ := List.nodup_cons.mp hnodup
    rw [deleteQueues] at hd
    cases hu : s.deleteQueue this with
    | error f =>
      rw [hu] at hd
      cases hd
    | ok u =>
      rw [hu] at hd
      have hone := deleteQueue_deleted h hu
      obtain ⟨q, hq, hholding', hheap, hsignals⟩ := deleteQueue_spec h hi hholding hu
      have hqueues : ∀ x ∈ order, u.queues x = s.queues x := by
        intro x hx
        have hne : x ≠ this := fun heq => hnot (heq ▸ hx)
        rw [hone.queues, if_neg (by simpa using hne)]
      rw [ih hone.inv (hone.initialized.trans hi) hholding' hnodup hd, hheap]
      constructor
      · rintro ⟨⟨hlive, hgoes⟩, hrest⟩
        refine ⟨hlive, ?_⟩
        intro x hx p hp
        rcases List.mem_cons.mp hx with rfl | hx
        · rw [hq] at hp
          exact Option.some.inj hp ▸ hgoes
        · have hu' := hrest x hx p ((hqueues x hx).trans hp)
          rintro (hbase | ⟨hsome, howned, hdoorbell⟩)
          · exact hu' (.inl hbase)
          · by_cases hsame : q.isDoorbellOwned = true ∧ q.doorbellSignal = c
            · exact hgoes (.inr ⟨hsome, hsame⟩)
            · exact hu' (.inr ⟨(hsignals c).mpr ⟨hsome, hsame⟩, howned, hdoorbell⟩)
      · rintro ⟨hlive, hall⟩
        refine ⟨⟨hlive, hall this List.mem_cons_self q hq⟩, ?_⟩
        intro x hx p hp
        have hs := hall x (List.mem_cons_of_mem _ hx) p ((hqueues x hx).symm.trans hp)
        rintro (hbase | ⟨hsome, hrest⟩)
        · exact hs (.inl hbase)
        · exact hs (.inr ⟨((hsignals c).mp hsome).1, hrest⟩)

/-! ## What is left -/

/-- No queue gives the block back. -/
def Apart (s : AllocState) (b : ℕ) : Prop :=
  ∀ this q, s.queues this = some q → ¬ GoesWith s q b

theorem isLeft_iff_apart (h : AllocInv s) : s.isLeft b = true ↔ b ∈ s.heap ∧ Apart s b :=
  isLeft_iff h

/-- What a queue gives back is live. -/
theorem apart_of_not_mem (h : AllocOwned s) (hb : b ∉ s.heap) : Apart s b := by
  intro this q hq hgoes
  have hi : s.initialized = true := by
    by_contra hclosed
    rw [h.queues_of_closed (by simpa using hclosed) this] at hq
    cases hq
  rcases hgoes with rfl | ⟨hsome, howned, rfl⟩
  · have hheld : s.held (.queue this) = some (some (s.queueRegion this), q.baseAddress) := by
      simp [held, hq]
    exact h.holding.not_held h.booked hb hheld
  · have hheld : s.held (.signal q.doorbellSignal) =
        some (some (s.signalMemory q.doorbellSignal).2, q.doorbellSignal) := by
      simp [held, isPresent, hi, hsome, h.owned this q hq howned hsome]
    exact h.holding.not_held h.booked hb hheld

theorem apart_congr (hqueues : s'.queues = s.queues)
    (hsignals : (s'.signals b).isSome = (s.signals b).isSome) : Apart s' b ↔ Apart s b := by
  simp only [Apart, GoesWith, hqueues, hsignals]

/-- Nothing changes. -/
theorem isLeft_same (hsame : s'.isLeft b = s.isLeft b) (htakes : takes s a b = false)
    (hgives : givesBack s a b = false) :
    s'.isLeft b = true ↔ takes s a b = true ∨ s.isLeft b = true ∧ ¬ givesBack s a b = true := by
  simp [hsame, htakes, hgives]

/-- The block `c` is new. -/
theorem isLeft_insert (h : AllocOwned s) (h' : AllocInv s') {c : ℕ} (hc : c ∉ s.heap)
    (hheap : ∀ b, b ∈ s'.heap ↔ b = c ∨ b ∈ s.heap) (hqueues : s'.queues = s.queues)
    (hsignals : s'.signals = s.signals) :
    s'.isLeft b = true ↔ c = b ∨ s.isLeft b = true := by
  rw [isLeft_iff_apart h', isLeft_iff_apart h.toAllocInv, hheap,
    apart_congr hqueues (by rw [hsignals])]
  constructor
  · rintro ⟨rfl | hb, hapart⟩
    · exact .inl rfl
    · exact .inr ⟨hb, hapart⟩
  · rintro (rfl | ⟨hb, hapart⟩)
    · exact ⟨.inl rfl, apart_of_not_mem h hc⟩
    · exact ⟨.inr hb, hapart⟩

/-- The block `c` is given back. -/
theorem isLeft_erase (h : AllocInv s) (h' : AllocInv s') {c : ℕ}
    (hheap : ∀ b, b ∈ s'.heap ↔ b ∈ s.heap ∧ b ≠ c) (hqueues : s'.queues = s.queues)
    (hsignals : ∀ b, b ≠ c → (s'.signals b).isSome = (s.signals b).isSome) :
    s'.isLeft b = true ↔ s.isLeft b = true ∧ ¬ c = b := by
  rw [isLeft_iff_apart h', isLeft_iff_apart h, hheap]
  constructor
  · rintro ⟨⟨hb, hne⟩, hapart⟩
    exact ⟨⟨hb, (apart_congr hqueues (hsignals b hne)).mp hapart⟩, Ne.symm hne⟩
  · rintro ⟨⟨hb, hapart⟩, hne⟩
    exact ⟨⟨hb, Ne.symm hne⟩, (apart_congr hqueues (hsignals b (Ne.symm hne))).mpr hapart⟩

/-- What is refused changes nothing. -/
theorem not_takes_of_refuses (h : AllocRefuses s a) :
    takes s a b = false ∧ givesBack s a b = false := by
  cases a with
  | memoryAllocate region size ptr block =>
    exact ⟨by simp [takes, show _ ≠ _ from h], rfl⟩
  | memoryFree ptr =>
    refine ⟨rfl, ?_⟩
    rcases h with hi | rfl
    · simp [givesBack, hi]
    · simp [givesBack]
  | signalCreate initialValue numConsumers consumers signal allocated =>
    exact ⟨by simp [takes, show succeeded _ = false from h], rfl⟩
  | signalDestroy signal =>
    refine ⟨rfl, ?_⟩
    rcases h with hi | rfl | hnone
    · simp [givesBack, hi]
    · simp [givesBack]
    · simp [givesBack, hnone]
  | groupAllocate block => cases h
  | groupFree block => cases h
  | relocate buffer => cases h
  | kernargsFree buffer => cases h
  | interrupt => cases h
  | _ => exact ⟨rfl, rfl⟩

/-- A registered queue leaves other blocks as they are. -/
theorem apart_registerQueue {q : UserModeQueue} {region : ℕ} {agents : ℕ → Option (List ℕ)}
    (hnew : s.queues this = none) :
    Apart (s.registerQueue this region q agents) b ↔ Apart s b ∧ ¬ GoesWith s q b := by
  simp only [Apart, registerQueue, Function.update_apply]
  constructor
  · intro hapart
    refine ⟨?_, hapart this q (by simp)⟩
    intro x p hp
    have hx : x ≠ this := by
      rintro rfl
      rw [hnew] at hp
      cases hp
    exact hapart x p (by simpa [hx] using hp)
  · rintro ⟨hapart, hq⟩ x p hp
    split at hp
    · exact Option.some.inj hp ▸ hq
    · exact hapart x p hp

/-- The flag of a queue does not matter. -/
theorem apart_setDestroyed {q : UserModeQueue} (hq : s.queues this = some q) :
    Apart
      { s with queues := Function.update s.queues this (some { q with destroyed := true }) } b ↔
      Apart s b := by
  simp only [Apart, Function.update_apply]
  constructor
  · intro hapart x p hp hgoes
    by_cases hx : x = this
    · rw [hx, hq] at hp
      cases hp
      exact hapart this { q with destroyed := true } (by simp) hgoes
    · exact hapart x p (by simpa [hx] using hp) hgoes
  · intro hapart x p hp hgoes
    split at hp
    · cases hp
      exact hapart this q hq hgoes
    · exact hapart x p hp hgoes

/-! ## One step -/

/-- The last `hsa_shut_down`: the queues give back what goes with them. -/
theorem AllocOwned.isLeft_finished (h : AllocOwned s) (h' : AllocInv t.finished)
    (hcounter : s.referenceCounter = 1) (hperm : order.Perm s.registry)
    (hd : deleteQueues order { s with agents := fun _ => none } = .ok t) :
    t.finished.isLeft b = true ↔ s.isLeft b = true := by
  have hi := h.counter.mpr (by omega)
  have hheap := mem_heap_deleteQueues (h.withoutAgents fun _ => none) hi h.holding
    (hperm.nodup_iff.mpr h.registryNodup) hd b
  have hall : Apart t.finished b := by
    intro x q hq
    have hclosed := h'.queues_of_closed rfl x
    rw [hq] at hclosed
    cases hclosed
  rw [isLeft_iff_apart h', isLeft_iff_apart h.toAllocInv, and_iff_left hall]
  refine hheap.trans (and_congr_right' ?_)
  constructor
  · intro hnot x q hq
    exact hnot x (hperm.mem_iff.mpr (h.registered x q hq).1) q hq
  · intro hapart x _ q hq
    exact hapart x q hq

/-- What `hsa_memory_free` gives back is in the book of the region that it finds. -/
theorem givesBack_memoryFree_iff {ptr region : ℕ} (hi : s.initialized = true) (hptr : ptr ≠ 0)
    (hregion : region = s.globalRegion ∨ region = s.groupRegion)
    (hbook : ptr ∈ s.book (some s.globalRegion) ∨ ptr ∈ s.book (some s.groupRegion) →
      ptr ∈ s.book (some region)) :
    givesBack s (.memoryFree ptr) b = true ↔ ptr = b ∧ ptr ∈ s.book (some region) := by
  simp only [givesBack, hi, bne_iff_ne, ne_eq, hptr, not_false_eq_true, Bool.true_and,
    Bool.and_eq_true, beq_iff_eq, Bool.or_eq_true, decide_eq_true_eq, mem_getD_iff, true_and]
  refine and_congr_right' ⟨hbook, ?_⟩
  rcases hregion with rfl | rfl
  · exact .inl
  · exact .inr

theorem AllocOwned.isLeft_freed {ptr region : ℕ} (h : AllocOwned s)
    (h' : AllocInv (s.freed region ptr)) :
    (s.freed region ptr).isLeft b = true ↔
      s.isLeft b = true ∧ ¬ (ptr = b ∧ ptr ∈ s.book (some region)) := by
  by_cases hmem : ptr ∈ s.book (some region)
  · rw [isLeft_erase h.toAllocInv h' (c := ptr) (fun b => by simp [mem_heap_freed, hmem]) rfl
      (fun _ _ => rfl)]
    simp [hmem]
  · rw [freed_of_not_mem (by rwa [mem_getD_iff])]
    simp [hmem]

/-- A new signal, the value of which may be where a queue had a doorbell of its own. -/
theorem AllocOwned.isLeft_registerSignal {value : ℕ} {initialValue : ℤ} (h : AllocOwned s)
    (h' : AllocInv ((s.allocate s.globalRegion value).registerSignal value s.globalRegion
      initialValue)) (hvalue : value ≠ 0) (hfresh : value ∉ s.heap) :
    ((s.allocate s.globalRegion value).registerSignal value s.globalRegion
      initialValue).isLeft b = true ↔
        value = b ∧ ¬ s.ownsDoorbell b = true ∨ s.isLeft b = true := by
  have hheap : b ∈ ((s.allocate s.globalRegion value).registerSignal value s.globalRegion
      initialValue).heap ↔ b = value ∨ b ∈ s.heap := mem_heap_allocate hvalue
  rw [isLeft_iff_apart h', isLeft_iff_apart h.toAllocInv, hheap]
  by_cases hb : b = value
  · subst hb
    have hapart : Apart ((s.allocate s.globalRegion b).registerSignal b s.globalRegion
        initialValue) b ↔ ¬ s.ownsDoorbell b = true := by
      rw [ownsDoorbell_iff h.toAllocInv]
      constructor
      · rintro hapart ⟨x, q, hq, howned, hdoorbell⟩
        refine hapart x q (by simpa [registerSignal] using hq) (.inr ⟨?_, howned, hdoorbell⟩)
        simp [registerSignal]
      · rintro hnot x q hq (hbase | ⟨-, hrest⟩)
        · have hq' : s.queues x = some q := by simpa [registerSignal] using hq
          exact apart_of_not_mem h hfresh x q hq' (.inl hbase)
        · exact hnot ⟨x, q, by simpa [registerSignal] using hq, hrest⟩
    rw [hapart]
    simp [hfresh]
  · have hapart : Apart ((s.allocate s.globalRegion value).registerSignal value s.globalRegion
        initialValue) b ↔ Apart s b :=
      apart_congr allocate_queues (by simp [registerSignal, Function.update_of_ne hb])
    rw [hapart]
    simp [hb, Ne.symm hb]

/-- A new queue gives its packets and its doorbell back. -/
theorem AllocOwned.isLeft_queueCreate {allocated : Allocated} {q : UserModeQueue}
    {agents : ℕ → Option (List ℕ)} (h : AllocOwned s)
    (h' : AllocInv ((s.prepareQueue allocated).registerQueue this s.globalRegion q agents))
    (hnew : s.queues this = none) (hfresh : allocated.packetBuffer ∉ s.heap)
    (hfresh' : allocated.signalValue ∉ s.heap) (hbuffer : allocated.packetBuffer ≠ 0)
    (hvalue : allocated.signalValue ≠ 0) (hbase : q.baseAddress = allocated.packetBuffer)
    (hdoorbell : q.doorbellSignal = allocated.signalValue) (howned : q.isDoorbellOwned = true) :
    ((s.prepareQueue allocated).registerQueue this s.globalRegion q agents).isLeft b = true ↔
      s.isLeft b = true := by
  have hheap : b ∈ ((s.prepareQueue allocated).registerQueue this s.globalRegion q agents).heap ↔
      b = allocated.signalValue ∨ b = allocated.packetBuffer ∨ b ∈ s.heap :=
    (mem_heap_allocate hvalue).trans (or_congr_right (mem_heap_allocate hbuffer))
  rw [isLeft_iff_apart h', isLeft_iff_apart h.toAllocInv, hheap, apart_registerQueue (by
    rwa [prepareQueue_queues])]
  by_cases hbuf : b = allocated.packetBuffer
  · simp [GoesWith, hbase, hbuf, hfresh]
  · by_cases hval : b = allocated.signalValue
    · simp [GoesWith, hdoorbell, howned, hval, hfresh']
    · have hapart : Apart (s.prepareQueue allocated) b ↔ Apart s b :=
        apart_congr prepareQueue_queues (by
          rw [prepareQueue_signals, Function.update_of_ne hval])
      rw [hapart]
      simp [GoesWith, hbase, hdoorbell, hbuf, hval, Ne.symm hbuf, Ne.symm hval]

/-- A new soft queue gives its packets back. -/
theorem AllocOwned.isLeft_softQueueCreate {region : ℕ} {allocated : Allocated}
    {q : UserModeQueue} (h : AllocOwned s)
    (h' : AllocInv ((s.allocate region allocated.packetBuffer).registerQueue this region q
      s.agents)) (hnew : s.queues this = none) (hfresh : allocated.packetBuffer ∉ s.heap)
    (hbuffer : allocated.packetBuffer ≠ 0) (hbase : q.baseAddress = allocated.packetBuffer)
    (howned : q.isDoorbellOwned = false) :
    ((s.allocate region allocated.packetBuffer).registerQueue this region q
      s.agents).isLeft b = true ↔ s.isLeft b = true := by
  have hheap : b ∈ ((s.allocate region allocated.packetBuffer).registerQueue this region q
      s.agents).heap ↔ b = allocated.packetBuffer ∨ b ∈ s.heap := mem_heap_allocate hbuffer
  have hapart : Apart (s.allocate region allocated.packetBuffer) b ↔ Apart s b :=
    apart_congr allocate_queues (by rw [allocate_signals])
  rw [isLeft_iff_apart h', isLeft_iff_apart h.toAllocInv, hheap, apart_registerQueue (by
    rwa [allocate_queues]), hapart]
  by_cases hbuf : b = allocated.packetBuffer
  · simp [GoesWith, hbase, hbuf, hfresh]
  · simp [GoesWith, hbase, howned, hbuf, Ne.symm hbuf]

theorem AllocOwned.isLeft_groupAllocate {block : ℕ} (h : AllocOwned s)
    (h' : AllocInv (s.groupAllocate block)) (hfresh : block ∉ s.heap) :
    (s.groupAllocate block).isLeft b = true ↔
      block ≠ 0 ∧ block = b ∨ s.isLeft b = true := by
  by_cases hblock : block = 0
  · have hsame : (s.groupAllocate block).isLeft b = s.isLeft b := by
      simp only [groupAllocate, allocate, if_pos hblock]
      rfl
    rw [hsame]
    simp [hblock]
  · rw [isLeft_insert h h' hfresh (fun b => mem_heap_allocate hblock) allocate_queues
      allocate_signals]
    simp [hblock]

/-- **What a call or a step leaves.** -/
theorem AllocOwned.isLeft_move (h : AllocOwned s) (hadm : s.Admits a) (hmove : AllocMove s a s')
    (b : ℕ) :
    s'.isLeft b = true ↔ takes s a b = true ∨ s.isLeft b = true ∧ ¬ givesBack s a b = true := by
  have h' := (h.toAllocSettled.move hadm hmove).toAllocInv
  cases hmove with
  | stay hrefuses =>
    obtain ⟨htakes, hgives⟩ := not_takes_of_refuses (b := b) hrefuses
    exact isLeft_same rfl htakes hgives
  | begun => exact isLeft_same rfl rfl rfl
  | retain => exact isLeft_same rfl rfl rfl
  | release => exact isLeft_same rfl rfl rfl
  | finished hcounter hd =>
    obtain ⟨hperm, -, -⟩ := hadm hcounter
    exact isLeft_same (Bool.eq_iff_iff.mpr (h.isLeft_finished h' hcounter hperm hd)) rfl rfl
  | memoryAllocate hsuccess hregion hblock =>
    rw [isLeft_insert h h' hadm (fun b => mem_heap_allocate hblock) allocate_queues
      allocate_signals]
    simp [takes, givesBack, hsuccess]
  | memoryFree hi hptr hregion hbook =>
    rw [h.isLeft_freed h', givesBack_memoryFree_iff hi hptr hregion hbook]
    simp [takes]
  | signalCreate hsuccess _ hvalue =>
    rw [h.isLeft_registerSignal h' hvalue hadm]
    simp [takes, givesBack, hsuccess]
  | @signalDestroy signal hi hsignal hsome hsession =>
    have hheld : s.held (.signal signal) = some (some (s.signalMemory signal).2, signal) := by
      simp [held, isPresent, hi, hsome, hsession]
    rw [isLeft_erase h.toAllocInv h' (c := signal)
      (mem_heap_freed_of_mem (h.holding.booked _ _ _ hheld)) rfl ?_]
    · simp [takes, givesBack, hi, hsignal, hsome]
    · intro c hc
      simp [dropSignal, Function.update_of_ne hc]
  | queueCreate _ hbuffer hvalue hbase hdoorbell howned _ =>
    obtain ⟨-, hnew, hfresh, hfresh', -⟩ := hadm
    exact isLeft_same (Bool.eq_iff_iff.mpr (h.isLeft_queueCreate h' hnew hfresh hfresh' hbuffer
      hvalue hbase hdoorbell howned)) rfl rfl
  | softQueueCreate _ _ hbuffer hbase howned _ =>
    obtain ⟨-, hnew, hfresh⟩ := hadm
    exact isLeft_same (Bool.eq_iff_iff.mpr (h.isLeft_softQueueCreate h' hnew hfresh hbuffer hbase
      howned)) rfl rfl
  | queueDestroy hq =>
    rw [isLeft_iff_apart h', isLeft_iff_apart h.toAllocInv, apart_setDestroyed hq]
    simp [takes, givesBack]
  | groupAllocate =>
    obtain ⟨-, -, -, hfresh⟩ := hadm
    rw [h.isLeft_groupAllocate h' hfresh]
    simp [takes, givesBack]
  | @groupFree block =>
    obtain ⟨hgroup, -⟩ := hadm
    have hheld : s.held .groupMemory = some (some s.groupRegion, block) := by simp [held, hgroup]
    rw [isLeft_erase h.toAllocInv h' (c := block)
      (mem_heap_freed_of_mem (h.holding.booked _ _ _ hheld)) rfl (fun _ _ => rfl)]
    simp [takes, givesBack]
  | @relocate buffer =>
    obtain ⟨-, -, -, hfresh⟩ := hadm
    rw [isLeft_insert h h' hfresh (fun b => Finset.mem_insert) rfl rfl]
    simp [takes, givesBack]
  | @kernargsFree buffer =>
    rw [isLeft_erase h.toAllocInv h' (c := buffer) (fun b => by simp [and_comm]) rfl
      (fun _ _ => rfl)]
    simp [takes, givesBack]
  | interrupt => exact isLeft_same rfl rfl rfl

/-! ## Runs -/

/-- **What is left when there is no runtime.** In a run in which no block of an owner is passed
to `hsa_memory_free`, what is live after the last `hsa_shut_down` is what has been taken and not
been given back: by `hsa_memory_allocate`, by `hsa_signal_create`, unless at the address of a
doorbell that a queue owns, and by a worker that was interrupted. -/
theorem heap_eq_left {tr : List (AllocState × AllocAction)} (h : allocMachine.Run tr s)
    (hkeeps : ∀ p ∈ tr, KeepsHeld p.1 p.2) (hcounter : s.referenceCounter = 0) (b : ℕ) :
    b ∈ s.heap ↔ Machine.aliveAfter takes givesBack tr b = true := by
  have hleft : s.isLeft b = Machine.aliveAfter takes givesBack tr b := by
    refine h.live_eq_of_reachable ?_ ?_ hkeeps b
    · rintro s b ⟨-, -, -, -, -, -, -, hheap, -⟩
      simp [isLeft, hheap]
    · intro s a s' b hr hok hs
      simp only [allocMachine] at hs
      split at hs
      · rename_i hadm
        have hmove := (allocOwned_of_reachable hr).isLeft_move hadm
          (allocMove (eq_ok_of_toOption hs)) b
        rw [Bool.eq_iff_iff, hmove]
        simp
      · cases hs
  have hinv := (allocOwned_of_reachable ⟨tr, h, hkeeps⟩).toAllocInv
  have hi : s.initialized = false := by
    rw [← Bool.not_eq_true, hinv.counter]
    simp [hcounter]
  rw [← hleft, isLeft_iff_apart hinv]
  refine ⟨fun hb => ⟨hb, ?_⟩, And.left⟩
  intro x q hq
  rw [hinv.queues_of_closed hi] at hq
  cases hq

/-- A block of `hsa_memory_allocate` and the value of a signal are left. -/
theorem heap_eq_left_both : ∃ tr s, allocMachine.Run tr s ∧ s.referenceCounter = 0 ∧
    Machine.aliveAfter takes givesBack tr 64 = true ∧
    Machine.aliveAfter takes givesBack tr 192 = true := by
  obtain ⟨tr, s, hrun, hlast⟩ := Machine.exists_run_of_trace allocMachine
    [.init 1 2 3, .memoryAllocate 1 8 4096 64, .signalCreate 0 0 0 8 ⟨0, 192⟩, .shutDown []]
    (fun tr s => s.referenceCounter = 0 && 64 ∈ s.heap && 192 ∈ s.heap &&
      tr.all fun step => !isMemoryFree step.2) init_unusedAllocState rfl
  simp only [Bool.and_eq_true, decide_eq_true_eq, List.all_eq_true, Bool.not_eq_true'] at hlast
  obtain ⟨⟨⟨hcounter, h64⟩, h192⟩, hactions⟩ := hlast
  have hkeeps : ∀ p ∈ tr, KeepsHeld p.1 p.2 := by
    intro p hp
    exact not_freesHeld_of_isMemoryFree (hactions p hp)
  exact ⟨tr, s, hrun, hcounter, (heap_eq_left hrun hkeeps hcounter 64).mp h64,
    (heap_eq_left hrun hkeeps hcounter 192).mp h192⟩

end PhsaRuntime
