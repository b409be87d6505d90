import PhsaRuntime.Scan.Safety

/-!
# The order of processing and barriers

The scan passes over a slot that is still being filled and goes on to later packets, and
it does not look at the barrier bit. So a barrier holds the packets after it back only if
it is in its slot when the scan gets there, and it waits for the packets before it only if
the scan has found them all.

`NoRace` excludes these two races, and nothing else: packets may still be processed out of
order around slots that are being filled.

## Main result

* `barrierOrder_of_noRace` — in a run without these races every barrier is processed
  after the packets before it and before the packets after it.
-/

namespace PhsaRuntime

open Queue

/-- A packet that waits for the ones before it: a barrier packet, or any packet with the
barrier bit. -/
def isOrdered (header : BitVec 16) : Prop := isBarrier header ∨ barrierBit header = true

instance (header : BitVec 16) : Decidable (isOrdered header) :=
  inferInstanceAs (Decidable (_ ∨ _))

/-- The indexes of the packets in the order in which they were executed, the one that is
being executed last. -/
def ScanState.order (s : ScanState) : List ℕ :=
  s.queue.history.processed ++ (s.pc.executing.map s.queue.history.tag).toList

/-- An ordered packet comes after all packets before it, and a barrier packet before all
packets after it. -/
def BarrierOrder (s : ScanState) : Prop :=
  ∀ l₁ i l₂, s.order = l₁ ++ i :: l₂ →
    (isOrdered (s.queue.history.packet i).header → ∀ j < i, j ∈ l₁) ∧
    ∀ j < i, s.queue.Published j → isBarrier (s.queue.history.packet j).header → j ∈ l₁

/-- The next index that the loop will look at. -/
def Pc.position : Pc → Option ℕ
  | .head f => some f.currentIndex
  | .advance f _ | .barrier _ f _ _ | .dispatch f _ | .launch f _ _ _ | .running f _ _ _ _
  | .freeGroup f _ _ _ | .retire f _ _ | .retired f _ _ | .complete f _ =>
    some (f.currentIndex + 1)
  | .away | .sample | .loadReadIndex | .loadWriteIndex _ | .halted _ => none

/-- The locals and the slot of the packet that the worker has found. -/
def Pc.found : Pc → Option (Frame × ℕ)
  | .barrier _ f slot _ | .dispatch f slot | .launch f slot _ _ | .running f slot _ _ _
  | .freeGroup f slot _ _ | .retire f slot _ => some (f, slot)
  | _ => none

/-- The locals at the head of an iteration. -/
def Pc.iteration : Pc → Option Frame
  | .head f => some f
  | _ => none

/-- The steps that do not race around a barrier. The scan comes to an ordered packet when
all packets before it have been processed, and a barrier packet is published before the
scan is past its index. -/
def NoRace (cfg : Config) (s : ScanState) : ScanAction → Prop
  | .worker _ => ∀ f ∈ s.pc.iteration,
      f.currentIndex ≤ f.lastIndex ∧ f.currentIndex < f.currentWriteIndex ∧
        packetType (s.queue.packetBuffer (f.currentIndex % cfg.size)).header ≠
          packetTypeInvalid ∧
        isOrdered (s.queue.packetBuffer (f.currentIndex % cfg.size)).header →
      f.currentReadIndex = f.currentIndex
  | .producer (.publish i header) => isBarrier header →
      (∀ k ∈ s.queue.history.processed, k < i) ∧ ∀ c ∈ s.pc.position, c ≤ i
  | _ => True

instance (cfg : Config) (s : ScanState) : (a : ScanAction) → Decidable (NoRace cfg s a)
  | .worker _ => inferInstanceAs (Decidable (∀ f ∈ s.pc.iteration, _ → _))
  | .producer (.publish _ header) => inferInstanceAs (Decidable (isBarrier header → _ ∧ _))
  | .producer .reserve | .producer (.proceed _) | .producer (.fill _ _) | .producer (.ring _)
  | .enter => .isTrue trivial

variable {cfg : Config} {q q' : Queue} {f : Frame} {slot : ℕ} {pc pc' : Pc}

/-! ## Appending to the order -/

theorem BarrierOrder.same {s s' : ScanState} (h : BarrierOrder s) (horder : s'.order = s.order)
    (hpub : ∀ j, s'.queue.Published j → s.queue.Published j)
    (hpacket : s'.queue.history.packet = s.queue.history.packet) : BarrierOrder s' := by
  intro l₁ i l₂ heq
  obtain ⟨hord, hbar⟩ := h l₁ i l₂ (horder ▸ heq)
  rw [hpacket]
  exact ⟨hord, fun j hj hp hb => hbar j hj (hpub j hp) hb⟩

theorem BarrierOrder.append {s s' : ScanState} (h : BarrierOrder s) (x : ℕ)
    (horder : s'.order = s.order ++ [x])
    (hpub : ∀ j, s'.queue.Published j → s.queue.Published j)
    (hpacket : s'.queue.history.packet = s.queue.history.packet)
    (hord : isOrdered (s.queue.history.packet x).header → ∀ j < x, j ∈ s.order)
    (hbar : ∀ j < x, s.queue.Published j → isBarrier (s.queue.history.packet j).header →
      j ∈ s.order) : BarrierOrder s' := by
  intro l₁ i l₂ heq
  rw [hpacket]
  rw [horder] at heq
  rcases List.eq_nil_or_concat l₂ with rfl | ⟨l, y, rfl⟩
  · obtain ⟨rfl, hx⟩ := List.append_inj' heq rfl
    obtain rfl : x = i := by simpa using hx
    exact ⟨hord, fun j hj hp hb => hbar j hj (hpub j hp) hb⟩
  · rw [List.concat_eq_append, ← List.cons_append, ← List.append_assoc] at heq
    obtain ⟨hold, -⟩ := List.append_inj' heq rfl
    obtain ⟨h1, h2⟩ := h l₁ i l hold
    exact ⟨h1, fun j hj hp hb => h2 j hj (hpub j hp) hb⟩

/-! ## The invariant -/

/-- What keeps the order: no barrier waits behind the scan, and an ordered packet that the
scan has found is at the read index. -/
structure OrderInv (cfg : Config) (s : ScanState) : Prop where
  order : BarrierOrder s
  ahead : ∀ c ∈ s.pc.position, ∀ j, s.queue.Waiting j →
    isBarrier (s.queue.history.packet j).header →
    c ≤ j ∨ ∃ p ∈ s.pc.found, s.queue.history.tag p.2 = j
  first : ∀ p ∈ s.pc.found, isOrdered (s.queue.packetBuffer p.2).header →
    p.1.currentReadIndex = p.1.currentIndex

theorem Pc.slotInv_of_found (hpc : PcInv cfg q pc) {p : Frame × ℕ} (h : p ∈ pc.found) :
    SlotInv cfg q p.1 p.2 := by
  cases pc <;> simp only [found, Option.mem_def, Option.some.injEq, reduceCtorEq] at h
  all_goals exact h ▸ hpc

/-- The packet the worker has found may be executed next. -/
theorem OrderInv.execute (hinv : ScanInv cfg ⟨q, pc⟩) (h : OrderInv cfg ⟨q, pc⟩)
    (hfound : pc.found = some (f, slot)) (hpos : pc.position = some (f.currentIndex + 1)) :
    (isOrdered (q.history.packet (q.history.tag slot)).header →
      ∀ j < q.history.tag slot, j ∈ q.history.processed) ∧
    ∀ j < q.history.tag slot, q.Published j → isBarrier (q.history.packet j).header →
      j ∈ q.history.processed := by
  have hring : RingInv cfg q := hinv.ring
  have hs : SlotInv cfg q f slot := Pc.slotInv_of_found hinv.pc hfound
  obtain ⟨hw, hmod⟩ := hring.tagged slot hs.slot_lt hs.valid
  have hwin := hring.window hw
  have htag := hs.tag_eq_or hring
  have hbuf : q.packetBuffer slot = q.history.packet (q.history.tag slot) := by
    have := (hring.slot _ hw).2.2
    rwa [hmod] at this
  constructor
  · intro hord j hj
    have hfirst : f.currentReadIndex = f.currentIndex := h.first _ hfound (hbuf ▸ hord)
    have hread := hs.readIndex
    have hpos := cfg.size_pos
    exact hring.below j (by omega)
  · intro j hj hp hb
    by_contra hnot
    rcases h.ahead _ hpos j ⟨hp, hnot⟩ hb with hle | ⟨p, hp, heq⟩
    · omega
    · rw [hfound] at hp
      cases hp
      exact absurd heq hj.ne'

/-- A worker step that processes nothing and keeps what is being executed. -/
theorem OrderInv.goto (h : OrderInv cfg ⟨q, pc⟩) (hfr : WorkerFrame q q')
    (hproc : q'.history.processed = q.history.processed)
    (hexec : pc'.executing = pc.executing)
    (hahead : ∀ c ∈ pc'.position, ∀ j, q.Waiting j → isBarrier (q.history.packet j).header →
      c ≤ j ∨ ∃ p ∈ pc'.found, q.history.tag p.2 = j)
    (hfirst : ∀ p ∈ pc'.found, isOrdered (q'.packetBuffer p.2).header →
      p.1.currentReadIndex = p.1.currentIndex) : OrderInv cfg ⟨q', pc'⟩ := by
  have hpub : ∀ j, q'.Published j → q.Published j := by simp [Published, hfr.producer]
  refine ⟨h.order.same ?_ hpub hfr.packet, ?_, hfirst⟩
  · simp only [ScanState.order, hproc, hexec, hfr.tag]
  · intro c hc j hw hb
    simp only [hfr.packet, hfr.tag] at hb ⊢
    exact hahead c hc j ⟨hpub j hw.1, by rw [← hproc]; exact hw.2⟩ hb

/-- `OrderInv.goto` for a step that only moves the worker and keeps its position. -/
theorem OrderInv.stay (h : OrderInv cfg ⟨q, pc⟩) (hexec : pc'.executing = pc.executing)
    (hpos : pc'.position = pc.position) (hfound : pc'.found = pc.found) :
    OrderInv cfg ⟨q, pc'⟩ := by
  refine h.goto (.refl q) rfl hexec ?_ ?_
  · rw [hpos, hfound]
    exact h.ahead
  · rw [hfound]
    exact h.first

/-- Outside the loop, before its first or after its last iteration. -/
def Pc.outside : Pc → Bool
  | .away | .sample | .loadReadIndex | .loadWriteIndex _ | .halted _ => true
  | _ => false

/-- The worker goes on outside the loop. -/
theorem OrderInv.leave (h : OrderInv cfg ⟨q, pc⟩) (hfr : WorkerFrame q q')
    (hproc : q'.history.processed = q.history.processed) (hexec : pc.executing = none)
    (hout : pc'.outside = true) : OrderInv cfg ⟨q', pc'⟩ := by
  have hnone : pc'.executing = none ∧ pc'.position = none ∧ pc'.found = none := by
    cases pc' <;> simp [Pc.outside] at hout <;> exact ⟨rfl, rfl, rfl⟩
  obtain ⟨hexec', hpos, hfound⟩ := hnone
  exact h.goto hfr hproc (hexec'.trans hexec.symm) (by simp [hpos]) (by simp [hfound])

/-- The worker turns from a packet it has found to executing it. -/
structure Begins (f : Frame) (slot : ℕ) (pc pc' : Pc) : Prop where
  found : pc.found = some (f, slot)
  found' : pc'.found = pc.found
  position : pc.position = some (f.currentIndex + 1)
  position' : pc'.position = pc.position
  executing : pc.executing = none
  executing' : pc'.executing = some slot

theorem begins_barrier (kind : Barrier) (f : Frame) (slot i : ℕ) (completion : Option Handle) :
    Begins f slot (.barrier kind f slot i) (.retire f slot completion) :=
  ⟨rfl, rfl, rfl, rfl, rfl, rfl⟩

theorem begins_launch (f : Frame) (slot : ℕ) (completion : Option Handle)
    (groupMemory kernargs : Option ℕ) : Begins f slot (.launch f slot completion groupMemory)
      (.running f slot completion groupMemory kernargs) :=
  ⟨rfl, rfl, rfl, rfl, rfl, rfl⟩

/-- The worker begins to execute the packet it has found. -/
theorem OrderInv.begin (hinv : ScanInv cfg ⟨q, pc⟩) (h : OrderInv cfg ⟨q, pc⟩)
    (hpc : Begins f slot pc pc') (hfr : WorkerFrame q q')
    (hbuf : q'.packetBuffer = q.packetBuffer)
    (hproc : q'.history.processed = q.history.processed) : OrderInv cfg ⟨q', pc'⟩ := by
  have hpub : ∀ j, q'.Published j → q.Published j := by simp [Published, hfr.producer]
  have hnone : ScanState.order ⟨q, pc⟩ = q.history.processed := by
    simp [ScanState.order, hpc.executing]
  obtain ⟨hord, hbar⟩ := OrderInv.execute hinv h hpc.found hpc.position
  rw [← hnone] at hord hbar
  refine ⟨h.order.append (q.history.tag slot) ?_ hpub hfr.packet hord hbar, ?_, ?_⟩
  · simp [ScanState.order, hpc.executing, hpc.executing', hproc, hfr.tag]
  · intro c hc j hw hb
    simp only [hfr.packet, hfr.tag, hpc.position', hpc.found'] at hc hb ⊢
    exact h.ahead c hc j ⟨hpub j hw.1, by rw [← hproc]; exact hw.2⟩ hb
  · simp only [hpc.found', hbuf]
    exact h.first

/-! ## Producer steps -/

theorem order_producerStep {p : ProducerAction} (hinv : ScanInv cfg ⟨q, pc⟩)
    (hs : Queue.producerStep cfg p q = some q') :
    ScanState.order ⟨q', pc⟩ = ScanState.order ⟨q, pc⟩ := by
  simp only [ScanState.order, (producerStep_frame hinv.ring hs).processed]
  cases hexec : pc.executing with
  | none => rfl
  | some t =>
    obtain ⟨f, hslot⟩ := Pc.executing_eq_some hinv.pc hexec
    simp [(HeaderValid.producerStep hinv.ring hs hslot.valid).2]

theorem mem_order {i : ℕ} : i ∈ ScanState.order ⟨q, pc⟩ ↔
    i ∈ q.history.processed ∨ ∃ t, pc.executing = some t ∧ q.history.tag t = i := by
  simp only [ScanState.order, List.mem_append, Option.mem_toList, Option.map_eq_some_iff]

theorem published_of_mem_order (hinv : ScanInv cfg ⟨q, pc⟩) {i : ℕ}
    (hi : i ∈ ScanState.order ⟨q, pc⟩) : q.Published i := by
  rcases mem_order.mp hi with hi | ⟨t, ht, rfl⟩
  · exact hinv.ring.published i hi
  · obtain ⟨f, hs⟩ := Pc.executing_eq_some hinv.pc ht
    exact (hinv.ring.tagged t hs.slot_lt hs.valid).1.1

theorem Pc.position_of_executing {t : ℕ} (h : pc.executing = some t) :
    ∃ f, pc.found = some (f, t) ∧ pc.position = some (f.currentIndex + 1) := by
  cases pc <;> simp only [executing, Option.some.injEq, reduceCtorEq] at h
  all_goals exact h ▸ ⟨_, rfl, rfl⟩

/-- A producer that the scan has not passed has an index beyond all packets executed. -/
theorem lt_of_mem_order (hinv : ScanInv cfg ⟨q, pc⟩) {i j : ℕ}
    (hfill : q.producer j = .filling) (hproc : ∀ k ∈ q.history.processed, k < j)
    (hpos : ∀ c ∈ pc.position, c ≤ j) (hi : i ∈ ScanState.order ⟨q, pc⟩) : i < j := by
  have hring : RingInv cfg q := hinv.ring
  rcases mem_order.mp hi with hi | ⟨t, ht, rfl⟩
  · exact hproc i hi
  · obtain ⟨f, hfound, hp⟩ := Pc.position_of_executing ht
    have hs : SlotInv cfg q f t := Pc.slotInv_of_found hinv.pc hfound
    have hle := hpos _ hp
    have hlt := hring.ahead j (.inl hfill)
    have htag := hs.tag_eq_or hring
    omega

theorem OrderInv.producerStep {p : ProducerAction} (hinv : ScanInv cfg ⟨q, pc⟩)
    (h : OrderInv cfg ⟨q, pc⟩) (hok : NoRace cfg ⟨q, pc⟩ (.producer p))
    (hs : Queue.producerStep cfg p q = some q') : OrderInv cfg ⟨q', pc⟩ := by
  have hfr := producerStep_frame hinv.ring hs
  have hfound : ∀ x ∈ pc.found, q'.packetBuffer x.2 = q.packetBuffer x.2 ∧
      q'.history.tag x.2 = q.history.tag x.2 := fun x hx =>
    HeaderValid.producerStep hinv.ring hs (Pc.slotInv_of_found hinv.pc hx).valid
  have hold : ∀ j, q.Published j → q'.history.packet j = q.history.packet j :=
    fun j hj => hfr.packet_of_published hs hj
  refine ⟨fun l₁ i l₂ heq => ?_, fun c hc j hw hb => ?_, fun x hx hord => ?_⟩
  · rw [order_producerStep hinv hs] at heq
    have hi : i ∈ ScanState.order ⟨q, pc⟩ := by simp [heq]
    obtain ⟨hord, hbar⟩ := h.order l₁ i l₂ heq
    constructor
    · simpa only [hold i (published_of_mem_order hinv hi)] using hord
    · intro j hj hp hb
      rcases (hfr.published j).mp hp with hp | ⟨header, rfl⟩
      · exact hbar j hj hp (by simpa only [hold j hp] using hb)
      · obtain ⟨hfill, hheader⟩ := producerStep_publish hs
        obtain ⟨hproc, hpos⟩ := hok (hheader ▸ hb)
        exact absurd (lt_of_mem_order hinv hfill hproc hpos hi) hj.not_gt
  · rcases (hfr.published j).mp hw.1 with hp | ⟨header, rfl⟩
    · have hnot : j ∉ q.history.processed := by rw [← hfr.processed]; exact hw.2
      rcases h.ahead c hc j ⟨hp, hnot⟩ (by simpa only [hold j hp] using hb) with hle |
        ⟨x, hx, htag⟩
      · exact .inl hle
      · exact .inr ⟨x, hx, (hfound x hx).2.trans htag⟩
    · obtain ⟨-, hheader⟩ := producerStep_publish hs
      exact .inl ((hok (hheader ▸ hb)).2 c hc)
  · simp only [(hfound x hx).1] at hord
    exact h.first x hx hord

/-! ## Worker steps -/

/-- The head of an iteration comes to the packet with the loop's index, or passes over an
index that no packet waits at. -/
theorem OrderInv.examine {env : Env} (hinv : ScanInv cfg ⟨q, .head f⟩)
    (h : OrderInv cfg ⟨q, .head f⟩) (hok : NoRace cfg ⟨q, .head f⟩ (.worker env)) :
    OrderInv cfg ⟨q, examine cfg q f⟩ := by
  have hring : RingInv cfg q := hinv.ring
  have hpc : PcInv cfg q (PhsaRuntime.examine cfg q f) :=
    PcInv.examine hring hinv.flags.sound hinv.pc
  -- a packet that waits at the loop's index is the one in the slot
  have hwait : ∀ j, q.Waiting j → isBarrier (q.history.packet j).header →
      f.currentIndex + 1 ≤ j ∨ f.currentIndex = j := by
    intro j hw hb
    have hle : f.currentIndex ≤ j := by
      simpa [Pc.found] using h.ahead f.currentIndex rfl j hw hb
    omega
  have hfound : ∀ pc', pc'.executing = none → pc'.position = some (f.currentIndex + 1) →
      pc'.found = some (f, f.currentIndex % cfg.size) →
      (isOrdered (q.packetBuffer (f.currentIndex % cfg.size)).header →
        f.currentReadIndex = f.currentIndex) → OrderInv cfg ⟨q, pc'⟩ := by
    intro pc' hexec hpos hfound hord
    refine h.goto (.refl q) rfl hexec (fun c hc j hw hb => ?_) (fun x hx => ?_)
    · rw [hpos] at hc
      cases hc
      rcases hwait j hw hb with hlt | rfl
      · exact .inl hlt
      · exact .inr ⟨_, hfound, (hring.slot _ hw).2.1⟩
    · rw [hfound] at hx
      cases hx
      exact hord
  have hex := examined cfg q f
  generalize PhsaRuntime.examine cfg q f = pc' at hex hpc ⊢
  cases hex with
  | exit | badIndex | unknown => exact h.leave (.refl q) rfl rfl rfl
  | freed _ _ _ _ _ =>
    obtain ⟨-, -, -, hmem⟩ := hpc
    refine h.goto (.refl q) rfl rfl (fun c hc j hw hb => ?_) (by simp [Pc.found])
    cases hc
    rcases hwait j hw hb with hlt | rfl
    · exact .inl hlt
    · exact absurd hmem hw.2
  | passed _ _ hinvalid _ =>
    refine h.goto (.refl q) rfl rfl (fun c hc j hw hb => ?_) (by simp [Pc.found])
    cases hc
    rcases hwait j hw hb with hlt | rfl
    · exact .inl hlt
    · exact absurd hinvalid (hring.slot _ hw).1
  | barrier kind hle hlt htype =>
    have hvalid : packetType (q.packetBuffer (f.currentIndex % cfg.size)).header ≠
        packetTypeInvalid := by
      rw [htype]; cases kind <;> decide
    exact hfound _ rfl rfl rfl fun hord => hok f rfl ⟨hle, hlt, hvalid, hord⟩
  | dispatch hle hlt htype =>
    have hvalid : packetType (q.packetBuffer (f.currentIndex % cfg.size)).header ≠
        packetTypeInvalid := by
      rw [htype]; decide
    exact hfound _ rfl rfl rfl fun hord => hok f rfl ⟨hle, hlt, hvalid, hord⟩

theorem OrderInv.settle (env : Env) {kind : Barrier} {i : ℕ}
    (hinv : ScanInv cfg ⟨q, .barrier kind f slot i⟩)
    (h : OrderInv cfg ⟨q, .barrier kind f slot i⟩) (ok : Bool) :
    OrderInv cfg ⟨(settle env q f slot ok).1, (settle env q f slot ok).2⟩ := by
  cases ok with
  | true =>
    have hpc := begins_barrier kind f slot i (completionSignal env (q.packetBuffer slot))
    exact OrderInv.begin hinv h hpc (.refl q) rfl rfl
  | false => exact h.leave (.history q rfl rfl) rfl rfl rfl

theorem OrderInv.evaluate {env : Env} {kind : Barrier} {i : ℕ}
    (hinv : ScanInv cfg ⟨q, .barrier kind f slot i⟩)
    (h : OrderInv cfg ⟨q, .barrier kind f slot i⟩)
    (hev : Evaluated env q kind f slot i q' pc') : OrderInv cfg ⟨q', pc'⟩ := by
  cases hev with
  | null | undecided => exact h.stay rfl rfl rfl
  | dead => exact h.leave (.refl q) rfl rfl rfl
  | decided | exhausted => exact h.settle env hinv _

theorem OrderInv.launch {env : Env} {completion : Option Handle} {groupMemory : Option ℕ}
    (hinv : ScanInv cfg ⟨q, .launch f slot completion groupMemory⟩)
    (h : OrderInv cfg ⟨q, .launch f slot completion groupMemory⟩)
    (hmove : LaunchMove env q f slot completion groupMemory q' pc') :
    OrderInv cfg ⟨q', pc'⟩ := by
  have hpc := begins_launch f slot completion groupMemory
  cases hmove with
  | aligned | moved | callback =>
    exact OrderInv.begin hinv h (hpc _) (.history q rfl rfl) rfl rfl
  | aborted => exact h.leave (.refl q) rfl rfl rfl

/-- The packet that was being executed joins the processed ones. -/
theorem OrderInv.retire {completion : Option Handle}
    (h : OrderInv cfg ⟨q, .retire f slot completion⟩) :
    OrderInv cfg ⟨retireSlot q slot, .retired f slot completion⟩ := by
  refine ⟨h.order.same ?_ (fun _ hp => hp) rfl, fun c hc j hw hb => ?_, by simp [Pc.found]⟩
  · simp [ScanState.order, Pc.executing, retireSlot]
  · obtain ⟨hp, hnot⟩ := hw
    simp only [retireSlot, List.mem_append, List.mem_singleton, not_or] at hnot
    rcases h.ahead c hc j ⟨hp, hnot.1⟩ hb with hle | ⟨x, hx, htag⟩
    · exact .inl hle
    · cases hx
      exact absurd htag.symm hnot.2

/-- **The step lemma of the worker.** -/
theorem OrderInv.workerStep {env : Env} (hinv : ScanInv cfg ⟨q, pc⟩)
    (h : OrderInv cfg ⟨q, pc⟩) (hok : NoRace cfg ⟨q, pc⟩ (.worker env))
    (hs : workerStep cfg env q pc = some (q', pc')) : OrderInv cfg ⟨q', pc'⟩ := by
  have hfr := workerStep_frame hs
  cases pc with
  | away | halted _ => cases hs
  | sample =>
    simp only [PhsaRuntime.workerStep] at hs
    split at hs <;> cases hs <;> exact h.leave hfr rfl rfl rfl
  | loadReadIndex => cases hs; exact h.leave hfr rfl rfl rfl
  | loadWriteIndex r =>
    cases hs
    have hr : r = q.readIndex := hinv.pc
    refine h.goto hfr rfl rfl (fun c hc j hw hb => ?_) (by simp [Pc.found])
    cases hc
    exact .inl (hr ▸ (hinv.ring.window hw).1)
  | head f => cases hs; exact h.examine hinv hok
  | advance f slot =>
    cases hs
    exact h.goto hfr rfl rfl h.ahead (by simp [Pc.found])
  | barrier kind f slot i => exact h.evaluate hinv (evaluated_step hs)
  | dispatch f slot => cases hs; exact h.stay rfl rfl rfl
  | launch f slot completion groupMemory => exact h.launch hinv (launchMove_step hs)
  | running f slot completion groupMemory kernargs => cases hs; exact h.stay rfl rfl rfl
  | freeGroup f slot completion groupMemory => cases hs; exact h.stay rfl rfl rfl
  | retire f slot completion => cases hs; exact h.retire
  | retired f slot completion =>
    simp only [PhsaRuntime.workerStep] at hs
    split at hs <;> cases hs <;>
      exact h.goto hfr rfl rfl h.ahead (by simp [Pc.found])
  | complete f completion => cases hs; exact h.stay rfl rfl rfl

theorem orderInv_of_reachable {s : ScanState}
    (h : (scanMachine cfg).Reachable (NoRace cfg) s) : OrderInv cfg s := by
  refine scan_induction ?init ?producer ?enter ?worker h
  case init =>
    intro buffer
    refine ⟨fun l₁ i l₂ heq => ?_, by simp [Pc.position], by simp [Pc.found]⟩
    simp [ScanState.order, Pc.executing, create] at heq
  case producer =>
    intro q pc p q' hr hok hq ih
    exact ih.producerStep (scanInv_of_reachable hr) hok hq
  case enter =>
    intro q ih
    exact ih.stay rfl rfl rfl
  case worker =>
    intro q pc env q' pc' hr hok hq ih
    exact ih.workerStep (scanInv_of_reachable hr) hok hq

/-- **Barrier ordering** in every run without a race around a barrier. -/
theorem barrierOrder_of_noRace {s : ScanState}
    (h : (scanMachine cfg).Reachable (NoRace cfg) s) : BarrierOrder s :=
  (orderInv_of_reachable h).order

/-- A run in which a barrier waits for the packet before it. -/
theorem barrierOrder_of_noRace_barrier : ∃ s, BarrierOrder s ∧ s.order = [0, 1] ∧
    isBarrier (s.queue.history.packet 1).header := by
  obtain ⟨s, hs, hp⟩ := Machine.exists_reachable_of_run
    (scanMachine ⟨.multi, 2, by decide, by decide⟩)
    (NoRace ⟨.multi, 2, by decide, by decide⟩)
    ([.producer .reserve, .producer .reserve] ++ Scan.write 1 Scan.barrierPacket ++
      Scan.write 0 Scan.emptyPacket ++ [.producer (.ring 1)] ++ Scan.visit Scan.quietEnv 20)
    (fun s => s.order = [0, 1] && isBarrier (s.queue.history.packet 1).header)
    (Scan.init_start _) (by decide +kernel)
  simp only [Bool.and_eq_true, decide_eq_true_eq] at hp
  exact ⟨s, barrierOrder_of_noRace hs, hp⟩

/-- Two producers: the barrier with index 1 is processed while the packet with index 0 is
still being filled. -/
theorem barrierOrder_raced : ∃ s, (scanMachine ⟨.multi, 2, by decide, by decide⟩).Reachable
    Machine.always s ∧ ¬ BarrierOrder s := by
  obtain ⟨s, hs, hp⟩ := Machine.exists_reachable_of_run
    (scanMachine ⟨.multi, 2, by decide, by decide⟩) Machine.always
    ([.producer .reserve, .producer .reserve] ++ Scan.write 1 Scan.barrierPacket ++
      [.producer (.ring 1)] ++ Scan.visit Scan.quietEnv 11)
    (fun s => s.order = [1] && isBarrier (s.queue.history.packet 1).header)
    (Scan.init_start _) (by decide +kernel)
  simp only [Bool.and_eq_true, decide_eq_true_eq] at hp
  refine ⟨s, hs, fun hord => ?_⟩
  have hmem := (hord [] 1 [] hp.1).1 (.inl hp.2) 0 Nat.one_pos
  exact absurd hmem List.not_mem_nil

end PhsaRuntime
