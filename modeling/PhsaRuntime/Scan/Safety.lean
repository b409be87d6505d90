import PhsaRuntime.Scan.Invariant

/-!
# Safety of the scan

What the worker knows at each point of the scan (`PcInv`), when the processed flags are
exact (`FlagInv`) and which packets have been launched (`LaunchInv`), shown to hold in
every reachable state for any number of producers, any interleaving and any ring size.

The scan's upper bound plays no part in it. Whatever index the loop has reached, the slot
determines which packet it finds there, and that packet is retired under its own index.
-/

namespace PhsaRuntime

open Queue

/-- The slot whose flag is not up to date. -/
def Pc.stale : Pc → Option ℕ
  | .retired _ slot _ => some slot
  | _ => none

/-- The slot whose packet is being executed or has been. -/
def Pc.executing : Pc → Option ℕ
  | .running _ slot _ _ _ | .freeGroup _ slot _ _ | .retire _ slot _ => some slot
  | _ => none

/-- An index of the window that lives in `slot` has been processed. -/
def SlotProcessed (cfg : Config) (q : Queue) (slot : ℕ) : Prop :=
  ∃ i ∈ q.history.processed, q.readIndex ≤ i ∧ i % cfg.size = slot

/-- The flags are exact, except that of the slot being updated. -/
def FlagInv (cfg : Config) (q : Queue) (stale : Option ℕ) : Prop :=
  ∀ t < cfg.size, stale ≠ some t → (q.isPacketProcessed t = true ↔ SlotProcessed cfg q t)

/-- The loop's locals: `CurrentReadIndex` is the read index, and the loop is not behind. -/
structure FrameInv (q : Queue) (f : Frame) : Prop where
  readIndex : f.currentReadIndex = q.readIndex
  le_currentIndex : q.readIndex ≤ f.currentIndex

/-- The worker is processing the packet in `slot`. -/
structure SlotInv (cfg : Config) (q : Queue) (f : Frame) (slot : ℕ) : Prop
    extends FrameInv q f where
  slot_eq : slot = f.currentIndex % cfg.size
  valid : q.HeaderValid slot

/-- The worker has retired the packet in `slot`. -/
structure RetiredInv (cfg : Config) (q : Queue) (f : Frame) (slot : ℕ) : Prop
    extends FrameInv q f where
  slot_eq : slot = f.currentIndex % cfg.size
  processed : q.history.tag slot ∈ q.history.processed
  le_tag : q.readIndex ≤ q.history.tag slot
  tag_mod : q.history.tag slot % cfg.size = slot

/-- What the worker knows. -/
def PcInv (cfg : Config) (q : Queue) : Pc → Prop
  | .away | .sample | .loadReadIndex | .halted _ => True
  | .loadWriteIndex r => r = q.readIndex
  | .head f => FrameInv q f
  | .advance f slot => FrameInv q f ∧ slot = f.currentIndex % cfg.size ∧
      f.currentIndex = q.readIndex ∧ f.currentIndex ∈ q.history.processed
  | .barrier _ f slot _ | .dispatch f slot | .launch f slot _ _ | .running f slot _ _ _
  | .freeGroup f slot _ _ | .retire f slot _ => SlotInv cfg q f slot
  | .retired f slot _ => RetiredInv cfg q f slot
  | .complete f _ => FrameInv q f.next

/-- No packet is launched twice, and a launched packet is processed or being executed. -/
structure LaunchInv (q : Queue) (pc : Pc) : Prop where
  nodup : (q.history.launches.map Launch.index).Nodup
  launched : ∀ l ∈ q.history.launches, l.index ∈ q.history.processed ∨
    ∃ t, pc.executing = some t ∧ q.history.tag t = l.index

/-- The invariant of the scan machine. -/
structure ScanInv (cfg : Config) (s : ScanState) : Prop where
  ring : RingInv cfg s.queue
  flags : FlagInv cfg s.queue s.pc.stale
  pc : PcInv cfg s.queue s.pc
  launches : LaunchInv s.queue s.pc

variable {cfg : Config} {q q' : Queue} {f : Frame} {slot : ℕ}

theorem SlotInv.slot_lt (h : SlotInv cfg q f slot) : slot < cfg.size := by
  rw [h.slot_eq]
  exact Nat.mod_lt _ cfg.size_pos

theorem RetiredInv.slot_lt (h : RetiredInv cfg q f slot) : slot < cfg.size := by
  rw [h.slot_eq]
  exact Nat.mod_lt _ cfg.size_pos

/-- The packet in a slot has the index the loop is at, or the loop is a lap ahead. -/
theorem SlotInv.tag_eq_or (hr : RingInv cfg q) (h : SlotInv cfg q f slot) :
    q.history.tag slot = f.currentIndex ∨ q.readIndex + cfg.size ≤ f.currentIndex := by
  obtain ⟨hw, hmod⟩ := hr.tagged slot h.slot_lt h.valid
  have hwin := hr.window hw
  exact Ring.index_eq_or_beyond hwin.1 hwin.2 h.le_currentIndex (hmod.trans h.slot_eq)

/-- At the read index the packet in the slot is the one with that index. -/
theorem RetiredInv.tag_eq (hr : RingInv cfg q) (h : RetiredInv cfg q f slot)
    (heq : f.currentReadIndex = f.currentIndex) : q.history.tag slot = f.currentIndex := by
  have hlt := hr.ahead _ (.inr (hr.published _ h.processed))
  have hread := h.readIndex
  have hpos := cfg.size_pos
  rcases Ring.index_eq_or_beyond h.le_tag hlt h.le_currentIndex
    (h.tag_mod.trans h.slot_eq) with hc | hc
  · exact hc
  · omega

/-! ## Producer steps -/

theorem Pc.executing_eq_some {pc : Pc} {t : ℕ} (hpc : PcInv cfg q pc)
    (h : pc.executing = some t) : ∃ f, SlotInv cfg q f t := by
  cases pc <;> simp only [executing, Option.some.injEq, reduceCtorEq] at h
  all_goals exact h ▸ ⟨_, hpc⟩

section Producers

variable {p : ProducerAction}

theorem HeaderValid.producerStep (hr : RingInv cfg q)
    (hs : Queue.producerStep cfg p q = some q') (hv : q.HeaderValid slot) :
    q'.packetBuffer slot = q.packetBuffer slot ∧ q'.history.tag slot = q.history.tag slot :=
  producerStep_slot hs fun _ hi heq => hr.slot_free_of_filling hi (heq ▸ hv)

theorem FrameInv.producerStep (hfr : ProducerFrame p q q') (h : FrameInv q f) : FrameInv q' f :=
  ⟨by rw [hfr.readIndex]; exact h.readIndex, by rw [hfr.readIndex]; exact h.le_currentIndex⟩

theorem SlotInv.producerStep (hr : RingInv cfg q)
    (hs : Queue.producerStep cfg p q = some q') (h : SlotInv cfg q f slot) :
    SlotInv cfg q' f slot where
  toFrameInv := h.toFrameInv.producerStep (producerStep_frame hr hs)
  slot_eq := h.slot_eq
  valid := by
    rw [HeaderValid, (HeaderValid.producerStep hr hs h.valid).1]
    exact h.valid

theorem RetiredInv.producerStep (hr : RingInv cfg q)
    (hs : Queue.producerStep cfg p q = some q') (h : RetiredInv cfg q f slot) :
    RetiredInv cfg q' f slot := by
  have hfr := producerStep_frame hr hs
  have htag : q'.history.tag slot = q.history.tag slot := by
    refine (producerStep_slot hs fun _ hi heq => ?_).2
    -- a producer filling this slot would have the index that was just retired
    have hnp := hr.not_processed_of_filling hi
    have hlt := hr.ahead _ (.inr (hr.published _ h.processed))
    have hii := Ring.index_unique (hr.readIndex_le hnp) (hr.ahead _ (.inl hi)) h.le_tag hlt
      (heq.trans h.tag_mod.symm)
    exact hnp (hii ▸ h.processed)
  exact
    { toFrameInv := h.toFrameInv.producerStep hfr
      slot_eq := h.slot_eq
      processed := by rw [htag, hfr.processed]; exact h.processed
      le_tag := by rw [htag, hfr.readIndex]; exact h.le_tag
      tag_mod := by rw [htag]; exact h.tag_mod }

theorem PcInv.producerStep (hr : RingInv cfg q)
    (hs : Queue.producerStep cfg p q = some q') {pc : Pc} (h : PcInv cfg q pc) :
    PcInv cfg q' pc := by
  have hfr := producerStep_frame hr hs
  cases pc with
  | away | sample | loadReadIndex | halted _ => trivial
  | loadWriteIndex r => exact h.trans hfr.readIndex.symm
  | head f => exact FrameInv.producerStep hfr h
  | advance f slot =>
    obtain ⟨hf, hslot, hread, hmem⟩ := h
    exact ⟨hf.producerStep hfr, hslot, by rw [hfr.readIndex]; exact hread,
      by rw [hfr.processed]; exact hmem⟩
  | barrier _ f slot _ | dispatch f slot | launch f slot _ _ | running f slot _ _ _
  | freeGroup f slot _ _ | retire f slot _ => exact SlotInv.producerStep hr hs h
  | retired f slot _ => exact RetiredInv.producerStep hr hs h
  | complete f _ => exact FrameInv.producerStep hfr h

theorem ScanInv.producerStep {pc : Pc} (h : ScanInv cfg ⟨q, pc⟩)
    (hs : Queue.producerStep cfg p q = some q') : ScanInv cfg ⟨q', pc⟩ := by
  have hfr := producerStep_frame h.ring hs
  refine ⟨h.ring.producerStep hs, fun t ht hst => ?_, h.pc.producerStep h.ring hs, ?_, ?_⟩
  · simpa only [isPacketProcessed, SlotProcessed, hfr.packetIsProcessed, hfr.processed,
      hfr.readIndex] using h.flags t ht hst
  · simpa only [hfr.launches] using h.launches.nodup
  · intro l hl
    simp only [hfr.launches] at hl
    rcases h.launches.launched l hl with hl | ⟨t, ht, htag⟩
    · exact .inl (by simpa only [hfr.processed] using hl)
    · obtain ⟨f, hslot⟩ := Pc.executing_eq_some h.pc ht
      have heq := HeaderValid.producerStep h.ring hs hslot.valid
      exact .inr ⟨t, ht, by simpa only [heq.2] using htag⟩

end Producers

/-! ## Worker steps -/

/-- Two queues that agree on everything the invariants mention. -/
structure SameRing (q q' : Queue) : Prop where
  producer : q'.producer = q.producer
  writeIndex : q'.writeIndex = q.writeIndex
  readIndex : q'.readIndex = q.readIndex
  packetBuffer : q'.packetBuffer = q.packetBuffer
  packetIsProcessed : q'.packetIsProcessed = q.packetIsProcessed
  tag : q'.history.tag = q.history.tag
  packet : q'.history.packet = q.history.packet
  processed : q'.history.processed = q.history.processed

namespace SameRing

/-- What else has happened does not matter. -/
theorem history (q : Queue) {h : History} (htag : h.tag = q.history.tag)
    (hpacket : h.packet = q.history.packet) (hproc : h.processed = q.history.processed) :
    SameRing q { q with history := h } :=
  ⟨rfl, rfl, rfl, rfl, rfl, htag, hpacket, hproc⟩

theorem refl (q : Queue) : SameRing q q := history q rfl rfl rfl

theorem ringInv (hs : SameRing q q') (h : RingInv cfg q) : RingInv cfg q' := by
  have hpub : ∀ i, q'.Published i ↔ q.Published i := by simp [Published, hs.producer]
  refine h.of_same_packets hpub ?_ ?_ ?_ hs.readIndex hs.packetBuffer hs.tag hs.packet
    hs.processed hs.packetIsProcessed
  · rw [hs.producer, hs.writeIndex]; exact h.free_iff
  · rw [hs.writeIndex]; exact h.write_lt
  · intro i hi
    rw [hpub, hs.producer] at hi
    exact h.ahead i hi

theorem flagInv (hs : SameRing q q') {stale : Option ℕ} (h : FlagInv cfg q stale) :
    FlagInv cfg q' stale := by
  simpa only [FlagInv, SlotProcessed, isPacketProcessed, hs.packetIsProcessed, hs.processed,
    hs.readIndex] using h

theorem slotInv (hs : SameRing q q') (h : SlotInv cfg q f slot) : SlotInv cfg q' f slot where
  readIndex := by rw [hs.readIndex]; exact h.readIndex
  le_currentIndex := by rw [hs.readIndex]; exact h.le_currentIndex
  slot_eq := h.slot_eq
  valid := by rw [HeaderValid, hs.packetBuffer]; exact h.valid

end SameRing

/-- A step that leaves the ring alone and launches nothing. -/
theorem ScanInv.goto {pc pc' : Pc} (h : ScanInv cfg ⟨q, pc⟩) (hs : SameRing q q')
    (hlaunch : q'.history.launches = q.history.launches) (hstale : pc.stale = none)
    (hexec : pc.executing = none ∨ pc'.executing = pc.executing) (hpc : PcInv cfg q' pc') :
    ScanInv cfg ⟨q', pc'⟩ := by
  refine ⟨hs.ringInv h.ring, ?_, hpc, by rw [hlaunch]; exact h.launches.nodup, ?_⟩
  · intro t ht _
    exact hs.flagInv h.flags t ht (by simp [hstale])
  · intro l hl
    simp only [hlaunch] at hl
    rcases h.launches.launched l hl with hl | ⟨t, ht, htag⟩
    · exact .inl (by simpa only [hs.processed] using hl)
    · rcases hexec with he | he
      · rw [he] at ht; cases ht
      · exact .inr ⟨t, he.trans ht, by simpa only [hs.tag] using htag⟩

/-- `ScanInv.goto` for a step that only moves the worker. -/
theorem ScanInv.move {pc pc' : Pc} (h : ScanInv cfg ⟨q, pc⟩) (hstale : pc.stale = none)
    (hexec : pc.executing = none ∨ pc'.executing = pc.executing) (hpc : PcInv cfg q pc') :
    ScanInv cfg ⟨q, pc'⟩ :=
  h.goto (.refl q) rfl hstale hexec hpc

theorem FrameInv.next (h : FrameInv q f) : FrameInv q f.next :=
  ⟨h.readIndex, Nat.le_succ_of_le h.le_currentIndex⟩

/-- The head of an iteration finds a valid packet, passes over a slot, or finds the packet
at the read index already processed. -/
theorem FlagInv.sound (h : FlagInv cfg q none) {t : ℕ} (ht : t < cfg.size) :
    q.isPacketProcessed t = true → SlotProcessed cfg q t :=
  (h t ht (by simp)).mp

theorem PcInv.examine (hr : RingInv cfg q)
    (hflags : ∀ {t}, t < cfg.size → q.isPacketProcessed t = true → SlotProcessed cfg q t)
    (h : FrameInv q f) : PcInv cfg q (examine cfg q f) := by
  have hex := examined cfg q f
  generalize PhsaRuntime.examine cfg q f = pc at hex ⊢
  cases hex with
  | exit | badIndex | unknown => trivial
  | freed _ _ _ hflag hread =>
    obtain ⟨i, hi, hri, hmod⟩ := hflags (Nat.mod_lt _ cfg.size_pos) hflag
    have hfr := h.readIndex
    have hpos := cfg.size_pos
    have hii : i = f.currentIndex :=
      Ring.index_unique hri (hr.ahead i (.inr (hr.published i hi))) (by omega) (by omega) hmod
    exact ⟨h, rfl, by omega, hii ▸ hi⟩
  | passed => exact h.next
  | barrier kind _ _ htype =>
    exact ⟨h, rfl, by rw [HeaderValid, htype]; cases kind <;> decide⟩
  | dispatch _ _ htype => exact ⟨h, rfl, by rw [HeaderValid, htype]; decide⟩

theorem ScanInv.settle (env : Env) {pc : Pc} (h : ScanInv cfg ⟨q, pc⟩)
    (hs : SlotInv cfg q f slot) (hstale : pc.stale = none) (hexec : pc.executing = none)
    (ok : Bool) :
    ScanInv cfg ⟨(settle env q f slot ok).1, (settle env q f slot ok).2⟩ := by
  cases ok with
  | true => exact h.move hstale (.inl hexec) hs
  | false => exact h.goto (.history q rfl rfl rfl) rfl hstale (.inl hexec) trivial

theorem ScanInv.evaluate {env : Env} {kind : Barrier} {i : ℕ} {pc' : Pc}
    (h : ScanInv cfg ⟨q, .barrier kind f slot i⟩) (hev : Evaluated env q kind f slot i q' pc') :
    ScanInv cfg ⟨q', pc'⟩ := by
  have hs : SlotInv cfg q f slot := h.pc
  cases hev with
  | null | undecided => exact h.move rfl (.inl rfl) hs
  | dead => exact h.move rfl (.inl rfl) trivial
  | decided | exhausted => exact h.settle env hs rfl rfl _

/-- A launch adds the packet in the slot, which has not been launched before. -/
theorem ScanInv.startKernel {completion : Option Handle} {groupMemory kernargs : Option ℕ}
    {kernargAddr : ℕ} (h : ScanInv cfg ⟨q, .launch f slot completion groupMemory⟩) :
    ScanInv cfg ⟨startKernel q f slot groupMemory kernargAddr,
      .running f slot completion groupMemory kernargs⟩ := by
  have hs : SlotInv cfg q f slot := h.pc
  have hsame : SameRing q (PhsaRuntime.startKernel q f slot groupMemory kernargAddr) :=
    .history q rfl rfl rfl
  have hnew := (h.ring.tagged slot hs.slot_lt hs.valid).1.2
  have hold : ∀ l ∈ q.history.launches, l.index ∈ q.history.processed := by
    intro l hl
    rcases h.launches.launched l hl with hl | ⟨t, ht, -⟩
    · exact hl
    · cases ht
  refine ⟨hsame.ringInv h.ring, fun t ht _ => hsame.flagInv h.flags t ht (by simp [Pc.stale]),
    hsame.slotInv hs, ?_, ?_⟩
  · simp only [PhsaRuntime.startKernel, List.map_append, List.map_cons, List.map_nil]
    refine List.nodup_append.mpr
      ⟨h.launches.nodup, List.nodup_cons.mpr (by simp), fun i hi j hj hij => ?_⟩
    obtain ⟨l, hl, rfl⟩ := List.mem_map.mp hi
    rw [List.mem_singleton.mp hj] at hij
    exact hnew (hij ▸ hold l hl)
  · intro l hl
    simp only [PhsaRuntime.startKernel, List.mem_append, List.mem_singleton] at hl
    rcases hl with hl | rfl
    · exact .inl (hold l hl)
    · exact .inr ⟨slot, rfl, rfl⟩

theorem ScanInv.launch {env : Env} {completion : Option Handle} {groupMemory : Option ℕ}
    {pc' : Pc} (h : ScanInv cfg ⟨q, .launch f slot completion groupMemory⟩)
    (hmove : LaunchMove env q f slot completion groupMemory q' pc') : ScanInv cfg ⟨q', pc'⟩ := by
  have hs : SlotInv cfg q f slot := h.pc
  cases hmove with
  | aligned | moved => exact h.startKernel
  | aborted => exact h.move rfl (.inl rfl) trivial
  | callback status =>
    have hsame : SameRing q { q with history :=
        { q.history with callbacks := q.history.callbacks ++ [status] } } :=
      .history q rfl rfl rfl
    exact h.goto hsame rfl rfl (.inl rfl) (hsame.slotInv hs)

theorem mem_processed_retireSlot {i : ℕ} : i ∈ (retireSlot q slot).history.processed ↔
    i ∈ q.history.processed ∨ i = q.history.tag slot := by simp [retireSlot]

/-- What the worker knows of a packet that it has retired. -/
theorem SlotInv.retired (h : SlotInv cfg q f slot) (hr : RingInv cfg q) :
    RetiredInv cfg (retireSlot q slot) f slot := by
  obtain ⟨hw, hmod⟩ := hr.tagged slot h.slot_lt h.valid
  exact
    { readIndex := h.readIndex
      le_currentIndex := h.le_currentIndex
      slot_eq := h.slot_eq
      processed := mem_processed_retireSlot.mpr (.inr rfl)
      le_tag := (hr.window hw).1
      tag_mod := hmod }

/-- Retiring a slot makes the flag of that slot stale, and no other. -/
theorem ScanInv.retire {completion : Option Handle}
    (h : ScanInv cfg ⟨q, .retire f slot completion⟩) :
    ScanInv cfg ⟨retireSlot q slot, .retired f slot completion⟩ := by
  have hs : SlotInv cfg q f slot := h.pc
  have hmod := (h.ring.tagged slot hs.slot_lt hs.valid).2
  refine ⟨h.ring.retireSlot hs.slot_lt hs.valid, fun t ht hst => ?_, hs.retired h.ring,
    h.launches.nodup, fun l hl => ?_⟩
  · have hne : t ≠ slot := by rintro rfl; exact hst rfl
    rw [show (retireSlot q slot).isPacketProcessed t = q.isPacketProcessed t from rfl,
      h.flags t ht (by simp [Pc.stale])]
    constructor
    · rintro ⟨i, hi, hri, hit⟩
      exact ⟨i, mem_processed_retireSlot.mpr (.inl hi), hri, hit⟩
    · rintro ⟨i, hi, hri, hit⟩
      rcases mem_processed_retireSlot.mp hi with hi | rfl
      · exact ⟨i, hi, hri, hit⟩
      · exact absurd (hit.symm.trans hmod) hne
  · rcases h.launches.launched l hl with hl | ⟨t, ht, htag⟩
    · exact .inl (mem_processed_retireSlot.mpr (.inl hl))
    · cases ht
      exact .inl (mem_processed_retireSlot.mpr (.inr htag.symm))

/-- Past the read index the flags are exact again: the freed slot belongs to the next lap. -/
theorem FlagInv.advanceReadIndex (hr : RingInv cfg q) {stale : Option ℕ}
    (hflags : FlagInv cfg q stale) (hstale : ∀ t, stale = some t → t = slot)
    (hslot : slot = f.currentIndex % cfg.size) (hf : f.currentIndex = q.readIndex) :
    FlagInv cfg (advanceReadIndex cfg q f slot) none := by
  have hlt : slot < cfg.size := hslot ▸ Nat.mod_lt _ cfg.size_pos
  intro t ht _
  simp only [isPacketProcessed, PhsaRuntime.advanceReadIndex, SlotProcessed,
    getD_setProcessedFlag hr.flags_length hlt]
  by_cases heq : t = slot
  · simp only [heq, if_true, Bool.false_eq_true, false_iff, not_exists, not_and]
    intro i hi hri hmod
    have hahead := hr.ahead i (.inr (hr.published i hi))
    have hpos := cfg.size_pos
    have hii := Ring.index_unique (by omega) hahead (le_of_eq hf.symm) (by omega)
      (hmod.trans hslot)
    omega
  · rw [if_neg heq]
    have hold := hflags t ht fun hst => heq (hstale t hst)
    simp only [isPacketProcessed, SlotProcessed] at hold
    rw [hold]
    constructor
    · rintro ⟨i, hi, hri, hmod⟩
      refine ⟨i, hi, ?_, hmod⟩
      have hne : i ≠ f.currentIndex := by rintro rfl; exact heq (hmod.symm.trans hslot.symm)
      omega
    · rintro ⟨i, hi, hri, hmod⟩
      exact ⟨i, hi, by omega, hmod⟩

/-- The update of the read index, from either place of the loop. -/
theorem ScanInv.advanceReadIndex {pc pc' : Pc} (h : ScanInv cfg ⟨q, pc⟩)
    (hstale : ∀ t, pc.stale = some t → t = slot) (hexec : pc.executing = none)
    (hslot : slot = f.currentIndex % cfg.size) (hf : f.currentIndex = q.readIndex)
    (hmem : f.currentIndex ∈ q.history.processed) (hstale' : pc'.stale = none)
    (hpc : PcInv cfg (advanceReadIndex cfg q f slot) pc') :
    ScanInv cfg ⟨advanceReadIndex cfg q f slot, pc'⟩ := by
  refine ⟨h.ring.advanceReadIndex hf hmem, ?_, hpc, h.launches.nodup, fun l hl => ?_⟩
  · rw [hstale']
    exact FlagInv.advanceReadIndex h.ring h.flags hstale hslot hf
  · rcases h.launches.launched l hl with hl | ⟨t, ht, -⟩
    · exact .inl hl
    · rw [hexec] at ht; cases ht

/-- A packet retired ahead of the read index sets its flag. -/
theorem ScanInv.setPacketProcessed {completion : Option Handle}
    (h : ScanInv cfg ⟨q, .retired f slot completion⟩) :
    ScanInv cfg ⟨q.setPacketProcessed cfg slot true, .complete f completion⟩ := by
  have hs : RetiredInv cfg q f slot := h.pc
  refine ⟨h.ring.setPacketProcessed true, fun t ht _ => ?_,
    ⟨hs.readIndex, Nat.le_succ_of_le hs.le_currentIndex⟩, h.launches.nodup, fun l hl => ?_⟩
  · simp only [isPacketProcessed, Queue.setPacketProcessed,
      getD_setProcessedFlag h.ring.flags_length hs.slot_lt]
    by_cases heq : t = slot
    · simp only [heq, if_true, true_iff]
      exact ⟨_, hs.processed, hs.le_tag, hs.tag_mod⟩
    · rw [if_neg heq]
      exact h.flags t ht fun hst => heq (Option.some.inj hst).symm
  · rcases h.launches.launched l hl with hl | ⟨t, ht, -⟩
    · exact .inl hl
    · cases ht

/-- **The step lemma of the worker.** -/
theorem ScanInv.workerStep {env : Env} {pc pc' : Pc} (h : ScanInv cfg ⟨q, pc⟩)
    (hs : workerStep cfg env q pc = some (q', pc')) : ScanInv cfg ⟨q', pc'⟩ := by
  cases pc with
  | away => cases hs
  | halted _ => cases hs
  | sample =>
    simp only [PhsaRuntime.workerStep] at hs
    split at hs <;> cases hs
    · exact h.move rfl (.inl rfl) trivial
    · exact h.goto ⟨rfl, rfl, rfl, rfl, rfl, rfl, rfl, rfl⟩ rfl rfl (.inl rfl) trivial
  | loadReadIndex => cases hs; exact h.move rfl (.inl rfl) rfl
  | loadWriteIndex r =>
    cases hs
    have hr : r = q.readIndex := h.pc
    exact h.move rfl (.inl rfl) ⟨hr, hr.symm.le⟩
  | head f => cases hs; exact h.move rfl (.inl rfl) (PcInv.examine h.ring h.flags.sound h.pc)
  | advance f slot =>
    cases hs
    obtain ⟨hf, hslot, hread, hmem⟩ := h.pc
    exact h.advanceReadIndex (by simp [Pc.stale]) rfl hslot hread hmem rfl ⟨rfl, le_rfl⟩
  | barrier kind f slot i => exact h.evaluate (evaluated_step hs)
  | dispatch f slot => cases hs; exact h.move rfl (.inl rfl) h.pc
  | launch f slot completion groupMemory => exact h.launch (launchMove_step hs)
  | running f slot completion groupMemory kernargs =>
    cases hs; exact h.move rfl (.inr rfl) h.pc
  | freeGroup f slot completion groupMemory => cases hs; exact h.move rfl (.inr rfl) h.pc
  | retire f slot completion => cases hs; exact h.retire
  | retired f slot completion =>
    have hret : RetiredInv cfg q f slot := h.pc
    simp only [PhsaRuntime.workerStep] at hs
    split at hs <;> cases hs
    · rename_i heq
      have htag := hret.tag_eq h.ring heq
      exact h.advanceReadIndex (fun t ht => (Option.some.inj ht).symm) rfl hret.slot_eq
        (by rw [← heq]; exact hret.readIndex) (htag ▸ hret.processed) rfl ⟨rfl, le_rfl⟩
    · exact h.setPacketProcessed
  | complete f completion => cases hs; exact h.move rfl (.inl rfl) h.pc

/-- **The invariant of the scan holds in every reachable state**, whatever the producers
and the environment do. -/
theorem scanInv_of_reachable {ok : ScanState → ScanAction → Prop} {s : ScanState}
    (h : (scanMachine cfg).Reachable ok s) : ScanInv cfg s := by
  refine scan_induction ?init ?producer ?enter ?worker h
  case init =>
    intro buffer
    refine ⟨ringInv_create cfg buffer, fun t _ _ => ?_, trivial, ?_, ?_⟩
    · simp [isPacketProcessed, SlotProcessed, create]
    · simp [create]
    · simp [create]
  case producer =>
    intro q pc p q' _ _ hq ih
    exact ih.producerStep hq
  case enter =>
    intro q ih
    exact ih.move rfl (.inl rfl) trivial
  case worker =>
    intro q pc env q' pc' _ _ hq ih
    exact ih.workerStep hq

/-- What no worker step changes. -/
structure WorkerFrame (q q' : Queue) : Prop where
  producer : q'.producer = q.producer
  writeIndex : q'.writeIndex = q.writeIndex
  doorbell : q'.doorbell = q.doorbell
  packet : q'.history.packet = q.history.packet
  tag : q'.history.tag = q.history.tag

theorem WorkerFrame.refl (q : Queue) : WorkerFrame q q := ⟨rfl, rfl, rfl, rfl, rfl⟩

theorem WorkerFrame.history (q : Queue) {h : History} (hpacket : h.packet = q.history.packet)
    (htag : h.tag = q.history.tag) : WorkerFrame q { q with history := h } :=
  ⟨rfl, rfl, rfl, hpacket, htag⟩

theorem settle_frame (env : Env) (q : Queue) (f : Frame) (slot : ℕ) (ok : Bool) :
    WorkerFrame q (settle env q f slot ok).1 := by
  cases ok with
  | true => exact .refl q
  | false => exact .history q rfl rfl

theorem workerStep_frame {env : Env} {pc pc' : Pc}
    (hs : workerStep cfg env q pc = some (q', pc')) : WorkerFrame q q' := by
  cases pc with
  | away | halted _ => cases hs
  | barrier kind f slot i =>
    cases evaluated_step hs with
    | null | dead | undecided => exact .refl q
    | decided | exhausted => exact settle_frame env q f slot _
  | launch f slot completion groupMemory =>
    cases launchMove_step hs with
    | aligned | moved | callback => exact .history q rfl rfl
    | aborted => exact .refl q
  | sample | retired _ _ _ =>
    simp only [PhsaRuntime.workerStep] at hs
    split at hs <;> cases hs <;> exact ⟨rfl, rfl, rfl, rfl, rfl⟩
  | loadReadIndex | loadWriteIndex _ | head _ | advance _ _ | dispatch _ _
  | running _ _ _ _ _ | freeGroup _ _ _ _ | retire _ _ _ | complete _ _ =>
    cases hs
    exact ⟨rfl, rfl, rfl, rfl, rfl⟩

/-! ## Where a scan stops -/

/-- A barrier packet is evaluated as what it is, and a scan stops at a barrier packet. -/
structure StopInv (s : ScanState) : Prop where
  kind : ∀ kind f slot i, s.pc = .barrier kind f slot i →
    packetType (s.queue.packetBuffer slot).header = kind.packetType
  stopped : ∀ b, s.queue.history.stopped = some b →
    s.queue.Published b ∧ isBarrier (s.queue.history.packet b).header

theorem isBarrier_of_kind {header : BitVec 16} {kind : Barrier}
    (h : packetType header = kind.packetType) : isBarrier header := by
  cases kind with
  | and => exact .inl h
  | or => exact .inr h

theorem StopInv.producerStep {p : ProducerAction} {pc : Pc} (hinv : ScanInv cfg ⟨q, pc⟩)
    (h : StopInv ⟨q, pc⟩) (hs : Queue.producerStep cfg p q = some q') : StopInv ⟨q', pc⟩ := by
  have hfr := producerStep_frame hinv.ring hs
  refine ⟨fun kind f slot i hpc => ?_, fun b hb => ?_⟩
  · obtain rfl : pc = .barrier kind f slot i := hpc
    have hslot : SlotInv cfg q f slot := hinv.pc
    rw [(HeaderValid.producerStep hinv.ring hs hslot.valid).1]
    exact h.kind kind f slot i rfl
  · obtain ⟨hp, hbar⟩ := h.stopped b (hfr.stopped.symm.trans hb)
    rw [hfr.packet_of_published hs hp]
    exact ⟨(hfr.published b).mpr (.inl hp), hbar⟩

/-- A step that neither comes to a barrier packet nor stops. -/
theorem StopInv.goto {pc pc' : Pc} (h : StopInv ⟨q, pc⟩)
    (hpc : ∀ kind f slot i, pc' ≠ .barrier kind f slot i) (hfr : WorkerFrame q q')
    (hstop : q'.history.stopped = q.history.stopped) : StopInv ⟨q', pc'⟩ := by
  constructor
  · intro kind f slot i heq
    exact absurd heq (hpc kind f slot i)
  · intro b hb
    simpa only [Published, hfr.producer, hfr.packet] using h.stopped b (hstop.symm.trans hb)

theorem StopInv.settle (env : Env) {kind : Barrier} {i : ℕ}
    (hinv : ScanInv cfg ⟨q, .barrier kind f slot i⟩)
    (h : StopInv ⟨q, .barrier kind f slot i⟩) (ok : Bool) :
    StopInv ⟨(settle env q f slot ok).1, (settle env q f slot ok).2⟩ := by
  cases ok with
  | true => exact h.goto (by simp [PhsaRuntime.settle]) (.refl q) rfl
  | false =>
    have hring : RingInv cfg q := hinv.ring
    have hs : SlotInv cfg q f slot := hinv.pc
    obtain ⟨hw, hmod⟩ := hring.tagged slot hs.slot_lt hs.valid
    have hbuf := (hring.slot _ hw).2.2
    refine ⟨by simp [PhsaRuntime.settle], ?_⟩
    intro b hb
    obtain rfl : q.history.tag slot = b := Option.some.inj hb
    have hkind : packetType (q.history.packet (q.history.tag slot)).header =
        kind.packetType := by
      rw [← hbuf, hmod]
      exact h.kind kind f slot i rfl
    exact ⟨hw.1, isBarrier_of_kind hkind⟩

theorem StopInv.evaluate {env : Env} {kind : Barrier} {i : ℕ} {pc' : Pc}
    (hinv : ScanInv cfg ⟨q, .barrier kind f slot i⟩)
    (h : StopInv ⟨q, .barrier kind f slot i⟩) (hev : Evaluated env q kind f slot i q' pc') :
    StopInv ⟨q', pc'⟩ := by
  have hnext : StopInv ⟨q, .barrier kind f slot (i + 1)⟩ := by
    refine ⟨fun kind' f' slot' i' heq => ?_, h.stopped⟩
    cases heq
    exact h.kind kind f slot i rfl
  cases hev with
  | null | undecided => exact hnext
  | dead => exact h.goto (by simp) (.refl q) rfl
  | decided | exhausted => exact h.settle env hinv _

theorem StopInv.workerStep {env : Env} {pc pc' : Pc} (hinv : ScanInv cfg ⟨q, pc⟩)
    (h : StopInv ⟨q, pc⟩) (hs : workerStep cfg env q pc = some (q', pc')) :
    StopInv ⟨q', pc'⟩ := by
  have hfr := workerStep_frame hs
  cases pc with
  | away | halted _ => cases hs
  | sample =>
    simp only [PhsaRuntime.workerStep] at hs
    split at hs <;> cases hs
    · exact h.goto (by simp) hfr rfl
    · exact ⟨by simp, by simp⟩
  | head f =>
    cases hs
    have hex := examined cfg q f
    generalize examine cfg q f = pc' at hex ⊢
    cases hex with
    | barrier kind _ _ htype =>
      refine ⟨fun kind' f' slot' i' heq => ?_, h.stopped⟩
      cases heq
      exact htype
    | exit | badIndex | freed | passed | dispatch | unknown => exact h.goto (by simp) hfr rfl
  | barrier kind f slot i => exact h.evaluate hinv (evaluated_step hs)
  | launch f slot completion groupMemory =>
    cases launchMove_step hs <;> exact h.goto (by simp) hfr rfl
  | retired f slot completion =>
    simp only [PhsaRuntime.workerStep] at hs
    split at hs <;> cases hs <;> exact h.goto (by simp) hfr rfl
  | loadReadIndex | loadWriteIndex _ | advance _ _ | dispatch _ _ | running _ _ _ _ _
  | freeGroup _ _ _ _ | retire _ _ _ | complete _ _ => cases hs; exact h.goto (by simp) hfr rfl

theorem stopInv_of_reachable {ok : ScanState → ScanAction → Prop} {s : ScanState}
    (h : (scanMachine cfg).Reachable ok s) : StopInv s := by
  refine scan_induction ?init ?producer ?enter ?worker h
  case init =>
    intro buffer
    exact ⟨by simp, by simp [create]⟩
  case producer =>
    intro q pc p q' hr _ hq ih
    exact ih.producerStep (scanInv_of_reachable hr) hq
  case enter =>
    intro q ih
    exact ih.goto (by simp) (.refl q) rfl
  case worker =>
    intro q pc env q' pc' hr _ hq ih
    exact ih.workerStep (scanInv_of_reachable hr) hq

/-! ## What the producers may rely on -/

/-- The safety of a user mode queue. -/
structure QueueSafe (cfg : Config) (s : ScanState) : Prop where
  /-- No packet is processed twice. -/
  processed_once : s.queue.history.processed.Nodup
  /-- No packet is run twice. -/
  launched_once : (s.queue.history.launches.map Launch.index).Nodup
  processed_published : ∀ i ∈ s.queue.history.processed, s.queue.Published i
  launched_published : ∀ l ∈ s.queue.history.launches, s.queue.Published l.index
  below_readIndex : ∀ i < s.queue.readIndex, i ∈ s.queue.history.processed
  readIndex_le_writeIndex : s.queue.readIndex ≤ s.queue.writeIndex
  /-- A set flag at the head of an iteration: the index of the window that maps to the
  slot has been processed, and the slot is free of a packet. -/
  flag_exact : ∀ f, s.pc = .head f → ∀ t < cfg.size, s.queue.isPacketProcessed t = true →
    (∃ i ∈ s.queue.history.processed, s.queue.readIndex ≤ i ∧
      i < s.queue.readIndex + cfg.size ∧ i % cfg.size = t) ∧
    packetType (s.queue.packetBuffer t).header = packetTypeInvalid
  /-- An unprocessed packet is in its slot as it was published. -/
  intact : ∀ i, s.queue.Waiting i →
    s.queue.packetBuffer (i % cfg.size) = s.queue.history.packet i
  /-- A producer that writes to a slot finds no unprocessed packet there. -/
  not_overwritten : ∀ i, s.queue.producer i = .filling → ∀ j, s.queue.Waiting j →
    j % cfg.size ≠ i % cfg.size

theorem LaunchInv.published {pc : Pc} (h : ScanInv cfg ⟨q, pc⟩) {l : Launch}
    (hl : l ∈ q.history.launches) : q.Published l.index := by
  rcases h.launches.launched l hl with hp | ⟨t, ht, htag⟩
  · exact h.ring.published _ hp
  · obtain ⟨f, hs⟩ := Pc.executing_eq_some h.pc ht
    exact htag ▸ (h.ring.tagged t hs.slot_lt hs.valid).1.1

/-- A slot whose flag is set holds no packet: two packets of the window would share it. -/
theorem FlagInv.header_invalid (hr : RingInv cfg q) (hflags : FlagInv cfg q none) {t : ℕ}
    (ht : t < cfg.size) (hflag : q.isPacketProcessed t = true) : ¬ q.HeaderValid t := by
  intro hvalid
  obtain ⟨i, hi, hri, hmod⟩ := (hflags t ht (by simp)).mp hflag
  obtain ⟨hw, htag⟩ := hr.tagged t ht hvalid
  have heq := hr.unique (hr.ahead i (.inr (hr.published i hi))) hri hw (hmod.trans htag.symm)
  exact hw.2 (heq ▸ hi)

/-- The invariant is all that the safety of a queue needs. -/
theorem ScanInv.queueSafe {s : ScanState} (hinv : ScanInv cfg s) : QueueSafe cfg s := by
  have hring := hinv.ring
  refine
    { processed_once := hring.nodup
      launched_once := hinv.launches.nodup
      processed_published := hring.published
      launched_published := fun l hl => LaunchInv.published hinv hl
      below_readIndex := hring.below
      readIndex_le_writeIndex := hring.readIndex_le_writeIndex
      flag_exact := fun f hpc t ht hflag => ?_
      intact := fun i hi => (hring.slot i hi).2.2
      not_overwritten := fun i hi j hj heq => ?_ }
  · have hflags : FlagInv cfg s.queue none := by simpa only [hpc, Pc.stale] using hinv.flags
    obtain ⟨i, hi, hri, hmod⟩ := (hflags t ht (by simp)).mp hflag
    have hahead := hring.ahead i (.inr (hring.published i hi))
    exact ⟨⟨i, hi, hri, hahead, hmod⟩, not_not.mp (hflags.header_invalid hring ht hflag)⟩
  · exact hring.slot_free_of_filling hi (heq ▸ (hring.slot j hj).1)

/-- **User mode queue safety**, for any number of producers and any interleaving. -/
theorem queue_safe {s : ScanState} (h : (scanMachine cfg).Reachable Machine.always s) :
    QueueSafe cfg s :=
  (scanInv_of_reachable h).queueSafe

/-- A run in which the packet with index 1 is processed ahead of the one with index 0. -/
theorem queue_safe_out_of_order : ∃ s, QueueSafe ⟨.multi, 2, by decide, by decide⟩ s ∧
    s.queue.history.processed = [1] ∧ s.queue.isPacketProcessed 1 = true := by
  obtain ⟨s, hs, hp⟩ := Machine.exists_reachable_of_run
    (scanMachine ⟨.multi, 2, by decide, by decide⟩) Machine.always
    ([.producer .reserve, .producer .reserve] ++ Scan.write 1 Scan.emptyPacket ++
      [.producer (.ring 1)] ++ Scan.visit Scan.quietEnv 12)
    (fun s => s.queue.history.processed = [1] && s.queue.isPacketProcessed 1)
    (Scan.init_start _) (by decide +kernel)
  simp only [Bool.and_eq_true, decide_eq_true_eq] at hp
  exact ⟨s, queue_safe hs, hp⟩

end PhsaRuntime
