import PhsaRuntime.Scan

/-!
# The invariants of the packet ring

`RingInv` is what holds of the ring between any two steps. Every published packet that
has not been processed lies in the window of `size` indexes that starts at the read index,
and its slot holds it under a valid header; every slot with a valid header holds such a
packet. So the index in a slot is determined by the slot and the read index.

`ScanInv` adds what the worker knows at each point of the scan. `PacketIsProcessed` is
exact outside the moment between the retirement of a slot and the update of its flag:
the flag of a slot is set if and only if the index of the window that lives there has
been processed.
-/

namespace PhsaRuntime

namespace Queue

/-- Index `i` is published and has not been processed. -/
def Waiting (q : Queue) (i : ℕ) : Prop := q.Published i ∧ i ∉ q.history.processed

/-- The header in `slot` is not `HSA_PACKET_TYPE_INVALID`. -/
def HeaderValid (q : Queue) (slot : ℕ) : Prop :=
  packetType (q.packetBuffer slot).header ≠ packetTypeInvalid

/-- The state of the ring between two steps. -/
structure RingInv (cfg : Config) (q : Queue) : Prop where
  free_iff : ∀ i, q.producer i = .free ↔ q.writeIndex ≤ i
  write_lt : q.writeIndex < 2 ^ 64
  /-- A producer past its wait has an index of the window. -/
  ahead : ∀ i, q.producer i = .filling ∨ q.Published i → i < q.readIndex + cfg.size
  below : ∀ i < q.readIndex, i ∈ q.history.processed
  nodup : q.history.processed.Nodup
  published : ∀ i ∈ q.history.processed, q.Published i
  slot : ∀ i, q.Waiting i → q.HeaderValid (i % cfg.size) ∧
    q.history.tag (i % cfg.size) = i ∧ q.packetBuffer (i % cfg.size) = q.history.packet i
  tagged : ∀ t < cfg.size, q.HeaderValid t →
    q.Waiting (q.history.tag t) ∧ q.history.tag t % cfg.size = t
  flags_length : q.packetIsProcessed.length = 0 ∨ q.packetIsProcessed.length = cfg.size

namespace RingInv

variable {cfg : Config} {q : Queue}

theorem readIndex_le (h : RingInv cfg q) {i : ℕ} (hi : i ∉ q.history.processed) :
    q.readIndex ≤ i := by
  by_contra hlt
  exact hi (h.below i (by omega))

theorem lt_writeIndex (h : RingInv cfg q) {i : ℕ} (hi : q.Published i) :
    i < q.writeIndex := by
  by_contra hge
  have hfree := (h.free_iff i).mpr (by omega)
  rcases hi with hi | hi <;> rw [hfree] at hi <;> cases hi

theorem readIndex_le_writeIndex (h : RingInv cfg q) : q.readIndex ≤ q.writeIndex := by
  by_contra hlt
  have hmem := h.below q.writeIndex (by omega)
  exact absurd (h.lt_writeIndex (h.published _ hmem)) (lt_irrefl _)

/-- A waiting packet lies in the window at the read index. -/
theorem window (h : RingInv cfg q) {i : ℕ} (hi : q.Waiting i) :
    q.readIndex ≤ i ∧ i < q.readIndex + cfg.size :=
  ⟨h.readIndex_le hi.2, h.ahead i (.inr hi.1)⟩

theorem not_processed_of_filling (h : RingInv cfg q) {i : ℕ} (hi : q.producer i = .filling) :
    i ∉ q.history.processed := by
  intro hmem
  rcases h.published i hmem with hp | hp <;> rw [hi] at hp <;> cases hp

/-- Two indexes of the window that are not below the read index and share a slot. -/
theorem unique (h : RingInv cfg q) {i j : ℕ} (hi : i < q.readIndex + cfg.size)
    (hir : q.readIndex ≤ i) (hj : q.Waiting j) (hmod : i % cfg.size = j % cfg.size) : i = j :=
  have hw := h.window hj
  Ring.index_unique hir hi hw.1 hw.2 hmod

/-- **No producer overwrites an unprocessed packet:** the slot a producer writes to holds
an `INVALID` header. -/
theorem slot_free_of_filling (h : RingInv cfg q) {i : ℕ} (hi : q.producer i = .filling) :
    ¬ q.HeaderValid (i % cfg.size) := by
  intro hvalid
  obtain ⟨hw, hmod⟩ := h.tagged _ (Nat.mod_lt _ cfg.size_pos) hvalid
  have hr := h.readIndex_le (h.not_processed_of_filling hi)
  have heq := h.unique (h.ahead i (.inl hi)) hr hw hmod.symm
  rcases hw.1 with hp | hp <;> rw [← heq, hi] at hp <;> cases hp

end RingInv

/-! ## The ring after creation -/

theorem packetType_one : packetType 1 = packetTypeInvalid := by decide

theorem ringInv_create (cfg : Config) (buffer : ℕ → AQLPacket) :
    RingInv cfg (create buffer) where
  free_iff i := by simp [create]
  write_lt := by simp [create]
  ahead i h := by simp [create, Published] at h
  below i h := by simp [create] at h
  nodup := by simp [create]
  published i h := by simp [create] at h
  slot i h := by simp [create, Waiting, Published] at h
  tagged t _ h := absurd packetType_one h
  flags_length := .inl rfl

/-! ## Producer steps -/

section Producers

variable {cfg : Config} {q q' : Queue} {p : ProducerAction}

/-- What a producer step leaves alone, what it publishes and what it rings. -/
structure ProducerFrame (p : ProducerAction) (q q' : Queue) : Prop where
  readIndex : q'.readIndex = q.readIndex
  packetIsProcessed : q'.packetIsProcessed = q.packetIsProcessed
  lastHandledDoorBell : q'.lastHandledDoorBell = q.lastHandledDoorBell
  processed : q'.history.processed = q.history.processed
  launches : q'.history.launches = q.history.launches
  stopped : q'.history.stopped = q.history.stopped
  published : ∀ i, q'.Published i ↔ q.Published i ∨ ∃ header, p = .publish i header
  rung : ∀ i, q'.producer i = .rung ↔ q.producer i = .rung ∨ p = .ring i
  packet : ∀ i, (∀ header, p ≠ .publish i header) →
    q'.history.packet i = q.history.packet i
  doorbell : q'.doorbell = q.doorbell ∨ ∃ i, p = .ring i ∧ q'.doorbell = Word.toInt64 i
  writeIndex : q'.writeIndex = q.writeIndex ∨ p = .reserve ∧ q'.writeIndex = q.writeIndex + 1

theorem published_update_iff {f : ℕ → Producer} {i j : ℕ} {st : Producer} :
    (Function.update f i st j = .published ∨ Function.update f i st j = .rung) ↔
      if j = i then st = .published ∨ st = .rung else f j = .published ∨ f j = .rung := by
  by_cases h : j = i
  · subst h; simp
  · simp [h]

theorem producerStep_frame (h : RingInv cfg q) (hs : producerStep cfg p q = some q') :
    ProducerFrame p q q' := by
  cases p with
  | reserve =>
    simp only [producerStep, Option.ite_none_right_eq_some, Option.some.injEq] at hs
    obtain ⟨-, rfl⟩ := hs
    have hfree := (h.free_iff q.writeIndex).mpr le_rfl
    refine ⟨rfl, rfl, rfl, rfl, rfl, rfl, fun i => ?_, fun i => ?_, fun i _ => rfl, .inl rfl,
      .inr ⟨rfl, rfl⟩⟩
    · by_cases hi : i = q.writeIndex <;> simp [Published, hi, hfree]
    · by_cases hi : i = q.writeIndex <;> simp [hi, hfree]
  | proceed j =>
    simp only [producerStep, Option.ite_none_right_eq_some, Option.some.injEq] at hs
    obtain ⟨⟨hj, -⟩, rfl⟩ := hs
    refine ⟨rfl, rfl, rfl, rfl, rfl, rfl, fun i => ?_, fun i => ?_, fun i _ => rfl, .inl rfl,
      .inl rfl⟩
    · by_cases hi : i = j <;> simp [Published, hi, hj]
    · by_cases hi : i = j <;> simp [hi, hj]
  | fill j packet =>
    simp only [producerStep, Option.ite_none_right_eq_some, Option.some.injEq] at hs
    obtain ⟨-, rfl⟩ := hs
    exact ⟨rfl, rfl, rfl, rfl, rfl, rfl, fun i => by simp [Published], fun i => by simp,
      fun i _ => rfl, .inl rfl, .inl rfl⟩
  | publish j header =>
    simp only [producerStep, Option.ite_none_right_eq_some, Option.some.injEq] at hs
    obtain ⟨⟨hj, -⟩, rfl⟩ := hs
    refine ⟨rfl, rfl, rfl, rfl, rfl, rfl, fun i => ?_, fun i => ?_, fun i hi => ?_, .inl rfl,
      .inl rfl⟩
    · by_cases hi : i = j
      · simp [Published, hi]
      · simp [Published, hi, Ne.symm hi]
    · by_cases hi : i = j <;> simp [hi, hj]
    · have hne : i ≠ j := by rintro rfl; exact hi header rfl
      simp [Function.update_of_ne hne]
  | ring j =>
    simp only [producerStep, Option.ite_none_right_eq_some, Option.some.injEq] at hs
    obtain ⟨hj, rfl⟩ := hs
    refine ⟨rfl, rfl, rfl, rfl, rfl, rfl, fun i => ?_, fun i => ?_, fun i _ => rfl,
      .inr ⟨j, rfl, rfl⟩, .inl rfl⟩
    · by_cases hi : i = j
      · simpa [Published, hi] using hj
      · simp [Published, hi]
    · by_cases hi : i = j
      · simp [hi]
      · simp [hi, Ne.symm hi]

theorem producerStep_publish {i : ℕ} {header : BitVec 16}
    (hs : producerStep cfg (.publish i header) q = some q') :
    q.producer i = .filling ∧ (q'.history.packet i).header = header := by
  simp only [producerStep, Option.ite_none_right_eq_some, Option.some.injEq] at hs
  obtain ⟨⟨hi, -⟩, rfl⟩ := hs
  exact ⟨hi, by simp⟩

/-- The packet of a published index is never written again. -/
theorem ProducerFrame.packet_of_published (hfr : ProducerFrame p q q')
    (hs : producerStep cfg p q = some q') {i : ℕ} (hi : q.Published i) :
    q'.history.packet i = q.history.packet i := by
  refine hfr.packet i fun header hp => ?_
  subst hp
  rcases hi with hi | hi <;> rw [(producerStep_publish hs).1] at hi <;> cases hi

/-- A step that changes no packet and publishes nothing keeps the invariant if it keeps
the clauses about reservations. -/
theorem RingInv.of_same_packets (h : RingInv cfg q)
    (hpub : ∀ i, q'.Published i ↔ q.Published i)
    (hfree : ∀ i, q'.producer i = .free ↔ q'.writeIndex ≤ i)
    (hwrite : q'.writeIndex < 2 ^ 64)
    (hahead : ∀ i, q'.producer i = .filling ∨ q'.Published i → i < q.readIndex + cfg.size)
    (hread : q'.readIndex = q.readIndex) (hbuf : q'.packetBuffer = q.packetBuffer)
    (htag : q'.history.tag = q.history.tag) (hpacket : q'.history.packet = q.history.packet)
    (hproc : q'.history.processed = q.history.processed)
    (hflags : q'.packetIsProcessed = q.packetIsProcessed) : RingInv cfg q' where
  free_iff := hfree
  write_lt := hwrite
  ahead := by rw [hread]; exact hahead
  below := by rw [hread, hproc]; exact h.below
  nodup := by rw [hproc]; exact h.nodup
  published := by
    rw [hproc]
    exact fun i hi => (hpub i).mpr (h.published i hi)
  slot i hi := by
    have hw : q.Waiting i := ⟨(hpub i).mp hi.1, by rw [← hproc]; exact hi.2⟩
    simpa only [HeaderValid, hbuf, htag, hpacket] using h.slot i hw
  tagged t ht hvalid := by
    have hv : q.HeaderValid t := by simpa only [HeaderValid, hbuf] using hvalid
    obtain ⟨hw, hmod⟩ := h.tagged t ht hv
    rw [htag]
    exact ⟨⟨(hpub _).mpr hw.1, by rw [hproc]; exact hw.2⟩, hmod⟩
  flags_length := by rw [hflags]; exact h.flags_length

theorem RingInv.reserve (h : RingInv cfg q)
    (hs : producerStep cfg .reserve q = some q') : RingInv cfg q' := by
  simp only [producerStep, Option.ite_none_right_eq_some, Option.some.injEq] at hs
  obtain ⟨hlt, rfl⟩ := hs
  have hfree := (h.free_iff q.writeIndex).mpr le_rfl
  refine h.of_same_packets ?_ ?_ (by simp only; omega) ?_ rfl rfl rfl rfl rfl rfl
  · intro i
    simp only [Published, published_update_iff]
    split
    · rename_i hi; subst hi; simp [hfree]
    · rfl
  · intro i
    by_cases hi : i = q.writeIndex
    · subst hi; simp
    · simp only [Function.update_of_ne hi, h.free_iff]
      omega
  · intro i hi
    by_cases heq : i = q.writeIndex
    · subst heq; simp [Published] at hi
    · simp only [Published, Function.update_of_ne heq] at hi
      exact h.ahead i hi

theorem RingInv.proceed (h : RingInv cfg q) {j : ℕ}
    (hs : producerStep cfg (.proceed j) q = some q') : RingInv cfg q' := by
  simp only [producerStep, Option.ite_none_right_eq_some, Option.some.injEq] at hs
  obtain ⟨⟨hj, hlt⟩, rfl⟩ := hs
  refine h.of_same_packets ?_ ?_ h.write_lt ?_ rfl rfl rfl rfl rfl rfl
  · intro i
    simp only [Published, published_update_iff]
    split
    · rename_i hi; subst hi; simp [hj]
    · rfl
  · intro i
    by_cases hi : i = j
    · subst hi; simp [← h.free_iff, hj]
    · simp only [Function.update_of_ne hi, h.free_iff]
  · intro i hi
    by_cases heq : i = j
    · exact heq ▸ hlt
    · simp only [Published, Function.update_of_ne heq] at hi
      exact h.ahead i hi

theorem RingInv.ring (h : RingInv cfg q) {j : ℕ}
    (hs : producerStep cfg (.ring j) q = some q') : RingInv cfg q' := by
  simp only [producerStep, Option.ite_none_right_eq_some, Option.some.injEq] at hs
  obtain ⟨hj, rfl⟩ := hs
  refine h.of_same_packets ?_ ?_ h.write_lt ?_ rfl rfl rfl rfl rfl rfl
  · intro i
    simp only [Published, published_update_iff]
    split
    · rename_i hi; subst hi; simpa [Published] using hj
    · rfl
  · intro i
    by_cases hi : i = j
    · subst hi
      simpa using h.lt_writeIndex hj
    · simp only [Function.update_of_ne hi, h.free_iff]
  · intro i hi
    by_cases heq : i = j
    · exact heq ▸ h.ahead j (.inr hj)
    · simp only [Published, Function.update_of_ne heq] at hi
      exact h.ahead i hi

/-- Writing the body of a packet touches only a slot that no waiting packet is in. -/
theorem RingInv.fill (h : RingInv cfg q) {j : ℕ} {packet : AQLPacket}
    (hs : producerStep cfg (.fill j packet) q = some q') : RingInv cfg q' := by
  simp only [producerStep, Option.ite_none_right_eq_some, Option.some.injEq] at hs
  obtain ⟨hj, rfl⟩ := hs
  have hinvalid := h.slot_free_of_filling hj
  refine { h with slot := fun i hi => ?_, tagged := fun t ht hvalid => ?_ }
  · obtain ⟨hvalid, htag, hbuf⟩ := h.slot i hi
    have hne : i % cfg.size ≠ j % cfg.size := fun heq => hinvalid (heq ▸ hvalid)
    simpa only [HeaderValid, Function.update_of_ne hne] using
      (⟨hvalid, htag, hbuf⟩ : _ ∧ _ ∧ _)
  · apply h.tagged t ht
    by_cases heq : t = j % cfg.size
    · simpa [HeaderValid, heq] using hvalid
    · simpa only [HeaderValid, Function.update_of_ne heq] using hvalid

/-- Storing the header makes the packet wait in its slot. -/
theorem RingInv.publish (h : RingInv cfg q) {j : ℕ} {header : BitVec 16}
    (hs : producerStep cfg (.publish j header) q = some q') : RingInv cfg q' := by
  simp only [producerStep, Option.ite_none_right_eq_some, Option.some.injEq] at hs
  obtain ⟨⟨hj, hheader⟩, rfl⟩ := hs
  have hinvalid := h.slot_free_of_filling hj
  have hpub : ∀ i, i ≠ j → ∀ st, (Function.update q.producer j st i = .published ∨
      Function.update q.producer j st i = .rung) → q.Published i := by
    intro i hi st hp
    simpa only [Published, Function.update_of_ne hi] using hp
  refine ⟨fun i => ?_, h.write_lt, fun i hi => ?_, h.below, h.nodup, fun i hi => ?_,
    fun i hi => ?_, fun t ht hvalid => ?_, h.flags_length⟩
  · by_cases hij : i = j
    · subst hij; simp [← h.free_iff, hj]
    · simp only [Function.update_of_ne hij, h.free_iff]
  · by_cases hij : i = j
    · exact hij ▸ h.ahead j (.inl hj)
    · simp only [Published, Function.update_of_ne hij] at hi
      exact h.ahead i hi
  · have hij : i ≠ j := fun heq => h.not_processed_of_filling hj (heq ▸ hi)
    simpa only [Published, Function.update_of_ne hij] using h.published i hi
  · by_cases hij : i = j
    · subst hij; simpa [HeaderValid] using hheader
    · obtain ⟨hvalid, htag, hbuf⟩ := h.slot i ⟨hpub i hij _ hi.1, hi.2⟩
      have hne : i % cfg.size ≠ j % cfg.size := fun heq => hinvalid (heq ▸ hvalid)
      simpa only [HeaderValid, Function.update_of_ne hne, Function.update_of_ne hij] using
        (⟨hvalid, htag, hbuf⟩ : _ ∧ _ ∧ _)
  · by_cases heq : t = j % cfg.size
    · subst heq
      simpa [Waiting, Published] using h.not_processed_of_filling hj
    · have hv : q.HeaderValid t := by
        simpa only [HeaderValid, Function.update_of_ne heq] using hvalid
      obtain ⟨hw, hmod⟩ := h.tagged t ht hv
      have hij : q.history.tag t ≠ j := by rintro rfl; exact heq hmod.symm
      simp only [Function.update_of_ne heq]
      refine ⟨⟨?_, hw.2⟩, hmod⟩
      simpa only [Published, Function.update_of_ne hij] using hw.1

theorem RingInv.producerStep (h : RingInv cfg q) (hs : producerStep cfg p q = some q') :
    RingInv cfg q' := by
  cases p with
  | reserve => exact h.reserve hs
  | proceed j => exact h.proceed hs
  | fill j packet => exact h.fill hs
  | publish j header => exact h.publish hs
  | ring j => exact h.ring hs

/-- A producer step leaves every slot alone that no producer is filling. -/
theorem producerStep_slot (hs : producerStep cfg p q = some q') {t : ℕ}
    (hfree : ∀ i, q.producer i = .filling → i % cfg.size ≠ t) :
    q'.packetBuffer t = q.packetBuffer t ∧ q'.history.tag t = q.history.tag t := by
  cases p with
  | reserve | proceed j | ring j =>
    simp only [producerStep, Option.ite_none_right_eq_some, Option.some.injEq] at hs
    obtain ⟨-, rfl⟩ := hs
    exact ⟨rfl, rfl⟩
  | fill j packet =>
    simp only [producerStep, Option.ite_none_right_eq_some, Option.some.injEq] at hs
    obtain ⟨hj, rfl⟩ := hs
    exact ⟨Function.update_of_ne (hfree j hj).symm _ _, rfl⟩
  | publish j header =>
    simp only [producerStep, Option.ite_none_right_eq_some, Option.some.injEq] at hs
    obtain ⟨⟨hj, -⟩, rfl⟩ := hs
    exact ⟨Function.update_of_ne (hfree j hj).symm _ _,
      Function.update_of_ne (hfree j hj).symm _ _⟩

end Producers

/-! ## Worker steps on the ring -/

section Worker

variable {cfg : Config} {q : Queue} {t : ℕ}

/-- Retiring a slot moves its packet from the waiting to the processed ones. -/
theorem RingInv.retireSlot (h : RingInv cfg q) (ht : t < cfg.size) (hvalid : q.HeaderValid t) :
    RingInv cfg (retireSlot q t) := by
  obtain ⟨hw, hmod⟩ := h.tagged t ht hvalid
  have hproc : ∀ i, i ∈ (PhsaRuntime.retireSlot q t).history.processed ↔
      i ∈ q.history.processed ∨ i = q.history.tag t := by
    simp [PhsaRuntime.retireSlot]
  refine ⟨h.free_iff, h.write_lt, h.ahead, fun i hi => (hproc i).mpr (.inl (h.below i hi)), ?_,
    fun i hi => ?_, fun i hi => ?_, fun t' ht' hvalid' => ?_, h.flags_length⟩
  · refine List.nodup_append.mpr ⟨h.nodup, List.nodup_cons.mpr (by simp), fun i hi j hj => ?_⟩
    rintro rfl
    exact hw.2 (List.mem_singleton.mp hj ▸ hi)
  · rcases (hproc i).mp hi with hi | rfl
    · exact h.published i hi
    · exact hw.1
  · have hold : q.Waiting i := ⟨hi.1, fun hm => hi.2 ((hproc i).mpr (.inl hm))⟩
    obtain ⟨hv, htag, hbuf⟩ := h.slot i hold
    have hne : i % cfg.size ≠ t := by
      rintro heq
      exact hi.2 ((hproc i).mpr (.inr (by rw [← heq, htag])))
    refine ⟨?_, htag, ?_⟩
    · simpa only [HeaderValid, PhsaRuntime.retireSlot, Function.update_of_ne hne] using hv
    · simpa only [PhsaRuntime.retireSlot, Function.update_of_ne hne] using hbuf
  · have hne : t' ≠ t := by
      rintro rfl
      exact hvalid' (by simpa [PhsaRuntime.retireSlot] using packetType_one)
    have hv : q.HeaderValid t' := by
      simpa only [HeaderValid, PhsaRuntime.retireSlot, Function.update_of_ne hne] using hvalid'
    obtain ⟨hw', hmod'⟩ := h.tagged t' ht' hv
    refine ⟨⟨hw'.1, fun hm => ?_⟩, hmod'⟩
    rcases (hproc _).mp hm with hm | hm
    · exact hw'.2 hm
    · change q.history.tag t' = q.history.tag t at hm
      rw [hm, hmod] at hmod'
      exact hne hmod'.symm

/-- The read index may pass an index that has been processed. -/
theorem RingInv.advanceReadIndex (h : RingInv cfg q) {f : Frame}
    (hf : f.currentIndex = q.readIndex) (hmem : f.currentIndex ∈ q.history.processed) :
    RingInv cfg (advanceReadIndex cfg q f t) where
  free_iff := h.free_iff
  write_lt := h.write_lt
  ahead i hi := by
    have := h.ahead i hi
    simp only [PhsaRuntime.advanceReadIndex]
    omega
  below i hi := by
    simp only [PhsaRuntime.advanceReadIndex] at hi
    by_cases heq : i = f.currentIndex
    · exact heq ▸ hmem
    · exact h.below i (by omega)
  nodup := h.nodup
  published := h.published
  slot := h.slot
  tagged := h.tagged
  flags_length := .inr (length_setProcessedFlag h.flags_length t false)

theorem RingInv.setPacketProcessed (h : RingInv cfg q) (flag : Bool) :
    RingInv cfg (q.setPacketProcessed cfg t flag) :=
  { h with flags_length := .inr (length_setProcessedFlag h.flags_length t flag) }

end Worker

end Queue

end PhsaRuntime
