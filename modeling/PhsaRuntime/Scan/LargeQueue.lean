import PhsaRuntime.Scan.Protocol

/-!
# Queues that are too large for an `int`

`PacketsToCheck` and `PacketIndex` are of type `int`. In a MULTI queue of `2 ^ 31` or more slots,
and in a SINGLE queue with `2 ^ 31` or more packets between the read index and the doorbell, the
number of packets to check is negative. The last index to check then lies before the read index as
soon as that has come far enough. The scan looks at nothing, and as the doorbell value is
remembered by then, the ring is swallowed.

A queue comes there in order: every packet before the one that is swallowed is rung and processed
by itself.

## Main definitions

* `Queue.Filled`, `FilledTo` — queues whose packets are rung and processed in order.
* `Swallowed` — a ring is lost.

## Main results

* `filledTo_of_scannable` — a queue in which any number of packets has been processed.
* `swallowed_multi`, `swallowed_single` — the rings that are swallowed in a queue that is too
  large.
-/

namespace PhsaRuntime

open Queue

/-- The doorbell after `n` packets have been rung in order. -/
def bell (n : ℕ) : ℤ := if n = 0 then doorbellMax else n - 1

/-- `n` packets have been rung and the first `r` of them processed. -/
structure Queue.Filled (cfg : Config) (q : Queue) (r n : ℕ) : Prop where
  readIndex : q.readIndex = r
  writeIndex : q.writeIndex = n
  rung : ∀ i < n, q.producer i = .rung
  free : ∀ i, n ≤ i → q.producer i = .free
  doorbell : q.doorbell = bell n
  processed : q.history.processed = List.range r
  packet : ∀ i, r ≤ i → i < n → q.packetBuffer (i % cfg.size) = Scan.emptyPacket ∧
    q.history.tag (i % cfg.size) = i

variable {cfg : Config} {q : Queue} {pc : Pc} {r n : ℕ}

/-! ## The producer -/

/-- The queue while the producer of its next index is at work. -/
def working (q : Queue) (progress : Producer) : Queue :=
  { q with
    writeIndex := q.writeIndex + 1
    producer := Function.update q.producer q.writeIndex progress }

/-- A packet with this header, and otherwise empty, in the slot of the next index. -/
def withPacket (cfg : Config) (q : Queue) (header : BitVec 16) : Queue :=
  { q with
    packetBuffer := Function.update q.packetBuffer (q.writeIndex % cfg.size)
      { Scan.emptyPacket with header } }

/-- The next index is known to be published. -/
def withTag (cfg : Config) (q : Queue) : Queue :=
  { q with
    history :=
      { q.history with
        packet := Function.update q.history.packet q.writeIndex Scan.emptyPacket
        tag := Function.update q.history.tag (q.writeIndex % cfg.size) q.writeIndex } }

/-- The queue after the header of the next index has been stored. -/
def published (cfg : Config) (q : Queue) : Queue :=
  working (withTag cfg (withPacket cfg q Scan.emptyPacket.header)) .published

/-- The queue after the next index has been rung. -/
def submitted (cfg : Config) (q : Queue) : Queue :=
  { published cfg q with
    doorbell := Word.toInt64 q.writeIndex
    producer := Function.update q.producer q.writeIndex .rung }

/-- The next index is reserved and its packet body written. -/
theorem reachable_filled (hr : (scanMachine cfg).Reachable InOrder ⟨q, pc⟩)
    (hwindow : q.writeIndex < q.readIndex + cfg.size) (hmax : q.writeIndex < 2 ^ 62) :
    (scanMachine cfg).Reachable InOrder
      ⟨working (withPacket cfg q (q.packetBuffer (q.writeIndex % cfg.size)).header) .filling,
        pc⟩ := by
  have hreserve : (scanMachine cfg).Reachable InOrder ⟨working q .reserved, pc⟩ := by
    refine hr.step (a := .producer .reserve) ⟨trivial, ?_, trivial⟩ ?_
    · simp only [OwnIndex, doorbellMax]
      omega
    · have hlt : q.writeIndex + 1 < 2 ^ 64 := by omega
      simp only [scanMachine, producerStep, if_pos hlt, Option.map_some, working]
  have hproceed : (scanMachine cfg).Reachable InOrder ⟨working q .filling, pc⟩ := by
    refine hreserve.step (a := .producer (.proceed q.writeIndex)) ⟨trivial, trivial, trivial⟩ ?_
    simp [scanMachine, producerStep, working, hwindow]
  refine hproceed.step (a := .producer (.fill q.writeIndex Scan.emptyPacket))
    ⟨trivial, trivial, trivial⟩ ?_
  simp [scanMachine, producerStep, working, withPacket]

theorem reachable_submitted (hr : (scanMachine cfg).Reachable InOrder ⟨q, pc⟩)
    (hrung : ∀ i < q.writeIndex, q.producer i = .rung)
    (hwindow : q.writeIndex < q.readIndex + cfg.size) (hmax : q.writeIndex < 2 ^ 62) :
    (scanMachine cfg).Reachable InOrder ⟨submitted cfg q, pc⟩ := by
  have hpublish : (scanMachine cfg).Reachable InOrder ⟨published cfg q, pc⟩ := by
    refine (reachable_filled hr hwindow hmax).step
      (a := .producer (.publish q.writeIndex Scan.emptyPacket.header)) ⟨?_, trivial, ?_⟩ ?_
    · intro j hj
      right
      simp only [working, withPacket, Function.update_of_ne hj.ne, hrung j hj]
    · simp only [DispatchOnly]
      decide
    · have hvalid : packetType Scan.emptyPacket.header ≠ packetTypeInvalid := by decide
      simp [scanMachine, producerStep, published, working, withPacket, withTag, hvalid]
  refine hpublish.step (a := .producer (.ring q.writeIndex)) ⟨?_, ?_, trivial⟩ ?_
  · intro j hj _
    exact Nat.lt_succ_iff.mp hj
  · simp only [OwnIndex, published, working, withTag, withPacket, Function.update_self]
  · simp [scanMachine, producerStep, Published, submitted, published, working, withPacket,
      withTag]

theorem Queue.Filled.submitted (h : q.Filled cfg r n) (hwindow : n < r + cfg.size)
    (hmax : n < 2 ^ 62) : (submitted cfg q).Filled cfg r (n + 1) := by
  obtain ⟨hread, rfl, hrung, hfree, -, hprocessed, hpacket⟩ := h
  refine ⟨hread, rfl, fun i hi => ?_, fun i hi => ?_, ?_, hprocessed, fun i hri hi => ?_⟩
  · simp only [PhsaRuntime.submitted, published, working, withPacket, withTag,
      Function.update_apply]
    split
    · rfl
    · exact hrung i (by omega)
  · simp only [PhsaRuntime.submitted, published, working, withPacket, withTag]
    rw [Function.update_of_ne (by omega), hfree i (by omega)]
  · have hlt : q.writeIndex < 2 ^ 63 := by omega
    simp only [PhsaRuntime.submitted, bell, Word.toInt64_of_lt hlt]
    omega
  · simp only [PhsaRuntime.submitted, published, working, withPacket, withTag]
    by_cases heq : i = q.writeIndex
    · subst heq
      simp only [Function.update_self, and_self]
    · -- another index of the window has another slot
      have hslot : i % cfg.size ≠ q.writeIndex % cfg.size := fun hmod =>
        heq (Ring.index_unique hri (by omega) (by omega) hwindow hmod)
      simp only [Function.update_of_ne hslot]
      exact hpacket i hri (by omega)

/-! ## The scan -/

theorem reachable_workerStep {q' : Queue} {pc' : Pc}
    (hr : (scanMachine cfg).Reachable InOrder ⟨q, pc⟩)
    (hs : workerStep cfg Scan.quietEnv q pc = some (q', pc')) :
    (scanMachine cfg).Reachable InOrder ⟨q', pc'⟩ := by
  refine hr.step (a := .worker Scan.quietEnv) ⟨trivial, trivial, trivial⟩ ?_
  simp only [scanMachine, hs, Option.map_some]

/-- The queue in a scan that has sampled the doorbell. -/
def sampled (q : Queue) : Queue :=
  { q with lastHandledDoorBell := q.doorbell, history := { q.history with stopped := none } }

/-- The bounds of the loop, before its first iteration. -/
def startFrame (cfg : Config) (q : Queue) : Frame where
  currentReadIndex := q.readIndex
  currentWriteIndex := q.writeIndex
  lastIndex := lastIndex cfg q.doorbell q.readIndex
  currentIndex := q.readIndex

theorem reachable_head (hr : (scanMachine cfg).Reachable InOrder ⟨q, .away⟩)
    (hmax : q.doorbell ≠ doorbellMax) (hnew : q.doorbell ≠ q.lastHandledDoorBell) :
    (scanMachine cfg).Reachable InOrder ⟨sampled q, .head (startFrame cfg q)⟩ := by
  have henter : (scanMachine cfg).Reachable InOrder ⟨q, .sample⟩ :=
    hr.step (a := .enter) ⟨trivial, trivial, trivial⟩ rfl
  have hsample : (scanMachine cfg).Reachable InOrder ⟨sampled q, .loadReadIndex⟩ := by
    refine reachable_workerStep henter ?_
    simp only [workerStep, hmax, hnew, or_self, if_false, sampled]
  have hload : (scanMachine cfg).Reachable InOrder ⟨sampled q, .loadWriteIndex q.readIndex⟩ :=
    reachable_workerStep hsample rfl
  exact reachable_workerStep hload rfl

/-- The queue after the packet in `slot`, at the read index, has been processed. -/
def executed (cfg : Config) (q : Queue) (f : Frame) (slot : ℕ) : Queue :=
  advanceReadIndex cfg (retireSlot (startKernel q f slot none 0) slot) f slot

theorem reachable_examine {f : Frame} (hr : (scanMachine cfg).Reachable InOrder ⟨q, .head f⟩)
    (hpc : examine cfg q f = pc) : (scanMachine cfg).Reachable InOrder ⟨q, pc⟩ := by
  refine reachable_workerStep hr ?_
  simp only [workerStep, hpc]

theorem examine_exit {f : Frame}
    (h : f.lastIndex < f.currentIndex ∨ f.currentWriteIndex ≤ f.currentIndex) :
    examine cfg q f = .away := by
  simp only [examine, if_pos h]

theorem examine_dispatch {f : Frame} {slot : ℕ} (hle : f.currentIndex ≤ f.lastIndex)
    (hlt : f.currentIndex < f.currentWriteIndex)
    (hslot : packetIndex cfg f.currentIndex = some slot)
    (hpacket : q.packetBuffer slot = Scan.emptyPacket) : examine cfg q f = .dispatch f slot := by
  have hin : ¬ (f.lastIndex < f.currentIndex ∨ f.currentWriteIndex ≤ f.currentIndex) := by omega
  simp only [examine, if_neg hin, hslot, examineSlot, hpacket]
  rfl

theorem reachable_executed {f : Frame} {slot : ℕ}
    (hr : (scanMachine cfg).Reachable InOrder ⟨q, .dispatch f slot⟩)
    (hpacket : q.packetBuffer slot = Scan.emptyPacket)
    (hread : f.currentReadIndex = f.currentIndex) :
    (scanMachine cfg).Reachable InOrder ⟨executed cfg q f slot, .head f.advance.next⟩ := by
  have hlaunch : (scanMachine cfg).Reachable InOrder ⟨q, .launch f slot none none⟩ := by
    refine reachable_workerStep hr ?_
    simp only [workerStep, hpacket]
    rfl
  have hrunning : (scanMachine cfg).Reachable InOrder
      ⟨startKernel q f slot none 0, .running f slot none none none⟩ := by
    refine reachable_workerStep hlaunch ?_
    simp only [workerStep, launch, hpacket]
    rfl
  have hfree := reachable_workerStep hrunning rfl
  have hretire := reachable_workerStep hfree rfl
  have hretired := reachable_workerStep hretire rfl
  have hcomplete : (scanMachine cfg).Reachable InOrder
      ⟨executed cfg q f slot, .complete f.advance none⟩ := by
    refine reachable_workerStep hretired ?_
    simp only [workerStep, hread, if_true, executed]
  exact reachable_workerStep hcomplete rfl

/-! ## Filled queues -/

theorem bell_succ (n : ℕ) : bell (n + 1) = n := by
  simp [bell]

theorem bell_ne_max (hn : 0 < n) (hmax : n < 2 ^ 62) : bell n ≠ doorbellMax := by
  simp only [bell, doorbellMax, hn.ne', if_false]
  omega

theorem bell_ne (hrn : r < n) (hmax : n < 2 ^ 62) : bell n ≠ bell r := by
  simp only [bell, doorbellMax]
  split <;> split <;> omega

/-- A queue comes to be in which `n` packets have been rung and the first `r` of them processed,
with the worker elsewhere and as it was when there were `r` packets. -/
def FilledTo (cfg : Config) (r n : ℕ) : Prop :=
  ∃ q, (scanMachine cfg).Reachable InOrder ⟨q, .away⟩ ∧ q.Filled cfg r n ∧
    q.lastHandledDoorBell = bell r

theorem filledTo_zero (cfg : Config) : FilledTo cfg 0 0 := by
  refine ⟨_, .init (Scan.init_start cfg), ⟨rfl, rfl, ?_, fun _ _ => rfl, rfl, rfl, ?_⟩, rfl⟩
  · intro i hi
    exact absurd hi (Nat.not_lt_zero i)
  · intro i _ hi
    exact absurd hi (Nat.not_lt_zero i)

theorem FilledTo.submit (h : FilledTo cfg r n) (hwindow : n < r + cfg.size) (hmax : n < 2 ^ 62) :
    FilledTo cfg r (n + 1) := by
  obtain ⟨q, hr, hfilled, hlast⟩ := h
  have hwrite := hfilled.writeIndex
  have hread := hfilled.readIndex
  have hsubmitted : (scanMachine cfg).Reachable InOrder ⟨submitted cfg q, .away⟩ := by
    apply reachable_submitted hr
    · rw [hwrite]
      exact hfilled.rung
    · omega
    · omega
  exact ⟨submitted cfg q, hsubmitted, hfilled.submitted hwindow hmax, hlast⟩

/-- The producer goes on while the worker is elsewhere. -/
theorem FilledTo.submit_le {n' : ℕ} (h : FilledTo cfg r n) (hle : n ≤ n')
    (hwindow : n' ≤ r + cfg.size) (hmax : n' < 2 ^ 62) : FilledTo cfg r n' := by
  induction n', hle using Nat.le_induction with
  | base => exact h
  | succ n' _ ih => exact (ih (by omega) (by omega)).submit (by omega) (by omega)

/-- The worker comes to the loop with the last doorbell value. -/
theorem Queue.Filled.reachable_head (h : q.Filled cfg r n)
    (hr : (scanMachine cfg).Reachable InOrder ⟨q, .away⟩)
    (hlast : q.lastHandledDoorBell = bell r) (hrn : r < n) (hmax : n < 2 ^ 62) :
    (scanMachine cfg).Reachable InOrder ⟨sampled q, .head (startFrame cfg q)⟩ := by
  apply PhsaRuntime.reachable_head hr
  · rw [h.doorbell]
    exact bell_ne_max (by omega) hmax
  · rw [h.doorbell, hlast]
    exact bell_ne hrn hmax

/-- The scan of a queue with one packet, at an index that the arithmetic of the loop gets right. -/
theorem FilledTo.scan (h : FilledTo cfg n (n + 1)) (hlast : n ≤ lastIndex cfg n n)
    (hslot : packetIndex cfg n = some (n % cfg.size)) (hmax : n < 2 ^ 61) :
    FilledTo cfg (n + 1) (n + 1) := by
  obtain ⟨q, hr, hfilled, hhandled⟩ := h
  have hhead := hfilled.reachable_head hr hhandled (Nat.lt_succ_self n) (by omega)
  obtain ⟨rfl, hwrite, hrung, hfree, hdoor, hprocessed, hpacket⟩ := hfilled
  obtain ⟨hempty, htag⟩ := hpacket q.readIndex le_rfl (by omega)
  rw [bell_succ] at hdoor
  have hfound : examine cfg (sampled q) (startFrame cfg q) =
      .dispatch (startFrame cfg q) (q.readIndex % cfg.size) := by
    refine examine_dispatch ?_ ?_ hslot hempty
    · simp only [startFrame, hdoor]
      exact hlast
    · simp only [startFrame]
      omega
  have hexecuted := reachable_executed (reachable_examine hhead hfound) hempty rfl
  have hend : (startFrame cfg q).advance.next.currentWriteIndex ≤
      (startFrame cfg q).advance.next.currentIndex := hwrite.le
  have hexit := reachable_examine hexecuted (examine_exit (.inr hend))
  refine ⟨_, hexit, ⟨rfl, hwrite, hrung, hfree, ?_, ?_, ?_⟩, ?_⟩
  · exact hdoor.trans (bell_succ _).symm
  · simp [executed, advanceReadIndex, retireSlot, startKernel, sampled, htag, hprocessed,
      List.range_succ]
  · intro i hle hlt
    exact absurd hle (not_le.mpr hlt)
  · exact hdoor.trans (bell_succ _).symm

/-- Packets that are rung and processed one by one. -/
theorem filledTo_of_scannable (hscan : ∀ m < n, m ≤ lastIndex cfg m m ∧
    packetIndex cfg m = some (m % cfg.size)) (hmax : n < 2 ^ 61) : FilledTo cfg n n := by
  induction n with
  | zero => exact filledTo_zero cfg
  | succ n ih =>
    have hpos := cfg.size_pos
    obtain ⟨hlast, hslot⟩ := hscan n (Nat.lt_succ_self n)
    have hn : FilledTo cfg n n := ih (fun m hm => hscan m (by omega)) (by omega)
    exact (hn.submit (by omega) (by omega)).scan hlast hslot (by omega)

/-- A ring is swallowed: the doorbell value is remembered, and nothing has been processed. -/
def Swallowed (cfg : Config) (r n : ℕ) : Prop :=
  ∃ q, (scanMachine cfg).Reachable InOrder ⟨q, .away⟩ ∧ q.Filled cfg r n ∧
    q.lastHandledDoorBell = q.doorbell ∧ q.history.stopped = none

/-- A last index before the read index. -/
theorem FilledTo.swallowed (h : FilledTo cfg r n) (hrn : r < n)
    (hlast : lastIndex cfg (bell n) r < r) (hmax : n < 2 ^ 62) : Swallowed cfg r n := by
  obtain ⟨q, hr, hfilled, hhandled⟩ := h
  have hhead := hfilled.reachable_head hr hhandled hrn hmax
  have hexit : examine cfg (sampled q) (startFrame cfg q) = .away := by
    apply examine_exit
    left
    simp only [startFrame, hfilled.doorbell, hfilled.readIndex]
    exact hlast
  obtain ⟨hread, hwrite, hrung, hfree, hdoor, hprocessed, hpacket⟩ := hfilled
  exact ⟨_, reachable_examine hhead hexit,
    ⟨hread, hwrite, hrung, hfree, hdoor, hprocessed, hpacket⟩, rfl, rfl⟩

/-! ## The sizes -/

/-- The slot of a small index is an `int`, whatever the size. -/
theorem packetIndex_of_lt {c : ℕ} (h : c < 2 ^ 31) :
    packetIndex cfg c = some (c % cfg.size) := by
  have hlt : c % cfg.size < 2 ^ 31 := (Nat.mod_le c cfg.size).trans_lt h
  simp only [packetIndex, Word.toInt32_of_lt hlt, Int.natCast_nonneg, if_true, Int.toNat_natCast]

/-- A MULTI queue of `2 ^ 31` or more slots loses the packet that is rung next when `2 ^ 32` less
its size have been processed. -/
theorem swallowed_multi (htype : cfg.type = .multi) (hsize : 2 ^ 31 ≤ cfg.size) :
    Swallowed cfg (2 ^ 32 - cfg.size) (2 ^ 32 - cfg.size + 1) := by
  have hlt := cfg.size_lt
  have hlast : ∀ (d : ℤ) (r : ℕ), lastIndex cfg d r = Word.toUInt64 (r + cfg.size - 2 ^ 32) := by
    intro d r
    have hneg : Word.toInt32 cfg.size = cfg.size - 2 ^ 32 := by
      simp only [Word.toInt32]
      omega
    simp only [lastIndex, packetsToCheck, htype, hneg, add_sub_assoc]
  have hfilled : FilledTo cfg (2 ^ 32 - cfg.size) (2 ^ 32 - cfg.size) := by
    refine filledTo_of_scannable (fun m hm => ⟨?_, packetIndex_of_lt (by omega)⟩) (by omega)
    rw [hlast, Word.toUInt64]
    omega
  refine (hfilled.submit (by omega) (by omega)).swallowed (by omega) ?_ (by omega)
  rw [hlast, Word.toUInt64]
  omega

/-- A SINGLE queue of more than `2 ^ 31` slots loses a ring of all of its packets. -/
theorem swallowed_single (htype : cfg.type = .single) (hsize : 2 ^ 31 < cfg.size) :
    Swallowed cfg (2 ^ 32 - cfg.size + 1) (2 ^ 32 + 1) := by
  have hlt := cfg.size_lt
  have hfilled : FilledTo cfg (2 ^ 32 - cfg.size + 1) (2 ^ 32 - cfg.size + 1) := by
    refine filledTo_of_scannable (fun m hm => ⟨?_, packetIndex_of_lt (by omega)⟩) (by omega)
    simp only [lastIndex, packetsToCheck, htype, Word.toInt32, Word.toUInt64]
    omega
  refine (hfilled.submit_le (by omega) (by omega) (by omega)).swallowed (by omega) ?_ (by omega)
  rw [bell_succ]
  simp only [lastIndex, packetsToCheck, htype, Word.toInt32, Word.toUInt64]
  omega

end PhsaRuntime
