import PhsaRuntime.Scan.LargeQueue
import PhsaRuntime.Scan.Order

/-!
# A SINGLE queue is a FIFO

The one producer of a SINGLE queue publishes in index order and rings increasing indexes,
so the packets up to the last rung index are all in the ring. The scan of such a queue
goes up to the doorbell value it has sampled and therefore never meets a slot that is
being filled: the loop's index is the read index all along, and no packet is ever
processed ahead of it.

The scan bound goes through a subtraction of unsigned and signed 64-bit values and a
truncation to `int`. Within a ring of at most `2 ^ 31` slots neither loses anything, for
doorbell values beyond `2 ^ 63` included. A larger ring is not a FIFO: with as many packets
waiting, the scan bound lies before the read index (`swallowed_single`).

## Main results

* `isFifo_of_reachable` — order, read index, flags and the end of a pass of a SINGLE queue.
* `single_fifo_iff` — the sizes of the SINGLE queues that are FIFOs.
-/

namespace PhsaRuntime

open Queue

/-- The loop scans up to `d` and is at the read index. -/
structure LoopInv (q : Queue) (d : ℕ) (f : Frame) : Prop where
  lastIndex : f.lastIndex = d
  lt_currentWriteIndex : d < f.currentWriteIndex
  currentIndex : f.currentIndex = q.readIndex
  le : q.readIndex ≤ d + 1

/-- What the worker knows when `d` is the doorbell value it has last handled. -/
def FifoPc (q : Queue) (d : ℕ) : Pc → Prop
  | .away | .sample =>
    q.readIndex ≤ d + 1 ∧ (q.readIndex = d + 1 ∨ q.history.stopped = some q.readIndex)
  | .loadReadIndex | .loadWriteIndex _ => q.readIndex ≤ d
  | .head f => LoopInv q d f
  | .advance _ _ => False
  | .barrier _ f _ _ | .dispatch f _ | .launch f _ _ _ | .running f _ _ _ _
  | .freeGroup f _ _ _ | .retire f _ _ | .retired f _ _ => LoopInv q d f ∧ f.currentIndex ≤ d
  | .complete f _ => LoopInv q d f.next
  | .halted _ => True

/-- The invariant of a SINGLE queue. -/
structure FifoInv (s : ScanState) : Prop where
  published : ∀ i, s.queue.Published i → ∀ j < i, s.queue.Published j
  doorbell : (s.queue.doorbell = doorbellMax ∧ ∀ j, s.queue.producer j ≠ .rung) ∨
    ∃ d, s.queue.producer d = .rung ∧ s.queue.doorbell = Word.toInt64 d ∧
      ∀ j, s.queue.producer j = .rung → j ≤ d
  processed : s.queue.history.processed = List.range s.queue.history.processed.length
  readIndex : s.queue.history.processed.length =
    s.queue.readIndex + if s.pc.stale.isSome then 1 else 0
  flags : ∀ slot, s.queue.isPacketProcessed slot = false
  handled : (s.queue.lastHandledDoorBell = doorbellMax ∧ s.queue.readIndex = 0 ∧
      (s.pc = .away ∨ s.pc = .sample)) ∨
    ∃ d, s.queue.producer d = .rung ∧ s.queue.lastHandledDoorBell = Word.toInt64 d ∧
      FifoPc s.queue d s.pc

variable {cfg : Config} {q q' : Queue} {f : Frame} {slot d : ℕ} {pc pc' : Pc}

/-! ## Producer steps -/

theorem LoopInv.same (h : LoopInv q d f) (hr : q'.readIndex = q.readIndex) :
    LoopInv q' d f :=
  ⟨h.lastIndex, h.lt_currentWriteIndex, by rw [hr]; exact h.currentIndex,
    by rw [hr]; exact h.le⟩

theorem FifoPc.producerStep {p : ProducerAction} (hfr : ProducerFrame p q q')
    (h : FifoPc q d pc) : FifoPc q' d pc := by
  cases pc with
  | away | sample => simpa only [FifoPc, hfr.readIndex, hfr.stopped] using h
  | loadReadIndex | loadWriteIndex _ => simpa only [FifoPc, hfr.readIndex] using h
  | head f => exact LoopInv.same h hfr.readIndex
  | advance _ _ => exact h
  | barrier _ f _ _ | dispatch f _ | launch f _ _ _ | running f _ _ _ _ | freeGroup f _ _ _
  | retire f _ _ | retired f _ _ => exact ⟨h.1.same hfr.readIndex, h.2⟩
  | complete f _ => exact LoopInv.same h hfr.readIndex
  | halted _ => trivial

theorem FifoInv.producerStep {p : ProducerAction} (hinv : ScanInv cfg ⟨q, pc⟩)
    (h : FifoInv ⟨q, pc⟩) (hok : InSequence ⟨q, pc⟩ (.producer p))
    (hs : Queue.producerStep cfg p q = some q') : FifoInv ⟨q', pc⟩ := by
  have hring : RingInv cfg q := hinv.ring
  have hfr := producerStep_frame hring hs
  refine
    { published := fun i hi j hj => (hfr.published j).mpr (.inl ?_)
      doorbell := ?_
      processed := by simpa only [hfr.processed] using h.processed
      readIndex := by simpa only [hfr.processed, hfr.readIndex] using h.readIndex
      flags := by simpa only [isPacketProcessed, hfr.packetIsProcessed] using h.flags
      handled := ?_ }
  · rcases (hfr.published i).mp hi with hi | ⟨header, rfl⟩
    · exact h.published i hi j hj
    · exact hok j hj
  · by_cases hring' : ∃ v, p = .ring v
    · obtain ⟨v, rfl⟩ := hring'
      refine .inr ⟨v, (hfr.rung v).mpr (.inr rfl), ?_, fun j hj => ?_⟩
      · simp only [Queue.producerStep, Option.ite_none_right_eq_some, Option.some.injEq] at hs
        obtain ⟨-, rfl⟩ := hs
        rfl
      · rcases (hfr.rung j).mp hj with hj | heq
        · exact hok j (hring.lt_writeIndex (.inr hj)) hj
        · cases heq; exact le_rfl
    · have hne : ∀ v, p ≠ .ring v := fun v hv => hring' ⟨v, hv⟩
      have hrung : ∀ j, q'.producer j = .rung ↔ q.producer j = .rung := by
        simpa [hne] using hfr.rung
      have hdoor : q'.doorbell = q.doorbell := by simpa [hne] using hfr.doorbell
      simpa only [hrung, hdoor, ne_eq] using h.doorbell
  · rcases h.handled with ⟨hmax, hr, hpc⟩ | ⟨d, hd, hlast, hpc⟩
    · exact .inl ⟨hfr.lastHandledDoorBell.trans hmax, hfr.readIndex.trans hr, hpc⟩
    · exact .inr ⟨d, (hfr.rung d).mpr (.inl hd), hfr.lastHandledDoorBell.trans hlast,
        hpc.producerStep hfr⟩

/-! ## Worker steps -/

/-- Two queues that agree on everything but the packets and the other histories. -/
structure SameIndexes (q q' : Queue) : Prop where
  producer : q'.producer = q.producer
  doorbell : q'.doorbell = q.doorbell
  processed : q'.history.processed = q.history.processed
  readIndex : q'.readIndex = q.readIndex
  packetIsProcessed : q'.packetIsProcessed = q.packetIsProcessed
  lastHandledDoorBell : q'.lastHandledDoorBell = q.lastHandledDoorBell

theorem SameIndexes.refl (q : Queue) : SameIndexes q q := ⟨rfl, rfl, rfl, rfl, rfl, rfl⟩

theorem SameIndexes.history (q : Queue) {h : History} (hproc : h.processed = q.history.processed) :
    SameIndexes q { q with history := h } :=
  ⟨rfl, rfl, hproc, rfl, rfl, rfl⟩

/-- In the scan, with a new doorbell value. -/
def Pc.scanning : Pc → Bool
  | .away | .sample => false
  | _ => true

/-- In the scan there is a doorbell value that is being handled. -/
theorem FifoInv.handled_of_scan (h : FifoInv ⟨q, pc⟩) (hscan : pc.scanning = true) :
    ∃ d, q.producer d = .rung ∧ q.lastHandledDoorBell = Word.toInt64 d ∧ FifoPc q d pc := by
  rcases h.handled with ⟨-, -, hpc | hpc⟩ | hd
  · obtain rfl : pc = .away := hpc
    cases hscan
  · obtain rfl : pc = .sample := hpc
    cases hscan
  · exact hd

/-- A step within the scan that processes nothing. -/
theorem FifoInv.goto (h : FifoInv ⟨q, pc⟩) (hs : SameIndexes q q')
    (hscan : pc.scanning = true) (hstale : pc.stale = none) (hstale' : pc'.stale = none)
    (hpc : ∀ d, q.producer d = .rung → q.lastHandledDoorBell = Word.toInt64 d →
      FifoPc q d pc → FifoPc q' d pc') : FifoInv ⟨q', pc'⟩ := by
  obtain ⟨d, hd, hlast, hold⟩ := h.handled_of_scan hscan
  refine ⟨?_, ?_, ?_, ?_, ?_, .inr ⟨d, ?_, ?_, hpc d hd hlast hold⟩⟩
  · simpa only [Published, hs.producer] using h.published
  · simpa only [hs.doorbell, hs.producer] using h.doorbell
  · simpa only [hs.processed] using h.processed
  · simpa only [hs.processed, hs.readIndex, hstale, hstale'] using h.readIndex
  · simpa only [isPacketProcessed, hs.packetIsProcessed] using h.flags
  · simpa only [hs.producer] using hd
  · simpa only [hs.lastHandledDoorBell] using hlast

/-- **The packet at the read index is in its slot** until the scan has come past `d`. -/
theorem FifoInv.waiting (h : FifoInv ⟨q, pc⟩) (hstale : pc.stale = none)
    (hd : q.producer d = .rung) (hle : q.readIndex ≤ d) : q.Waiting q.readIndex := by
  constructor
  · rcases Nat.eq_or_lt_of_le hle with heq | hlt
    · exact heq ▸ .inr hd
    · exact h.published d (.inr hd) _ hlt
  · have hlen : q.history.processed.length = q.readIndex := by
      simpa [hstale] using h.readIndex
    have hrange : q.history.processed = List.range q.history.processed.length := h.processed
    rw [hrange, hlen]
    simp

/-- A new doorbell value lies beyond everything the earlier ones stood for. -/
theorem FifoInv.sample (h : FifoInv ⟨q, .sample⟩) (hne : q.doorbell ≠ doorbellMax)
    (hnew : q.doorbell ≠ q.lastHandledDoorBell) :
    FifoInv ⟨{ q with
      lastHandledDoorBell := q.doorbell
      history := { q.history with stopped := none } }, .loadReadIndex⟩ := by
  obtain ⟨d, hd, hdoor, hlast⟩ := h.doorbell.resolve_left fun hmax => hne hmax.1
  refine ⟨h.published, h.doorbell, h.processed, h.readIndex, h.flags, .inr ⟨d, hd, hdoor, ?_⟩⟩
  change q.readIndex ≤ d
  rcases h.handled with ⟨-, hr, -⟩ | ⟨d', hd', hlast', hr, -⟩
  · exact (hr : q.readIndex = 0) ▸ Nat.zero_le d
  · have hle := hlast d' hd'
    have hdd : d' ≠ d := by rintro rfl; exact hnew (hdoor.trans hlast'.symm)
    have hr' : q.readIndex ≤ d' + 1 := hr
    omega

/-- The bounds of the loop. -/
theorem FifoInv.start (hinv : ScanInv cfg ⟨q, .loadWriteIndex q.readIndex⟩)
    (htype : cfg.type = .single) (hsize : cfg.size ≤ 2 ^ 31) (hd : q.producer d = .rung)
    (hlast : q.lastHandledDoorBell = Word.toInt64 d) (hle : q.readIndex ≤ d) :
    LoopInv q d
      { currentReadIndex := q.readIndex
        currentWriteIndex := q.writeIndex
        lastIndex := PhsaRuntime.lastIndex cfg q.lastHandledDoorBell q.readIndex
        currentIndex := q.readIndex } := by
  have hring : RingInv cfg q := hinv.ring
  have hwrite : d < q.writeIndex := hring.lt_writeIndex (.inr hd)
  have hahead : d < q.readIndex + cfg.size := hring.ahead d (.inr (.inr hd))
  have hlt := hring.write_lt
  refine ⟨?_, hwrite, rfl, Nat.le_succ_of_le hle⟩
  simp only [hlast]
  exact lastIndex_single htype (by omega) hle (by omega)

/-- The loop ends beyond `d`, or finds the packet at the read index. -/
theorem FifoInv.examine (hinv : ScanInv cfg ⟨q, .head f⟩) (h : FifoInv ⟨q, .head f⟩)
    (hsize : cfg.size ≤ 2 ^ 31) : FifoInv ⟨q, examine cfg q f⟩ := by
  have hring : RingInv cfg q := hinv.ring
  have hvalid : ∀ d, q.producer d = .rung → LoopInv q d f → f.currentIndex ≤ d →
      q.HeaderValid (f.currentIndex % cfg.size) := by
    intro d hd hloop hle
    have hw := h.waiting rfl hd (hloop.currentIndex ▸ hle)
    rw [← hloop.currentIndex] at hw
    exact (hring.slot _ hw).1
  have hex := examined cfg q f
  generalize PhsaRuntime.examine cfg q f = pc' at hex ⊢
  cases hex with
  | exit hexit =>
    refine h.goto (.refl q) rfl rfl rfl fun d hd _ hloop => ?_
    have hloop : LoopInv q d f := hloop
    obtain ⟨hlast, hlt, hcur, hle⟩ := hloop
    exact ⟨hle, .inl (by omega)⟩
  | badIndex hidx =>
    rw [packetIndex_of_size_le hsize] at hidx
    cases hidx
  | freed hle _ hinvalid _ _ =>
    refine h.goto (.refl q) rfl rfl rfl fun d hd _ hloop => ?_
    have hloop : LoopInv q d f := hloop
    exact absurd hinvalid (hvalid d hd hloop (hloop.lastIndex ▸ hle))
  | passed hle _ hinvalid _ =>
    refine h.goto (.refl q) rfl rfl rfl fun d hd _ hloop => ?_
    have hloop : LoopInv q d f := hloop
    exact absurd hinvalid (hvalid d hd hloop (hloop.lastIndex ▸ hle))
  | barrier kind hle _ _ =>
    refine h.goto (.refl q) rfl rfl rfl fun d _ _ hloop => ?_
    have hloop : LoopInv q d f := hloop
    exact ⟨hloop, hloop.lastIndex ▸ hle⟩
  | dispatch hle _ _ =>
    refine h.goto (.refl q) rfl rfl rfl fun d _ _ hloop => ?_
    have hloop : LoopInv q d f := hloop
    exact ⟨hloop, hloop.lastIndex ▸ hle⟩
  | unknown => exact h.goto (.refl q) rfl rfl rfl fun _ _ _ _ => trivial

/-- The packet in the slot is the one at the read index. -/
theorem LoopInv.tag_eq (hinv : ScanInv cfg ⟨q, pc⟩) (hs : SlotInv cfg q f slot)
    (h : LoopInv q d f) : q.history.tag slot = q.readIndex := by
  have hcur := h.currentIndex
  have hpos := cfg.size_pos
  have hring : RingInv cfg q := hinv.ring
  have htag := hs.tag_eq_or hring
  omega

theorem FifoInv.settle (env : Env) {kind : Barrier} {i : ℕ}
    (hinv : ScanInv cfg ⟨q, .barrier kind f slot i⟩)
    (h : FifoInv ⟨q, .barrier kind f slot i⟩) (ok : Bool) :
    FifoInv ⟨(settle env q f slot ok).1, (settle env q f slot ok).2⟩ := by
  cases ok with
  | true => exact h.goto (.refl q) rfl rfl rfl fun _ _ _ hpc => hpc
  | false =>
    refine h.goto (.history q rfl) rfl rfl rfl
      fun d _ _ hpc => ⟨hpc.1.le, .inr ?_⟩
    exact congrArg some (LoopInv.tag_eq hinv hinv.pc hpc.1)

theorem FifoInv.evaluate {env : Env} {kind : Barrier} {i : ℕ}
    (hinv : ScanInv cfg ⟨q, .barrier kind f slot i⟩)
    (h : FifoInv ⟨q, .barrier kind f slot i⟩) (hev : Evaluated env q kind f slot i q' pc') :
    FifoInv ⟨q', pc'⟩ := by
  have hnext : FifoInv ⟨q, .barrier kind f slot (i + 1)⟩ :=
    h.goto (.refl q) rfl rfl rfl fun _ _ _ hpc => hpc
  cases hev with
  | null | undecided => exact hnext
  | dead => exact h.goto (.refl q) rfl rfl rfl fun _ _ _ _ => trivial
  | decided | exhausted => exact h.settle env hinv _

theorem FifoInv.launch {env : Env} {completion : Option Handle} {groupMemory : Option ℕ}
    (h : FifoInv ⟨q, .launch f slot completion groupMemory⟩)
    (hmove : LaunchMove env q f slot completion groupMemory q' pc') : FifoInv ⟨q', pc'⟩ := by
  cases hmove with
  | aligned | moved | callback =>
    exact h.goto (.history q rfl) rfl rfl rfl fun _ _ _ hpc => ⟨hpc.1.same rfl, hpc.2⟩
  | aborted => exact h.goto (.refl q) rfl rfl rfl fun _ _ _ _ => trivial

theorem FifoInv.retire {completion : Option Handle}
    (hinv : ScanInv cfg ⟨q, .retire f slot completion⟩)
    (h : FifoInv ⟨q, .retire f slot completion⟩) :
    FifoInv ⟨retireSlot q slot, .retired f slot completion⟩ := by
  obtain ⟨d, hd, hlast, hloop, hle⟩ := h.handled_of_scan rfl
  have htag := LoopInv.tag_eq hinv hinv.pc hloop
  have hlen : q.history.processed.length = q.readIndex := by simpa [Pc.stale] using h.readIndex
  have hproc : (retireSlot q slot).history.processed = q.history.processed ++ [q.readIndex] := by
    simp [retireSlot, htag]
  have hloop' : LoopInv (retireSlot q slot) d f :=
    ⟨hloop.lastIndex, hloop.lt_currentWriteIndex, hloop.currentIndex, hloop.le⟩
  refine ⟨h.published, h.doorbell, ?_, ?_, h.flags, .inr ⟨d, hd, hlast, hloop', hle⟩⟩
  · have hrange : q.history.processed = List.range q.history.processed.length := h.processed
    simp only [hproc, List.length_append, List.length_singleton, List.range_succ, hlen]
    rw [hrange, hlen]
  · simp only [hproc, List.length_append, List.length_singleton, hlen, Pc.stale]
    rfl

theorem FifoInv.retired {completion : Option Handle}
    (hinv : ScanInv cfg ⟨q, .retired f slot completion⟩)
    (h : FifoInv ⟨q, .retired f slot completion⟩) :
    FifoInv ⟨advanceReadIndex cfg q f slot, .complete f.advance completion⟩ := by
  have hret : RetiredInv cfg q f slot := hinv.pc
  obtain ⟨d, hd, hlast, hloop, hle⟩ := h.handled_of_scan rfl
  have hcur := hloop.currentIndex
  refine ⟨h.published, h.doorbell, h.processed, ?_, fun t => ?_, .inr ⟨d, hd, hlast, ?_⟩⟩
  · have hlen : q.history.processed.length = q.readIndex + 1 := by
      simpa [Pc.stale] using h.readIndex
    simp only [advanceReadIndex, Pc.stale, Option.isSome_none, Bool.false_eq_true, if_false]
    omega
  · simp only [isPacketProcessed, advanceReadIndex,
      getD_setProcessedFlag hinv.ring.flags_length hret.slot_lt]
    split
    · rfl
    · exact h.flags t
  · refine ⟨hloop.lastIndex, hloop.lt_currentWriteIndex, rfl, ?_⟩
    simp only [advanceReadIndex]
    omega

/-- **The step lemma of the worker.** -/
theorem FifoInv.workerStep {env : Env} (htype : cfg.type = .single) (hsize : cfg.size ≤ 2 ^ 31)
    (hinv : ScanInv cfg ⟨q, pc⟩) (h : FifoInv ⟨q, pc⟩)
    (hs : workerStep cfg env q pc = some (q', pc')) : FifoInv ⟨q', pc'⟩ := by
  cases pc with
  | away | halted _ => cases hs
  | sample =>
    simp only [PhsaRuntime.workerStep] at hs
    split at hs <;> cases hs
    · refine ⟨h.published, h.doorbell, h.processed, h.readIndex, h.flags, ?_⟩
      rcases h.handled with ⟨hmax, hr, -⟩ | ⟨d, hd, hlast, hpc⟩
      · exact .inl ⟨hmax, hr, .inl rfl⟩
      · exact .inr ⟨d, hd, hlast, hpc⟩
    · rename_i hnew
      obtain ⟨hne, hnew⟩ := not_or.mp hnew
      exact h.sample hne hnew
  | loadReadIndex =>
    cases hs
    exact h.goto (.refl q) rfl rfl rfl fun _ _ _ hpc => hpc
  | loadWriteIndex r =>
    cases hs
    obtain rfl : r = q.readIndex := hinv.pc
    exact h.goto (.refl q) rfl rfl rfl fun d hd hlast hle =>
      FifoInv.start hinv htype hsize hd hlast hle
  | head f => cases hs; exact h.examine hinv hsize
  | advance f slot =>
    obtain ⟨d, -, -, hfalse⟩ := h.handled_of_scan rfl
    exact hfalse.elim
  | barrier kind f slot i => exact h.evaluate hinv (evaluated_step hs)
  | launch f slot completion groupMemory => exact h.launch (launchMove_step hs)
  | dispatch f slot | running f slot _ _ _ | freeGroup f slot _ _ | complete f _ =>
    cases hs
    exact h.goto (.refl q) rfl rfl rfl fun _ _ _ hpc => hpc
  | retire f slot completion => cases hs; exact h.retire hinv
  | retired f slot completion =>
    have hret : RetiredInv cfg q f slot := hinv.pc
    obtain ⟨d, -, -, hloop, -⟩ := h.handled_of_scan rfl
    have heq : f.currentReadIndex = f.currentIndex :=
      hret.readIndex.trans hloop.currentIndex.symm
    simp only [PhsaRuntime.workerStep, if_pos heq] at hs
    cases hs
    exact h.retired hinv

theorem fifoInv_of_reachable (htype : cfg.type = .single) (hsize : cfg.size ≤ 2 ^ 31)
    {s : ScanState} (h : (scanMachine cfg).Reachable InSequence s) : FifoInv s := by
  refine scan_induction ?init ?producer ?enter ?worker h
  case init =>
    intro buffer
    refine ⟨fun i hi => ?_, .inl ⟨rfl, fun j => ?_⟩, rfl, rfl, fun t => rfl,
      .inl ⟨rfl, rfl, .inl rfl⟩⟩
    · simp [Published, create] at hi
    · simp [create]
  case producer =>
    intro q pc p q' hr hok hq ih
    exact ih.producerStep (scanInv_of_reachable hr) hok hq
  case enter =>
    intro q ih
    refine ⟨ih.published, ih.doorbell, ih.processed, ih.readIndex, ih.flags, ?_⟩
    rcases ih.handled with ⟨hmax, hread, -⟩ | hd
    · exact .inl ⟨hmax, hread, .inr rfl⟩
    · exact .inr hd
  case worker =>
    intro q pc env q' pc' hr _ hq ih
    exact ih.workerStep htype hsize (scanInv_of_reachable hr) hq

/-- A SINGLE queue that is skipped has all rung packets processed, or its last scan stopped
at the read index. -/
theorem FifoInv.skip (hinv : ScanInv cfg ⟨q, .sample⟩) (h : FifoInv ⟨q, .sample⟩)
    (hskip : q.doorbell = q.lastHandledDoorBell) :
    ((∀ j, q.producer j = .rung → j ∈ q.history.processed) ∧ q.producer q.readIndex ≠ .rung) ∨
      ∃ b, q.history.stopped = some b ∧ b ∉ q.history.processed ∧
        ∀ j, q.producer j = .rung → j ∉ q.history.processed → b ≤ j := by
  have hring : RingInv cfg q := hinv.ring
  have hlt : ∀ j, q.producer j = .rung → j < 2 ^ 64 := fun j hj =>
    (hring.lt_writeIndex (.inr hj)).trans hring.write_lt
  rcases h.doorbell with ⟨-, hnone⟩ | ⟨d, hd, hdoor, hlast⟩
  · exact .inl ⟨fun j hj => absurd hj (hnone j), hnone _⟩
  · have hdoor : q.doorbell = Word.toInt64 d := hdoor
    rcases h.handled with ⟨hmax, hread, -⟩ | ⟨d', hd', hlast', hle, hend⟩
    · -- nothing has been handled yet, so `d` lies in the first lap and is not the maximum
      have hmax : q.lastHandledDoorBell = doorbellMax := hmax
      have hread : q.readIndex = 0 := hread
      have hahead := hring.ahead d (.inr (.inr hd))
      have hsize := cfg.size_lt
      rw [hdoor, hmax, Word.toInt64_of_lt (by omega), doorbellMax] at hskip
      omega
    · have hlast' : q.lastHandledDoorBell = Word.toInt64 d' := hlast'
      have hle : q.readIndex ≤ d' + 1 := hle
      obtain rfl : d = d' := by
        apply Word.toInt64_inj (hlt d hd) (hlt d' hd')
        rw [← hdoor, hskip, hlast']
      rcases Nat.lt_or_ge d q.readIndex with hr | hr
      · refine .inl ⟨?_, ?_⟩
        · intro j hj
          have hjd : j ≤ d := hlast j hj
          exact hring.below j (by omega)
        · intro hrung
          have hjd : q.readIndex ≤ d := hlast _ hrung
          omega
      · have hstop : q.history.stopped = some q.readIndex :=
          hend.resolve_left fun heq => by
            have heq : q.readIndex = d + 1 := heq
            omega
        exact .inr ⟨_, hstop, (h.waiting rfl hd hr).2, fun j _ hnot => hring.readIndex_le hnot⟩

/-! ## The queue as a FIFO -/

/-- What a SINGLE queue guarantees. -/
structure IsFifo (s : ScanState) : Prop where
  /-- Packets are executed and processed in index order. -/
  order : s.order = List.range s.order.length
  processed : s.queue.history.processed = List.range s.queue.history.processed.length
  /-- The read index is the number of processed packets, except between the store that
  retires a packet and the store of the read index. -/
  readIndex : s.pc.stale = none → s.queue.readIndex = s.queue.history.processed.length
  flags : ∀ slot, s.queue.isPacketProcessed slot = false
  /-- The last pass has processed the packets up to the doorbell value it sampled, or has
  ended at a barrier that was not satisfied, with all packets before it processed. -/
  pass : s.pc = .away → ∀ d, s.queue.producer d = .rung →
    s.queue.lastHandledDoorBell = Word.toInt64 d →
    (∀ i ≤ d, i ∈ s.queue.history.processed) ∨
      ∃ b ≤ d, s.queue.history.stopped = some b ∧
        isBarrier (s.queue.history.packet b).header ∧ ∀ i < b, i ∈ s.queue.history.processed

theorem FifoInv.order_eq (hinv : ScanInv cfg ⟨q, pc⟩) (h : FifoInv ⟨q, pc⟩) :
    ScanState.order ⟨q, pc⟩ = List.range (ScanState.order ⟨q, pc⟩).length := by
  have hrange : q.history.processed = List.range q.history.processed.length := h.processed
  cases hexec : pc.executing with
  | none => simpa [ScanState.order, hexec] using hrange
  | some t =>
    obtain ⟨f, hfound, -⟩ := Pc.position_of_executing hexec
    have hs : SlotInv cfg q f t := Pc.slotInv_of_found hinv.pc hfound
    have htag : q.history.tag t = q.readIndex := by
      cases pc <;> simp only [Pc.executing, reduceCtorEq, Option.some.injEq] at hexec
      all_goals
        obtain ⟨d, -, -, hpc⟩ := h.handled_of_scan rfl
        cases hfound
        exact LoopInv.tag_eq hinv hs hpc.1
    have hlen : q.history.processed.length = q.readIndex := by
      have hstale : pc.stale = none := by cases pc <;> first | rfl | cases hexec
      simpa [hstale] using h.readIndex
    simp only [ScanState.order, hexec, Option.map_some, Option.toList_some, htag,
      List.length_append, List.length_singleton, List.range_succ, hlen]
    rw [hrange, hlen]

/-- A SINGLE queue of at most `2 ^ 31` slots, in every interleaving with its producer. -/
theorem isFifo_of_reachable (htype : cfg.type = .single) (hsize : cfg.size ≤ 2 ^ 31)
    {s : ScanState} (h : (scanMachine cfg).Reachable InSequence s) : IsFifo s := by
  have hinv := scanInv_of_reachable h
  have hfifo := fifoInv_of_reachable htype hsize h
  refine
    { order := hfifo.order_eq hinv
      processed := hfifo.processed
      readIndex := fun hstale => ?_
      flags := hfifo.flags
      pass := fun hpc d hd hlast => ?_ }
  · simpa [hstale] using hfifo.readIndex.symm
  · have hring := hinv.ring
    have hlt : ∀ i, s.queue.producer i = .rung → i < 2 ^ 64 := fun i hi =>
      (hring.lt_writeIndex (.inr hi)).trans hring.write_lt
    rcases hfifo.handled with ⟨hmax, hr, -⟩ | ⟨d', hd', hlast', hpc'⟩
    · -- nothing is processed yet, so `d` lies in the first lap and is not the maximum
      have hahead := hring.ahead d (.inr (.inr hd))
      rw [hlast, Word.toInt64_of_lt (by omega)] at hmax
      simp only [doorbellMax] at hmax
      omega
    · obtain rfl : d = d' := Word.toInt64_inj (hlt d hd) (hlt d' hd') (hlast.symm.trans hlast')
      rw [hpc] at hpc'
      obtain ⟨hle, hend⟩ := hpc'
      rcases Nat.lt_or_ge d s.queue.readIndex with hr | hr
      · exact .inl fun i hi => hring.below i (by omega)
      · have hstop := hend.resolve_left (by omega)
        exact .inr ⟨s.queue.readIndex, hr, hstop,
          ((stopInv_of_reachable h).stopped _ hstop).2, hring.below⟩

/-- After a ring that is swallowed, the pass has neither processed the packets up to the doorbell
nor ended at a barrier. -/
theorem not_isFifo_of_swallowed {r n : ℕ} (hfilled : q.Filled cfg r n) (hrn : r < n)
    (hmax : n < 2 ^ 62) (hlast : q.lastHandledDoorBell = q.doorbell)
    (hstop : q.history.stopped = none) : ¬ IsFifo ⟨q, .away⟩ := by
  intro hfifo
  have hdoor : q.lastHandledDoorBell = Word.toInt64 (n - 1) := by
    rw [hlast, hfilled.doorbell, bell, Word.toInt64_of_lt (by omega)]
    split <;> omega
  rcases hfifo.pass rfl (n - 1) (hfilled.rung _ (by omega)) hdoor with hproc | ⟨b, -, hb, -⟩
  · have hmem := hproc r (by omega)
    simp only [hfilled.processed, List.mem_range, lt_irrefl] at hmem
  · simp only [hstop, reduceCtorEq] at hb

/-- **A SINGLE queue is a FIFO**, in every interleaving with its producer, if and only if it has at
most `2 ^ 31` slots. -/
theorem single_fifo_iff (htype : cfg.type = .single) :
    (∀ s, (scanMachine cfg).Reachable InSequence s → IsFifo s) ↔ cfg.size ≤ 2 ^ 31 := by
  constructor
  · intro h
    by_contra hsize
    obtain ⟨q, hr, hfilled, hlast, hstop⟩ := swallowed_single htype (not_le.mp hsize)
    have hpos := cfg.size_pos
    have hfifo := h _ (hr.mono fun _ _ hok => hok.1)
    exact not_isFifo_of_swallowed hfilled (by omega) (by omega) hlast hstop hfifo
  · intro hsize s hr
    exact isFifo_of_reachable htype hsize hr

/-- Two packets of a SINGLE queue with two slots, rung once. -/
theorem single_fifo_two : ∃ s, IsFifo s ∧ s.pc = .away ∧
    s.queue.history.processed = [0, 1] := by
  obtain ⟨s, hs, hp⟩ := Machine.exists_reachable_of_run
    (scanMachine ⟨.single, 2, by decide, by decide⟩) InSequence
    ([.producer .reserve, .producer .reserve] ++ Scan.write 0 Scan.emptyPacket ++
      Scan.write 1 Scan.emptyPacket ++ [.producer (.ring 1)] ++ Scan.visit Scan.quietEnv 20)
    (fun s => s.queue.history.processed = [0, 1] && s.pc.isAway)
    (Scan.init_start _) (by decide +kernel)
  simp only [Bool.and_eq_true, decide_eq_true_eq] at hp
  exact ⟨s, (single_fifo_iff rfl).mpr (by decide) s hs, Pc.eq_away_of_isAway hp.2, hp.1⟩

/-- A queue of 4294967294 slots in which three packets have been processed and then all slots are
filled: `PacketsToCheck` is -3. -/
theorem single_fifo_swallowed : ∃ s,
    (scanMachine ⟨.single, 4294967294, by decide, by decide⟩).Reachable InSequence s ∧
      s.queue.readIndex = 3 ∧ s.queue.writeIndex = 4294967297 ∧ ¬ IsFifo s := by
  have hswallowed : Swallowed ⟨.single, 4294967294, by decide, by decide⟩ 3 4294967297 :=
    swallowed_single rfl (by decide)
  obtain ⟨q, hr, hfilled, hlast, hstop⟩ := hswallowed
  exact ⟨_, hr.mono fun _ _ hok => hok.1, hfilled.readIndex, hfilled.writeIndex,
    not_isFifo_of_swallowed hfilled (by decide) (by decide) hlast hstop⟩

end PhsaRuntime
