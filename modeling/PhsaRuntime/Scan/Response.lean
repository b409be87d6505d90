import PhsaRuntime.Scan.Doorbell

/-!
# The answer to a ring

A scan that samples the doorbell after an index has been rung answers that ring: it processes the
packet, or it stops at a barrier packet that is not beyond it. Other producers may ring at the
same time, before and after the sample, so that neither the doorbell nor the remembered value
stays what it was; what the loop has reached of the one index (`Reaches`) does not depend on them.

## Main results

* `Responds.workerStep` — every step of the scan keeps what it has done about an index.
* `responds_sample` — a scan that begins after the ring answers it.
-/

namespace PhsaRuntime

open Queue

/-- Index `j` has been processed, or the last scan stopped at a barrier packet that has not and
is not beyond it. -/
def Answered (q : Queue) (j : ℕ) : Prop :=
  j ∈ q.history.processed ∨
    ∃ b, q.history.stopped = some b ∧ b ∉ q.history.processed ∧ b ≤ j

/-- The loop goes beyond `j`, and has processed it if it is past it. -/
structure Reaches (q : Queue) (j : ℕ) (f : Frame) : Prop where
  lastIndex : j ≤ f.lastIndex
  lt_currentWriteIndex : j < f.currentWriteIndex
  behind : j < f.currentIndex → j ∈ q.history.processed

/-- The sampled doorbell value of a SINGLE queue is an index that is not before `j`. -/
def Heard (cfg : Config) (q : Queue) (j : ℕ) : Prop :=
  cfg.type = .single →
    ∃ d, q.producer d = .rung ∧ q.lastHandledDoorBell = Word.toInt64 d ∧ j ≤ d

/-- What a scan that has sampled the doorbell after the ring of `j` has done about it. -/
def Responds (cfg : Config) (q : Queue) (j : ℕ) : Pc → Prop
  | .sample | .halted _ => True
  | .away => Answered q j
  | .loadReadIndex | .loadWriteIndex _ => Heard cfg q j
  | .head f | .advance f _ | .barrier _ f _ _ | .dispatch f _ | .launch f _ _ _
  | .running f _ _ _ _ | .freeGroup f _ _ _ | .retire f _ _ => Reaches q j f
  | .retired f _ _ => Reaches q j f ∧ (f.currentIndex = j → j ∈ q.history.processed)
  | .complete f _ => Reaches q j f.next

variable {cfg : Config} {q q' : Queue} {f : Frame} {slot j : ℕ} {pc pc' : Pc} {env : Env}

/-! ## Producers -/

theorem writeIndex_le_of_protocol {s : ScanState}
    (h : (scanMachine cfg).Reachable (Protocol cfg) s) :
    (s.queue.writeIndex : ℤ) ≤ doorbellMax := by
  refine scan_induction (P := fun s => (s.queue.writeIndex : ℤ) ≤ doorbellMax) ?init ?producer
    ?enter ?worker h
  case init =>
    intro buffer
    simp [create, doorbellMax]
  case producer =>
    intro q pc p q' hr hok hq ih
    rcases (producerStep_frame (q := q) (scanInv_of_reachable hr).ring hq).writeIndex with
      hw | ⟨rfl, hw⟩
    · exact hw ▸ ih
    · have hlt : (q.writeIndex : ℤ) < doorbellMax := hok.2
      simp only [hw]
      omega
  case enter =>
    intro q ih
    exact ih
  case worker =>
    intro q pc env q' pc' _ _ hq ih
    exact (workerStep_frame hq).writeIndex ▸ ih

theorem Answered.same (h : Answered q j) (hproc : q'.history.processed = q.history.processed)
    (hstop : q'.history.stopped = q.history.stopped) : Answered q' j := by
  simpa only [Answered, hproc, hstop] using h

theorem Reaches.same (h : Reaches q j f) (hproc : q'.history.processed = q.history.processed) :
    Reaches q' j f :=
  ⟨h.lastIndex, h.lt_currentWriteIndex, by rw [hproc]; exact h.behind⟩

/-- The producers leave alone what the worker has done. -/
theorem Responds.producerStep {p : ProducerAction} (h : Responds cfg q j pc)
    (hfr : ProducerFrame p q q') : Responds cfg q' j pc := by
  cases pc with
  | sample | halted => trivial
  | away => exact Answered.same h hfr.processed hfr.stopped
  | loadReadIndex | loadWriteIndex =>
    intro htype
    obtain ⟨d, hd, hlast, hle⟩ := h htype
    exact ⟨d, (hfr.rung d).mpr (.inl hd), hfr.lastHandledDoorBell.trans hlast, hle⟩
  | retired f slot completion => exact ⟨h.1.same hfr.processed, by rw [hfr.processed]; exact h.2⟩
  | head | advance | barrier | dispatch | launch | running | freeGroup | retire | complete =>
    exact Reaches.same h hfr.processed

/-! ## The sample -/

/-- A queue of which something has been rung is only skipped if its doorbell has the remembered
value. -/
theorem doorbell_eq_of_skip (hfits : cfg.FitsInt)
    (hr : (scanMachine cfg).Reachable (Protocol cfg) ⟨q, pc⟩) (hj : q.producer j = .rung)
    (hskip : q.doorbell = doorbellMax ∨ q.doorbell = q.lastHandledDoorBell) :
    q.doorbell = q.lastHandledDoorBell := by
  have hinv := scanInv_of_reachable hr
  have hrings : (scanMachine cfg).Reachable (RingsOwn cfg) ⟨q, pc⟩ := hr.mono fun _ _ hok => hok.1
  rcases hskip with hmax | heq
  · cases htype : cfg.type with
    | multi =>
      obtain ⟨seen, hdb⟩ := doorbellInv_of_reachable htype (hfits.2 htype) hrings
      rcases hdb.current with ⟨heq, -⟩ | ⟨i, hi, -, hdoor⟩
      · exact heq
      · obtain ⟨hi64, hlt⟩ := hdb.toInt64_eq hinv hi
        have hdoor : q.doorbell = Word.toInt64 i := hdoor
        omega
    | single =>
      have hfifo : FifoInv ⟨q, pc⟩ := by
        apply fifoInv_of_reachable htype hfits.1
        exact hrings.mono fun _ _ hok => hok.1 htype
      rcases hfifo.doorbell with ⟨-, hnone⟩ | ⟨d, hd, hdoor, -⟩
      · exact absurd hj (hnone j)
      · have hsmall : (q.writeIndex : ℤ) ≤ doorbellMax := writeIndex_le_of_protocol hr
        have hlt : d < q.writeIndex := hinv.ring.lt_writeIndex (.inr hd)
        have hdoor : q.doorbell = Word.toInt64 d := hdoor
        simp only [doorbellMax] at hsmall hmax
        rw [Word.toInt64_of_lt (by omega)] at hdoor
        omega
  · exact heq

/-- **A scan that begins after the ring** has all of it in its range, or skips the queue because
there is nothing to do about the ring. -/
theorem responds_sample (hfits : cfg.FitsInt)
    (hr : (scanMachine cfg).Reachable (Protocol cfg) ⟨q, .sample⟩) (hj : q.producer j = .rung)
    (hs : workerStep cfg env q .sample = some (q', pc')) : Responds cfg q' j pc' := by
  have hrings : (scanMachine cfg).Reachable (RingsOwn cfg) ⟨q, .sample⟩ :=
    hr.mono fun _ _ hok => hok.1
  simp only [workerStep] at hs
  split at hs <;> cases hs
  · rename_i hskip
    have heq := doorbell_eq_of_skip hfits hr hj hskip
    rcases skip_cases hfits hrings heq with ⟨hproc, -⟩ | ⟨b, hb, hnot, hfirst⟩
    · exact .inl (hproc j hj)
    · by_cases hmem : j ∈ q.history.processed
      · exact .inl hmem
      · exact .inr ⟨b, hb, hnot, hfirst j hj hmem⟩
  · intro htype
    have hfifo : FifoInv ⟨q, .sample⟩ := by
      apply fifoInv_of_reachable htype hfits.1
      exact hrings.mono fun _ _ hok => hok.1 htype
    rcases hfifo.doorbell with ⟨-, hnone⟩ | ⟨d, hd, hdoor, hmax⟩
    · exact absurd hj (hnone j)
    · exact ⟨d, hd, hdoor, hmax j hj⟩

/-! ## The loop -/

/-- The bounds of the loop, loaded after the doorbell. -/
theorem Responds.start (hfits : cfg.FitsInt)
    (hr : (scanMachine cfg).Reachable (Protocol cfg) ⟨q, .loadWriteIndex q.readIndex⟩)
    (hj : q.producer j = .rung) (h : Heard cfg q j) :
    Reaches q j
      { currentReadIndex := q.readIndex
        currentWriteIndex := q.writeIndex
        lastIndex := lastIndex cfg q.lastHandledDoorBell q.readIndex
        currentIndex := q.readIndex } := by
  have hinv := scanInv_of_reachable hr
  have hring : RingInv cfg q := hinv.ring
  have hahead : j < q.readIndex + cfg.size := hring.ahead j (.inr (.inr hj))
  have hsmall : (q.writeIndex : ℤ) ≤ doorbellMax := writeIndex_le_of_protocol hr
  have hread := hring.readIndex_le_writeIndex
  simp only [doorbellMax] at hsmall
  refine ⟨?_, hring.lt_writeIndex (.inr hj), hring.below j⟩
  simp only
  cases htype : cfg.type with
  | multi =>
    have hsize := cfg.size_lt
    have hnowrap : q.readIndex + cfg.size < 2 ^ 64 := by omega
    rw [lastIndex_multi htype (hfits.2 htype) hnowrap]
    omega
  | single =>
    obtain ⟨d, hd, hlast, hle⟩ := h htype
    have hfifo : FifoInv ⟨q, .loadWriteIndex q.readIndex⟩ := by
      apply fifoInv_of_reachable htype hfits.1
      exact hr.mono fun _ _ hok => hok.1.1 htype
    obtain ⟨d', hd', hlast', hread'⟩ := hfifo.handled_of_scan rfl
    have hd64 : d < 2 ^ 64 := (hring.lt_writeIndex (.inr hd)).trans hring.write_lt
    have hd64' : d' < 2 ^ 64 := (hring.lt_writeIndex (.inr hd')).trans hring.write_lt
    obtain rfl : d = d' := Word.toInt64_inj hd64 hd64' (hlast.symm.trans hlast')
    have hloop := FifoInv.start hinv htype hfits.1 hd hlast hread'
    have hlastIndex := hloop.lastIndex
    simp only at hlastIndex
    omega

/-- The loop's index joins the ones behind it. -/
theorem Reaches.next (h : Reaches q j f) (hproc : f.currentIndex = j → j ∈ q.history.processed) :
    Reaches q j f.next := by
  refine ⟨h.lastIndex, h.lt_currentWriteIndex, fun hlt => ?_⟩
  rcases Nat.lt_succ_iff_lt_or_eq.mp hlt with hlt | heq
  · exact h.behind hlt
  · exact hproc heq.symm

/-- A packet of the window that the loop has found is the one with the loop's index. -/
theorem tag_eq_of_rung (hring : RingInv cfg q) (hs : SlotInv cfg q f slot)
    (hj : q.producer f.currentIndex = .rung) : q.history.tag slot = f.currentIndex := by
  have hlt := hring.ahead _ (.inr (.inr hj))
  exact (hs.tag_eq_or hring).resolve_right (by omega)

theorem Responds.examine (hinv : ScanInv cfg ⟨q, .head f⟩) (hj : q.producer j = .rung)
    (h : Reaches q j f) : Responds cfg q j (examine cfg q f) := by
  have hex := examined cfg q f
  generalize PhsaRuntime.examine cfg q f = pc' at hex ⊢
  cases hex with
  | exit hexit =>
    have hlast := h.lastIndex
    have hwrite := h.lt_currentWriteIndex
    exact .inl (h.behind (by omega))
  | badIndex | unknown => trivial
  | freed | barrier | dispatch => exact h
  | passed _ _ hinvalid =>
    refine h.next fun heq => ?_
    -- a rung packet that waits would be in its slot
    by_contra hno
    have hwait : q.Waiting j := ⟨.inr hj, hno⟩
    have hvalid := (hinv.ring.slot j hwait).1
    rw [← heq] at hvalid
    exact hvalid hinvalid

theorem Responds.settle (env : Env) {kind : Barrier} {i : ℕ}
    (hinv : ScanInv cfg ⟨q, .barrier kind f slot i⟩) (hj : q.producer j = .rung)
    (h : Reaches q j f) (ok : Bool) :
    Responds cfg (settle env q f slot ok).1 j (settle env q f slot ok).2 := by
  cases ok with
  | true => exact h
  | false =>
    have hring : RingInv cfg q := hinv.ring
    have hs : SlotInv cfg q f slot := hinv.pc
    have hw := (hring.tagged slot hs.slot_lt hs.valid).1
    by_cases hmem : j ∈ q.history.processed
    · exact .inl hmem
    · refine .inr ⟨q.history.tag slot, rfl, hw.2, ?_⟩
      have hle : f.currentIndex ≤ j := by
        by_contra hlt
        exact hmem (h.behind (by omega))
      have hwin := (hring.window ⟨.inr hj, hmem⟩).2
      have htag := hs.tag_eq_or hring
      omega

/-- **The step lemma of the worker**, from the sample on. -/
theorem Responds.workerStep (hfits : cfg.FitsInt)
    (hr : (scanMachine cfg).Reachable (Protocol cfg) ⟨q, pc⟩) (hj : q.producer j = .rung)
    (h : Responds cfg q j pc) (hs : workerStep cfg env q pc = some (q', pc')) :
    Responds cfg q' j pc' := by
  have hinv := scanInv_of_reachable hr
  have hring : RingInv cfg q := hinv.ring
  cases pc with
  | away | halted => cases hs
  | sample => exact responds_sample hfits hr hj hs
  | loadReadIndex =>
    cases hs
    exact h
  | loadWriteIndex r =>
    cases hs
    obtain rfl : r = q.readIndex := hinv.pc
    exact Responds.start hfits hr hj h
  | head f =>
    cases hs
    exact Responds.examine hinv hj h
  | advance f slot =>
    cases hs
    obtain ⟨-, -, -, hmem⟩ := hinv.pc
    have hreach : Reaches q j f := h
    have hnext := hreach.next fun heq => heq ▸ hmem
    exact ⟨hnext.lastIndex, hnext.lt_currentWriteIndex, hnext.behind⟩
  | barrier kind f slot i =>
    cases evaluated_step hs with
    | null | undecided => exact h
    | dead => trivial
    | decided | exhausted => exact Responds.settle env hinv hj h _
  | launch f slot completion groupMemory =>
    cases launchMove_step hs with
    | aligned | moved | callback => exact Reaches.same h rfl
    | aborted => trivial
  | dispatch | running | freeGroup =>
    cases hs
    exact h
  | retire f slot completion =>
    cases hs
    have hreach : Reaches q j f := h
    refine ⟨⟨hreach.lastIndex, hreach.lt_currentWriteIndex, fun hlt => ?_⟩, ?_⟩
    · exact List.mem_append_left _ (hreach.behind hlt)
    · rintro rfl
      have htag := tag_eq_of_rung hring hinv.pc hj
      simp [retireSlot, htag]
  | retired f slot completion =>
    obtain ⟨hreach, hproc⟩ := h
    have hnext := hreach.next hproc
    simp only [PhsaRuntime.workerStep] at hs
    split at hs <;> cases hs <;>
      exact ⟨hnext.lastIndex, hnext.lt_currentWriteIndex, hnext.behind⟩
  | complete f completion =>
    cases hs
    exact h

end PhsaRuntime
