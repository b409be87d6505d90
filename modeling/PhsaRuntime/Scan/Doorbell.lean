import PhsaRuntime.Scan.Fifo

/-!
# No lost doorbell

The worker remembers one doorbell value. Producers of a MULTI queue overwrite the doorbell
in any order, so that the remembered value says little about which packets are there. What
it does say is taken down in a set, the indexes *seen*: those that had been rung when the
worker last sampled a new doorbell value.

* As every index is rung once, the doorbell has its remembered value only if nothing has
  been rung since: all rung indexes are seen (`DoorbellInv.current`).
* The indexes are loaded after the doorbell, so the scan goes beyond every seen index. It
  passes over no seen packet, and the read index does not stop at one (`Cover`).

All of this is about queues whose size and distances are `int`s. In a larger one a ring is
swallowed before a packet is looked at (`swallowed_multi`, `swallowed_single`).

## Main results

* `noLostDoorbell_of_reachable` — a queue of kernel dispatch packets that is skipped with all its
  producers idle is empty.
* `no_lost_doorbell_iff` — the queues of which this holds.
* `skip_cases` — in general, the oldest unprocessed packet of such a queue is the barrier
  at which the last scan stopped.
-/

namespace PhsaRuntime

open Queue

/-- The scan goes beyond all seen indexes; it has processed those behind it and does not
hold the read index at one. -/
structure Cover (q : Queue) (seen : ℕ → Prop) (f : Frame) : Prop where
  bound : ∀ j, seen j → j ≤ f.lastIndex ∧ j < f.currentWriteIndex
  behind : ∀ j, seen j → j < f.currentIndex → j ∈ q.history.processed
  readIndex : q.readIndex = f.currentIndex ∨ ¬ seen q.readIndex

/-- What the worker has done about the seen indexes. -/
def SeenPc (q : Queue) (seen : ℕ → Prop) : Pc → Prop
  | .away | .sample =>
    ((∀ j, seen j → j ∈ q.history.processed) ∧ ¬ seen q.readIndex) ∨
      ∃ b, q.history.stopped = some b ∧ b ∉ q.history.processed ∧
        ∀ j, seen j → j ∉ q.history.processed → b ≤ j
  | .loadReadIndex | .loadWriteIndex _ | .halted _ => True
  | .head f | .advance f _ | .barrier _ f _ _ | .dispatch f _ | .launch f _ _ _
  | .running f _ _ _ _ | .freeGroup f _ _ _ | .retire f _ _ => Cover q seen f
  | .retired f _ _ => Cover q seen f ∧ (seen f.currentIndex → f.currentIndex ∈ q.history.processed)
  | .complete f _ => Cover q seen f.next

/-- The invariant of the doorbell of a MULTI queue. -/
structure DoorbellInv (s : ScanState) (seen : ℕ → Prop) : Prop where
  rung : ∀ j, seen j → s.queue.producer j = .rung
  handled : s.queue.lastHandledDoorBell = doorbellMax ∨
    ∃ j, seen j ∧ s.queue.lastHandledDoorBell = Word.toInt64 j
  current : (s.queue.doorbell = s.queue.lastHandledDoorBell ∧
      ∀ j, s.queue.producer j = .rung → seen j) ∨
    ∃ i, s.queue.producer i = .rung ∧ ¬ seen i ∧ s.queue.doorbell = Word.toInt64 i
  small : (s.queue.writeIndex : ℤ) ≤ doorbellMax
  covered : SeenPc s.queue seen s.pc

variable {cfg : Config} {q q' : Queue} {f : Frame} {slot : ℕ} {pc pc' : Pc} {seen : ℕ → Prop}

/-! ## The remembered value -/

theorem DoorbellInv.toInt64_eq (hinv : ScanInv cfg ⟨q, pc⟩) (h : DoorbellInv ⟨q, pc⟩ seen)
    {j : ℕ} (hj : q.producer j = .rung) : Word.toInt64 j = j ∧ (j : ℤ) < doorbellMax := by
  have hlt : j < q.writeIndex := hinv.ring.lt_writeIndex (.inr hj)
  have hsmall : (q.writeIndex : ℤ) ≤ doorbellMax := h.small
  simp only [doorbellMax] at hsmall ⊢
  exact ⟨Word.toInt64_of_lt (by omega), by omega⟩

/-- **The doorbell has its remembered value only if nothing has been rung since.** -/
theorem DoorbellInv.all_seen (hinv : ScanInv cfg ⟨q, pc⟩) (h : DoorbellInv ⟨q, pc⟩ seen)
    (heq : q.doorbell = q.lastHandledDoorBell) : ∀ j, q.producer j = .rung → seen j := by
  rcases h.current with ⟨-, hall⟩ | ⟨i, hi, hnot, hdoor⟩
  · exact hall
  · obtain ⟨hi64, hilt⟩ := h.toInt64_eq hinv hi
    have hdoor : q.doorbell = i := hdoor.trans hi64
    rcases h.handled with hmax | ⟨j, hj, hlast⟩
    · have hmax : q.lastHandledDoorBell = doorbellMax := hmax
      omega
    · have hlast : q.lastHandledDoorBell = j := hlast.trans (h.toInt64_eq hinv (h.rung j hj)).1
      have hij : i = j := by omega
      exact absurd hj (hij ▸ hnot)

/-- A new value stands for some index that had not been seen. -/
theorem DoorbellInv.exists_new (h : DoorbellInv ⟨q, pc⟩ seen)
    (hne : q.doorbell ≠ q.lastHandledDoorBell) :
    ∃ i, q.producer i = .rung ∧ q.doorbell = Word.toInt64 i := by
  rcases h.current with ⟨heq, -⟩ | ⟨i, hi, -, hdoor⟩
  · exact absurd heq hne
  · exact ⟨i, hi, hdoor⟩

/-! ## Producer steps -/

theorem Cover.same (h : Cover q seen f) (hproc : q'.history.processed = q.history.processed)
    (hread : q'.readIndex = q.readIndex) : Cover q' seen f :=
  ⟨h.bound, by rw [hproc]; exact h.behind, by rw [hread]; exact h.readIndex⟩

theorem SeenPc.same (h : SeenPc q seen pc)
    (hproc : q'.history.processed = q.history.processed)
    (hread : q'.readIndex = q.readIndex) (hstop : q'.history.stopped = q.history.stopped) :
    SeenPc q' seen pc := by
  cases pc with
  | away | sample => simpa only [SeenPc, hproc, hread, hstop] using h
  | loadReadIndex | loadWriteIndex _ | halted _ => trivial
  | head f | advance f _ | barrier _ f _ _ | dispatch f _ | launch f _ _ _
  | running f _ _ _ _ | freeGroup f _ _ _ | retire f _ _ | complete f _ =>
    exact Cover.same h hproc hread
  | retired f _ _ => exact ⟨h.1.same hproc hread, by rw [hproc]; exact h.2⟩

theorem DoorbellInv.producerStep {p : ProducerAction} (htype : cfg.type = .multi)
    (hinv : ScanInv cfg ⟨q, pc⟩) (h : DoorbellInv ⟨q, pc⟩ seen)
    (hok : RingsOwn cfg ⟨q, pc⟩ (.producer p)) (hs : Queue.producerStep cfg p q = some q') :
    DoorbellInv ⟨q', pc⟩ seen := by
  have hfr := producerStep_frame (q := q) hinv.ring hs
  have hrung : ∀ j, seen j → q'.producer j = .rung := fun j hj =>
    (hfr.rung j).mpr (.inl (h.rung j hj))
  have hcov : SeenPc q' seen pc := h.covered.same hfr.processed hfr.readIndex hfr.stopped
  have hlast := hfr.lastHandledDoorBell
  have hsmall : (q'.writeIndex : ℤ) ≤ doorbellMax := by
    have hold : (q.writeIndex : ℤ) ≤ doorbellMax := h.small
    rcases hfr.writeIndex with hw | ⟨rfl, hw⟩
    · omega
    · have hlt : (q.writeIndex : ℤ) < doorbellMax := hok.2 htype
      omega
  by_cases hring : ∃ v, p = .ring v
  · obtain ⟨v, rfl⟩ := hring
    have hown : q.producer v = .published := hok.2 htype
    refine ⟨hrung, by simpa only [hlast] using h.handled, .inr ⟨v, ?_, ?_, ?_⟩, hsmall, hcov⟩
    · exact (hfr.rung v).mpr (.inr rfl)
    · intro hv
      have hv' : q.producer v = .rung := h.rung v hv
      rw [hown] at hv'
      cases hv'
    · simp only [Queue.producerStep, Option.ite_none_right_eq_some, Option.some.injEq] at hs
      obtain ⟨-, rfl⟩ := hs
      rfl
  · have hne : ∀ v, p ≠ .ring v := fun v hv => hring ⟨v, hv⟩
    have hsame : ∀ j, q'.producer j = .rung ↔ q.producer j = .rung := by
      simpa [hne] using hfr.rung
    have hdoor : q'.doorbell = q.doorbell := by simpa [hne] using hfr.doorbell
    refine ⟨hrung, by simpa only [hlast] using h.handled, ?_, hsmall, hcov⟩
    simpa only [hsame, hdoor, hlast] using h.current

/-! ## Worker steps -/

/-- A worker step that does not sample the doorbell. -/
theorem DoorbellInv.goto (h : DoorbellInv ⟨q, pc⟩ seen) (hfr : WorkerFrame q q')
    (hlast : q'.lastHandledDoorBell = q.lastHandledDoorBell)
    (hpc : SeenPc q' seen pc') : DoorbellInv ⟨q', pc'⟩ seen := by
  refine ⟨?_, ?_, ?_, ?_, hpc⟩
  · simpa only [hfr.producer] using h.rung
  · simpa only [hlast] using h.handled
  · simpa only [hfr.producer, hfr.doorbell, hlast] using h.current
  · simpa only [hfr.writeIndex] using h.small

/-- A seen index is published, and one that is not processed waits in its slot. -/
theorem DoorbellInv.waiting (h : DoorbellInv ⟨q, pc⟩ seen) {j : ℕ} (hj : seen j)
    (hnot : j ∉ q.history.processed) : q.Waiting j :=
  ⟨.inr (h.rung j hj), hnot⟩

/-- The loop's index is a seen one only if it is in the window. -/
theorem DoorbellInv.tag_eq (hinv : ScanInv cfg ⟨q, pc⟩) (h : DoorbellInv ⟨q, pc⟩ seen)
    (hs : SlotInv cfg q f slot) (hseen : seen f.currentIndex) :
    q.history.tag slot = f.currentIndex := by
  have hring : RingInv cfg q := hinv.ring
  have hlt : f.currentIndex < q.readIndex + cfg.size :=
    hring.ahead _ (.inr (.inr (h.rung _ hseen)))
  exact (hs.tag_eq_or hring).resolve_right (by omega)

/-- The bounds of the loop, loaded after the doorbell. -/
theorem DoorbellInv.start (htype : cfg.type = .multi) (hsize : cfg.size < 2 ^ 31)
    (hinv : ScanInv cfg ⟨q, pc⟩) (h : DoorbellInv ⟨q, pc⟩ seen) :
    Cover q seen
      { currentReadIndex := q.readIndex
        currentWriteIndex := q.writeIndex
        lastIndex := lastIndex cfg q.lastHandledDoorBell q.readIndex
        currentIndex := q.readIndex } := by
  have hring : RingInv cfg q := hinv.ring
  have hle := hring.readIndex_le_writeIndex
  have hsmall : (q.writeIndex : ℤ) ≤ doorbellMax := h.small
  simp only [doorbellMax] at hsmall
  have hnowrap : q.readIndex + cfg.size < 2 ^ 64 := by omega
  refine ⟨?_, ?_, .inl rfl⟩
  · intro j hj
    have hp : q.Published j := .inr (h.rung j hj)
    have hahead := hring.ahead j (.inr hp)
    rw [lastIndex_multi htype hsize hnowrap]
    exact ⟨hahead.le, hring.lt_writeIndex hp⟩
  · intro j _ hlt
    exact hring.below j hlt

/-- A new doorbell value: everything rung so far is seen. -/
theorem DoorbellInv.sample (h : DoorbellInv ⟨q, .sample⟩ seen)
    (hnew : q.doorbell ≠ q.lastHandledDoorBell) :
    DoorbellInv ⟨{ q with
      lastHandledDoorBell := q.doorbell
      history := { q.history with stopped := none } }, .loadReadIndex⟩
      (fun j => q.producer j = .rung) := by
  obtain ⟨i, hi, hdoor⟩ := h.exists_new hnew
  exact ⟨fun _ hj => hj, .inr ⟨i, hi, hdoor⟩, .inl ⟨rfl, fun _ hj => hj⟩, h.small, trivial⟩

/-- The loop's index joins the ones behind it. -/
theorem Cover.behind_succ (hcov : Cover q seen f)
    (hproc : seen f.currentIndex → f.currentIndex ∈ q.history.processed) :
    ∀ j, seen j → j < f.currentIndex + 1 → j ∈ q.history.processed := by
  intro j hj hlt
  rcases Nat.lt_succ_iff_lt_or_eq.mp hlt with hlt | rfl
  · exact hcov.behind j hj hlt
  · exact hproc hj

theorem DoorbellInv.examine (hinv : ScanInv cfg ⟨q, .head f⟩)
    (h : DoorbellInv ⟨q, .head f⟩ seen) : SeenPc q seen (examine cfg q f) := by
  have hcov : Cover q seen f := h.covered
  have hread : f.currentReadIndex = q.readIndex := hinv.pc.readIndex
  have hex := examined cfg q f
  generalize PhsaRuntime.examine cfg q f = pc' at hex ⊢
  cases hex with
  | exit hexit =>
    have hlt : ∀ j, seen j → j < f.currentIndex := by
      intro j hj
      obtain ⟨hle, hlt⟩ := hcov.bound j hj
      omega
    refine .inl ⟨?_, ?_⟩
    · intro j hj
      exact hcov.behind j hj (hlt j hj)
    · intro hseen
      rcases hcov.readIndex with heq | hnot
      · have := hlt _ hseen
        omega
      · exact hnot hseen
  | badIndex | unknown => trivial
  | freed | barrier | dispatch => exact hcov
  | passed _ _ hinvalid hnot =>
    -- a seen packet that waits would be in its slot
    have hproc : seen f.currentIndex → f.currentIndex ∈ q.history.processed := by
      intro hseen
      by_contra hno
      exact (hinv.ring.slot _ (h.waiting hseen hno)).1 hinvalid
    refine ⟨hcov.bound, hcov.behind_succ hproc, .inr ?_⟩
    intro hseen
    rcases hcov.readIndex with heq | hno
    · -- the flag of a processed packet at the read index is set
      have hflag := (hinv.flags _ (Nat.mod_lt f.currentIndex cfg.size_pos)
        (by simp [Pc.stale])).mpr
        ⟨_, hproc (heq ▸ hseen), heq.le, rfl⟩
      exact hnot ⟨hflag, hread.trans heq⟩
    · exact hno hseen

theorem DoorbellInv.settle (env : Env) {kind : Barrier} {i : ℕ}
    (hinv : ScanInv cfg ⟨q, .barrier kind f slot i⟩)
    (h : DoorbellInv ⟨q, .barrier kind f slot i⟩ seen) (ok : Bool) :
    DoorbellInv ⟨(settle env q f slot ok).1, (settle env q f slot ok).2⟩ seen := by
  have hcov : Cover q seen f := h.covered
  have hfr := settle_frame env q f slot ok
  cases ok with
  | true => exact h.goto hfr rfl hcov
  | false =>
    have hring : RingInv cfg q := hinv.ring
    have hs : SlotInv cfg q f slot := hinv.pc
    have hw := (hring.tagged slot hs.slot_lt hs.valid).1
    refine h.goto hfr rfl (.inr ⟨q.history.tag slot, rfl, hw.2, ?_⟩)
    intro j hj hnot
    have hle : f.currentIndex ≤ j := by
      by_contra hlt
      exact hnot (hcov.behind j hj (by omega))
    have hwin := (hring.window (h.waiting hj hnot)).2
    have htag := hs.tag_eq_or hring
    omega

theorem DoorbellInv.evaluate {env : Env} {kind : Barrier} {i : ℕ}
    (hinv : ScanInv cfg ⟨q, .barrier kind f slot i⟩)
    (h : DoorbellInv ⟨q, .barrier kind f slot i⟩ seen)
    (hev : Evaluated env q kind f slot i q' pc') : DoorbellInv ⟨q', pc'⟩ seen := by
  have hnext : DoorbellInv ⟨q, .barrier kind f slot (i + 1)⟩ seen :=
    h.goto (.refl q) rfl h.covered
  cases hev with
  | null | undecided => exact hnext
  | dead => exact h.goto (.refl q) rfl trivial
  | decided | exhausted => exact h.settle env hinv _

theorem DoorbellInv.launch {env : Env} {completion : Option Handle} {groupMemory : Option ℕ}
    (h : DoorbellInv ⟨q, .launch f slot completion groupMemory⟩ seen)
    (hmove : LaunchMove env q f slot completion groupMemory q' pc') :
    DoorbellInv ⟨q', pc'⟩ seen := by
  have hcov : Cover q seen f := h.covered
  cases hmove with
  | aligned | moved | callback => exact h.goto (.history q rfl rfl) rfl (hcov.same rfl rfl)
  | aborted => exact h.goto (.refl q) rfl trivial

/-- **The step lemma of the worker.** -/
theorem DoorbellInv.workerStep {env : Env} (htype : cfg.type = .multi) (hsize : cfg.size < 2 ^ 31)
    (hinv : ScanInv cfg ⟨q, pc⟩) (h : DoorbellInv ⟨q, pc⟩ seen)
    (hs : workerStep cfg env q pc = some (q', pc')) : ∃ seen, DoorbellInv ⟨q', pc'⟩ seen := by
  have hfr := workerStep_frame hs
  cases pc with
  | away | halted _ => cases hs
  | sample =>
    simp only [PhsaRuntime.workerStep] at hs
    split at hs <;> cases hs
    · exact ⟨seen, h.goto hfr rfl h.covered⟩
    · rename_i hnew
      exact ⟨_, h.sample (not_or.mp hnew).2⟩
  | loadReadIndex =>
    cases hs
    exact ⟨seen, h.goto hfr rfl trivial⟩
  | loadWriteIndex r =>
    cases hs
    obtain rfl : r = q.readIndex := hinv.pc
    exact ⟨seen, h.goto hfr rfl (h.start htype hsize hinv)⟩
  | head f =>
    cases hs
    exact ⟨seen, h.goto hfr rfl (h.examine hinv)⟩
  | advance f slot =>
    cases hs
    obtain ⟨-, -, -, hmem⟩ := hinv.pc
    have hcov : Cover q seen f := h.covered
    have hbehind := hcov.behind_succ fun _ => hmem
    exact ⟨seen, h.goto hfr rfl ⟨hcov.bound, hbehind, .inl rfl⟩⟩
  | barrier kind f slot i => exact ⟨seen, h.evaluate hinv (evaluated_step hs)⟩
  | launch f slot completion groupMemory => exact ⟨seen, h.launch (launchMove_step hs)⟩
  | dispatch f slot | running f slot _ _ _ | freeGroup f slot _ _ =>
    cases hs
    exact ⟨seen, h.goto hfr rfl h.covered⟩
  | retire f slot completion =>
    cases hs
    have hcov : Cover q seen f := h.covered
    refine ⟨seen, h.goto hfr rfl ⟨⟨hcov.bound, ?_, hcov.readIndex⟩, ?_⟩⟩
    · intro j hj hlt
      exact List.mem_append_left _ (hcov.behind j hj hlt)
    · intro hseen
      have htag := h.tag_eq hinv hinv.pc hseen
      simp [retireSlot, htag]
  | retired f slot completion =>
    obtain ⟨hcov, hproc⟩ := h.covered
    have hread : f.currentReadIndex = q.readIndex := hinv.pc.readIndex
    simp only [PhsaRuntime.workerStep] at hs
    split at hs <;> cases hs
    · exact ⟨seen, h.goto hfr rfl ⟨hcov.bound, hcov.behind_succ hproc, .inl rfl⟩⟩
    · rename_i hne
      refine ⟨seen, h.goto hfr rfl ⟨hcov.bound, hcov.behind_succ hproc, .inr ?_⟩⟩
      exact hcov.readIndex.resolve_left fun heq => hne (hread.trans heq)
  | complete f completion =>
    cases hs
    exact ⟨seen, h.goto hfr rfl h.covered⟩

theorem doorbellInv_of_reachable (htype : cfg.type = .multi) (hsize : cfg.size < 2 ^ 31)
    {s : ScanState} (h : (scanMachine cfg).Reachable (RingsOwn cfg) s) :
    ∃ seen, DoorbellInv s seen := by
  refine scan_induction (P := fun s => ∃ seen, DoorbellInv s seen) ?init ?producer ?enter
    ?worker h
  case init =>
    intro buffer
    refine ⟨fun _ => False, (by simp), .inl rfl, .inl ⟨rfl, ?_⟩, by simp [create, doorbellMax],
      .inl ⟨(by simp), id⟩⟩
    intro j hj
    simp [create] at hj
  case producer =>
    rintro q pc p q' hr hok hq ⟨seen, ih⟩
    exact ⟨seen, ih.producerStep htype (scanInv_of_reachable hr) hok hq⟩
  case enter =>
    rintro q ⟨seen, ih⟩
    exact ⟨seen, ih.goto (.refl q) rfl ih.covered⟩
  case worker =>
    rintro q pc env q' pc' hr - hq ⟨seen, ih⟩
    exact ih.workerStep htype hsize (scanInv_of_reachable hr) hq

/-! ## Skipped queues -/

/-- A queue that is skipped has all rung packets processed and its read index beyond them,
or its last scan stopped at the first of them that is not. -/
theorem skip_cases (hfits : cfg.FitsInt)
    (h : (scanMachine cfg).Reachable (RingsOwn cfg) ⟨q, .sample⟩)
    (hskip : q.doorbell = q.lastHandledDoorBell) :
    ((∀ j, q.producer j = .rung → j ∈ q.history.processed) ∧ q.producer q.readIndex ≠ .rung) ∨
      ∃ b, q.history.stopped = some b ∧ b ∉ q.history.processed ∧
        ∀ j, q.producer j = .rung → j ∉ q.history.processed → b ≤ j := by
  have hinv := scanInv_of_reachable h
  cases htype : cfg.type with
  | multi =>
    obtain ⟨seen, hdoor⟩ := doorbellInv_of_reachable htype (hfits.2 htype) h
    have hall := hdoor.all_seen hinv hskip
    rcases hdoor.covered with ⟨hproc, hread⟩ | ⟨b, hb, hnot, hfirst⟩
    · exact .inl ⟨fun j hj => hproc j (hall j hj), fun hr => hread (hall _ hr)⟩
    · exact .inr ⟨b, hb, hnot, fun j hj => hfirst j (hall j hj)⟩
  | single =>
    have hfifo : FifoInv ⟨q, .sample⟩ := by
      apply fifoInv_of_reachable htype hfits.1
      exact h.mono fun s a hok => hok.1 htype
    exact hfifo.skip hinv hskip

/-- **A ring brings a new value**: the doorbell does not get back its remembered value. -/
theorem doorbell_of_producerStep (hfits : cfg.FitsInt) {p : ProducerAction}
    (h : (scanMachine cfg).Reachable (RingsOwn cfg) ⟨q, pc⟩)
    (hok : RingsOwn cfg ⟨q, pc⟩ (.producer p)) (hs : Queue.producerStep cfg p q = some q')
    (heq : q'.doorbell = q'.lastHandledDoorBell) : q.doorbell = q.lastHandledDoorBell := by
  have hinv := scanInv_of_reachable h
  have hring : RingInv cfg q := hinv.ring
  have hfr := producerStep_frame hring hs
  rw [hfr.lastHandledDoorBell] at heq
  rcases hfr.doorbell with hdoor | ⟨v, rfl, hdoor⟩
  · exact hdoor.symm.trans heq
  · have hpub : q.Published v := by
      simp only [Queue.producerStep, Option.ite_none_right_eq_some] at hs
      exact hs.1
    have hv : v < 2 ^ 64 := (hring.lt_writeIndex hpub).trans hring.write_lt
    have hlast : q.lastHandledDoorBell = Word.toInt64 v := heq.symm.trans hdoor
    cases htype : cfg.type with
    | multi =>
      obtain ⟨seen, hdb⟩ := doorbellInv_of_reachable htype (hfits.2 htype) h
      have hown : q.producer v = .published := hok.2 htype
      have hsmall : (q.writeIndex : ℤ) ≤ doorbellMax := hdb.small
      have hlt : v < q.writeIndex := hring.lt_writeIndex hpub
      rcases hdb.handled with hmax | ⟨j, hj, hlast'⟩
      · have hmax : q.lastHandledDoorBell = doorbellMax := hmax
        simp only [doorbellMax] at hsmall hmax
        rw [hmax, Word.toInt64_of_lt (by omega)] at hlast
        omega
      · have hlast' : q.lastHandledDoorBell = Word.toInt64 j := hlast'
        have hrung : q.producer j = .rung := hdb.rung j hj
        have hj64 : j < 2 ^ 64 := (hring.lt_writeIndex (.inr hrung)).trans hring.write_lt
        obtain rfl : j = v := Word.toInt64_inj hj64 hv (hlast'.symm.trans hlast)
        rw [hown] at hrung
        cases hrung
    | single =>
      have hfifo : FifoInv ⟨q, pc⟩ := by
        apply fifoInv_of_reachable htype hfits.1
        exact h.mono fun s a hok => hok.1 htype
      have hmono : ∀ j < q.writeIndex, q.producer j = .rung → j ≤ v := hok.1 htype
      rcases hfifo.handled with ⟨hmax, hread, -⟩ | ⟨j, hj, hlast', -⟩
      · -- nothing has been handled, so `v` lies in the first lap
        have hmax : q.lastHandledDoorBell = doorbellMax := hmax
        have hread : q.readIndex = 0 := hread
        have hahead := hring.ahead v (.inr hpub)
        have hsize := cfg.size_lt
        rw [hmax, doorbellMax, Word.toInt64_of_lt (by omega)] at hlast
        omega
      · have hlast' : q.lastHandledDoorBell = Word.toInt64 j := hlast'
        have hrung : q.producer j = .rung := hj
        have hj64 : j < 2 ^ 64 := (hring.lt_writeIndex (.inr hrung)).trans hring.write_lt
        obtain rfl : j = v := Word.toInt64_inj hj64 hv (hlast'.symm.trans hlast)
        rcases hfifo.doorbell with ⟨-, hnone⟩ | ⟨d, hd, hdoor', hmax⟩
        · exact absurd hrung (hnone j)
        · -- the one producer rings the largest index again
          have hdoor' : q.doorbell = Word.toInt64 d := hdoor'
          have hdj : d ≤ j := hmono d (hring.lt_writeIndex (.inr hd)) hd
          have hjd : j ≤ d := hmax j hrung
          rw [hdoor', hlast, le_antisymm hdj hjd]

theorem published_dispatch {s : ScanState}
    (h : (scanMachine cfg).Reachable (fun _ a => DispatchOnly a) s) :
    ∀ i, s.queue.Published i →
      packetType (s.queue.history.packet i).header = packetTypeKernelDispatch := by
  refine scan_induction (P := fun s => ∀ i, s.queue.Published i →
    packetType (s.queue.history.packet i).header = packetTypeKernelDispatch) ?init ?producer
    ?enter ?worker h
  case init =>
    intro buffer i hi
    simp [Published, create] at hi
  case producer =>
    intro q pc p q' hr hok hq ih i hi
    have hfr := producerStep_frame (q := q) (scanInv_of_reachable hr).ring hq
    rcases (hfr.published i).mp hi with hi | ⟨header, rfl⟩
    · rw [hfr.packet_of_published hq hi]
      exact ih i hi
    · rw [(producerStep_publish hq).2]
      exact hok
  case enter =>
    intro q ih
    exact ih
  case worker =>
    intro q pc env q' pc' _ _ hq ih i hi
    have hfr := workerStep_frame hq
    simp only [Published, hfr.producer] at hi
    simpa only [hfr.packet] using ih i hi

/-- If the queue is skipped while all its producers are idle, it has been processed to the end. -/
def NoLostDoorbell (s : ScanState) : Prop :=
  s.pc = .sample → s.queue.doorbell = s.queue.lastHandledDoorBell →
    (∀ i < s.queue.writeIndex, s.queue.producer i = .rung) →
      (∀ i < s.queue.writeIndex, i ∈ s.queue.history.processed) ∧
        s.queue.readIndex = s.queue.writeIndex

/-- A queue of kernel dispatch packets of a size that fits an `int`. -/
theorem noLostDoorbell_of_reachable (hfits : cfg.FitsInt) {s : ScanState}
    (h : (scanMachine cfg).Reachable (fun s a => RingsOwn cfg s a ∧ DispatchOnly a) s) :
    NoLostDoorbell s := by
  intro hpc hskip hidle
  obtain ⟨q, pc⟩ := s
  obtain rfl : pc = .sample := hpc
  have hinv := scanInv_of_reachable h
  rcases skip_cases hfits (h.mono fun _ _ hok => hok.1) hskip with
    ⟨hproc, hread⟩ | ⟨b, hb, -, -⟩
  · constructor
    · intro i hi
      exact hproc i (hidle i hi)
    · have hge : q.writeIndex ≤ q.readIndex := by
        by_contra hlt
        exact hread (hidle _ (not_le.mp hlt))
      exact le_antisymm hinv.ring.readIndex_le_writeIndex hge
  · -- a scan stops at barrier packets only, and there are none
    obtain ⟨hpub, hbar⟩ := (stopInv_of_reachable h).stopped b hb
    have htype := published_dispatch (h.mono fun _ _ hok => hok.2) b hpub
    rcases hbar with hbar | hbar <;> rw [htype] at hbar <;> cases hbar

/-! ## Queues that are too large -/

/-- The next pass skips a queue in which a ring has been swallowed. -/
theorem Swallowed.lost {r n : ℕ} (h : Swallowed cfg r n) (hrn : r < n) : ∃ s,
    (scanMachine cfg).Reachable (fun s a => Protocol cfg s a ∧ DispatchOnly a) s ∧
      s.queue.history.processed = List.range r ∧ s.queue.writeIndex = n ∧
      ¬ NoLostDoorbell s := by
  obtain ⟨q, hr, hfilled, hlast, -⟩ := h
  have hprotocol := hr.mono fun _ _ hok => hok.protocol cfg
  have henter : InOrder ⟨q, .away⟩ .enter := ⟨trivial, trivial, trivial⟩
  have hsample := hprotocol.step (henter.protocol cfg) rfl
  refine ⟨_, hsample, hfilled.processed, hfilled.writeIndex, fun hlost => ?_⟩
  have hidle : ∀ i < q.writeIndex, q.producer i = .rung := hfilled.writeIndex ▸ hfilled.rung
  have hend : q.readIndex = q.writeIndex := (hlost rfl hlast.symm hidle).2
  rw [hfilled.readIndex, hfilled.writeIndex] at hend
  omega

theorem swallowed_of_not_fitsInt (h : ¬ cfg.FitsInt) : ∃ r n, r < n ∧ Swallowed cfg r n := by
  cases htype : cfg.type with
  | multi =>
    have hsize : 2 ^ 31 ≤ cfg.size := by
      by_contra hlt
      exact h ⟨by omega, fun _ => not_le.mp hlt⟩
    exact ⟨_, _, Nat.lt_succ_self _, swallowed_multi htype hsize⟩
  | single =>
    have hsize : 2 ^ 31 < cfg.size := by
      by_contra hle
      refine h ⟨not_lt.mp hle, fun hmulti => ?_⟩
      rw [htype] at hmulti
      cases hmulti
    exact ⟨_, _, by omega, swallowed_single htype hsize⟩

/-- **No lost doorbell.** A queue of kernel dispatch packets that is skipped while all its
producers are idle has been processed to the end, in all runs of the queue if and only if its size
and the distances in it are values of an `int`. -/
theorem no_lost_doorbell_iff (cfg : Config) :
    (∀ s, (scanMachine cfg).Reachable (fun s a => Protocol cfg s a ∧ DispatchOnly a) s →
      NoLostDoorbell s) ↔ cfg.FitsInt := by
  constructor
  · intro h
    by_contra hfits
    obtain ⟨r, n, hrn, hswallowed⟩ := swallowed_of_not_fitsInt hfits
    obtain ⟨s, hr, -, -, hlost⟩ := hswallowed.lost hrn
    exact hlost (h s hr)
  · intro hfits s hr
    exact noLostDoorbell_of_reachable hfits (hr.mono fun _ _ hok => ⟨hok.1.1, hok.2⟩)

/-- Two producers whose rings come in the wrong order: the worker sees 1, then 0. -/
theorem no_lost_doorbell_two : ∃ s : ScanState, s.queue.writeIndex = 2 ∧
    (∀ i < s.queue.writeIndex, i ∈ s.queue.history.processed) ∧
      s.queue.readIndex = s.queue.writeIndex := by
  obtain ⟨s, hs, hp⟩ := Machine.exists_reachable_of_run
    (scanMachine ⟨.multi, 2, by decide, by decide⟩)
    (fun s a => Protocol ⟨.multi, 2, by decide, by decide⟩ s a ∧ DispatchOnly a)
    ([.producer .reserve, .producer .reserve] ++ Scan.write 1 Scan.emptyPacket ++
      [.producer (.ring 1)] ++ Scan.visit Scan.quietEnv 13 ++ Scan.write 0 Scan.emptyPacket ++
      [.producer (.ring 0)] ++ Scan.visit Scan.quietEnv 14 ++ [.enter])
    (fun s => s.pc.isSample &&
      s.queue.doorbell = s.queue.lastHandledDoorBell && s.queue.writeIndex = 2 &&
      s.queue.producer 0 = .rung && s.queue.producer 1 = .rung)
    (Scan.init_start _) (by decide +kernel)
  simp only [Bool.and_eq_true, decide_eq_true_eq] at hp
  obtain ⟨⟨⟨⟨hpc, hskip⟩, hwrite⟩, h0⟩, h1⟩ := hp
  have hsample : s.pc = .sample := Pc.eq_sample_of_isSample hpc
  refine ⟨s, hwrite, (no_lost_doorbell_iff _).mpr (by decide) s hs hsample hskip ?_⟩
  intro i hi
  have hi2 : i = 0 ∨ i = 1 := by omega
  rcases hi2 with rfl | rfl
  · exact h0
  · exact h1

/-- A MULTI queue of 4294967294 slots: `PacketsToCheck` is -2, and the third packet is lost. -/
theorem doorbell_lost : ∃ s,
    (scanMachine ⟨.multi, 4294967294, by decide, by decide⟩).Reachable
      (fun s a => Protocol ⟨.multi, 4294967294, by decide, by decide⟩ s a ∧ DispatchOnly a) s ∧
      s.queue.history.processed = [0, 1] ∧ s.queue.writeIndex = 3 ∧ ¬ NoLostDoorbell s := by
  have hswallowed : Swallowed ⟨.multi, 4294967294, by decide, by decide⟩ 2 3 :=
    swallowed_multi rfl (by decide)
  exact hswallowed.lost (by decide)

end PhsaRuntime
