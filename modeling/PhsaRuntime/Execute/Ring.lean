import PhsaRuntime.Execute.Refine

/-!
# The ring under interruptions

A signal may take the worker away from a queue anywhere in its scan. A packet that has been
retired can then be left without its flag, so that the processed flags are no longer exact. What
remains is that a flag that is set belongs to a processed packet, and this is enough for the ring:
its invariant holds in every run, and so does what the worker knows where it is.

## Main results

* `KeptInv` — the invariant of one queue.
* `keptInv_of_reachable` — it holds in every run of the worker, with any interruptions.
-/

namespace PhsaRuntime

open Queue

/-- A flag that is set belongs to a processed packet. -/
def FlagSound (cfg : Config) (q : Queue) : Prop :=
  ∀ t < cfg.size, q.isPacketProcessed t = true → SlotProcessed cfg q t

/-- The slot of the packet whose branch the worker is in, and the type the branch is for. -/
def Pc.branch : Pc → Option (ℕ × ℕ)
  | .barrier kind _ slot _ => some (slot, kind.packetType)
  | .dispatch _ slot | .launch _ slot _ _ => some (slot, packetTypeKernelDispatch)
  | _ => none

/-- What holds of a queue, and of the worker in it, in every run. -/
structure KeptInv (cfg : Config) (s : ScanState) : Prop where
  ring : RingInv cfg s.queue
  flags : FlagSound cfg s.queue
  pc : PcInv cfg s.queue s.pc
  branch : ∀ slot type, s.pc.branch = some (slot, type) →
    packetType (s.queue.packetBuffer slot).header = type

variable {cfg : Config} {q q' : Queue} {f : Frame} {slot : ℕ} {pc pc' : Pc}

/-- In the branch of a packet its slot has a valid header. -/
theorem KeptInv.headerValid {type : ℕ} (h : KeptInv cfg ⟨q, pc⟩)
    (hbranch : pc.branch = some (slot, type)) : q.HeaderValid slot := by
  have hpc := h.pc
  cases pc with
  | barrier | dispatch | launch =>
    cases hbranch
    exact SlotInv.valid hpc
  | _ => cases hbranch

/-! ## Steps -/

theorem FlagSound.same (hs : SameRing q q') (h : FlagSound cfg q) : FlagSound cfg q' := by
  simpa only [FlagSound, SlotProcessed, isPacketProcessed, hs.packetIsProcessed, hs.processed,
    hs.readIndex] using h

/-- A step that leaves the ring alone and comes to no branch. -/
theorem KeptInv.goto (h : KeptInv cfg ⟨q, pc⟩) (hs : SameRing q q') (hpc : PcInv cfg q' pc')
    (hbranch : pc'.branch = none ∨ pc'.branch = pc.branch) : KeptInv cfg ⟨q', pc'⟩ := by
  refine ⟨hs.ringInv h.ring, h.flags.same hs, hpc, ?_⟩
  intro slot type hnew
  rcases hbranch with hnone | hsame
  · rw [hnone] at hnew
    cases hnew
  · rw [hs.packetBuffer]
    exact h.branch slot type (hsame ▸ hnew)

/-- A signal takes the worker away. -/
theorem KeptInv.away (h : KeptInv cfg ⟨q, pc⟩) : KeptInv cfg ⟨q, .away⟩ :=
  h.goto (.refl q) trivial (.inl rfl)

theorem KeptInv.producerStep {p : ProducerAction} (h : KeptInv cfg ⟨q, pc⟩)
    (hs : Queue.producerStep cfg p q = some q') : KeptInv cfg ⟨q', pc⟩ := by
  have hfr := producerStep_frame h.ring hs
  refine ⟨h.ring.producerStep hs, ?_, h.pc.producerStep h.ring hs, ?_⟩
  · simpa only [FlagSound, isPacketProcessed, SlotProcessed, hfr.packetIsProcessed,
      hfr.processed, hfr.readIndex] using h.flags
  · intro slot type hbranch
    rw [(HeaderValid.producerStep h.ring hs (h.headerValid hbranch)).1]
    exact h.branch slot type hbranch

/-- The head of an iteration. -/
theorem KeptInv.examine (h : KeptInv cfg ⟨q, .head f⟩) : KeptInv cfg ⟨q, examine cfg q f⟩ := by
  have hpc := PcInv.examine h.ring (h.flags _) h.pc
  have hex := examined cfg q f
  generalize PhsaRuntime.examine cfg q f = pc at hex hpc ⊢
  refine ⟨h.ring, h.flags, hpc, fun slot type hbranch => ?_⟩
  cases hex with
  | barrier kind _ _ htype =>
    cases hbranch
    exact htype
  | dispatch _ _ htype =>
    cases hbranch
    exact htype
  | exit | badIndex | freed | passed | unknown => cases hbranch

theorem KeptInv.settle (env : Env) {kind : Barrier} {i : ℕ}
    (h : KeptInv cfg ⟨q, .barrier kind f slot i⟩) (ok : Bool) :
    KeptInv cfg ⟨(settle env q f slot ok).1, (settle env q f slot ok).2⟩ := by
  have hs : SlotInv cfg q f slot := h.pc
  cases ok with
  | true => exact h.goto (.refl q) hs (.inl rfl)
  | false => exact h.goto (.history q rfl rfl rfl) trivial (.inl rfl)

theorem KeptInv.evaluate {env : Env} {kind : Barrier} {i : ℕ}
    (h : KeptInv cfg ⟨q, .barrier kind f slot i⟩) (hev : Evaluated env q kind f slot i q' pc') :
    KeptInv cfg ⟨q', pc'⟩ := by
  have hs : SlotInv cfg q f slot := h.pc
  cases hev with
  | null | undecided => exact h.goto (.refl q) hs (.inr rfl)
  | dead => exact h.goto (.refl q) trivial (.inl rfl)
  | decided | exhausted => exact h.settle env _

theorem KeptInv.launch {env : Env} {completion : Option Handle} {groupMemory : Option ℕ}
    (h : KeptInv cfg ⟨q, .launch f slot completion groupMemory⟩)
    (hmove : LaunchMove env q f slot completion groupMemory q' pc') : KeptInv cfg ⟨q', pc'⟩ := by
  have hs : SlotInv cfg q f slot := h.pc
  have hstart (kernargAddr : ℕ) : SameRing q (startKernel q f slot groupMemory kernargAddr) :=
    .history q rfl rfl rfl
  cases hmove with
  | aligned | moved => exact h.goto (hstart _) ((hstart _).slotInv hs) (.inl rfl)
  | aborted => exact h.goto (.refl q) trivial (.inl rfl)
  | callback status =>
    have hsame : SameRing q { q with history :=
        { q.history with callbacks := q.history.callbacks ++ [status] } } :=
      .history q rfl rfl rfl
    exact h.goto hsame (hsame.slotInv hs) (.inl rfl)

theorem KeptInv.retire {completion : Option Handle}
    (h : KeptInv cfg ⟨q, .retire f slot completion⟩) :
    KeptInv cfg ⟨retireSlot q slot, .retired f slot completion⟩ := by
  have hs : SlotInv cfg q f slot := h.pc
  refine ⟨h.ring.retireSlot hs.slot_lt hs.valid, fun t ht hflag => ?_, hs.retired h.ring,
    by simp [Pc.branch]⟩
  obtain ⟨i, hi, hri, hit⟩ := h.flags t ht hflag
  exact ⟨i, mem_processed_retireSlot.mpr (.inl hi), hri, hit⟩

/-- The update of the read index, from either place of the loop. -/
theorem KeptInv.advanceReadIndex (h : KeptInv cfg ⟨q, pc⟩)
    (hslot : slot = f.currentIndex % cfg.size) (hf : f.currentIndex = q.readIndex)
    (hmem : f.currentIndex ∈ q.history.processed)
    (hpc : PcInv cfg (advanceReadIndex cfg q f slot) pc') (hbranch : pc'.branch = none) :
    KeptInv cfg ⟨advanceReadIndex cfg q f slot, pc'⟩ := by
  refine ⟨h.ring.advanceReadIndex hf hmem, fun t ht hflag => ?_, hpc, by simp [hbranch]⟩
  have hlt : slot < cfg.size := hslot ▸ Nat.mod_lt _ cfg.size_pos
  simp only [isPacketProcessed, PhsaRuntime.advanceReadIndex,
    getD_setProcessedFlag h.ring.flags_length hlt] at hflag
  split at hflag
  · cases hflag
  · rename_i hne
    obtain ⟨i, hi, hri, hmod⟩ := h.flags t ht hflag
    simp only at hri
    have hne' : i ≠ f.currentIndex := by
      rintro rfl
      exact hne (hmod.symm.trans hslot.symm)
    refine ⟨i, hi, ?_, hmod⟩
    simp only [PhsaRuntime.advanceReadIndex]
    omega

theorem KeptInv.setPacketProcessed {completion : Option Handle}
    (h : KeptInv cfg ⟨q, .retired f slot completion⟩) :
    KeptInv cfg ⟨q.setPacketProcessed cfg slot true, .complete f completion⟩ := by
  have hs : RetiredInv cfg q f slot := h.pc
  refine ⟨h.ring.setPacketProcessed true, fun t ht hflag => ?_,
    ⟨hs.readIndex, Nat.le_succ_of_le hs.le_currentIndex⟩, by simp [Pc.branch]⟩
  simp only [isPacketProcessed, Queue.setPacketProcessed,
    getD_setProcessedFlag h.ring.flags_length hs.slot_lt] at hflag
  split at hflag
  · rename_i heq
    exact ⟨_, hs.processed, hs.le_tag, hs.tag_mod.trans heq.symm⟩
  · exact h.flags t ht hflag

/-- **The step lemma of the worker.** -/
theorem KeptInv.workerStep {env : Env} (h : KeptInv cfg ⟨q, pc⟩)
    (hs : workerStep cfg env q pc = some (q', pc')) : KeptInv cfg ⟨q', pc'⟩ := by
  cases pc with
  | away => cases hs
  | halted _ => cases hs
  | sample =>
    simp only [PhsaRuntime.workerStep] at hs
    split at hs <;> cases hs
    · exact h.goto (.refl q) trivial (.inl rfl)
    · exact h.goto ⟨rfl, rfl, rfl, rfl, rfl, rfl, rfl, rfl⟩ trivial (.inl rfl)
  | loadReadIndex => cases hs; exact h.goto (.refl q) rfl (.inl rfl)
  | loadWriteIndex r =>
    cases hs
    have hr : r = q.readIndex := h.pc
    exact h.goto (.refl q) ⟨hr, hr.symm.le⟩ (.inl rfl)
  | head f => cases hs; exact h.examine
  | advance f slot =>
    cases hs
    obtain ⟨hf, hslot, hread, hmem⟩ := h.pc
    exact h.advanceReadIndex hslot hread hmem ⟨rfl, le_rfl⟩ rfl
  | barrier kind f slot i => exact h.evaluate (evaluated_step hs)
  | dispatch f slot => cases hs; exact h.goto (.refl q) h.pc (.inr rfl)
  | launch f slot completion groupMemory => exact h.launch (launchMove_step hs)
  | running f slot completion groupMemory kernargs =>
    cases hs; exact h.goto (.refl q) h.pc (.inl rfl)
  | freeGroup f slot completion groupMemory =>
    cases hs; exact h.goto (.refl q) h.pc (.inl rfl)
  | retire f slot completion => cases hs; exact h.retire
  | retired f slot completion =>
    have hret : RetiredInv cfg q f slot := h.pc
    simp only [PhsaRuntime.workerStep] at hs
    split at hs <;> cases hs
    · rename_i heq
      have htag := hret.tag_eq h.ring heq
      exact h.advanceReadIndex hret.slot_eq (by rw [← heq]; exact hret.readIndex)
        (htag ▸ hret.processed) ⟨rfl, le_rfl⟩ rfl
    · exact h.setPacketProcessed
  | complete f completion => cases hs; exact h.goto (.refl q) h.pc (.inl rfl)

/-! ## Runs of the worker -/

/-- **The invariant holds in every run**, wherever signals take the worker away. -/
theorem keptInv_of_reachable {Q C : Type} [DecidableEq Q] [DecidableEq C] {cfg : Q → Config}
    {ok : ExecState Q C → ExecAction Q C → Prop} {s : ExecState Q C}
    (h : (executeMachine C cfg).Reachable ok s) (q : Q) : KeptInv (cfg q) (scanState q s) := by
  refine h.induction (P := fun s => KeptInv (cfg q) (scanState q s)) ?_ ?_
  · rintro s ⟨⟨hqueue, -⟩, -, -, -, -, -, -, hw, -⟩
    obtain ⟨buffer, hbuffer⟩ := hqueue q
    have hstate : scanState q s = ⟨create buffer, .away⟩ := by
      simp [scanState, hbuffer, hw]
    rw [hstate]
    refine ⟨ringInv_create (cfg q) buffer, fun t _ hflag => ?_, trivial, by simp [Pc.branch]⟩
    simp [isPacketProcessed, create] at hflag
  · intro s a s' _ _ hs ih
    by_cases hdeliver : a = .deliver
    · subst hdeliver
      obtain ⟨-, rfl⟩ := deliver_eq hs
      exact ih.away
    · rcases scan_step (q := q) hs fun heq => absurd heq hdeliver with heq | ⟨b, -, hstep⟩
      · rw [heq]
        exact ih
      · generalize scanState q s = x at ih hstep
        generalize scanState q s' = y at hstep ⊢
        obtain ⟨queue, pc⟩ := x
        cases b with
        | producer p =>
          obtain ⟨queue', hqueue, rfl⟩ := Option.map_eq_some_iff.mp hstep
          exact ih.producerStep hqueue
        | enter =>
          cases pc <;> simp only [scanMachine, reduceCtorEq, Option.some.injEq] at hstep
          rw [← hstep]
          exact ih.goto (.refl queue) trivial (.inl rfl)
        | worker env =>
          obtain ⟨⟨queue', pc'⟩, hqueue, rfl⟩ := Option.map_eq_some_iff.mp hstep
          exact ih.workerStep hqueue

end PhsaRuntime
