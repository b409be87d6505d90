import PhsaRuntime.Scan.Safety

/-!
# The packet id of a launch

`LaunchData.packet_id` is the loop's index, not the index under which the packet was
published. The two differ exactly when the loop has come around the ring: its upper bound
`CurrentReadIndex + QueueSize` is inclusive, so that it meets the slot of the read index
a second time, and a slot that was passed over while it was being filled may hold a
packet by then.

## Main result

* `packetId_iff` — in a run, every launch has the packet id of its packet if and only if
  no kernel was called with the loop's index at the end of the window.
-/

namespace PhsaRuntime

open Queue

/-- The launch step calls the kernel: the packet is valid and its arguments are, or can be
made, aligned. -/
def startsKernel (env : Env) (q : Queue) (slot : ℕ) (groupMemory : Option ℕ) : Bool :=
  let p := q.packetBuffer slot
  match dispatch (env.kernel p.kernelObject) groupMemory p with
  | .launch k => p.kernargAddress % k.kernargSegmentAlignment = 0 || env.kernargBuffer.isSome
  | .callback _ => false

/-- The loop's locals at a step that calls a kernel. -/
def launching (env : Env) (q : Queue) : Pc → Option Frame
  | .launch f slot _ groupMemory => if startsKernel env q slot groupMemory then some f else none
  | _ => none

/-- A step that calls a kernel does so with the loop's index inside the window of the
`QueueSize` indexes from the read index. -/
def InLap (cfg : Config) (s : ScanState) : ScanAction → Prop
  | .worker env => ∀ f ∈ launching env s.queue s.pc,
      f.currentIndex < s.queue.readIndex + cfg.size
  | _ => True

instance (cfg : Config) (s : ScanState) : (a : ScanAction) → Decidable (InLap cfg s a)
  | .worker env => inferInstanceAs (Decidable (∀ f ∈ launching env s.queue s.pc, _))
  | .producer _ | .enter => .isTrue trivial

/-- Every launch was given the index of its packet. -/
def IdsExact (q : Queue) : Prop := ∀ l ∈ q.history.launches, l.data.packetId = l.index

variable {cfg : Config} {q q' : Queue} {f : Frame} {slot : ℕ}

theorem idsExact_append {l : Launch} (h : q'.history.launches = q.history.launches ++ [l]) :
    IdsExact q' ↔ IdsExact q ∧ l.data.packetId = l.index := by
  simp only [IdsExact, h, List.mem_append, List.mem_singleton, or_imp, forall_and,
    forall_eq]

/-! ## What one step launches -/

theorem settle_launches (env : Env) (q : Queue) (f : Frame) (slot : ℕ) (ok : Bool) :
    (settle env q f slot ok).1.history.launches = q.history.launches := by
  cases ok <;> rfl

/-- The launch step adds one launch, with the loop's index as packet id, if it calls a
kernel, and none otherwise. -/
theorem launch_launches {env : Env} {completion : Option Handle} {groupMemory : Option ℕ}
    {pc' : Pc} (h : LaunchMove env q f slot completion groupMemory q' pc') :
    if startsKernel env q slot groupMemory then
      ∃ l, q'.history.launches = q.history.launches ++ [l] ∧ l.index = q.history.tag slot ∧
        l.data.packetId = f.currentIndex
    else q'.history.launches = q.history.launches := by
  cases h with
  | aligned k hk haligned => simp [startsKernel, hk, haligned, startKernel]
  | moved k buffer hk _ hbuffer => simp [startsKernel, hk, hbuffer, startKernel]
  | aborted k hk hunaligned hbuffer => simp [startsKernel, hk, hunaligned, hbuffer]
  | callback status hstatus => simp [startsKernel, hstatus]

/-- What a worker step does to the launches. -/
theorem workerStep_launches {env : Env} {pc pc' : Pc}
    (hs : workerStep cfg env q pc = some (q', pc')) :
    (launching env q pc = none ∧ q'.history.launches = q.history.launches) ∨
      ∃ f slot completion groupMemory l, pc = .launch f slot completion groupMemory ∧
        launching env q pc = some f ∧ q'.history.launches = q.history.launches ++ [l] ∧
        l.index = q.history.tag slot ∧ l.data.packetId = f.currentIndex := by
  cases pc with
  | away | halted _ => cases hs
  | sample =>
    simp only [workerStep] at hs
    split at hs <;> cases hs <;> exact .inl ⟨rfl, rfl⟩
  | loadReadIndex | loadWriteIndex _ | head _ | advance _ _ | dispatch _ _
  | running _ _ _ _ _ | freeGroup _ _ _ _ | retire _ _ _ | complete _ _ =>
    cases hs; exact .inl ⟨rfl, rfl⟩
  | barrier kind f slot i =>
    cases evaluated_step hs with
    | null | dead | undecided => exact .inl ⟨rfl, rfl⟩
    | decided | exhausted => exact .inl ⟨rfl, settle_launches env q f slot _⟩
  | launch f slot completion groupMemory =>
    have hl := launch_launches (launchMove_step hs)
    split at hl
    · rename_i hstart
      obtain ⟨l, hl, hidx, hid⟩ := hl
      exact .inr ⟨f, slot, completion, groupMemory, l, rfl, if_pos hstart, hl, hidx, hid⟩
    · rename_i hstart
      exact .inl ⟨if_neg hstart, hl⟩
  | retired f slot completion =>
    simp only [workerStep] at hs
    split at hs <;> cases hs <;> exact .inl ⟨rfl, rfl⟩

/-! ## Runs -/

theorem idsExact_same (h : q'.history.launches = q.history.launches) :
    IdsExact q' ↔ IdsExact q := by
  simp only [IdsExact, h]

/-- **The step lemma:** a step keeps the ids exact if and only if it calls no kernel, or
calls one with the loop's index inside the window. -/
theorem idsExact_step {s s' : ScanState} {a : ScanAction} (h : ScanInv cfg s)
    (hs : (scanMachine cfg).step a s = some s') :
    IdsExact s'.queue ↔ IdsExact s.queue ∧ InLap cfg s a := by
  obtain ⟨q, pc⟩ := s
  cases a with
  | producer p =>
    obtain ⟨q', hq, rfl⟩ := Option.map_eq_some_iff.mp hs
    simpa [InLap] using idsExact_same (producerStep_frame h.ring hq).launches
  | enter =>
    cases pc <;> simp only [scanMachine, reduceCtorEq, Option.some.injEq] at hs
    subst hs
    simp [InLap]
  | worker env =>
    obtain ⟨⟨q', pc'⟩, hq, rfl⟩ := Option.map_eq_some_iff.mp hs
    rcases workerStep_launches hq with ⟨hnone, hl⟩ |
      ⟨f, slot, completion, groupMemory, l, rfl, hsome, hl, hidx, hid⟩
    · simpa [InLap, hnone] using idsExact_same hl
    · have hring : RingInv cfg q := h.ring
      have hslot : SlotInv cfg q f slot := h.pc
      have hwin := hring.window (hring.tagged slot hslot.slot_lt hslot.valid).1
      rw [idsExact_append hl, hid, hidx]
      simp only [InLap, hsome, Option.mem_some_iff, forall_eq', and_congr_right_iff]
      intro _
      constructor
      · intro heq
        exact heq ▸ hwin.2
      · intro hlt
        exact ((hslot.tag_eq_or hring).resolve_right (by omega)).symm

/-- **Packet identity.** In a run, every kernel was given the index of its packet if and
only if every kernel was called with the loop's index inside the window. -/
theorem packetId_iff {tr : List (ScanState × ScanAction)} {s : ScanState}
    (h : (scanMachine cfg).Run tr s) :
    (∀ l ∈ s.queue.history.launches, l.data.packetId = l.index) ↔
      ∀ p ∈ tr, InLap cfg p.1 p.2 := by
  change IdsExact s.queue ↔ _
  induction h with
  | init hs =>
    obtain ⟨⟨buffer, hq⟩, -⟩ := hs
    simp [IdsExact, hq, create]
  | @step tr s s' a hrun hs ih =>
    have hinv := scanInv_of_reachable hrun.reachable
    rw [idsExact_step hinv hs, ih, List.forall_mem_cons, and_comm]

/-- A run in which a kernel is launched with the index of its packet. -/
theorem packetId_iff_launch : ∃ s : ScanState, s.queue.history.launches.length = 1 ∧
    ∀ l ∈ s.queue.history.launches, l.data.packetId = l.index := by
  obtain ⟨s, ⟨tr, hrun, htr⟩, hp⟩ := Machine.exists_reachable_of_run
    (scanMachine ⟨.multi, 2, by decide, by decide⟩)
    (InLap ⟨.multi, 2, by decide, by decide⟩)
    (.producer .reserve :: Scan.write 0 Scan.emptyPacket ++ [.producer (.ring 0)] ++
      Scan.visit Scan.quietEnv 10)
    (fun s => s.queue.history.launches.length = 1)
    (Scan.init_start _) (by decide +kernel)
  exact ⟨s, of_decide_eq_true hp, (packetId_iff hrun).mpr htr⟩

/-- Two slots, three reservations: index 0 is being filled when the scan passes over it,
and is launched under the id 2 when the scan meets its slot again. -/
theorem packetId_lapped : ∃ s, (scanMachine ⟨.multi, 2, by decide, by decide⟩).Reachable
    Machine.always s ∧ ¬ ∀ l ∈ s.queue.history.launches, l.data.packetId = l.index := by
  obtain ⟨s, hs, hp⟩ := Machine.exists_reachable_of_run
    (scanMachine ⟨.multi, 2, by decide, by decide⟩) Machine.always
    (List.replicate 3 (.producer .reserve) ++ Scan.write 1 Scan.emptyPacket ++
      [.producer (.ring 1)] ++ Scan.visit Scan.quietEnv 4 ++ Scan.write 0 Scan.emptyPacket ++
      List.replicate 11 (.worker Scan.quietEnv))
    (fun s => s.queue.history.launches.any fun l => l.data.packetId ≠ l.index)
    (Scan.init_start _) (by decide +kernel)
  refine ⟨s, hs, fun hall => ?_⟩
  obtain ⟨l, hl, hne⟩ := List.any_eq_true.mp hp
  exact of_decide_eq_true hne (hall l hl)

end PhsaRuntime
