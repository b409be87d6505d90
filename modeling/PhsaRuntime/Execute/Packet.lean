import PhsaRuntime.Execute.Callbacks
import PhsaRuntime.Execute.Release
import PhsaRuntime.Execute.Ring

/-!
# The processing of one packet

The runs of the worker from where it comes to a packet to where it leaves it, interleaved with
everybody else, but without a signal that takes the worker away. Such a run is a sequence of
steps of the scan; between two of them there are mutex operations, and steps of others, which
leave the packet alone.

## Main results

* `exists_scan` — the next step of the scan, and the run after it.
* `completed` — a packet that is retired is completed.
* `finishes` — the worker leaves the packet after finitely many of its steps.
-/

namespace PhsaRuntime

open Machine

variable {Q C : Type}

/-! ## The machine -/

/-- In the branch of a packet, or in its retirement. -/
def Pc.inPacket : Pc → Bool
  | .barrier _ _ _ _ | .dispatch _ _ | .launch _ _ _ _ | .running _ _ _ _ _ | .freeGroup _ _ _ _
  | .retire _ _ _ | .retired _ _ _ | .complete _ _ => true
  | _ => false

/-- The worker is at a packet of the queue `q`. -/
def Worker.inPacket [DecidableEq Q] (q : Q) : Worker Q Job → Bool
  | .process q' _ job => q' = q && job.pc.inPacket
  | _ => false

/-- A signal takes the worker away. -/
def isDeliver : ExecAction Q C → Bool
  | .deliver => true
  | _ => false

/-- A step of the worker. -/
def isWorker : ExecAction Q C → Bool
  | .worker _ => true
  | _ => false

/-- The processing of the packet at which the worker is in `s₀`, without interruption. -/
def packetMachine (C : Type) [DecidableEq Q] [DecidableEq C] (cfg : Q → Config) (q : Q)
    (s₀ : ExecState Q C) : Machine (ExecState Q C) (ExecAction Q C) where
  init s := s = s₀
  step a s :=
    if s.worker.inPacket q && !isDeliver a then (executeMachine C cfg).step a s else none

/-- The worker is at the step of the scan of `q` at `pc`, or in the mutex operations before it. -/
def Before (s : ExecState Q C) (q : Q) (rest : List Q) (pc : Pc) : Prop :=
  ∃ ops closing, s.worker = .process q rest { ops, closing, pc }

/-- The worker has just come there. -/
def Arrives (s : ExecState Q C) (q : Q) (rest : List Q) (pc : Pc) : Prop :=
  s.worker = .process q rest (.goto (s.memory.queue q) [] pc)

theorem Arrives.before {s : ExecState Q C} {q : Q} {rest : List Q} {pc : Pc}
    (h : Arrives s q rest pc) : Before s q rest pc := ⟨_, _, h⟩

/-! ## Steps -/

/-- What is left alone of a queue between two steps of its scan. -/
structure SamePackets (q q' : Queue) : Prop where
  slot : ∀ t, q.HeaderValid t →
    q'.packetBuffer t = q.packetBuffer t ∧ q'.history.tag t = q.history.tag t
  launches : q'.history.launches = q.history.launches
  callbacks : q'.history.callbacks = q.history.callbacks

/-- The worker stays before the same step of the scan. -/
structure Waits (q : Q) (s t : ExecState Q C) : Prop where
  worker : ∃ rest job ops, s.worker = .process q rest job ∧
    t.worker = .process q rest { job with ops }
  queue : SamePackets (s.memory.queue q) (t.memory.queue q)
  groupMemory : t.memory.groupMemory = s.memory.groupMemory
  kernargs : t.memory.kernargs = s.memory.kernargs

/-- The queues and the signals as they were. -/
structure Untouched (m m' : Memory Q) : Prop where
  packetBuffer : ∀ q, (m'.queue q).packetBuffer = (m.queue q).packetBuffer
  readIndex : ∀ q, (m'.queue q).readIndex = (m.queue q).readIndex
  packetIsProcessed : ∀ q, (m'.queue q).packetIsProcessed = (m.queue q).packetIsProcessed
  signal : m'.signal = m.signal

/-- The memory after a step of the scan of `q`. -/
def Memory.scanned [DecidableEq Q] (m : Memory Q) (q : Q) (queue : Queue) (pc pc' : Pc) :
    Memory Q :=
  { m with
    queue := Function.update m.queue q queue
    signal := signalAfter m.signal pc
    groupMemory := groupMemoryAfter m.groupMemory pc pc'
    kernargs := kernargsAfter m.kernargs pc pc' }

theorem SamePackets.refl (q : Queue) : SamePackets q q := ⟨fun _ _ => ⟨rfl, rfl⟩, rfl, rfl⟩

theorem SamePackets.headerValid {q q' : Queue} (h : SamePackets q q') {slot : ℕ}
    (hv : q.HeaderValid slot) : q'.HeaderValid slot := by
  rw [Queue.HeaderValid, (h.slot slot hv).1]
  exact hv

theorem SamePackets.trans {q q' q'' : Queue} (h : SamePackets q q') (h' : SamePackets q' q'') :
    SamePackets q q'' := by
  refine ⟨fun t hv => ?_, h'.launches.trans h.launches, h'.callbacks.trans h.callbacks⟩
  obtain ⟨hbuffer, htag⟩ := h.slot t hv
  obtain ⟨hbuffer', htag'⟩ := h'.slot t (h.headerValid hv)
  exact ⟨hbuffer'.trans hbuffer, htag'.trans htag⟩

theorem Waits.trans {q : Q} {s t u : ExecState Q C} (h : Waits q s t) (h' : Waits q t u) :
    Waits q s u := by
  obtain ⟨rest, job, ops, hs, ht⟩ := h.worker
  obtain ⟨rest', job', ops', ht', hu⟩ := h'.worker
  rw [ht] at ht'
  cases ht'
  exact ⟨⟨rest, job, ops', hs, hu⟩, h.queue.trans h'.queue,
    h'.groupMemory.trans h.groupMemory, h'.kernargs.trans h.kernargs⟩

theorem Waits.refl {q : Q} {rest : List Q} {job : Job} {s : ExecState Q C}
    (hw : s.worker = .process q rest job) : Waits q s s :=
  ⟨⟨rest, job, job.ops, hw, hw⟩, .refl _, rfl, rfl⟩

variable [DecidableEq Q] [DecidableEq C] {cfg : Q → Config} {q : Q} {rest : List Q} {job : Job}
  {s₀ s s' : ExecState Q C} {a : ExecAction Q C} {tr : List (ExecState Q C × ExecAction Q C)}

/-- A step that is taken while the worker is at a packet: a step of the scan, or any other. -/
inductive PacketStep (cfg : Q → Config) (q : Q) (rest : List Q) (job : Job) (s : ExecState Q C) :
    ExecAction Q C → ExecState Q C → Prop
  | waits (a : ExecAction Q C) (s' : ExecState Q C) (hwaits : Waits q s s')
      (hworker : ∀ r, a = .worker r → job.ops ≠ [] ∧ Untouched s.memory s'.memory) :
      PacketStep cfg q rest job s a s'
  | scan (r : Reply) (s' : ExecState Q C) (queue : Queue) (pc' : Pc) (hops : job.ops = [])
      (hstep : workerStep (cfg q) (s.memory.env r) (s.memory.queue q) job.pc = some (queue, pc'))
      (hmemory : s'.memory = s.memory.scanned q queue job.pc pc')
      (hworker : s'.worker = Agent.resume q rest (jobAfter queue job pc')) :
      PacketStep cfg q rest job s (.worker r) s'

omit [DecidableEq Q] [DecidableEq C] in
theorem samePackets_producerStep {c : Config} {p : Queue.ProducerAction} {x x' : Queue}
    (hr : x.RingInv c) (hs : Queue.producerStep c p x = some x') : SamePackets x x' :=
  ⟨fun _ hv => HeaderValid.producerStep hr hs hv, (Queue.producerStep_frame hr hs).launches,
    callbacks_producerStep hs⟩

theorem ringInv_of_reachable (hr : (executeMachine C cfg).Reachable always s) (q : Q) :
    (s.memory.queue q).RingInv (cfg q) :=
  (keptInv_of_reachable hr q).ring

/-- Steps of others leave the packet alone. -/
theorem waits_others (hr : (executeMachine C cfg).Reachable always s)
    (hw : s.worker = .process q rest job) (ha : isDeliver a = false) (hworker : isWorker a = false)
    (hs : (executeMachine C cfg).step a s = some s') : Waits q s s' := by
  have hmove := memoryMove hs
  generalize hm : s'.memory = m' at hmove
  generalize hw' : s'.worker = w' at hmove
  have hstay : w' = s.worker → ∃ rest job ops, s.worker = .process q rest job ∧
      s'.worker = .process q rest { job with ops } :=
    fun heq => ⟨rest, job, job.ops, hw, hw'.trans (heq.trans hw)⟩
  cases hmove with
  | work | control => cases hworker
  | deliver => cases ha
  | other =>
    exact ⟨hstay rfl, hm ▸ .refl _, congrArg Memory.groupMemory hm, congrArg Memory.kernargs hm⟩
  | environment e m he =>
    have hqueue : SamePackets (s.memory.queue q) (s'.memory.queue q) := by
      rw [hm]
      rcases (externalMove he).queue_cases q with heq | ⟨p, -, hstep⟩
      · rw [heq]
        exact .refl _
      · exact samePackets_producerStep (ringInv_of_reachable hr q) hstep
    cases externalMove he with
    | producer | signal => exact ⟨hstay rfl, hqueue, by rw [hm], by rw [hm]⟩

theorem packet_step (hr : (executeMachine C cfg).Reachable always s)
    (hw : s.worker = .process q rest job) (ha : isDeliver a = false)
    (hs : (executeMachine C cfg).step a s = some s') : PacketStep cfg q rest job s a s' := by
  cases hworker : isWorker a with
  | false =>
    refine .waits _ _ (waits_others hr hw ha hworker hs) ?_
    rintro r rfl
    cases hworker
  | true =>
    cases a with
    | worker r =>
      simp only [executeMachine, agentMachine, Agent.workerStep, hw] at hs
      obtain ⟨⟨m, p⟩, hp, rfl⟩ := Option.map_eq_some_iff.mp hs
      cases jobMove hp with
      | op op ops closing pc locks happly =>
        refine .waits _ _ ⟨⟨rest, _, ops, hw, rfl⟩, .refl _, rfl, rfl⟩ fun _ _ => ⟨by simp, ?_⟩
        exact ⟨fun _ => rfl, fun _ => rfl, fun _ => rfl, rfl⟩
      | scan closing pc pc' queue hstep => exact .scan r _ queue pc' rfl hstep rfl rfl
    | _ => cases hworker

/-! ## The next step of the scan -/

/-- No step of the scan is taken, and the worker's steps leave the memory as it is. -/
def Idle (cfg : Q → Config) (q : Q) (tr : List (ExecState Q C × ExecAction Q C)) : Prop :=
  ∀ t r, (t, .worker r) ∈ tr → (∀ pc, ¬ AtStep t q pc) ∧
    ∀ u, (executeMachine C cfg).step (.worker r) t = some u → Untouched t.memory u.memory

/-- Where a worker is that is at a packet. -/
theorem Worker.exists_of_inPacket {w : Worker Q Job} (h : w.inPacket q = true) :
    ∃ rest job, w = .process q rest job ∧ job.pc.inPacket = true := by
  cases w with
  | process q' rest job =>
    simp only [inPacket, Bool.and_eq_true, decide_eq_true_eq] at h
    obtain ⟨rfl, hpc⟩ := h
    exact ⟨rest, job, rfl, hpc⟩
  | _ => cases h

theorem packetMachine_step (h : (packetMachine C cfg q s₀).step a s = some s') :
    s.worker.inPacket q = true ∧ isDeliver a = false ∧
      (executeMachine C cfg).step a s = some s' := by
  simp only [packetMachine, Option.ite_none_right_eq_some, Bool.and_eq_true,
    Bool.not_eq_true'] at h
  exact ⟨h.1.1, h.1.2, h.2⟩

/-- The processing goes through reachable states. -/
theorem reachable_of_packet (hr : (executeMachine C cfg).Reachable always s₀)
    (hrun : (packetMachine C cfg q s₀).Run tr s) : (executeMachine C cfg).Reachable always s := by
  induction hrun with
  | init hs => exact hs ▸ hr
  | step _ hs ih => exact ih.step trivial (packetMachine_step hs).2.2

/-- The run has come to a step of the scan: the state `t` before it and the state `u` after it,
with the run from there on. -/
structure Scanned (C : Type) [DecidableEq C] (cfg : Q → Config) (q : Q) (rest : List Q) (pc : Pc)
    (s₀ : ExecState Q C) (tr : List (ExecState Q C × ExecAction Q C)) (s : ExecState Q C)
    (t u : ExecState Q C) (r : Reply) (queue : Queue) (pc' : Pc)
    (earlier later : List (ExecState Q C × ExecAction Q C)) : Prop where
  trace : tr = later ++ (t, .worker r) :: earlier
  idle : Idle cfg q earlier
  waits : Waits q s₀ t
  job : ∃ closing, t.worker = .process q rest { ops := [], closing, pc }
  workerStep : workerStep (cfg q) (t.memory.env r) (t.memory.queue q) pc = some (queue, pc')
  step : (executeMachine C cfg).step (.worker r) t = some u
  memory : u.memory = t.memory.scanned q queue pc pc'
  worker : ∃ closing, u.worker =
    Agent.resume q rest (jobAfter queue { ops := [], closing, pc } pc')
  reachable : (executeMachine C cfg).Reachable always u
  run : (packetMachine C cfg q u).Run later s

/-- **The next step of the scan.** -/
theorem exists_scan {pc : Pc} (hr : (executeMachine C cfg).Reachable always s₀)
    (hbefore : Before s₀ q rest pc) (hpc : pc.inPacket = true)
    (hrun : (packetMachine C cfg q s₀).Run tr s) (hend : s.worker.inPacket q = false) :
    ∃ t u r queue pc' earlier later,
      Scanned C cfg q rest pc s₀ tr s t u r queue pc' earlier later := by
  obtain ⟨ops, closing, hw⟩ := hbefore
  suffices h : Idle cfg q tr ∧ Waits q s₀ s ∨ ∃ t u r queue pc' earlier later,
      Scanned C cfg q rest pc s₀ tr s t u r queue pc' earlier later by
    rcases h with ⟨-, hwaits⟩ | h
    · obtain ⟨rest', job, ops', hw', hs⟩ := hwaits.worker
      rw [hw] at hw'
      cases hw'
      simp [hs, Worker.inPacket, hpc] at hend
    · exact h
  clear hend
  induction hrun with
  | init hs =>
    cases hs
    exact .inl ⟨by simp [Idle], .refl hw⟩
  | @step tr s s' a hrun hs ih =>
    have hreach := reachable_of_packet hr hrun
    obtain ⟨-, ha, hstep⟩ := packetMachine_step hs
    rcases ih with ⟨hidle, hwaits⟩ | ⟨t, u, r, queue, pc', earlier, later, h⟩
    · obtain ⟨rest', job, ops', hw', hws⟩ := hwaits.worker
      rw [hw] at hw'
      cases hw'
      cases packet_step hreach hws ha hstep with
      | waits a s' hwaits' hworker =>
        left
        refine ⟨?_, hwaits.trans hwaits'⟩
        intro t r hmem
        rcases List.mem_cons.mp hmem with heq | hmem
        · cases heq
          obtain ⟨hops, huntouched⟩ := hworker r rfl
          refine ⟨?_, fun u hu => ?_⟩
          · rintro pc ⟨rest, closing, hat⟩
            rw [hws] at hat
            cases hat
            exact hops rfl
          · rw [hstep] at hu
            exact Option.some.inj hu ▸ huntouched
        · exact hidle t r hmem
      | scan r s' queue pc' hops hscan hmemory hworker =>
        right
        simp only at hops
        subst hops
        exact ⟨s, s', r, queue, pc', tr, [], rfl, hidle, hwaits, ⟨_, hws⟩, hscan, hstep, hmemory,
          ⟨_, hworker⟩, hreach.step trivial hstep, .init rfl⟩
    · right
      exact ⟨t, u, r, queue, pc', earlier, (s, a) :: later,
        { h with trace := by rw [h.trace]; rfl, run := h.run.step hs }⟩

variable {pc pc' : Pc} {t u : ExecState Q C} {r : Reply} {queue : Queue}
  {earlier later : List (ExecState Q C × ExecAction Q C)} {f : Frame} {slot : ℕ}
  {completion : Option Handle}

theorem Scanned.atStep (h : Scanned C cfg q rest pc s₀ tr s t u r queue pc' earlier later) :
    AtStep t q pc := by
  obtain ⟨closing, hw⟩ := h.job
  exact ⟨rest, closing, hw⟩

/-- The worker goes on to a step in the packet. -/
theorem Scanned.before (h : Scanned C cfg q rest pc s₀ tr s t u r queue pc' earlier later)
    (hpc' : pc'.inPacket = true) : Before u q rest pc' := by
  obtain ⟨closing, hworker⟩ := h.worker
  cases pc' with
  | barrier | dispatch | launch | running | freeGroup | retire | retired | complete =>
    exact ⟨_, _, hworker⟩
  | _ => cases hpc'

theorem Scanned.queue_eq (h : Scanned C cfg q rest pc s₀ tr s t u r queue pc' earlier later) :
    u.memory.queue q = queue := by
  rw [h.memory]
  exact Function.update_self ..

theorem Scanned.groupMemory_eq
    (h : Scanned C cfg q rest pc s₀ tr s t u r queue pc' earlier later) :
    u.memory.groupMemory = groupMemoryAfter s₀.memory.groupMemory pc pc' := by
  rw [h.memory, ← h.waits.groupMemory]
  rfl

theorem Scanned.kernargs_eq
    (h : Scanned C cfg q rest pc s₀ tr s t u r queue pc' earlier later) :
    u.memory.kernargs = kernargsAfter s₀.memory.kernargs pc pc' := by
  rw [h.memory, ← h.waits.kernargs]
  rfl

/-- A step that leaves the queue as it is calls no kernel. -/
theorem Scanned.launches_eq
    (h : Scanned C cfg q rest pc s₀ tr s t u r (t.memory.queue q) pc' earlier later) :
    (u.memory.queue q).history.launches = (s₀.memory.queue q).history.launches := by
  rw [h.queue_eq, h.waits.queue.launches]

theorem Scanned.callbacks_eq
    (h : Scanned C cfg q rest pc s₀ tr s t u r (t.memory.queue q) pc' earlier later) :
    (u.memory.queue q).history.callbacks = (s₀.memory.queue q).history.callbacks := by
  rw [h.queue_eq, h.waits.queue.callbacks]

/-- In the branch of a packet its slot has a header of the type of the branch. -/
theorem Before.branch {type : ℕ} (hbefore : Before s q rest pc)
    (hr : (executeMachine C cfg).Reachable always s) (hbranch : pc.branch = some (slot, type)) :
    (s.memory.queue q).HeaderValid slot ∧
      packetType ((s.memory.queue q).packetBuffer slot).header = type := by
  obtain ⟨ops, closing, hw⟩ := hbefore
  have hkept := keptInv_of_reachable hr q
  have hstate : scanState q s = ⟨s.memory.queue q, pc⟩ := by simp [scanState, hw]
  rw [hstate] at hkept
  exact ⟨hkept.headerValid hbranch, hkept.branch slot type hbranch⟩

/-- Outside the packet the processing is over. -/
theorem eq_of_not_inPacket (hrun : (packetMachine C cfg q s₀).Run tr s)
    (h : s₀.worker.inPacket q = false) : tr = [] ∧ s = s₀ := by
  induction hrun with
  | init hs => exact ⟨rfl, hs⟩
  | step hrun hs ih =>
    obtain ⟨-, rfl⟩ := ih
    rw [(packetMachine_step hs).1] at h
    cases h

/-! ## Completion -/

/-- Nothing is called or allocated. -/
structure Quiet (q : Q) (s t : ExecState Q C) : Prop where
  launches : (t.memory.queue q).history.launches = (s.memory.queue q).history.launches
  callbacks : (t.memory.queue q).history.callbacks = (s.memory.queue q).history.callbacks
  groupMemory : t.memory.groupMemory = s.memory.groupMemory
  kernargs : t.memory.kernargs = s.memory.kernargs

omit [DecidableEq Q] [DecidableEq C] in
theorem Quiet.trans {s t u : ExecState Q C} (h : Quiet q s t) (h' : Quiet q t u) : Quiet q s u :=
  ⟨h'.launches.trans h.launches, h'.callbacks.trans h.callbacks,
    h'.groupMemory.trans h.groupMemory, h'.kernargs.trans h.kernargs⟩

omit [DecidableEq Q] [DecidableEq C] in
theorem Waits.quiet {s t : ExecState Q C} (h : Waits q s t) : Quiet q s t :=
  ⟨h.queue.launches, h.queue.callbacks, h.groupMemory, h.kernargs⟩

/-- A step of the scan that calls and allocates nothing. -/
theorem Scanned.quiet (h : Scanned C cfg q rest pc s₀ tr s t u r queue pc' earlier later)
    (hlaunches : queue.history.launches = (t.memory.queue q).history.launches)
    (hcallbacks : queue.history.callbacks = (t.memory.queue q).history.callbacks)
    (hgroup : ∀ blocks, groupMemoryAfter blocks pc pc' = blocks)
    (hkernargs : ∀ buffers, kernargsAfter buffers pc pc' = buffers) : Quiet q s₀ u := by
  refine h.waits.quiet.trans ⟨?_, ?_, ?_, ?_⟩ <;> rw [h.memory]
  · simpa [Memory.scanned] using hlaunches
  · simpa [Memory.scanned] using hcallbacks
  · exact hgroup _
  · exact hkernargs _

/-- A packet is retired in a run, by the step from `t` to `u`, and the last step of the run, from
`t'`, is the store to its completion signal. -/
structure CompletedAt (cfg : Q → Config) (q : Q) (rest : List Q) (slot : ℕ)
    (completion : Option Handle) (tr : List (ExecState Q C × ExecAction Q C))
    (s t u t' : ExecState Q C) (r r' : Reply) (f f' : Frame)
    (earlier middle : List (ExecState Q C × ExecAction Q C)) : Prop where
  trace : tr = (t', .worker r') :: (middle ++ (t, .worker r) :: earlier)
  retire : AtStep t q (.retire f slot completion)
  step : (executeMachine C cfg).step (.worker r) t = some u
  invalid : packetType ((u.memory.queue q).packetBuffer slot).header = packetTypeInvalid
  complete : AtStep t' q (.complete f' completion)
  stored : s.memory.signal = signalAfter t'.memory.signal (.complete f' completion)
  head : Before s q rest (.head f'.next)

/-- The packet in `slot` is completed in the run: its header becomes INVALID, and after that the
completion signal is written. -/
def Completed (cfg : Q → Config) (q : Q) (rest : List Q) (slot : ℕ) (completion : Option Handle)
    (tr : List (ExecState Q C × ExecAction Q C)) (s : ExecState Q C) : Prop :=
  ∃ t u t' r r' f f' earlier middle,
    CompletedAt cfg q rest slot completion tr s t u t' r r' f f' earlier middle

/-- Steps before the retirement do not matter. -/
theorem Completed.append (h : Completed cfg q rest slot completion tr s)
    (earlier : List (ExecState Q C × ExecAction Q C)) :
    Completed cfg q rest slot completion (tr ++ earlier) s := by
  obtain ⟨t, u, t', r, r', f, f', earlier', middle, h⟩ := h
  refine ⟨t, u, t', r, r', f, f', earlier' ++ earlier, middle, { h with trace := ?_ }⟩
  simp [h.trace]

/-- The packet `p` in `slot` is completed, with the completion signal that a step of the run has
found. -/
def Completes (cfg : Q → Config) (q : Q) (rest : List Q) (slot : ℕ) (p : AQLPacket)
    (tr : List (ExecState Q C × ExecAction Q C)) (s : ExecState Q C) : Prop :=
  ∃ t r, (t, .worker r) ∈ tr ∧
    Completed cfg q rest slot (completionSignal (t.memory.env r) p) tr s

/-- After a step of the scan. -/
theorem Completes.scanned {p : AQLPacket} (h : Completes cfg q rest slot p later s)
    (hscan : Scanned C cfg q rest pc s₀ tr s t u r queue pc' earlier later) :
    Completes cfg q rest slot p tr s := by
  obtain ⟨t', r', hmem, h⟩ := h
  rw [hscan.trace]
  exact ⟨t', r', List.mem_append_left _ hmem, h.append _⟩

/-- The step finds the completion signal. -/
theorem Completed.found {p : AQLPacket}
    (h : Completed cfg q rest slot (completionSignal (t.memory.env r) p) later s)
    (hscan : Scanned C cfg q rest pc s₀ tr s t u r queue pc' earlier later) :
    Completes cfg q rest slot p tr s := by
  rw [hscan.trace]
  exact ⟨t, r, by simp, h.append _⟩

/-- The last step: the store to the completion signal. -/
theorem completed_store (hr : (executeMachine C cfg).Reachable always s₀)
    (hbefore : Before s₀ q rest (.complete f completion))
    (hrun : (packetMachine C cfg q s₀).Run tr s) (hend : s.worker.inPacket q = false) :
    ∃ t' r' earlier, tr = (t', .worker r') :: earlier ∧ AtStep t' q (.complete f completion) ∧
      s.memory.signal = signalAfter t'.memory.signal (.complete f completion) ∧
      Before s q rest (.head f.next) ∧ Quiet q s₀ s := by
  obtain ⟨t, u, r, queue, pc', earlier, later, h⟩ := exists_scan hr hbefore rfl hrun hend
  have hstep := h.workerStep
  cases hstep
  obtain ⟨closing, hu⟩ := h.worker
  have hleft : u.worker.inPacket q = false := by
    rw [hu]
    simp [jobAfter, Agent.resume, Worker.inPacket, Job.goto, Pc.inPacket]
  obtain ⟨rfl, rfl⟩ := eq_of_not_inPacket h.run hleft
  exact ⟨t, r, earlier, h.trace, h.atStep, by rw [h.memory]; rfl, ⟨_, _, hu⟩,
    h.quiet rfl rfl (fun _ => rfl) fun _ => rfl⟩

theorem completed_retired (hr : (executeMachine C cfg).Reachable always s₀)
    (hbefore : Before s₀ q rest (.retired f slot completion))
    (hrun : (packetMachine C cfg q s₀).Run tr s) (hend : s.worker.inPacket q = false) :
    ∃ t' r' f' middle, tr = (t', .worker r') :: middle ∧
      AtStep t' q (.complete f' completion) ∧
      s.memory.signal = signalAfter t'.memory.signal (.complete f' completion) ∧
      Before s q rest (.head f'.next) ∧ Quiet q s₀ s := by
  obtain ⟨t, u, r, queue, pc', earlier, later, h⟩ := exists_scan hr hbefore rfl hrun hend
  obtain ⟨f', rfl, hlaunches, hcallbacks⟩ : ∃ f', pc' = .complete f' completion ∧
      queue.history.launches = (t.memory.queue q).history.launches ∧
      queue.history.callbacks = (t.memory.queue q).history.callbacks := by
    have hstep := h.workerStep
    simp only [workerStep] at hstep
    split at hstep <;> cases hstep <;> exact ⟨_, rfl, rfl, rfl⟩
  obtain ⟨t', r', middle, htrace, hat, hstored, hhead, hquiet⟩ :=
    completed_store h.reachable (h.before rfl) h.run hend
  refine ⟨t', r', f', middle ++ (t, .worker r) :: earlier, ?_, hat, hstored, hhead, ?_⟩
  · rw [h.trace, htrace]
    rfl
  · exact (h.quiet hlaunches hcallbacks (fun _ => rfl) fun _ => rfl).trans hquiet

/-- **A packet that is retired is completed.** -/
theorem completed (hr : (executeMachine C cfg).Reachable always s₀)
    (hbefore : Before s₀ q rest (.retire f slot completion))
    (hrun : (packetMachine C cfg q s₀).Run tr s) (hend : s.worker.inPacket q = false) :
    Completed cfg q rest slot completion tr s ∧ Quiet q s₀ s := by
  obtain ⟨t, u, r, queue, pc', earlier, later, h⟩ := exists_scan hr hbefore rfl hrun hend
  have hstep := h.workerStep
  cases hstep
  obtain ⟨t', r', f', middle, htrace, hat, hstored, hhead, hquiet⟩ :=
    completed_retired h.reachable (h.before rfl) h.run hend
  have hinvalid : packetType ((u.memory.queue q).packetBuffer slot).header = packetTypeInvalid := by
    rw [h.memory]
    simpa [Memory.scanned, retireSlot] using Queue.packetType_one
  refine ⟨⟨t, u, t', r, r', f, f', earlier, middle, ?_, h.atStep, h.step, hinvalid, hat, hstored,
    hhead⟩, (h.quiet rfl rfl (fun _ => rfl) fun _ => rfl).trans hquiet⟩
  rw [h.trace, htrace]
  rfl

/-! ## Termination -/

/-- How many steps of the scan the packet takes at most, from `pc` on. -/
def Pc.rank : Pc → ℕ
  | .barrier _ _ _ i => 4 + (5 - i)
  | .dispatch _ _ => 7
  | .launch _ _ _ _ => 6
  | .running _ _ _ _ _ => 5
  | .freeGroup _ _ _ _ => 4
  | .retire _ _ _ => 3
  | .retired _ _ _ => 2
  | .complete _ _ => 1
  | _ => 0

/-- `AllocationsLock` may still be acquired. -/
def Pc.allocates : Pc → Bool
  | .dispatch _ _ | .launch _ _ _ _ | .running _ _ _ _ _ | .freeGroup _ _ _ _ => true
  | _ => false

theorem workerStep_isSome {c : Config} {env : Env} {x : Queue} (h : pc.inPacket = true) :
    (workerStep c env x pc).isSome := by
  cases pc with
  | retired f slot completion =>
    simp only [workerStep]
    split <;> rfl
  | barrier | dispatch | launch | running | freeGroup | retire | complete => rfl
  | _ => cases h

/-- A step of the scan that stays in the packet. -/
structure Nearer (pc pc' : Pc) : Prop where
  rank : pc'.rank < pc.rank
  allocates : pc'.allocates = true → pc.allocates = true

theorem nearer_settle {env : Env} {x : Queue} {kind : Barrier} {i : ℕ} {ok : Bool}
    (hpc' : (settle env x f slot ok).2.inPacket = true) :
    Nearer (.barrier kind f slot i) (settle env x f slot ok).2 := by
  cases ok with
  | false => cases hpc'
  | true =>
    refine ⟨?_, by simp [settle, Pc.allocates]⟩
    simp only [settle, Pc.rank]
    omega

theorem nearer_workerStep {c : Config} {env : Env} {x x' : Queue}
    (hs : workerStep c env x pc = some (x', pc')) (hpc : pc.inPacket = true)
    (hpc' : pc'.inPacket = true) : Nearer pc pc' := by
  cases pc with
  | barrier kind f slot i =>
    have hnext : i < 5 → Nearer (.barrier kind f slot i) (.barrier kind f slot (i + 1)) := by
      intro hi
      refine ⟨?_, by simp [Pc.allocates]⟩
      simp only [Pc.rank]
      omega
    cases evaluated_step hs with
    | null hi | undecided hi => exact hnext hi
    | dead => cases hpc'
    | decided | exhausted => exact nearer_settle hpc'
  | launch f slot completion groupMemory =>
    cases launchMove_step hs with
    | aligned | moved | callback => exact ⟨by simp [Pc.rank], fun _ => rfl⟩
    | aborted => cases hpc'
  | retired f slot completion =>
    simp only [workerStep] at hs
    split at hs <;> cases hs <;> exact ⟨by simp [Pc.rank], by simp [Pc.allocates]⟩
  | complete f completion =>
    cases hs
    cases hpc'
  | dispatch | running | freeGroup =>
    cases hs
    exact ⟨by simp [Pc.rank], fun _ => rfl⟩
  | retire =>
    cases hs
    exact ⟨by simp [Pc.rank], by simp [Pc.allocates]⟩
  | _ => cases hpc

/-- The operations around a step balance, if the mutex they acquire is not owned. -/
theorem runOps_around_locks (x : Queue) {locks : List Lock}
    (h : pc.guarded = true → .allocations ∉ locks) :
    runOps (lockOpsBefore x pc ++ lockOpsClosing x pc) locks = some locks := by
  cases pc with
  | barrier kind f slot i =>
    simp only [lockOpsBefore, lockOpsClosing, List.append_nil]
    split
    · split <;> simp [runOps, fromHSAObject, LockOp.apply]
    · rfl
  | dispatch f slot =>
    simp only [lockOpsBefore, lockOpsClosing]
    have hfree := h rfl
    split <;> simp [runOps, fromHSAObject, LockOp.apply, hfree]
  | freeGroup f slot completion groupMemory =>
    have hfree := h rfl
    cases groupMemory <;> simp [runOps, lockOpsBefore, lockOpsClosing, LockOp.apply, hfree]
  | sample | launch =>
    simp [runOps, lockOpsBefore, lockOpsClosing, fromHSAObject, fromHandle, LockOp.apply]
  | away | loadReadIndex | loadWriteIndex | head | advance | running | retire | retired | complete
  | halted => rfl

theorem runOps_after_locks (pc pc' : Pc) (locks : List Lock) :
    runOps (lockOpsAfter pc pc') locks = some locks := by
  unfold lockOpsAfter
  split <;> simp [runOps, fromHSAObject, LockOp.apply]

theorem length_lockOpsBefore (x : Queue) (pc : Pc) : (lockOpsBefore x pc).length ≤ 3 := by
  cases pc with
  | barrier kind f slot i =>
    simp only [lockOpsBefore]
    split
    · split <;> simp [fromHSAObject]
    · simp
  | dispatch f slot =>
    simp only [lockOpsBefore]
    split <;> simp [fromHSAObject]
  | freeGroup f slot completion groupMemory => cases groupMemory <;> simp [lockOpsBefore]
  | _ => simp [lockOpsBefore, fromHSAObject, fromHandle]

theorem length_lockOpsClosing (x : Queue) (pc : Pc) : (lockOpsClosing x pc).length ≤ 1 := by
  cases pc with
  | dispatch f slot =>
    simp only [lockOpsClosing]
    split <;> simp
  | freeGroup f slot completion groupMemory => cases groupMemory <;> simp [lockOpsClosing]
  | _ => simp [lockOpsClosing]

theorem length_lockOpsAfter (pc pc' : Pc) : (lockOpsAfter pc pc').length ≤ 2 := by
  unfold lockOpsAfter
  split <;> simp [fromHSAObject]

/-- An upper bound of the steps that the worker takes in the packet. -/
def Job.left (job : Job) : ℕ := 8 * job.pc.rank + job.ops.length

/-- The mutex operations that are left can be performed. -/
structure Unhindered (locks : List Lock) (m : Memory Q) (job : Job) : Prop where
  ops : runOps (job.ops ++ job.closing) m.locks = some locks
  closing : job.closing.length ≤ 1
  allocates : job.pc.allocates = true → .allocations ∉ locks

/-- The worker leaves the packet after finitely many steps, and can always take the next one. -/
def Finishes (C : Type) [DecidableEq C] (cfg : Q → Config) (q : Q) (s₀ : ExecState Q C) : Prop :=
  ∃ n, ∀ tr t, (packetMachine C cfg q s₀).Run tr t →
    (tr.countP fun step => isWorker step.2) ≤ n ∧
      (t.worker.inPacket q = true → ∀ r, ((executeMachine C cfg).step (.worker r) t).isSome)

omit [DecidableEq Q] in
theorem Unhindered.goto {locks : List Lock} {m : Memory Q} {ops : List LockOp} (x : Queue)
    (hops : runOps ops m.locks = some locks) (hpc : pc.allocates = true → .allocations ∉ locks) :
    Unhindered locks m (.goto x ops pc) := by
  refine ⟨?_, length_lockOpsClosing x pc, hpc⟩
  have hguarded : pc.guarded = true → .allocations ∉ locks := by
    intro h
    apply hpc
    cases pc with
    | dispatch | freeGroup => rfl
    | _ => cases h
  simp only [Job.goto, List.append_assoc]
  rw [runOps_append, hops, Option.bind_some]
  exact runOps_around_locks x hguarded

theorem Pc.rank_pos (h : pc.inPacket = true) : 0 < pc.rank := by
  cases pc with
  | barrier | dispatch | launch | running | freeGroup | retire | retired | complete => simp [rank]
  | _ => cases h

/-- A step of the worker brings it nearer to the end. -/
theorem Unhindered.work {locks : List Lock} {m m' : Memory Q} {p : Progress Job}
    (h : Unhindered locks m job) (hpc : job.pc.inPacket = true)
    (hp : (processor cfg).work r q job m = some (m', p)) :
    0 < job.left ∧ ∀ job', p = .more job' → job'.pc.inPacket = true →
      job'.left < job.left ∧ Unhindered locks m' job' := by
  have hpos := Pc.rank_pos hpc
  refine ⟨by simp only [Job.left]; omega, ?_⟩
  rintro job' rfl hpc'
  generalize hmore : Progress.more job' = p at hp
  cases jobMove hp with
  | op op ops closing pc locks' happly =>
    cases hmore
    refine ⟨by simp [Job.left], ?_, h.closing, h.allocates⟩
    have hops := h.ops
    simp only [List.cons_append, runOps, happly, Option.bind_some] at hops
    exact hops
  | scan closing pc pc' queue hstep =>
    obtain rfl : job' = .goto queue (closing ++ lockOpsAfter pc pc') pc' := by
      cases pc' <;> cases hmore
      all_goals rfl
    have hnear := nearer_workerStep hstep hpc hpc'
    have hclosing : closing.length ≤ 1 := h.closing
    have hops : runOps closing m.locks = some locks := h.ops
    constructor
    · have hbefore := length_lockOpsBefore queue pc'
      have hafter := length_lockOpsAfter pc pc'
      have hrank := hnear.rank
      simp only [Job.left, Job.goto, List.length_append, List.length_nil]
      omega
    · refine .goto queue ?_ fun h' => h.allocates (hnear.allocates h')
      rw [runOps_append, hops, Option.bind_some]
      exact runOps_after_locks pc pc' locks

/-- The worker's next step is possible. -/
theorem Unhindered.enabled {locks : List Lock} (hw : s.worker = .process q rest job)
    (h : Unhindered locks s.memory job) (hpc : job.pc.inPacket = true) (r : Reply) :
    ((executeMachine C cfg).step (.worker r) s).isSome := by
  obtain ⟨ops, closing, pc⟩ := job
  simp only [executeMachine, agentMachine, Agent.workerStep, hw, Option.isSome_map]
  cases ops with
  | nil =>
    simp only [processor, Option.isSome_map]
    exact workerStep_isSome hpc
  | cons op ops =>
    have hops := h.ops
    simp only [List.cons_append, runOps] at hops
    obtain ⟨locks', happly, -⟩ := Option.bind_eq_some_iff.mp hops
    simp [processor, happly]

/-- Steps of others change neither where the worker is nor what it owns. -/
theorem others_step (ha : isDeliver a = false) (hworker : isWorker a = false)
    (hs : (executeMachine C cfg).step a s = some s') :
    s'.worker = s.worker ∧ s'.memory.locks = s.memory.locks := by
  have hmove := memoryMove hs
  generalize s'.memory = m' at hmove ⊢
  generalize s'.worker = w' at hmove ⊢
  cases hmove with
  | work | control => cases hworker
  | deliver => cases ha
  | other => exact ⟨rfl, rfl⟩
  | environment e m he =>
    cases externalMove he with
    | producer | signal => exact ⟨rfl, rfl⟩

/-- **The worker leaves the packet**, if it does not own `AllocationsLock` where it needs it. -/
theorem finishes (harrives : Arrives s₀ q rest pc)
    (hlocks : pc.allocates = true → .allocations ∉ s₀.memory.locks) : Finishes C cfg q s₀ := by
  have hstart : Unhindered s₀.memory.locks s₀.memory (.goto (s₀.memory.queue q) [] pc) :=
    .goto _ rfl hlocks
  refine ⟨(Job.goto (s₀.memory.queue q) [] pc).left, fun tr t hrun => ?_⟩
  suffices h : (tr.countP fun step => isWorker step.2) ≤
      (Job.goto (s₀.memory.queue q) [] pc).left ∧ ∀ rest job, t.worker = .process q rest job →
        job.pc.inPacket = true → (tr.countP fun step => isWorker step.2) + job.left ≤
          (Job.goto (s₀.memory.queue q) [] pc).left ∧ Unhindered s₀.memory.locks t.memory job by
    refine ⟨h.1, fun hin r => ?_⟩
    obtain ⟨rest, job, hw, hpc⟩ := Worker.exists_of_inPacket hin
    exact (h.2 rest job hw hpc).2.enabled hw hpc r
  induction hrun with
  | init hs =>
    cases hs
    refine ⟨Nat.zero_le _, fun rest job hw _ => ?_⟩
    rw [harrives] at hw
    cases hw
    exact ⟨by simp, hstart⟩
  | @step tr t t' a hrun hs ih =>
    obtain ⟨hin, ha, hstep⟩ := packetMachine_step hs
    obtain ⟨rest, job, hw, hpc⟩ := Worker.exists_of_inPacket hin
    obtain ⟨hleft, hinv⟩ := ih.2 rest job hw hpc
    rw [List.countP_cons]
    cases hworker : isWorker a with
    | false =>
      obtain ⟨hw', hlocks'⟩ := others_step ha hworker hstep
      refine ⟨ih.1, fun rest' job' hjob _ => ?_⟩
      rw [hw', hw] at hjob
      cases hjob
      exact ⟨hleft, by rw [hlocks']; exact hinv.ops, hinv.closing, hinv.allocates⟩
    | true =>
      cases a with
      | worker r =>
        simp only [executeMachine, agentMachine, Agent.workerStep, hw] at hstep
        obtain ⟨⟨m, p⟩, hp, rfl⟩ := Option.map_eq_some_iff.mp hstep
        obtain ⟨hpos, hmore⟩ := hinv.work hpc hp
        refine ⟨by simp only [if_true]; omega, fun rest' job' hjob hpc' => ?_⟩
        cases p with
        | more job'' =>
          cases hjob
          obtain ⟨hlt, hinv'⟩ := hmore job' rfl hpc'
          exact ⟨by simp only [if_true]; omega, hinv'⟩
        | done => cases hjob
        | dead => cases hjob
      | _ => cases hworker

/-! ## Concrete runs -/

namespace Exec

/-- Where the worker has just come to in the processing of `q`. -/
def arrival (q : Q) (s : ExecState Q C) : Option (List Q × Pc) :=
  match s.worker with
  | .process q' rest { ops, closing, pc } =>
    if q' = q ∧ ops = lockOpsBefore (s.memory.queue q) pc ∧
        closing = lockOpsClosing (s.memory.queue q) pc then some (rest, pc)
    else none
  | _ => none

omit [DecidableEq C] in
theorem arrives_of_arrival (h : arrival q s = some (rest, pc)) : Arrives s q rest pc := by
  unfold arrival at h
  split at h
  · rename_i hw
    split at h
    · rename_i heq
      obtain ⟨rfl, rfl, rfl⟩ := heq
      cases h
      exact hw
    · cases h
  · cases h

end Exec

end PhsaRuntime
