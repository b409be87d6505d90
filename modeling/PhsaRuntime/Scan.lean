import PhsaRuntime.Lib.Machine
import PhsaRuntime.Queue

/-!
# The scan of one queue

The part of `CPUKernelAgent::Execute` that processes one queue, from the load of its
doorbell to the end of the packet loop, as a machine that runs interleaved with the
producers of the queue.

Every load from and store to memory that another thread may touch is a step of its own.
Locals, and `PacketIsProcessed` and `LastHandledDoorBell`, which only the worker
touches, are read and written together with the access next to them.

What the worker reads outside the queue (signal values, the kernel registry, the results
of the allocators) reaches a step as its `Env`. Accesses the language gives no meaning
end the run in a `halted` state, as `abort()` does.

## Main definitions

* `Pc` — where the worker is in the scan.
* `workerStep` — one step of the worker.
* `Examined`, `Evaluated`, `LaunchMove` — the outcomes of the steps that have several.
* `scanMachine` — the worker and the producers of one queue.
-/

namespace PhsaRuntime

/-- What a worker step may read outside the queue. -/
structure Env where
  /-- `Signal::fromHSAObject` and the value of the signal, `none` for a handle that is not
  registered. -/
  signal : Handle → Option ℤ
  /-- `dynamic_cast<Kernel *>(Symbol::fromHandle(handle))`. -/
  kernel : Handle → Option Kernel
  /-- The result of `GroupMemoryRegion->allocate`. -/
  groupMemory : Option ℕ
  /-- The buffer of `posix_memalign`, `none` if the call fails. -/
  kernargBuffer : Option ℕ

/-- The local variables of the packet loop. -/
structure Frame where
  currentReadIndex : ℕ
  currentWriteIndex : ℕ
  lastIndex : ℕ
  currentIndex : ℕ

/-- `++CurrentIndex`. -/
def Frame.next (f : Frame) : Frame := { f with currentIndex := f.currentIndex + 1 }

/-- `CurrentReadIndex = CurrentIndex + 1`. -/
def Frame.advance (f : Frame) : Frame := { f with currentReadIndex := f.currentIndex + 1 }

/-- How the worker stops for good. -/
inductive Halt
  /-- `abort()`. -/
  | aborted
  /-- A negative packet index. The code goes on with an access outside the ring, which the language
  gives no meaning. -/
  | badIndex
  /-- A load through the null pointer that a dead signal handle maps to. -/
  | nullSignal
  deriving DecidableEq, Repr

/-- Where the worker is in the scan of a queue. -/
inductive Pc
  /-- At another queue. -/
  | away
  /-- About to load the doorbell. -/
  | sample
  | loadReadIndex
  | loadWriteIndex (currentReadIndex : ℕ)
  /-- At the head of an iteration of the packet loop. -/
  | head (f : Frame)
  /-- A processed packet at the read index: about to store the read index. -/
  | advance (f : Frame) (slot : ℕ)
  /-- About to look at dependency `i` of a barrier packet. -/
  | barrier (kind : Barrier) (f : Frame) (slot i : ℕ)
  /-- A kernel dispatch packet, before its group memory is allocated. -/
  | dispatch (f : Frame) (slot : ℕ)
  /-- About to look up the kernel and to launch it. -/
  | launch (f : Frame) (slot : ℕ) (completion : Option Handle) (groupMemory : Option ℕ)
  /-- The kernel, or the queue callback, is running. -/
  | running (f : Frame) (slot : ℕ) (completion : Option Handle)
      (groupMemory kernargs : Option ℕ)
  /-- About to free the group memory. -/
  | freeGroup (f : Frame) (slot : ℕ) (completion : Option Handle) (groupMemory : Option ℕ)
  /-- About to store `HSA_PACKET_TYPE_INVALID` to the header. -/
  | retire (f : Frame) (slot : ℕ) (completion : Option Handle)
  /-- About to store the read index or to set the processed flag. -/
  | retired (f : Frame) (slot : ℕ) (completion : Option Handle)
  /-- About to store to the completion signal. -/
  | complete (f : Frame) (completion : Option Handle)
  | halted (why : Halt)

/-! ## Index arithmetic of the loop -/

/-- `int PacketsToCheck`: the distance from the read index to the doorbell in a SINGLE
queue, in unsigned 64-bit arithmetic, and the queue size in a MULTI queue. -/
def packetsToCheck (cfg : Config) (doorBell : ℤ) (currentReadIndex : ℕ) : ℤ :=
  Word.toInt32 <| match cfg.type with
    | .single => Word.toUInt64 (doorBell - currentReadIndex)
    | .multi => cfg.size

/-- `uint64_t LastIndex = CurrentReadIndex + PacketsToCheck`. -/
def lastIndex (cfg : Config) (doorBell : ℤ) (currentReadIndex : ℕ) : ℕ :=
  Word.toUInt64 (currentReadIndex + packetsToCheck cfg doorBell currentReadIndex)

/-- `int PacketIndex = CurrentIndex % QueueSize`, `none` if it is negative. -/
def packetIndex (cfg : Config) (currentIndex : ℕ) : Option ℕ :=
  let index := Word.toInt32 (currentIndex % cfg.size)
  if 0 ≤ index then some index.toNat else none

theorem packetIndex_eq {cfg : Config} {c slot : ℕ} (h : packetIndex cfg c = some slot) :
    slot = c % cfg.size := by
  have hlt : c % cfg.size < 2 ^ 32 :=
    (Nat.mod_lt _ cfg.size_pos).trans cfg.size_lt
  simp only [packetIndex] at h
  split at h
  · rename_i hpos
    rw [Word.toInt32_nonneg hlt hpos, Int.toNat_natCast, Option.some.injEq] at h
    exact h.symm
  · cases h

/-- Up to `2 ^ 31` slots, the slot of every index is an `int`. -/
theorem packetIndex_of_size_le {cfg : Config} (h : cfg.size ≤ 2 ^ 31) (c : ℕ) :
    packetIndex cfg c = some (c % cfg.size) := by
  have hlt : c % cfg.size < 2 ^ 31 := (Nat.mod_lt _ cfg.size_pos).trans_le h
  simp only [packetIndex, Word.toInt32_of_lt hlt, Int.natCast_nonneg, if_true, Int.toNat_natCast]

/-- The slots of the queue and the distances in it are values of an `int`. -/
def Config.FitsInt (cfg : Config) : Prop :=
  cfg.size ≤ 2 ^ 31 ∧ (cfg.type = .multi → cfg.size < 2 ^ 31)

instance (cfg : Config) : Decidable cfg.FitsInt := inferInstanceAs (Decidable (_ ∧ _))

theorem lastIndex_multi {cfg : Config} (htype : cfg.type = .multi) (hsize : cfg.size < 2 ^ 31)
    {r : ℕ} (hr : r + cfg.size < 2 ^ 64) (doorBell : ℤ) :
    lastIndex cfg doorBell r = r + cfg.size := by
  simp only [lastIndex, packetsToCheck, htype, Word.toInt32_of_lt hsize]
  exact_mod_cast Word.toUInt64_of_nonneg hr

theorem lastIndex_single {cfg : Config} (htype : cfg.type = .single) {r d : ℕ}
    (hd : d < 2 ^ 64) (hr : r ≤ d) (hdist : d - r < 2 ^ 31) :
    lastIndex cfg (Word.toInt64 d) r = d := by
  simp only [lastIndex, packetsToCheck, htype, Word.toUInt64_sub hd hr,
    Word.toInt32_of_lt hdist]
  have hsum : (r : ℤ) + ((d - r : ℕ) : ℤ) = (d : ℤ) := by omega
  rw [hsum, Word.toUInt64_of_nonneg hd]

/-! ## The worker's steps -/

/-- `Signal::fromHSAObject(completion_signal)`: null if no signal has this handle. -/
def completionSignal (env : Env) (p : AQLPacket) : Option Handle :=
  if (env.signal p.completionSignal).isSome then some p.completionSignal else none

/-- The load of the header and the branch on the packet type. -/
def examineSlot (q : Queue) (f : Frame) (slot : ℕ) : Pc :=
  let type := packetType (q.packetBuffer slot).header
  if type = packetTypeInvalid then
    -- a processed packet at the read index frees its slot; any other is passed over
    if q.isPacketProcessed slot ∧ f.currentReadIndex = f.currentIndex then .advance f slot
    else .head f.next
  else if type = packetTypeBarrierAnd then .barrier .and f slot 0
  else if type = packetTypeBarrierOr then .barrier .or f slot 0
  else if type = packetTypeKernelDispatch then .dispatch f slot
  else .halted .aborted

/-- The head of an iteration: the loop condition and the end of the published packets. In a ring of
more than `2 ^ 31` slots `PacketIndex` can be negative; the worker stops there, where the code
would access a packet outside the ring. -/
def examine (cfg : Config) (q : Queue) (f : Frame) : Pc :=
  if f.lastIndex < f.currentIndex ∨ f.currentWriteIndex ≤ f.currentIndex then .away
  else match packetIndex cfg f.currentIndex with
    | none => .halted .badIndex
    | some slot => examineSlot q f slot

/-- What the head of an iteration leads to, with the reason. -/
inductive Examined (cfg : Config) (q : Queue) (f : Frame) : Pc → Prop
  | exit (h : f.lastIndex < f.currentIndex ∨ f.currentWriteIndex ≤ f.currentIndex) :
      Examined cfg q f .away
  | badIndex (h : packetIndex cfg f.currentIndex = none) : Examined cfg q f (.halted .badIndex)
  /-- A processed packet at the read index. -/
  | freed (hle : f.currentIndex ≤ f.lastIndex) (hlt : f.currentIndex < f.currentWriteIndex)
      (hinvalid : packetType (q.packetBuffer (f.currentIndex % cfg.size)).header =
        packetTypeInvalid)
      (hflag : q.isPacketProcessed (f.currentIndex % cfg.size) = true)
      (hread : f.currentReadIndex = f.currentIndex) :
      Examined cfg q f (.advance f (f.currentIndex % cfg.size))
  | passed (hle : f.currentIndex ≤ f.lastIndex) (hlt : f.currentIndex < f.currentWriteIndex)
      (hinvalid : packetType (q.packetBuffer (f.currentIndex % cfg.size)).header =
        packetTypeInvalid)
      (hnot : ¬ (q.isPacketProcessed (f.currentIndex % cfg.size) = true ∧
        f.currentReadIndex = f.currentIndex)) :
      Examined cfg q f (.head f.next)
  | barrier (kind : Barrier) (hle : f.currentIndex ≤ f.lastIndex)
      (hlt : f.currentIndex < f.currentWriteIndex)
      (htype : packetType (q.packetBuffer (f.currentIndex % cfg.size)).header =
        kind.packetType) :
      Examined cfg q f (.barrier kind f (f.currentIndex % cfg.size) 0)
  | dispatch (hle : f.currentIndex ≤ f.lastIndex) (hlt : f.currentIndex < f.currentWriteIndex)
      (htype : packetType (q.packetBuffer (f.currentIndex % cfg.size)).header =
        packetTypeKernelDispatch) :
      Examined cfg q f (.dispatch f (f.currentIndex % cfg.size))
  | unknown (hle : f.currentIndex ≤ f.lastIndex) (hlt : f.currentIndex < f.currentWriteIndex)
      (hvalid : packetType (q.packetBuffer (f.currentIndex % cfg.size)).header ≠
        packetTypeInvalid)
      (hkernel : packetType (q.packetBuffer (f.currentIndex % cfg.size)).header ≠
        packetTypeKernelDispatch)
      (hbarrier : ¬ isBarrier (q.packetBuffer (f.currentIndex % cfg.size)).header) :
      Examined cfg q f (.halted .aborted)

theorem examined (cfg : Config) (q : Queue) (f : Frame) : Examined cfg q f (examine cfg q f) := by
  unfold examine
  split
  · rename_i hexit
    exact .exit hexit
  · rename_i hin
    obtain ⟨hle, hlt⟩ := not_or.mp hin
    rw [not_lt] at hle
    rw [not_le] at hlt
    split
    · rename_i hidx
      exact .badIndex hidx
    · rename_i slot hidx
      obtain rfl := packetIndex_eq hidx
      unfold examineSlot
      by_cases hinvalid : packetType (q.packetBuffer (f.currentIndex % cfg.size)).header =
          packetTypeInvalid
      · simp only [hinvalid, if_true]
        split
        · rename_i hp
          exact .freed hle hlt hinvalid hp.1 hp.2
        · rename_i hp
          exact .passed hle hlt hinvalid hp
      · simp only [hinvalid, if_false]
        split
        · rename_i htype
          exact .barrier .and hle hlt htype
        · rename_i hand
          split
          · rename_i htype
            exact .barrier .or hle hlt htype
          · rename_i hor
            split
            · rename_i htype
              exact .dispatch hle hlt htype
            · rename_i hkernel
              exact .unknown hle hlt hinvalid hkernel (not_or.mpr ⟨hand, hor⟩)

/-- The outcome of one dependency: `some true` if it satisfies the barrier, `some false` if
it refutes it, `none` if the next one decides. -/
def Barrier.verdict : Barrier → ℤ → Option Bool
  | .and, v => if v ≠ 0 then some false else none
  | .or, v => if v = 0 then some true else none

/-- The outcome when all dependencies have been looked at. -/
def Barrier.exhausted : Barrier → Bool
  | .and => true
  | .or => false

/-- The end of a barrier's evaluation: a satisfied barrier is completed, an unsatisfied one
ends the scan of the queue. -/
def settle (env : Env) (q : Queue) (f : Frame) (slot : ℕ) : Bool → Queue × Pc
  | true => (q, .retire f slot (completionSignal env (q.packetBuffer slot)))
  | false =>
    ({ q with history := { q.history with stopped := some (q.history.tag slot) } }, .away)

/-- One dependency of a barrier packet. -/
def evaluate (env : Env) (q : Queue) (kind : Barrier) (f : Frame) (slot i : ℕ) : Queue × Pc :=
  if h : i < 5 then
    let dep := (q.packetBuffer slot).depSignal ⟨i, h⟩
    if dep = 0 then (q, .barrier kind f slot (i + 1))
    else match env.signal dep with
      | none => (q, .halted .nullSignal)
      | some v => match kind.verdict v with
        | some ok => settle env q f slot ok
        | none => (q, .barrier kind f slot (i + 1))
  else settle env q f slot kind.exhausted

/-- The outcome of one dependency, or of the end of the loop. -/
inductive Evaluated (env : Env) (x : Queue) (kind : Barrier) (f : Frame) (slot i : ℕ) :
    Queue → Pc → Prop
  | null (hi : i < 5) (hdep : (x.packetBuffer slot).depSignal ⟨i, hi⟩ = 0) :
      Evaluated env x kind f slot i x (.barrier kind f slot (i + 1))
  | dead (hi : i < 5) (hdep : (x.packetBuffer slot).depSignal ⟨i, hi⟩ ≠ 0)
      (hsignal : env.signal ((x.packetBuffer slot).depSignal ⟨i, hi⟩) = none) :
      Evaluated env x kind f slot i x (.halted .nullSignal)
  | decided (hi : i < 5) (hdep : (x.packetBuffer slot).depSignal ⟨i, hi⟩ ≠ 0) (v : ℤ) (ok : Bool)
      (hsignal : env.signal ((x.packetBuffer slot).depSignal ⟨i, hi⟩) = some v)
      (hverdict : kind.verdict v = some ok) :
      Evaluated env x kind f slot i (settle env x f slot ok).1 (settle env x f slot ok).2
  | undecided (hi : i < 5) (hdep : (x.packetBuffer slot).depSignal ⟨i, hi⟩ ≠ 0) (v : ℤ)
      (hsignal : env.signal ((x.packetBuffer slot).depSignal ⟨i, hi⟩) = some v)
      (hverdict : kind.verdict v = none) :
      Evaluated env x kind f slot i x (.barrier kind f slot (i + 1))
  | exhausted (hi : 5 ≤ i) : Evaluated env x kind f slot i
      (settle env x f slot kind.exhausted).1 (settle env x f slot kind.exhausted).2

theorem evaluated (env : Env) (x : Queue) (kind : Barrier) (f : Frame) (slot i : ℕ) :
    Evaluated env x kind f slot i (evaluate env x kind f slot i).1
      (evaluate env x kind f slot i).2 := by
  unfold evaluate
  split
  · rename_i hi
    simp only
    split
    · rename_i hdep
      exact .null hi hdep
    · rename_i hdep
      split
      · rename_i hsignal
        exact .dead hi hdep hsignal
      · rename_i v hsignal
        split
        · rename_i ok hverdict
          exact .decided hi hdep v ok hsignal hverdict
        · rename_i hverdict
          exact .undecided hi hdep v hsignal hverdict
  · rename_i hi
    exact .exhausted (not_lt.mp hi)

/-- The launch itself, with the kernel arguments at `kernargAddr`. -/
def startKernel (q : Queue) (f : Frame) (slot : ℕ) (groupMemory : Option ℕ)
    (kernargAddr : ℕ) : Queue :=
  let data : LaunchData :=
    { dp := q.packetBuffer slot, packetId := f.currentIndex, kernargAddr }
  { q with history :=
    { q.history with launches :=
      q.history.launches ++ [{ index := q.history.tag slot, data, groupMemory }] } }

/-- The launch or the callback of a kernel dispatch packet. Kernel arguments that are not
aligned as the kernel needs them are first copied to a buffer that is. -/
def launch (env : Env) (q : Queue) (f : Frame) (slot : ℕ) (completion : Option Handle)
    (groupMemory : Option ℕ) : Queue × Pc :=
  let p := q.packetBuffer slot
  match dispatch (env.kernel p.kernelObject) groupMemory p with
  | .launch k =>
    if p.kernargAddress % k.kernargSegmentAlignment = 0 then
      (startKernel q f slot groupMemory p.kernargAddress,
        .running f slot completion groupMemory none)
    else match env.kernargBuffer with
      | none => (q, .halted .aborted)
      | some buffer =>
        (startKernel q f slot groupMemory buffer,
          .running f slot completion groupMemory (some buffer))
  | .callback status =>
    ({ q with history := { q.history with callbacks := q.history.callbacks ++ [status] } },
      .running f slot completion groupMemory none)

/-- What the launch step leads to, with the reason. -/
inductive LaunchMove (env : Env) (q : Queue) (f : Frame) (slot : ℕ) (completion : Option Handle)
    (groupMemory : Option ℕ) : Queue → Pc → Prop
  | aligned (k : Kernel)
      (hk : dispatch (env.kernel (q.packetBuffer slot).kernelObject) groupMemory
        (q.packetBuffer slot) = .launch k)
      (haligned : (q.packetBuffer slot).kernargAddress % k.kernargSegmentAlignment = 0) :
      LaunchMove env q f slot completion groupMemory
        (startKernel q f slot groupMemory (q.packetBuffer slot).kernargAddress)
        (.running f slot completion groupMemory none)
  | moved (k : Kernel) (buffer : ℕ)
      (hk : dispatch (env.kernel (q.packetBuffer slot).kernelObject) groupMemory
        (q.packetBuffer slot) = .launch k)
      (hunaligned : (q.packetBuffer slot).kernargAddress % k.kernargSegmentAlignment ≠ 0)
      (hbuffer : env.kernargBuffer = some buffer) :
      LaunchMove env q f slot completion groupMemory (startKernel q f slot groupMemory buffer)
        (.running f slot completion groupMemory (some buffer))
  | aborted (k : Kernel)
      (hk : dispatch (env.kernel (q.packetBuffer slot).kernelObject) groupMemory
        (q.packetBuffer slot) = .launch k)
      (hunaligned : (q.packetBuffer slot).kernargAddress % k.kernargSegmentAlignment ≠ 0)
      (hbuffer : env.kernargBuffer = none) :
      LaunchMove env q f slot completion groupMemory q (.halted .aborted)
  | callback (status : Status)
      (hstatus : dispatch (env.kernel (q.packetBuffer slot).kernelObject) groupMemory
        (q.packetBuffer slot) = .callback status) :
      LaunchMove env q f slot completion groupMemory
        { q with history := { q.history with callbacks := q.history.callbacks ++ [status] } }
        (.running f slot completion groupMemory none)

theorem launchMove (env : Env) (q : Queue) (f : Frame) (slot : ℕ) (completion : Option Handle)
    (groupMemory : Option ℕ) : LaunchMove env q f slot completion groupMemory
      (launch env q f slot completion groupMemory).1
      (launch env q f slot completion groupMemory).2 := by
  simp only [launch]
  split
  · rename_i k hk
    split
    · rename_i haligned
      exact .aligned k hk haligned
    · rename_i hunaligned
      split
      · rename_i hbuffer
        exact .aborted k hk hunaligned hbuffer
      · rename_i buffer hbuffer
        exact .moved k buffer hk hunaligned hbuffer
  · rename_i status hstatus
    exact .callback status hstatus

/-- `Packet.AgentDispatch.header = HSA_PACKET_TYPE_INVALID`. -/
def retireSlot (q : Queue) (slot : ℕ) : Queue :=
  { q with
    packetBuffer :=
      Function.update q.packetBuffer slot { q.packetBuffer slot with header := 1 }
    history :=
      { q.history with processed := q.history.processed ++ [q.history.tag slot] } }

/-- `storeReadIndex(CurrentIndex + 1)` and `SetPacketProcessed(PacketIndex, false)`. -/
def advanceReadIndex (cfg : Config) (q : Queue) (f : Frame) (slot : ℕ) : Queue :=
  { q with
    readIndex := f.currentIndex + 1
    packetIsProcessed := Queue.setProcessedFlag cfg.size q.packetIsProcessed slot false }

/-- One step of the worker at a queue. -/
def workerStep (cfg : Config) (env : Env) (q : Queue) : Pc → Option (Queue × Pc)
  | .away => none
  | .sample =>
    if q.doorbell = doorbellMax ∨ q.doorbell = q.lastHandledDoorBell then some (q, .away)
    else some
      ({ q with
          lastHandledDoorBell := q.doorbell
          history := { q.history with stopped := none } },
        .loadReadIndex)
  | .loadReadIndex => some (q, .loadWriteIndex q.readIndex)
  | .loadWriteIndex r => some (q, .head
      { currentReadIndex := r
        currentWriteIndex := q.writeIndex
        lastIndex := lastIndex cfg q.lastHandledDoorBell r
        currentIndex := r })
  | .head f => some (q, examine cfg q f)
  | .advance f slot => some (advanceReadIndex cfg q f slot, .head f.advance.next)
  | .barrier kind f slot i => some (evaluate env q kind f slot i)
  | .dispatch f slot =>
    let p := q.packetBuffer slot
    let groupMemory := if p.groupSegmentSize ≠ 0 then env.groupMemory else none
    some (q, .launch f slot (completionSignal env p) groupMemory)
  | .launch f slot completion groupMemory =>
    some (launch env q f slot completion groupMemory)
  | .running f slot completion groupMemory _ =>
    some (q, .freeGroup f slot completion groupMemory)
  | .freeGroup f slot completion _ => some (q, .retire f slot completion)
  | .retire f slot completion => some (retireSlot q slot, .retired f slot completion)
  | .retired f slot completion =>
    if f.currentReadIndex = f.currentIndex then
      some (advanceReadIndex cfg q f slot, .complete f.advance completion)
    else some (q.setPacketProcessed cfg slot true, .complete f completion)
  | .complete f _ => some (q, .head f.next)
  | .halted _ => none

theorem evaluated_step {c : Config} {env : Env} {x x' : Queue} {kind : Barrier} {f : Frame}
    {slot i : ℕ} {pc' : Pc} (hs : workerStep c env x (.barrier kind f slot i) = some (x', pc')) :
    Evaluated env x kind f slot i x' pc' := by
  have hres := evaluated env x kind f slot i
  rwa [Option.some.inj hs] at hres

theorem launchMove_step {c : Config} {env : Env} {q q' : Queue} {f : Frame} {slot : ℕ}
    {completion : Option Handle} {groupMemory : Option ℕ} {pc' : Pc}
    (hs : workerStep c env q (.launch f slot completion groupMemory) = some (q', pc')) :
    LaunchMove env q f slot completion groupMemory q' pc' := by
  have hres := launchMove env q f slot completion groupMemory
  rwa [Option.some.inj hs] at hres

/-! ## The machine -/

/-- A queue and the worker's position in it. -/
structure ScanState where
  queue : Queue
  pc : Pc

/-- The steps of the scan machine. -/
inductive ScanAction
  /-- A step of a producer. -/
  | producer (p : Queue.ProducerAction)
  /-- The worker comes to this queue. -/
  | enter
  /-- A step of the worker in this queue. -/
  | worker (env : Env)

/-- The worker and the producers of one queue. -/
def scanMachine (cfg : Config) : Machine ScanState ScanAction where
  init s := (∃ buffer, s.queue = Queue.create buffer) ∧ s.pc = .away
  step
    | .producer p, s => (Queue.producerStep cfg p s.queue).map fun q => { s with queue := q }
    | .enter, s => match s.pc with
      | .away => some { s with pc := .sample }
      | _ => none
    | .worker env, s =>
      (workerStep cfg env s.queue s.pc).map fun r => { queue := r.1, pc := r.2 }

/-- **Induction along a run**, by who takes the step. -/
theorem scan_induction {cfg : Config} {ok : ScanState → ScanAction → Prop}
    {P : ScanState → Prop} (hinit : ∀ buffer, P ⟨Queue.create buffer, .away⟩)
    (hproducer : ∀ q pc p q', (scanMachine cfg).Reachable ok ⟨q, pc⟩ → ok ⟨q, pc⟩ (.producer p) →
      Queue.producerStep cfg p q = some q' → P ⟨q, pc⟩ → P ⟨q', pc⟩)
    (henter : ∀ q, P ⟨q, .away⟩ → P ⟨q, .sample⟩)
    (hworker : ∀ q pc env q' pc', (scanMachine cfg).Reachable ok ⟨q, pc⟩ →
      ok ⟨q, pc⟩ (.worker env) → workerStep cfg env q pc = some (q', pc') →
      P ⟨q, pc⟩ → P ⟨q', pc'⟩)
    {s : ScanState} (h : (scanMachine cfg).Reachable ok s) : P s := by
  refine h.induction ?_ ?_
  · rintro ⟨q, pc⟩ ⟨⟨buffer, rfl⟩, rfl⟩
    exact hinit buffer
  · rintro ⟨q, pc⟩ a s' hr hok hs ih
    cases a with
    | producer p =>
      obtain ⟨q', hq, rfl⟩ := Option.map_eq_some_iff.mp hs
      exact hproducer q pc p q' hr hok hq ih
    | enter =>
      cases pc <;> simp only [scanMachine, reduceCtorEq, Option.some.injEq] at hs
      exact hs ▸ henter q ih
    | worker env =>
      obtain ⟨⟨q', pc'⟩, hq, rfl⟩ := Option.map_eq_some_iff.mp hs
      exact hworker q pc env q' pc' hr hok hq ih

/-! ## Concrete runs -/

def Pc.isAway : Pc → Bool
  | .away => true
  | _ => false

theorem Pc.eq_away_of_isAway {pc : Pc} (h : pc.isAway = true) : pc = .away := by
  cases pc <;> simp [isAway] at h ⊢

def Pc.isSample : Pc → Bool
  | .sample => true
  | _ => false

theorem Pc.eq_sample_of_isSample {pc : Pc} (h : pc.isSample = true) : pc = .sample := by
  cases pc <;> simp [isSample] at h ⊢

namespace Scan

/-- A kernel dispatch packet without kernel, arguments or signals. -/
def emptyPacket : AQLPacket where
  header := 2
  setup := 1
  workgroupSizeX := 1
  workgroupSizeY := 1
  workgroupSizeZ := 1
  gridSizeY := 1
  gridSizeZ := 1
  groupSegmentSize := 0
  kernelObject := 0
  kernargAddress := 0
  depSignal := fun _ => 0
  completionSignal := 0

/-- A barrier-AND packet without dependencies. -/
def barrierPacket : AQLPacket := { emptyPacket with header := 3 }

/-- No signal is registered, and every kernel handle is that of an empty kernel. -/
def quietEnv : Env where
  signal := fun _ => none
  kernel := fun _ => some ⟨0, 0, 1, Nat.one_pos⟩
  groupMemory := none
  kernargBuffer := none

/-- A queue after its creation, with the worker elsewhere. -/
def start : ScanState := { queue := Queue.create fun _ => emptyPacket, pc := .away }

theorem init_start (cfg : Config) : (scanMachine cfg).init start := ⟨⟨_, rfl⟩, rfl⟩

/-- All steps of one producer for one index, up to the header store. -/
def write (i : ℕ) (p : AQLPacket) : List ScanAction :=
  [.producer (.proceed i), .producer (.fill i p), .producer (.publish i p.header)]

/-- The worker comes to the queue and takes `n` steps. -/
def visit (env : Env) (n : ℕ) : List ScanAction :=
  .enter :: List.replicate n (.worker env)

end Scan

end PhsaRuntime
