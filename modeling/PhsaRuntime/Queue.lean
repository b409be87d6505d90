import PhsaRuntime.Lib.Ring
import PhsaRuntime.Packet
import Mathlib.Logic.Function.Basic
import Mathlib.Data.List.Basic

/-!
# User mode queues and their producers

The memory of one user mode queue: the packet ring and the indexes that are shared with
the producers (`phsa_queue`), and the bookkeeping that only the packet processor touches
(`PacketIsProcessed` and `LastHandledDoorBell` of `Queue`).

Producers follow the reserve, wait, fill, publish, ring protocol of the HSA queue API.
A producer is known by the index it works on: `producer i` tells how far the producer
that reserved index `i` has come, and a producer that starts over is the producer of its
next index. So any number of producers run at once, and one producer alone is the case
where an index is reserved only when every earlier one has been rung.

`History` records what happened. No step reads it; the statements about runs do.
-/

namespace PhsaRuntime

/-- `hsa_queue_type_t`. -/
inductive QueueType
  | multi
  | single
  deriving DecidableEq, Repr

/-- What is fixed when a queue is created: its type and its size, a non-zero `uint32_t`. -/
structure Config where
  type : QueueType
  size : ℕ
  size_pos : 0 < size
  size_lt : size < 2 ^ 32

/-- `std::numeric_limits<hsa_signal_value_t>::max()`: the doorbell before the first ring. -/
def doorbellMax : ℤ := 2 ^ 63 - 1

/-- How far the producer of an index has come. -/
inductive Producer
  /-- The index has not been reserved. -/
  | free
  /-- Reserved; waiting for the slot to leave the ring. -/
  | reserved
  /-- Past the wait; writing the packet body. -/
  | filling
  /-- The header has been stored. -/
  | published
  /-- The index has been stored to the doorbell. -/
  | rung
  deriving DecidableEq, Repr

/-- A kernel launch: the index under which its packet was published, and its arguments. -/
structure Launch where
  index : ℕ
  data : LaunchData
  groupMemory : Option ℕ

/-- What has happened to a queue. -/
structure History where
  /-- The packet published under each index. -/
  packet : ℕ → AQLPacket
  /-- The index last published in each slot. -/
  tag : ℕ → ℕ
  /-- The indexes of the processed packets, in order. -/
  processed : List ℕ
  /-- The kernel launches, in order. -/
  launches : List Launch
  /-- The callback invocations, in order. -/
  callbacks : List Status
  /-- The unsatisfied barrier at which the last scan ended, if it ended at one. -/
  stopped : Option ℕ

/-- One user mode queue. -/
structure Queue where
  /-- `base_address`. -/
  packetBuffer : ℕ → AQLPacket
  readIndex : ℕ
  writeIndex : ℕ
  /-- The value of `doorbell_signal`. -/
  doorbell : ℤ
  /-- `PacketIsProcessed`, empty until it is first written. -/
  packetIsProcessed : List Bool
  lastHandledDoorBell : ℤ
  producer : ℕ → Producer
  history : History

namespace Queue

/-- `UserModeQueue::UserModeQueue` on a packet buffer with the given contents: every
header becomes `HSA_PACKET_TYPE_INVALID`. -/
def create (buffer : ℕ → AQLPacket) : Queue where
  packetBuffer := fun slot => { buffer slot with header := 1 }
  readIndex := 0
  writeIndex := 0
  doorbell := doorbellMax
  packetIsProcessed := []
  lastHandledDoorBell := doorbellMax
  producer := fun _ => .free
  history :=
    { packet := buffer, tag := fun _ => 0, processed := [], launches := [], callbacks := [],
      stopped := none }

/-! ## The processed flags -/

/-- `Queue::IsPacketProcessed`. -/
def isPacketProcessed (q : Queue) (slot : ℕ) : Bool := q.packetIsProcessed.getD slot false

/-- The flags after `Queue::SetPacketProcessed`, which resizes the empty vector first. -/
def setProcessedFlag (size : ℕ) (flags : List Bool) (slot : ℕ) (flag : Bool) : List Bool :=
  (if flags.length = 0 then List.replicate size false else flags).set slot flag

/-- `Queue::SetPacketProcessed`. -/
def setPacketProcessed (cfg : Config) (q : Queue) (slot : ℕ) (flag : Bool) : Queue :=
  { q with packetIsProcessed := setProcessedFlag cfg.size q.packetIsProcessed slot flag }

theorem length_setProcessedFlag {size : ℕ} {flags : List Bool}
    (h : flags.length = 0 ∨ flags.length = size) (slot : ℕ) (flag : Bool) :
    (setProcessedFlag size flags slot flag).length = size := by
  simp only [setProcessedFlag, List.length_set]
  split
  · exact List.length_replicate
  · exact h.resolve_left ‹_›

theorem getD_setProcessedFlag {size slot : ℕ} {flags : List Bool}
    (h : flags.length = 0 ∨ flags.length = size) (hslot : slot < size) (flag : Bool) (t : ℕ) :
    (setProcessedFlag size flags slot flag).getD t false =
      if t = slot then flag else flags.getD t false := by
  have hlen := length_setProcessedFlag h slot flag
  by_cases ht : t = slot
  · subst ht
    have hget : (setProcessedFlag size flags t flag)[t]? = some flag := by
      rw [setProcessedFlag, List.getElem?_set_self]
      rwa [← List.length_set, ← setProcessedFlag, hlen]
    rw [if_pos rfl, List.getD_eq_getElem?_getD, hget, Option.getD_some]
  · rw [if_neg ht, List.getD_eq_getElem?_getD, List.getD_eq_getElem?_getD, setProcessedFlag,
      List.getElem?_set_ne (Ne.symm ht)]
    split
    · rename_i h0
      rw [List.length_eq_zero_iff.mp h0, List.getElem?_replicate]
      split <;> rfl
    · rfl

/-! ## Producers -/

/-- The producer of index `i` has stored its header. -/
def Published (q : Queue) (i : ℕ) : Prop := q.producer i = .published ∨ q.producer i = .rung

instance (q : Queue) (i : ℕ) : Decidable (q.Published i) :=
  inferInstanceAs (Decidable (_ ∨ _))

/-- One access of a producer to the queue. -/
inductive ProducerAction
  /-- `hsa_queue_add_write_index(1)`. -/
  | reserve
  /-- The load of the read index that ends the wait. -/
  | proceed (i : ℕ)
  /-- A store to the packet body; the header field of `p` is not written. -/
  | fill (i : ℕ) (p : AQLPacket)
  /-- The store of the header. -/
  | publish (i : ℕ) (header : BitVec 16)
  /-- The store of the index to the doorbell. -/
  | ring (i : ℕ)

/-- The producers' steps. Indexes do not wrap around `2 ^ 64`. -/
def producerStep (cfg : Config) : ProducerAction → Queue → Option Queue
  | .reserve, q =>
    if q.writeIndex + 1 < 2 ^ 64 then
      some { q with
        writeIndex := q.writeIndex + 1
        producer := Function.update q.producer q.writeIndex .reserved }
    else none
  | .proceed i, q =>
    if q.producer i = .reserved ∧ i < q.readIndex + cfg.size then
      some { q with producer := Function.update q.producer i .filling }
    else none
  | .fill i p, q =>
    if q.producer i = .filling then
      some { q with
        packetBuffer := Function.update q.packetBuffer (i % cfg.size)
          { p with header := (q.packetBuffer (i % cfg.size)).header } }
    else none
  | .publish i header, q =>
    if q.producer i = .filling ∧ packetType header ≠ packetTypeInvalid then
      let packet := { q.packetBuffer (i % cfg.size) with header := header }
      some { q with
        packetBuffer := Function.update q.packetBuffer (i % cfg.size) packet
        producer := Function.update q.producer i .published
        history :=
          { q.history with
            packet := Function.update q.history.packet i packet
            tag := Function.update q.history.tag (i % cfg.size) i } }
    else none
  | .ring i, q =>
    if q.Published i then
      some { q with
        doorbell := Word.toInt64 i
        producer := Function.update q.producer i .rung }
    else none

end Queue

end PhsaRuntime
