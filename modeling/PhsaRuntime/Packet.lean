import Mathlib.Data.Nat.Notation
import Mathlib.Data.Int.Notation
import Mathlib.Tactic.Common

/-!
# AQL packets and the dispatch decision

The packets of a user mode queue, as the packet processor reads them, and the part of
`CPUKernelAgent::Execute` that decides what a kernel dispatch packet leads to: a kernel
launch, or one of the queue callbacks.

An `AQLPacket` is a union in the source. Here each view keeps its own fields: the header
and the completion signal, which all packet types have at the same offset, the fields of
a kernel dispatch packet, and the dependency signals of a barrier packet. Fields that the
packet processor never reads are left out.
-/

namespace PhsaRuntime

/-- An opaque `uint64_t` handle. Handle 0 is the null handle. -/
abbrev Handle := ℕ

/-! ## Headers -/

/-- `HSA_PACKET_TYPE_INVALID`: not in use, or being written by its producer. -/
def packetTypeInvalid : ℕ := 1

/-- `HSA_PACKET_TYPE_KERNEL_DISPATCH`. -/
def packetTypeKernelDispatch : ℕ := 2

/-- `HSA_PACKET_TYPE_BARRIER_AND`. -/
def packetTypeBarrierAnd : ℕ := 3

/-- `HSA_PACKET_TYPE_BARRIER_OR`. -/
def packetTypeBarrierOr : ℕ := 5

/-- The packet type sub-field: `(header >> HSA_PACKET_HEADER_TYPE) & 0xff`. -/
def packetType (header : BitVec 16) : ℕ := ((header >>> 0) &&& 0xff#16).toNat

/-- The barrier bit, at `HSA_PACKET_HEADER_BARRIER`. -/
def barrierBit (header : BitVec 16) : Bool := header.getLsbD 8

/-- The two barrier packet types. -/
inductive Barrier
  | and
  | or
  deriving DecidableEq, Repr

/-- The packet type of a barrier. -/
def Barrier.packetType : Barrier → ℕ
  | .and => packetTypeBarrierAnd
  | .or => packetTypeBarrierOr

/-- Barrier-AND and barrier-OR packets. -/
def isBarrier (header : BitVec 16) : Prop :=
  packetType header = packetTypeBarrierAnd ∨ packetType header = packetTypeBarrierOr

instance (header : BitVec 16) : Decidable (isBarrier header) :=
  inferInstanceAs (Decidable (_ ∨ _))

/-- `CPUKernelAgent::IsPacketTypeValid`: the type as a `uint8_t` lies above
`HSA_PACKET_TYPE_INVALID` and not above `HSA_PACKET_TYPE_BARRIER_OR`. -/
def isPacketTypeValid (header : BitVec 16) : Bool :=
  let type := ((header >>> 0).setWidth 8).toNat
  packetTypeInvalid < type && type ≤ packetTypeBarrierOr

/-! ## Packets -/

/-- A packet slot: the header, the kernel dispatch view and the barrier view. -/
structure AQLPacket where
  header : BitVec 16
  setup : BitVec 16
  workgroupSizeX : ℕ
  workgroupSizeY : ℕ
  workgroupSizeZ : ℕ
  gridSizeY : ℕ
  gridSizeZ : ℕ
  groupSegmentSize : ℕ
  kernelObject : Handle
  kernargAddress : ℕ
  depSignal : Fin 5 → Handle
  completionSignal : Handle

/-- A dependency signal that is null or has the value a barrier-AND waits for. -/
def AQLPacket.depIsZero (p : AQLPacket) (signal : Handle → Option ℤ) (i : Fin 5) : Prop :=
  p.depSignal i ≠ 0 ∧ signal (p.depSignal i) = some 0

/-- The condition of a barrier packet for given signal values: every non-null dependency
is 0 for a barrier-AND, some non-null dependency is 0 for a barrier-OR. -/
def AQLPacket.conditionHolds (p : AQLPacket) (signal : Handle → Option ℤ) : Prop :=
  (packetType p.header = packetTypeBarrierAnd ∧
      ∀ i, p.depSignal i ≠ 0 → p.depIsZero signal i) ∨
    (packetType p.header = packetTypeBarrierOr ∧ ∃ i, p.depIsZero signal i)

/-! ## Kernel dispatch -/

/-- A registered kernel symbol. Its alignment is never 0, so the alignment test of the
dispatch path is defined. -/
structure Kernel where
  address : ℕ
  kernargSegmentSize : ℕ
  kernargSegmentAlignment : ℕ
  alignment_pos : 0 < kernargSegmentAlignment

/-- The error codes a queue callback is invoked with. -/
inductive Status
  | errorInvalidPacketFormat
  | errorIncompatibleArguments
  | errorInvalidAllocation
  | errorInvalidCodeObject
  deriving DecidableEq, Repr

/-- `CPUKernelAgent::AreDimensionsvalid`. -/
def areDimensionsValid (p : AQLPacket) : Bool :=
  match (((1 <<< (0 + 2)) - 1#16) &&& p.setup) >>> 0 with
  | 1#16 => p.gridSizeY == 1 && p.gridSizeZ == 1 &&
      p.workgroupSizeY == 1 && p.workgroupSizeZ == 1
  | 2#16 => p.gridSizeZ == 1 && p.workgroupSizeZ == 1
  | 3#16 => true
  | _ => false

/-- The local `HasIterations`. -/
def hasIterations (p : AQLPacket) : Bool :=
  !(p.workgroupSizeX == 0 || p.workgroupSizeY == 0 || p.workgroupSizeZ == 0)

/-- The local `ValidGroupMemory`: group memory was obtained or is not needed. -/
def validGroupMemory (p : AQLPacket) (groupMemory : Option ℕ) : Bool :=
  groupMemory.isSome || p.groupSegmentSize == 0

/-- What a kernel dispatch packet leads to. -/
inductive Dispatch
  | launch (kernel : Kernel)
  | callback (status : Status)

/-- The branches of the kernel dispatch case, in the order in which the source tests
them. -/
def dispatch (kernel : Option Kernel) (groupMemory : Option ℕ) (p : AQLPacket) : Dispatch :=
  let validDimensions := areDimensionsValid p
  let validType := isPacketTypeValid p.header
  let validMemory := validGroupMemory p groupMemory
  -- `K != nullptr && HasIterations && ValidDimensions && ValidType && ValidGroupMemory`
  match kernel.filter fun _ =>
      hasIterations p && validDimensions && validType && validMemory with
  | some k => .launch k
  | none =>
    if !validType then .callback .errorInvalidPacketFormat
    else if !validDimensions then .callback .errorIncompatibleArguments
    else if !validMemory then .callback .errorInvalidAllocation
    else .callback .errorInvalidCodeObject

/-- What the runtime fills in of `PHSAKernelLaunchData`. -/
structure LaunchData where
  dp : AQLPacket
  packetId : ℕ
  kernargAddr : ℕ

end PhsaRuntime
