import PhsaRuntime.HsaStatus
import PhsaRuntime.Lib.Blocks
import PhsaRuntime.Lib.Machine
import PhsaRuntime.Lib.OrderedMap
import PhsaRuntime.Lib.Ring

/-!
# Fixed memory regions

`FixedMemoryRegion` hands out the addresses of a fixed range. The live blocks are a map from
their bases to their sizes; an allocation is placed after the last block, or, where that
fails, in the first gap between two neighbours that is large enough.

All sums are `size_t` sums, modulo `2 ^ 64`. Pointers are addresses, and 0 is the null
pointer, which is also what the source takes for "no place found yet".

## Main definitions

* `FixedMemoryRegion.allocate`, `FixedMemoryRegion.free` — the calls.
* `FixedMemoryRegion.hsaMemoryAllocate` — the API function over them.
* `regionMachine` — a region and any sequence of calls.
-/

namespace PhsaRuntime

/-- The state of a region. -/
structure FixedMemoryRegion where
  /-- All chunks of memory allocated so far. -/
  allocations : OrderedMap ℕ ℕ
  startAddress : ℕ
  /-- First free address at the end of region. -/
  freeSpaceStart : ℕ
  regionSize : ℕ
  /-- The last byte address inside the region. -/
  regionEnd : ℕ

namespace FixedMemoryRegion

/-- `FixedMemoryRegion::FixedMemoryRegion`. -/
def create (regionStart size : ℕ) : FixedMemoryRegion where
  allocations := .empty
  startAddress := regionStart
  freeSpaceStart := regionStart
  regionSize := size
  regionEnd := Word.toUInt64 (regionStart + size - 1)

/-- `FixedMemoryRegion::getMaxAllocSize`. -/
def getMaxAllocSize (r : FixedMemoryRegion) : ℕ := r.regionSize

/-- `FixedMemoryRegion::getRuntimeAllocAllowed`. -/
def getRuntimeAllocAllowed (_ : FixedMemoryRegion) : Bool := true

/-- `FreeSpaceStart` after the update from the last chunk, if there is one. -/
def freeSpaceStartNow (r : FixedMemoryRegion) : ℕ :=
  match r.allocations.last? with
  | some chunk => Word.wrap (chunk.1 + chunk.2)
  | none => r.freeSpaceStart

/-- `Addr` and `FreeSpaceStart` after the attempt to allocate from the end. -/
def allocateAtEnd (r : FixedMemoryRegion) (size align : ℕ) : ℕ × ℕ :=
  let freeSpaceStart := r.freeSpaceStartNow
  if Word.wrap (freeSpaceStart + size + padding freeSpaceStart align) ≤ r.regionEnd then
    let addr := Word.wrap (freeSpaceStart + padding freeSpaceStart align)
    (addr, Word.wrap (addr + size))
  else (0, freeSpaceStart)

/-- The walk over the chunks for the first fragment that is large enough: its padded
address, or 0. -/
def findFragment (size align : ℕ) : List (ℕ × ℕ) → ℕ
  | chunk :: next :: rest =>
    let chunkEnd := Word.wrap (chunk.1 + chunk.2)
    if Word.wrap (chunkEnd + size + padding chunkEnd align) ≤ next.1 then
      Word.wrap (chunkEnd + padding chunkEnd align)
    else findFragment size align (next :: rest)
  | _ => 0

/-- `Addr` after both attempts. -/
def place (r : FixedMemoryRegion) (size align : ℕ) : ℕ :=
  if (r.allocateAtEnd size align).1 = 0 then findFragment size align r.allocations.entries
  else (r.allocateAtEnd size align).1

/-- `FixedMemoryRegion::allocate`: the pointer returned, or `none` where the process
aborts. The `return NULL` after the failure report is behind an `abort()`. -/
def allocate (r : FixedMemoryRegion) (size align : ℕ) : Option (ℕ × FixedMemoryRegion) :=
  let addr := r.place size align
  -- `assert(Align > 0)`, `abort()`, `assert(Addr % Align == 0)`
  if align = 0 ∨ addr = 0 ∨ addr % align ≠ 0 then none
  else some (addr,
    { r with
      freeSpaceStart := (r.allocateAtEnd size align).2
      allocations := r.allocations.insert addr size })

/-- `FixedMemoryRegion::free`. -/
def free (r : FixedMemoryRegion) (ptr : ℕ) : Bool × FixedMemoryRegion :=
  let allocations := r.allocations.erase ptr
  (r.allocations.entries.length > allocations.entries.length, { r with allocations })

/-- `hsa_memory_allocate` on the region with the given handle, if there is one: the status,
and, where the region was asked, the value of `*ptr` and the region afterwards. -/
def hsaMemoryAllocate (initialized : Bool) (region : Option FixedMemoryRegion) (size : ℕ)
    (ptrIsNull : Bool) : Option (HsaStatus × Option (ℕ × FixedMemoryRegion)) :=
  if !initialized then some (.errorNotInitialized, none)
  else if size = 0 ∨ ptrIsNull then some (.errorInvalidArgument, none)
  else match region with
    | none => some (.errorInvalidRegion, none)
    | some r =>
      if size > r.getMaxAllocSize ∨ !r.getRuntimeAllocAllowed then
        some (.errorInvalidAllocation, none)
      else (r.allocate size 128).map fun res =>
        (if res.1 = 0 then .errorOutOfResources else .success, some res)

/-- The live blocks. -/
def live (r : FixedMemoryRegion) : Set (ℕ × ℕ) := {b | b ∈ r.allocations}

@[simp] theorem mem_live {r : FixedMemoryRegion} {b : ℕ × ℕ} :
    b ∈ r.live ↔ b ∈ r.allocations := Iff.rfl

end FixedMemoryRegion

/-! ## Runs -/

/-- The calls. -/
inductive RegionAction
  | allocate (size align : ℕ)
  | free (ptr : ℕ)
  deriving DecidableEq, Repr

/-- A region from `regionStart` on and its callers; `none` is an aborted process. -/
def regionMachine (regionStart size : ℕ) : Machine (Option FixedMemoryRegion) RegionAction where
  init s := s = some (.create regionStart size)
  step a s := s.map fun r => match a with
    | .allocate size align => (r.allocate size align).map Prod.snd
    | .free ptr => some (r.free ptr).2

end PhsaRuntime
