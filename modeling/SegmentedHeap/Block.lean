/-
SegmentedHeap.Block — pieces of memory obtained from the system.

Small segments are carved from *pool blocks*: a pool block is a power of
two long, is aligned to its own size, and is cut into equal areas. A big
object has a block to itself, of the size it needs.

A request is refused as malformed when its alignment is not a power of
two or its size, rounded up to the alignment, is more than one object in
memory may have; a well-formed one can still be refused by the system.
-/
import SegmentedHeap.Error
import SegmentedHeap.Memory

namespace SegmentedHeap

/-- A region granted by the system, with its size. -/
structure Block where
  region : Nat
  size : Nat
deriving DecidableEq, Inhabited

namespace Block

/-- Whether a request of this size and alignment is well formed. -/
def wellFormed (size align : Nat) : Bool :=
  Word.isPowerOfTwo align && size + (align - 1) ≤ Word.maxSize

/-- A block of `size` bytes aligned to `align`, asked for by one who
holds `held` bytes. -/
def reserve (system : System) (held : Nat) (m : Memory) (size align : Nat) :
    Except BlockError (Block × Memory) :=
  if !wellFormed size align then .error .badSize
  else if !system.grants held size align then .error .outOfMemory
  else
    let (region, m) := m.reserve
    .ok (⟨region, size⟩, m)

/-- A pool block: a power of two long, and aligned to its size. -/
def pool (system : System) (held : Nat) (m : Memory) (size : Nat) :
    Except BlockError (Block × Memory) :=
  if Word.isPowerOfTwo size then reserve system held m size size else .error .badSize

/-- A block for one object; it holds a byte even if none is asked. -/
def single (system : System) (held : Nat) (m : Memory) (size align : Nat) :
    Except BlockError (Block × Memory) :=
  reserve system held m (max size 1) align

def base (b : Block) : Address := ⟨b.region, 0⟩

/-- The areas of `areaBytes` bytes that a block is cut into, lowest
first. The block has to be a whole number of areas. -/
def areas (b : Block) (areaBytes : Nat) : Except Fault (List Address) :=
  if 0 < areaBytes ∧ b.size % areaBytes = 0 then
    .ok ((List.range (b.size / areaBytes)).map fun i => ⟨b.region, i * areaBytes⟩)
  else .error .badGeometry

/-- Whether the position this far from the block's start is in it. -/
def contains (b : Block) (displacement : Int) : Bool :=
  0 ≤ displacement && displacement < b.size

end Block

end SegmentedHeap
