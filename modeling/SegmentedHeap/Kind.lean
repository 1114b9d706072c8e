/-
SegmentedHeap.Kind — kinds of objects.

A kind binds an object type to a size class, to whether its objects are
ever swept, to where their length is kept, and to whether the runtime is
told before one is swept.
-/

namespace SegmentedHeap

/-- An object type, as the runtime numbers them. -/
abbrev TypeTag := UInt8

/-- A position in the kind table. -/
abbrev KindId := Nat

/-- Most kinds a table may hold, and so a number that names no kind. -/
def maxKinds : Nat := 0xffff

/-- The room that each object of a kind takes. -/
inductive ObjectSize where
  /-- So many chunks, in a segment shared with others of its kind. -/
  | fixed (chunks : Nat)
  /-- A segment to itself, sized from the requested length. -/
  | big
deriving DecidableEq, Inhabited

/-- Where the length of an object is kept. -/
inductive LengthRule where
  /-- Nowhere: the runtime knows it, or there is none. -/
  | untracked
  /-- In a table beside the data of the segment. -/
  | stored
  /-- In the kind: all its objects have this length. -/
  | constant (length : Nat)
deriving DecidableEq, Inhabited

structure Kind where
  tag : TypeTag
  size : ObjectSize
  /-- Never swept, but scanned whenever reached. -/
  uncollected : Bool := false
  length : LengthRule := .untracked
  /-- The runtime is told before an object of this kind is swept. -/
  finalize : Bool := false
deriving DecidableEq, Inhabited

namespace Kind

def isBig (k : Kind) : Bool := k.size == .big

def storesLength (k : Kind) : Bool := k.length == .stored

end Kind

end SegmentedHeap
