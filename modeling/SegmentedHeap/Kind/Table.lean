/-
SegmentedHeap.Kind.Table — the kinds of a heap.

The table is checked once against the size of a segment and never
changes afterwards: it is not empty, not too long, and each small kind
takes at least one chunk and at most a whole segment.
-/
import SegmentedHeap.Error
import SegmentedHeap.Fault

namespace SegmentedHeap

structure KindTable where
  kinds : Array Kind
deriving DecidableEq, Inhabited

namespace KindTable

/-- What is wrong with the size of kind number `id`, if anything. -/
def sizeError? (segmentChunks : Nat) (id : KindId) (kind : Kind) : Option ConfigError :=
  match kind.size with
  | .fixed chunks =>
    if chunks = 0 then some (.emptyKind id)
    else if segmentChunks < chunks then some (.kindTooLarge id chunks segmentChunks)
    else none
  | .big => none

/-- The table of these kinds, checked against segments of
`segmentChunks` chunks. -/
def ofList (kinds : List Kind) (segmentChunks : Nat) : Except (Failure ConfigError) KindTable :=
  if kinds.isEmpty || maxKinds < kinds.length then .error (.refused (.kindCount maxKinds))
  else if 64 < segmentChunks then .error (.fault .badGeometry)
  else match kinds.zipIdx.findSome? fun (kind, id) => sizeError? segmentChunks id kind with
    | some e => .error (.refused e)
    | none => .ok ⟨kinds.toArray⟩

def get? (t : KindTable) (id : KindId) : Option Kind := t.kinds[id]?

/-- The kind with a number that has to be in the table. -/
def get (t : KindTable) (id : KindId) : Except Fault Kind :=
  match t.get? id with
  | some kind => .ok kind
  | none => .error .outOfBounds

def size (t : KindTable) : Nat := t.kinds.size

def toList (t : KindTable) : List Kind := t.kinds.toList

end KindTable

end SegmentedHeap
