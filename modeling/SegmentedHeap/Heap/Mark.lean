/-
SegmentedHeap.Heap.Mark — the objects that a collection keeps.

A collection at a level considers the objects of that generation and
below. It keeps those that it reaches from the roots and, below level
two, from the older members of the old-to-new set. An uncollected object
is scanned when it is reached, whatever its age.

Marking visits references one by one: `Marking.visit` marks the object a
reference names and puts it at the end of the row of reached objects,
and `Marking.drain` scans that row in order while it grows. A row never
holds an object twice, so it is at most as long as there are slots, and
that many passes are enough.
-/
import SegmentedHeap.Heap.Tracer

namespace SegmentedHeap

/-- The state of marking. -/
structure Marking where
  heap : Heap
  /-- The marked objects, in the order in which they were reached. -/
  reached : Array ObjRef := #[]
  /-- How many of them are of kinds that are collected. -/
  counted : Nat := 0
  /-- The first reference met that names no object, and is not null. -/
  stray : Option ObjRef := none

namespace Marking

/-- Whether a collection at `level` marks this object of a segment. -/
def eligible (level : Generation) (segment : Segment) (kind : Kind) (o : Offset) : Bool :=
  (kind.uncollected || segment.generation o ≤ level) && !segment.isMarked o

/-- Marks the object that a reference names, unless it is out of scope or
marked already. -/
def visit (level : Generation) (m : Marking) (obj : ObjRef) : Marking :=
  if obj.isNull then m
  else match m.heap.object? obj with
    | none => { m with stray := m.stray <|> some obj }
    | some (segment, kind) =>
      if eligible level segment kind obj.offset then
        { m with
          heap := m.heap.modifySegment obj.segment (·.mark obj.offset)
          reached := m.reached.push obj
          counted := if kind.uncollected then m.counted else m.counted + 1 }
      else m

def visitAll (level : Generation) (m : Marking) (objs : List ObjRef) : Marking :=
  objs.foldl (visit level) m

/-- Visits the references that an object holds. -/
def scan {σ : Type} (tracer : Tracer σ) (level : Generation) (m : Marking) (obj : ObjRef) :
    Marking :=
  m.visitAll level (m.heap.refsOf tracer obj)

/-- Scans the reached objects from position `next` on, those that this
reaches included, in at most `passes` passes. -/
def drain {σ : Type} (tracer : Tracer σ) (level : Generation) :
    (passes next : Nat) → Marking → Marking
  | 0, _, m => m
  | passes + 1, next, m =>
    match m.reached[next]? with
    | none => m
    | some obj => drain tracer level passes (next + 1) (m.scan tracer level obj)

end Marking

namespace Heap

/-- The slots of the segment table, reserved or not. -/
def slotCount (h : Heap) : Nat := 64 * h.store.segments.size

def clearMarks (h : Heap) : Heap :=
  { h with store := { h.store with
      segments := h.store.segments.map (Option.map Segment.clearMarks) } }

/-- The members of the old-to-new set that a collection at `level` does
not consider. -/
def remembered (h : Heap) (level : Generation) : List ObjRef :=
  h.store.entries.flatMap fun (index, segment) =>
    (segment.oldToNew \ segment.inScope level).members.map (ObjRef.ofSlot index)

/-- Marks all that a collection at `level` keeps. -/
def mark {σ : Type} (h : Heap) (tracer : Tracer σ) (level : Generation) : Marking :=
  let h := h.clearMarks
  let start : Marking := { heap := h }
  let rooted := start.visitAll level tracer.roots
  let grey := if level = .two then rooted
    else (rooted.heap.remembered level).foldl (Marking.scan tracer level) rooted
  grey.drain tracer level (h.slotCount + 1) 0

end Heap

end SegmentedHeap
