/-
SegmentedHeap.Heap.Sweep — what a collection does after marking.

* `sweep` — objects in scope that are not marked are released, and the
  others promoted.
* `renewOldToNew` — after promotion an object belongs to the
  old-to-new set exactly if it holds a reference to a younger object;
  only members of the set and objects that have just come of age need to
  be looked at.
* `rebuildQueues` — segments that became empty are given back, and
  those with a free slot queue up in the order of their indexes.
-/
import SegmentedHeap.Heap.Alloc
import SegmentedHeap.Heap.Mark

namespace SegmentedHeap

/-- The state of sweeping, with the log of a tracer. -/
structure Sweeping (σ : Type) where
  heap : Heap
  freed : Nat := 0
  freedChunks : Nat := 0
  promoted : Nat := 0
  /-- Objects that moved from generation one to two. -/
  aged : List ObjRef := []
  log : σ

namespace Segment

/-- The survivors among `live` whose generation a collection changes. -/
def moved (s : Segment) (level : Generation) (live : List Offset) : List Offset :=
  live.filter fun o => (s.generation o).promoted level != s.generation o

/-- The segment with these slots promoted. -/
def promote (s : Segment) (level : Generation) (slots : List Offset) : Segment :=
  slots.foldl (fun s o => s.setGeneration o ((s.generation o).promoted level)) s

end Segment

namespace Sweeping

variable {σ : Type}

/-- Sweeps one segment. All its finalizers run before any of its objects
is released. -/
def segment (tracer : Tracer σ) (level : Generation) (s : Sweeping σ) (index : SegmentIndex) :
    Sweeping σ :=
  match s.heap.store.segment? index with
  | none => s
  | some segment =>
    match s.heap.kinds.get? segment.kind with
    | none => s
    | some kind =>
      if kind.uncollected then s
      else
        let scope := segment.inScope level
        let dead := (scope \ segment.marked).members.map (ObjRef.ofSlot index)
        let moved := segment.moved level (scope ∩ segment.marked).members
        let log := if kind.finalize then
            dead.foldl (fun log obj => tracer.freed s.heap obj log) s.log
          else s.log
        let heap := dead.foldl Heap.discard s.heap
        { heap := heap.modifySegment index (·.promote level moved)
          freed := s.freed + dead.length
          freedChunks := s.freedChunks + dead.length * segment.chunks
          promoted := s.promoted + moved.length
          aged := s.aged ++
            (moved.filter fun o => segment.generation o == .one).map (ObjRef.ofSlot index)
          log }

end Sweeping

namespace Heap

variable {σ : Type}

def sweep (h : Heap) (tracer : Tracer σ) (level : Generation) (log : σ) : Sweeping σ :=
  h.store.indices.foldl (Sweeping.segment tracer level) { heap := h, log }

/-! ## The old-to-new set -/

/-- Every member of the old-to-new set. -/
def oldToNew (h : Heap) : List ObjRef :=
  h.store.entries.flatMap fun (index, segment) =>
    segment.oldToNew.members.map (ObjRef.ofSlot index)

/-- Whether an allocated object is of a generation below `g`. -/
def isYounger (h : Heap) (g : Generation) (obj : ObjRef) : Bool :=
  match h.object? obj with
  | some (segment, _) => segment.generation obj.offset < g
  | none => false

/-- Decides anew whether an allocated object belongs to the old-to-new
set. -/
def reconsider (tracer : Tracer σ) (h : Heap) (obj : ObjRef) : Heap :=
  match h.object? obj with
  | none => h
  | some (segment, _) =>
    if (h.refsOf tracer obj).any (h.isYounger (segment.generation obj.offset)) then
      h.modifySegment obj.segment (·.addOldToNew obj.offset)
    else h.modifySegment obj.segment (·.removeOldToNew obj.offset)

def clearOldToNew (h : Heap) : Heap :=
  { h with store := { h.store with
      segments := h.store.segments.map (Option.map Segment.clearOldToNew) } }

/-- The heap with its old-to-new set made exact after a collection, given
the objects that came of age in it. A full collection leaves no object
younger than another. -/
def renewOldToNew (h : Heap) (tracer : Tracer σ) (level : Generation) (aged : List ObjRef) :
    Heap :=
  if level = .two then h.clearOldToNew
  else (h.oldToNew ++ aged).foldl (reconsider tracer) h

/-- The number of members of the old-to-new set. -/
def oldToNewSize (h : Heap) : Nat :=
  Word.total (h.store.entries.map fun (_, segment) => segment.oldToNew.size)

/-! ## The queues of free slots -/

/-- Files one segment: a small one without objects is given back and
counted, one with a free slot joins its kind's queue. -/
def fileSegment : Heap × Nat → SegmentIndex → Heap × Nat
  | (h, released), index =>
    match h.store.segment? index with
    | none => (h, released)
    | some segment =>
      if segment.isBig then (h.modifySegment index (·.setQueued false), released)
      else if segment.isEmpty then ({ h with store := h.store.release index }, released + 1)
      else if segment.hasFree then
        ({ h.modifySegment index (·.setQueued true) with
           queues := h.queues.modify segment.kind (· ++ [index]) }, released)
      else (h.modifySegment index (·.setQueued false), released)

/-- The heap with its queues made anew, and the number of segments that
were given back. -/
def rebuildQueues (h : Heap) : Heap × Nat :=
  h.store.indices.foldl fileSegment
    ({ h with queues := h.queues.map fun _ => [] }, 0)

end Heap

end SegmentedHeap
