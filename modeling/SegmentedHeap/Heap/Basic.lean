/-
SegmentedHeap.Heap.Basic — the heap and what can be asked of it.

A heap is a store of segments, a table of kinds, and for each kind a
queue of the segments that have a free slot. Objects are named by
references only. A question about a reference is answered from the
segment that it points into, so it can be asked of a stale reference as
long as that segment is reserved; otherwise it is a fault.

* `Heap.create` — a heap, its configuration and kinds checked.
* `HeapM` — an operation on the heap; a failed one still yields the heap
  it leaves behind.
* `kindOf`, `typeOf`, `generationOf`, … — questions about a reference.
* `object?` — an allocated object, its segment and its kind.
* `occupancy`, `dueLevel` — the occupancy, and the collection that is due.
-/
import SegmentedHeap.Kind.Layout
import SegmentedHeap.Kind.Table
import SegmentedHeap.Metrics
import SegmentedHeap.Occupancy
import SegmentedHeap.Store

namespace SegmentedHeap

structure Heap where
  config : Config
  layout : ObjectLayout
  kinds : KindTable
  store : Store
  /-- For each kind the segments with a free slot, the first to be used
  first. -/
  queues : Array (List SegmentIndex)
  /-- Allocations since the last collection. -/
  allocations : Nat := 0
  /-- Collections since the last one at level one or two. -/
  youngCollections : Nat := 0
  /-- Collections at level one since the last one at level two. -/
  level1Collections : Nat := 0
  metrics : Metrics := {}

/-- An operation on the heap. -/
abbrev HeapM := EStateM (Failure HeapError) Heap

namespace Heap

/-- An empty heap. The configuration is checked first, then the layout
is asked for its kinds, and then these are checked. -/
def create (config : Config) (layout : ObjectLayout) (system : System) :
    Except (Failure ConfigError) Heap := do
  if let some e := config.error? then throw (.refused e)
  let kinds ← KindTable.ofList (← Failure.ofExcept layout.kinds) config.segmentChunks
  return { config, layout, kinds
           store := .ofConfig config system
           queues := Array.replicate kinds.size [] }

/-! ## Questions about a reference -/

/-- Whether the reference names an allocated object. -/
def isAllocated (h : Heap) (obj : ObjRef) : Bool := h.store.isValid obj

def segment (h : Heap) (obj : ObjRef) : Except Fault Segment := h.store.segment obj.segment

def kindOf (h : Heap) (obj : ObjRef) : Except Fault KindId := do
  return (← h.segment obj).kind

/-- The entry of the kind table for the reference. -/
def specOf (h : Heap) (obj : ObjRef) : Except Fault Kind := do
  h.kinds.get (← h.kindOf obj)

def typeOf (h : Heap) (obj : ObjRef) : Except Fault TypeTag := do
  return (← h.specOf obj).tag

def generationOf (h : Heap) (obj : ObjRef) : Except Fault Generation := do
  return (← h.segment obj).generation obj.offset

def isUncollected (h : Heap) (obj : ObjRef) : Except Fault Bool := do
  return (← h.specOf obj).uncollected

def inOldToNew (h : Heap) (obj : ObjRef) : Except Fault Bool := do
  return (← h.segment obj).inOldToNew obj.offset

def chunksOf (h : Heap) (obj : ObjRef) : Except Fault Nat := do
  return (← h.segment obj).chunks

/-- Bytes of the object's data. -/
def capacity (h : Heap) (obj : ObjRef) : Except Fault Nat := do
  return (← h.chunksOf obj) * h.store.chunkBytes

/-- The length recorded for the object, if its kind records one. -/
def lengthOf (h : Heap) (obj : ObjRef) : Except Fault (Option Nat) := do
  match (← h.specOf obj).length with
  | .untracked => return none
  | .stored => (← h.segment obj).storedLength obj.offset
  | .constant n => return some n

def addressOf (h : Heap) (obj : ObjRef) : Except Fault Address := h.store.addressOf obj

/-- An allocated object: its segment, and the kind that it is of. -/
def object? (h : Heap) (obj : ObjRef) : Option (Segment × Kind) :=
  if h.isAllocated obj then do
    let segment ← h.store.segment? obj.segment
    let kind ← h.kinds.get? segment.kind
    return (segment, kind)
  else none

/-- The most chunks that a big object may ask for. -/
def maxBigChunks (h : Heap) : Nat := Word.maxSize / h.store.chunkBytes

/-! ## Occupancy -/

/-- The statistics with the objects of one more segment. -/
def countSegment (h : Heap) (s : Occupancy) (segment : Segment) : Occupancy :=
  let s := { s with oldToNew := s.oldToNew + segment.oldToNew.size }
  if (h.kinds.get? segment.kind).any (·.uncollected) then
    let count := segment.allocated.size
    { s with
      uncollected := s.uncollected + count
      uncollectedChunks := s.uncollectedChunks + count * segment.chunks }
  else
    Generation.all.foldl (fun s g =>
      let count := (segment.inGeneration g).size
      { s with
        objects := s.objects.modify (· + count) g
        chunks := s.chunks.modify (· + count * segment.chunks) g }) s

def occupancy (h : Heap) : Occupancy :=
  h.store.entries.foldl (fun s (_, segment) => h.countSegment s segment)
    { totalBytes := h.store.totalBytes
      bigSegments := h.store.big
      smallSegments := h.store.reserved - h.store.big }

/-- The occupancy, as an error about a request states it. -/
def shortage (h : Heap) (kind : KindId) (chunks : Nat) : Shortage where
  segments := h.store.reserved
  segmentLimit := h.store.maxSegments
  bigSegments := h.store.big
  objects := h.occupancy.totalObjects
  kind := kind
  chunks := chunks

/-! ## The policy -/

/-- The level of the collection that the policy calls for now, if it
calls for one. -/
def dueLevel (h : Heap) : Option Generation :=
  let policy := h.config.policy
  if h.allocations < policy.youngThreshold then none
  else if h.youngCollections + 1 < max policy.level1Every 1 then some .zero
  else if h.level1Collections + 1 < max policy.level2Every 1 then some .one
  else some .two

/-- Counts a collection for the policy. -/
def countCollection (h : Heap) (level : Generation) : Heap :=
  let h := { h with allocations := 0 }
  match level with
  | .zero => { h with youngCollections := h.youngCollections + 1 }
  | .one => { h with youngCollections := 0, level1Collections := h.level1Collections + 1 }
  | .two => { h with youngCollections := 0, level1Collections := 0 }

/-! ## Operations -/

/-- A question whose answer may be a fault, asked of the current heap. -/
def ask {α : Type} (question : Heap → Except Fault α) : HeapM α := fun h =>
  match question h with
  | .ok a => .ok a h
  | .error f => .error (.fault f) h

/-- An operation of the store, its refusal explained by the heap. -/
def onStore {α : Type} (act : StoreM α) (explain : Heap → StoreError → HeapError) : HeapM α :=
  fun ⟨config, layout, kinds, store, queues, allocations, young, level1, metrics⟩ =>
    match act store with
    | .ok a store =>
      .ok a ⟨config, layout, kinds, store, queues, allocations, young, level1, metrics⟩
    | .error e store =>
      let h : Heap := ⟨config, layout, kinds, store, queues, allocations, young, level1, metrics⟩
      .error (e.map (explain h)) h

/-- The outcome of an operation, a refusal being one. -/
def attempt {α : Type} (act : HeapM α) : HeapM (Except HeapError α) := fun h =>
  match act h with
  | .ok a h => .ok (.ok a) h
  | .error (.refused e) h => .ok (.error e) h
  | .error (.fault f) h => .error (.fault f) h

/-- The heap with the segment at an index changed, if there is one. -/
def modifySegment (h : Heap) (index : SegmentIndex) (f : Segment → Segment) : Heap :=
  { h with store := h.store.modifySegment index f }

end Heap

end SegmentedHeap
