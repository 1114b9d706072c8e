/-
SegmentedHeap.Heap.Text — a heap and its objects laid out for reading.

* `Heap.describe` — all that is known of one object.
* `Heap.dump` — an object and its bytes.
* `Heap.text` — the occupancy, the queues, and every segment.
-/
import SegmentedHeap.Heap.Data

namespace SegmentedHeap

/-- All that a heap knows of an object, its bytes apart. -/
structure ObjectInfo where
  obj : ObjRef
  kind : KindId
  tag : TypeTag
  generation : Generation
  uncollected : Bool
  oldToNew : Bool
  chunks : Nat
  capacity : Nat
  refCapacity : Nat
  length : Option Nat
deriving DecidableEq

namespace Heap

def describe (h : Heap) (obj : ObjRef) : Except Fault ObjectInfo := do
  return {
    obj
    kind := ← h.kindOf obj
    tag := ← h.typeOf obj
    generation := ← h.generationOf obj
    uncollected := ← h.isUncollected obj
    oldToNew := ← h.inOldToNew obj
    chunks := ← h.chunksOf obj
    capacity := ← h.capacity obj
    refCapacity := ← h.refCapacity obj
    length := ← h.lengthOf obj }

/-- An object's type, kind and generation, and a dump of its bytes. -/
def dump (h : Heap) (obj : ObjRef) : Except Fault String := do
  let tag ← h.typeOf obj
  let kind ← h.kindOf obj
  let generation ← h.generationOf obj
  let bytes ← h.bytes obj
  return obj.text ++ s!" type {tag.toNat} kind {kind} gen {generation.toNat}\n"
    ++ Text.hexDump bytes

/-- The line of one kind's queue; nothing for an empty one. -/
def queueText (kind : KindId) (queue : List SegmentIndex) : String :=
  if queue.isEmpty then ""
  else s!"free list {kind}: ["
    ++ String.intercalate ", " (queue.map fun index => s!"SegmentIndex({index})") ++ "]\n"

def text (h : Heap) : String :=
  h.occupancy.text ++ "\n"
    ++ String.join (h.queues.toList.zipIdx.map fun (queue, kind) => queueText kind queue)
    ++ h.store.text

end Heap

end SegmentedHeap
