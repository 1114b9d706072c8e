/-
SegmentedHeap.Heap.Collect — collections, and allocation with a retry.

* `collect` — marks, sweeps, promotes, and rebuilds the old-to-new set
  and the queues, in that order. If references are to be checked, a
  stray one met while marking is a fault.
* `allocRetrying` — an allocation that finds no room is tried once more
  after a full collection, by `allocAgain`.
-/
import SegmentedHeap.Heap.Barrier
import SegmentedHeap.Heap.Sweep

namespace SegmentedHeap.Heap

variable {σ : Type}

/-- The rest of a collection after marking. -/
def reclaim (m : Marking) (tracer : Tracer σ) (level : Generation) (log : σ) :
    (CollectionReport × σ) × Heap :=
  let swept := m.heap.sweep tracer level log
  let heap := swept.heap.renewOldToNew tracer level swept.aged
  let oldToNew := heap.oldToNewSize
  let (heap, released) := heap.rebuildQueues
  let report : CollectionReport := {
    level, marked := m.counted, freed := swept.freed, freedChunks := swept.freedChunks
    promoted := swept.promoted, released, oldToNew }
  let heap := { heap with metrics := heap.metrics.recordCollection report }
  ((report, swept.log), heap.countCollection level)

/-- Collects the objects of generation `level` and below. -/
def collect (tracer : Tracer σ) (level : Generation) (log : σ) : HeapM (CollectionReport × σ) :=
  fun h =>
    let m := h.mark tracer level
    match if m.heap.config.checkRefs then m.stray else none with
    | some obj => .error (.fault (.strayReference obj)) m.heap
    | none =>
      let (result, heap) := reclaim m tracer level log
      .ok result heap

/-- The second try of an allocation that found no room, after a full
collection. What the caller still needs has to be reachable from the
tracer's roots. -/
def allocAgain (tracer : Tracer σ) (tag : TypeTag) (length : Nat) (log : σ) :
    HeapM (Except HeapError ObjRef × σ) := do
  modify fun h => { h with metrics := h.metrics.recordRetry }
  let (_, log) ← collect tracer .two log
  let retried ← attempt (alloc tag length)
  modify fun h => { h with metrics := h.metrics.recordRetried retried.isOk }
  return (retried, log)

/-- Allocates; on exhaustion collects everything and tries once more. -/
def allocRetrying (tracer : Tracer σ) (tag : TypeTag) (length : Nat) (log : σ) :
    HeapM (Except HeapError ObjRef × σ) := do
  match ← attempt (alloc tag length) with
  | .ok obj => return (.ok obj, log)
  | .error e => if e.isExhausted then allocAgain tracer tag length log else return (.error e, log)

end SegmentedHeap.Heap
