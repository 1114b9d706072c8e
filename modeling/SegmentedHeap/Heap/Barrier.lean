/-
SegmentedHeap.Heap.Barrier — stores that the collector has to know of.

A collection of the young finds the young objects that only old ones
refer to through the old-to-new set. So an old object that is given a
reference to a younger one has to join that set: `writeRef` stores a
reference and sees to it, `register` sees to it alone.
-/
import SegmentedHeap.Heap.Data

namespace SegmentedHeap.Heap

/-- Notes that `source` refers to `target`: it joins the old-to-new set
if the target is strictly younger. Nothing is done if either is null;
otherwise the segments of both have to be reserved. -/
def register (source target : ObjRef) : HeapM Unit := do
  if source.isNull || target.isNull then return ()
  let younger ← ask (·.generationOf target)
  let older ← ask (·.generationOf source)
  if younger < older then
    modify (·.modifySegment source.segment (·.addOldToNew source.offset))

/-- Stores a reference in a field of `source`, and registers it. -/
def writeRef (source : ObjRef) (field : Nat) (target : ObjRef) : HeapM Unit := do
  match (← get).readRef source field with
  | .error e => throw (.refused e)
  | .ok _ =>
    setBytes source (field * refBytes) (LittleEndian.encode refBytes target.raw.toNat)
    register source target

/-- Makes every field of an object null, up to the first that cannot be
written. -/
def clearRefs (obj : ObjRef) : HeapM Unit := do
  let count ← ask (·.refCapacity obj)
  (List.range count).forM fun field => writeRef obj field .null

end SegmentedHeap.Heap
