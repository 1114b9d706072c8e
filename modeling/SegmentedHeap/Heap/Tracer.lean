/-
SegmentedHeap.Heap.Tracer — what the collector learns from a runtime.

The collector knows nothing of the shapes of objects. A tracer tells it
the roots, and for each object the references that it holds: those in
its data, which depend on the object's view alone, so that objects with
the same type, length and bytes hold the same ones, and those that the
runtime keeps for this very object in a table of its own. A tracer may
also keep a log of the objects that are about to be swept.

* `Tracer` — the roots, the references of an object, and the log.
* `ScanTable` — which fields of which types hold references.
-/
import SegmentedHeap.Heap.Data

namespace SegmentedHeap

/-- Object graph knowledge, with a log of type `σ`. -/
structure Tracer (σ : Type) where
  roots : List ObjRef
  /-- The references in an object's data; null ones are ignored. -/
  refs : ObjectView → List ObjRef
  /-- The references that are kept for an object outside the heap. -/
  tied : ObjRef → List ObjRef := fun _ => []
  /-- The log with an entry for an object about to be swept, seen in the
  heap that still holds it. -/
  freed : Heap → ObjRef → σ → σ := fun _ _ log => log

/-- The references that an allocated object holds. -/
def Heap.refsOf {σ : Type} (h : Heap) (tracer : Tracer σ) (obj : ObjRef) : List ObjRef :=
  match h.view? obj with
  | some v => tracer.refs v ++ tracer.tied obj
  | none => []

/-- How many of an object's first fields hold references. -/
inductive ScanRule where
  | first (count : Nat)
  /-- As many as its length; none if it has no length. -/
  | length
  | all
deriving DecidableEq

/-- A rule for each of some types; objects of other types hold no
references. -/
structure ScanTable where
  rules : List (TypeTag × ScanRule)
deriving DecidableEq

namespace ScanTable

def fields (t : ScanTable) (v : ObjectView) : Nat :=
  match t.rules.lookup v.tag with
  | none => 0
  | some (.first count) => count
  | some .length => v.length.getD 0
  | some .all => v.refCapacity

def refs (t : ScanTable) (v : ObjectView) : List ObjRef := v.refs (t.fields v)

end ScanTable

end SegmentedHeap
