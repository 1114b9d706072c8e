/-
SegmentedHeap.Fault — how an operation can stop short.

An operation that cannot be carried out either *refuses*, with an error
that its caller is meant to handle, or meets a *fault*: it was called
outside its contract, and the run ends there.

* `Fault` — the contracts that a call can break.
* `Failure ε` — a refusal with an error of type `ε`, or a fault.
-/
import SegmentedHeap.Reference

namespace SegmentedHeap

/-- A broken contract. -/
inductive Fault where
  /-- The segment with this index is not reserved. -/
  | unreserved (index : SegmentIndex)
  /-- A tracer yielded a reference to no allocated object. -/
  | strayReference (obj : ObjRef)
  /-- The slot holds no object. -/
  | unallocated
  /-- A position past the end of a table, a stack or an object's data. -/
  | outOfBounds
  /-- No slots of this many chunks can be laid out in a segment. -/
  | badGeometry
  /-- A size that does not fit a word. -/
  | overflow
  | divisionByZero
  /-- A random choice from no values. -/
  | emptyRange
  /-- A list whose links never reach the end. -/
  | endless
deriving DecidableEq

namespace Fault

/-- The report of a fault, for those that say what was wrong. -/
def message? : Fault → Option String
  | .unreserved index => some s!"segment {index} is not reserved"
  | .strayReference obj => some ("tracer yielded invalid reference " ++ obj.text)
  | _ => none

end Fault

/-- Why an operation did not complete. -/
inductive Failure (ε : Type) where
  /-- It was refused; the caller may go on. -/
  | refused (error : ε)
  /-- A contract was broken; the run ends. -/
  | fault (fault : Fault)
deriving DecidableEq

namespace Failure

def map {ε ε' : Type} (f : ε → ε') : Failure ε → Failure ε'
  | .refused e => .refused (f e)
  | .fault f => .fault f

/-- A result that can only meet a fault, among those that can fail
either way. -/
def ofExcept {ε α : Type} : Except Fault α → Except (Failure ε) α
  | .ok a => .ok a
  | .error f => .error (.fault f)

end Failure

end SegmentedHeap
