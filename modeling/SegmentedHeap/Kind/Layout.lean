/-
SegmentedHeap.Kind.Layout — what a runtime tells the heap of its
objects' shapes.

A layout supplies the kind table and maps a requested type and length to
a kind and to a number of chunks. Its functions are the runtime's own,
so each of them may meet a fault.

* `ObjectLayout` — a layout.
* `RuleLayout` — a layout given by a table of rules.
-/
import SegmentedHeap.Fault
import SegmentedHeap.Kind
import SegmentedHeap.Word

namespace SegmentedHeap

/-- Shape knowledge supplied by a runtime. -/
structure ObjectLayout where
  /-- The kind table, read once when the heap is built. -/
  kinds : Except Fault (List Kind)
  /-- The kind of an object of this type and length. -/
  kindFor : TypeTag → Nat → Except Fault KindId
  /-- The chunks that an object of this type and length needs. -/
  chunksFor : TypeTag → Nat → Except Fault Nat

/-- The number of units of `unit` that cover `n`. -/
def ceilDiv (n unit : Nat) : Except Fault Nat :=
  if unit = 0 then .error .divisionByZero else .ok ((n + unit - 1) / unit)

/-- Objects of type `tag`, of lengths up to `maxLength` if there is one,
are of kind `kind` and take `unit` bytes for each unit of length after
the first `base`. -/
structure LayoutRule where
  tag : TypeTag
  maxLength : Option Nat
  kind : KindId
  unit : Nat := 1
  base : Nat := 0
deriving DecidableEq

/-- A layout given by rules, of which the first that covers a request
applies. -/
structure RuleLayout where
  kinds : List Kind
  rules : List LayoutRule
  chunkBytes : Nat
deriving DecidableEq

namespace LayoutRule

def covers (r : LayoutRule) (tag : TypeTag) (length : Nat) : Bool :=
  r.tag == tag && r.maxLength.all (length ≤ ·)

/-- Bytes for a length, at most the largest word at each step. -/
def bytes (r : LayoutRule) (length : Nat) : Nat :=
  min (Word.limit - 1) (min (Word.limit - 1) (length * r.unit) + r.base)

end LayoutRule

namespace RuleLayout

def rule? (l : RuleLayout) (tag : TypeTag) (length : Nat) : Option LayoutRule :=
  l.rules.find? (·.covers tag length)

/-- A type and length that no rule covers have a kind that no table
holds. -/
def kindFor (l : RuleLayout) (tag : TypeTag) (length : Nat) : KindId :=
  match l.rule? tag length with
  | some r => r.kind
  | none => maxKinds

def chunksFor (l : RuleLayout) (tag : TypeTag) (length : Nat) : Except Fault Nat :=
  match l.rule? tag length with
  | some r => ceilDiv (r.bytes length) l.chunkBytes
  | none => .ok 0

def toLayout (l : RuleLayout) : ObjectLayout where
  kinds := .ok l.kinds
  kindFor tag length := .ok (l.kindFor tag length)
  chunksFor := l.chunksFor

end RuleLayout

end SegmentedHeap
