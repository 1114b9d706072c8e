/-
SegmentedHeap.Heap.Data — the data of objects.

An object's data is so many bytes, zero when it is allocated. Each group
of four bytes is a *field*, which can hold a reference.

* `ObjectView` — all that can be seen of one object: type, length and
  bytes. A runtime that traces an object is given this and nothing else.
* `bytes`, `setBytes` — the data; the object has to be allocated.
* `readRef` — the reference in a field, or why there is none.
-/
import SegmentedHeap.Heap.Basic
import SegmentedHeap.LittleEndian
import SegmentedHeap.Text.HexDump

namespace SegmentedHeap

/-- Bytes of a reference in an object's data. -/
def refBytes : Nat := 4

/-- What can be seen of an object. Bytes past its capacity are zero. -/
structure ObjectView where
  tag : TypeTag
  /-- The recorded length, if its kind records one. -/
  length : Option Nat
  /-- Bytes of data. -/
  capacity : Nat
  byte : Nat → UInt8

namespace ObjectView

/-- The number of fields. -/
def refCapacity (v : ObjectView) : Nat := v.capacity / refBytes

/-- The number in `count` bytes from `start` on. -/
def number (v : ObjectView) (start count : Nat) : Nat :=
  LittleEndian.decode ((List.range count).map fun i => v.byte (start + i))

/-- The reference in a field, if the object has that field. -/
def ref? (v : ObjectView) (field : Nat) : Option ObjRef :=
  if field * refBytes + refBytes ≤ v.capacity then
    some ⟨UInt32.ofNat (v.number (field * refBytes) refBytes)⟩
  else none

/-- The references in the first `count` fields, those that the object
has not left out. -/
def refs (v : ObjectView) (count : Nat) : List ObjRef :=
  (List.range (min count v.refCapacity)).filterMap v.ref?

end ObjectView

namespace Heap

/-- The view of an allocated object. -/
def view? (h : Heap) (obj : ObjRef) : Option ObjectView := do
  let (segment, kind) ← h.object? obj
  let start := segment.base.advance (obj.offset.val * h.store.chunkBytes)
  let capacity := segment.chunks * h.store.chunkBytes
  return { tag := kind.tag
           length := match kind.length with
             | .untracked => none
             | .stored => segment.length? obj.offset
             | .constant n => some n
           capacity
           byte := fun i => if i < capacity then h.store.memory.read (start.advance i) else 0 }

def refCapacity (h : Heap) (obj : ObjRef) : Except Fault Nat := do
  return (← h.capacity obj) / refBytes

/-- The bytes of an object that has to be allocated. -/
def bytes (h : Heap) (obj : ObjRef) : Except Fault (List UInt8) := do
  if !h.isAllocated obj then throw .unallocated
  return h.store.memory.load (← h.addressOf obj) (← h.capacity obj)

/-- The 64-bit number at byte `start` of an object that has to be
allocated and to have these bytes. -/
def word64 (h : Heap) (obj : ObjRef) (start : Nat) : Except Fault UInt64 := do
  match h.view? obj with
  | none => throw .unallocated
  | some v =>
    if v.capacity < start + 8 then throw .outOfBounds
    return UInt64.ofNat (v.number start 8)

/-- Overwrites the bytes from `start` on of an object that has to be
allocated and to have them. -/
def setBytes (obj : ObjRef) (start : Nat) (bytes : List UInt8) : HeapM Unit := do
  if !(← get).isAllocated obj then throw (.fault .unallocated)
  let capacity ← ask (·.capacity obj)
  if capacity < start + bytes.length then throw (.fault .outOfBounds)
  let address ← ask (·.addressOf obj)
  modify fun h => { h with
    store := { h.store with memory := h.store.memory.store (address.advance start) bytes } }

/-- The reference in a field of an object. -/
def readRef (h : Heap) (obj : ObjRef) (field : Nat) : Except HeapError ObjRef :=
  match h.view? obj with
  | none => .error (.dangling obj)
  | some v =>
    match v.ref? field with
    | some r => .ok r
    | none => .error (.fieldOutOfRange obj field v.capacity)

end Heap

end SegmentedHeap
