/-
SegmentedHeap.Heap.Alloc — objects are handed out and come back.

A request is checked first against the kind that the layout gives it; a
small object then takes the lowest free slot of the segment at the front
of its kind's queue, or of a new segment if the queue is empty, and a
big one takes a segment of its own. The object's bytes are zeroed last.

* `request` — the checks, which change nothing.
* `claim` — a slot for a request.
* `alloc`, `free` — an object comes and goes.
* `allocMany` — several alike, as long as there is room.
-/
import SegmentedHeap.Heap.Data

namespace SegmentedHeap

/-- The byte written over objects that are released. -/
def freedByte : UInt8 := 0xfb

/-- A request that has passed its checks. -/
structure Request where
  kind : KindId
  spec : Kind
  /-- Chunks to be taken. -/
  chunks : Nat
  /-- The length to be stored, for kinds that store it. -/
  stored : Option Nat
deriving DecidableEq

namespace Heap

/-- The length that a kind has to store for a request of this length. -/
def storedLength (kind : KindId) (spec : Kind) (length : Nat) : Except HeapError (Option Nat) :=
  match spec.length with
  | .untracked => .ok none
  | .stored =>
    if Word.max32 < length then .error (.invalidSize length Word.max32) else .ok (some length)
  | .constant expected =>
    if length = expected then .ok none
    else .error (.lengthMismatch spec.tag kind length expected)

/-- The chunks that an object of a kind takes. -/
def requestedChunks (h : Heap) (spec : Kind) (length : Nat) : Except (Failure HeapError) Nat := do
  let needed ← Failure.ofExcept (h.layout.chunksFor spec.tag length)
  match spec.size with
  | .fixed chunks =>
    if chunks < needed then throw (.refused (.invalidSize needed chunks))
    return chunks
  | .big =>
    let chunks := max needed 1
    if h.maxBigChunks < chunks then throw (.refused (.invalidSize chunks h.maxBigChunks))
    return chunks

/-- Checks a request: the kind is in the table and of the type, the
length is one that it takes, and the chunks fit. -/
def request (h : Heap) (tag : TypeTag) (length : Nat) : Except (Failure HeapError) Request := do
  let kind ← Failure.ofExcept (h.layout.kindFor tag length)
  match h.kinds.get? kind with
  | none => throw (.refused (.unknownKind tag kind))
  | some spec =>
    if spec.tag != tag then throw (.refused (.kindMismatch tag kind spec.tag))
    let stored ← (storedLength kind spec length).mapError .refused
    return { kind, spec, chunks := ← h.requestedChunks spec length, stored }

/-! ## Claiming a slot -/

/-- Takes the lowest free slot of a segment, which has to be reserved and
at the front of its kind's queue; it leaves the queue when it is full. -/
def claimFrom (kind : KindId) (index : SegmentIndex) : HeapM (Option ObjRef) := do
  let (taken, segment) := (← ask (·.store.segment index)).takeSlot
  if segment.hasFree then
    modify (·.modifySegment index fun _ => segment)
  else
    modify fun h => { h.modifySegment index fun _ => segment.setQueued false with
      queues := h.queues.modify kind List.tail }
  return taken.map (ObjRef.ofSlot index)

/-- Takes a slot from the first segment of a queue that has one. -/
def claimQueued (kind : KindId) : (queue : List SegmentIndex) → HeapM (Option ObjRef)
  | [] => return none
  | index :: rest => do
    match ← claimFrom kind index with
    | some obj => return some obj
    | none => claimQueued kind rest

/-- The error of a request that found no room. -/
def exhausted (r : Request) (h : Heap) (_ : StoreError) : HeapError :=
  .exhausted (h.shortage r.kind r.chunks)

/-- A slot for a small object, in a new segment if need be. -/
def claimSmall (r : Request) : HeapM ObjRef := do
  match ← claimQueued r.kind ((← get).queues[r.kind]?.getD []) with
  | some obj => return obj
  | none =>
    let index ← onStore (Store.reserveSmall r.kind r.chunks r.spec.storesLength) (exhausted r)
    modify fun h => { h.modifySegment index (·.setQueued true) with
      queues := h.queues.modify r.kind (· ++ [index]) }
    match ← claimFrom r.kind index with
    | some obj => return obj
    | none => throw (.fault .badGeometry)

/-- A segment for a big object. -/
def claimBig (r : Request) : HeapM ObjRef := do
  let index ← onStore (Store.reserveBig r.kind r.chunks r.spec.storesLength) (exhausted r)
  let taken := (← ask (·.store.segment index)).takeSlot
  modify (·.modifySegment index fun _ => taken.2)
  match taken.1 with
  | some offset => return ObjRef.ofSlot index offset
  | none => throw (.refused (.dangling (ObjRef.ofSlot index .lowest)))

def claim (r : Request) : HeapM ObjRef := if r.spec.isBig then claimBig r else claimSmall r

/-! ## Allocating and freeing -/

/-- Makes a claimed slot an object: its bytes are zero, an uncollected
one is of generation two, and its length is stored. -/
def furnish (r : Request) (obj : ObjRef) : HeapM Unit := do
  let capacity ← ask (·.capacity obj)
  let address ← ask (·.addressOf obj)
  modify fun h => { h with
    store := { h.store with memory := h.store.memory.fill address capacity 0 } }
  if r.spec.uncollected then
    modify (·.modifySegment obj.segment (·.setGeneration obj.offset .two))
  if let some length := r.stored then
    let segment ← ask fun h => do (← h.segment obj).setLength obj.offset length
    modify (·.modifySegment obj.segment fun _ => segment)
  modify fun h => { h with
    allocations := h.allocations + 1
    metrics := h.metrics.recordAllocation capacity
      (.classify (capacity / h.store.chunkBytes) r.spec.isBig) }

/-- Allocates an object of a type and length. It is of generation zero,
or two if its kind is uncollected. -/
def alloc (tag : TypeTag) (length : Nat) : HeapM ObjRef := do
  match (← get).request tag length with
  | .error e => throw e
  | .ok r =>
    let obj ← claim r
    furnish r obj
    return obj

/-- Allocates so many objects of a type and length, up to the first that
is refused; the objects, and that refusal. -/
def allocMany (tag : TypeTag) (length : Nat) :
    (count : Nat) → HeapM (List ObjRef × Option HeapError)
  | 0 => return ([], none)
  | count + 1 => do
    match ← attempt (alloc tag length) with
    | .error e => return ([], some e)
    | .ok obj =>
      let (rest, e) ← allocMany tag length count
      return (obj :: rest, e)

/-- The heap without an allocated object: its bytes are overwritten if
the configuration asks for it, its slot is free, and the segment of a
big one is given back. -/
def discard (h : Heap) (obj : ObjRef) : Heap :=
  match h.store.segment? obj.segment with
  | none => h
  | some segment =>
    let h :=
      if h.config.debugFill then
        let address := segment.base.advance (obj.offset.val * h.store.chunkBytes)
        let capacity := segment.chunks * h.store.chunkBytes
        { h with store := { h.store with
            memory := h.store.memory.fill address capacity freedByte } }
      else h
    let h := h.modifySegment obj.segment (·.vacate obj.offset)
    if segment.isBig then { h with store := h.store.release obj.segment } else h

/-- The heap with a segment at the end of its kind's queue, unless it
waits there already or is not reserved. -/
def enqueue (h : Heap) (index : SegmentIndex) : Heap :=
  match h.store.segment? index with
  | none => h
  | some segment =>
    if segment.queued then h
    else { h.modifySegment index (·.setQueued true) with
      queues := h.queues.modify segment.kind (· ++ [index]) }

/-- Frees an object without waiting for a collection. -/
def free (obj : ObjRef) : HeapM Unit := do
  if !(← get).isAllocated obj then throw (.refused (.dangling obj))
  if ← ask (·.isUncollected obj) then throw (.refused (.notCollectable obj))
  modify fun h =>
    let h := h.discard obj
    let h := { h with metrics := h.metrics.recordFree }
    h.enqueue obj.segment

end Heap

end SegmentedHeap
