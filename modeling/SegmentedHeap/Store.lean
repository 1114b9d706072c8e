/-
SegmentedHeap.Store — the table of segments and the memory under it.

The store reserves segments, small ones from areas of pool blocks and
big ones with a block each, and takes them back. The index of a released
segment is used again before the table grows, the area of a small one
before another pool block is asked for; pool blocks are kept for good.

* `StoreM` — an operation on the store; a failed one still yields the
  store it leaves behind.
* `segment?`, `modifySegment` — the table, with `segment?_modifySegment`.
* `reserveSmall`, `reserveBig`, `release`.
* `addressOf`, `isValid` — what a reference stands for.
-/
import SegmentedHeap.Config
import SegmentedHeap.Segment

namespace SegmentedHeap

structure Store where
  /-- Binary logarithm of the bytes of a chunk. -/
  chunkBits : Nat
  segmentChunks : Nat
  segmentsPerBlock : Nat
  maxSegments : Nat
  system : System
  memory : Memory := {}
  /-- The segment table; an entry without a segment is vacant. -/
  segments : Array (Option Segment) := #[]
  /-- Vacant entries, the next to be used first. -/
  vacant : List SegmentIndex := []
  /-- Areas of pool blocks that no segment uses, the next to be used first. -/
  spare : List Address := []
  /-- The pool blocks, the latest first. -/
  blocks : List Block := []
  /-- Segments reserved. -/
  reserved : Nat := 0
  /-- Big segments reserved. -/
  big : Nat := 0
  /-- Bytes of the blocks of big segments. -/
  bigBytes : Nat := 0
deriving Inhabited

/-- An operation on the store. -/
abbrev StoreM := EStateM (Failure StoreError) Store

namespace Store

/-- An empty store of this geometry. -/
def ofConfig (config : Config) (system : System) : Store where
  chunkBits := Word.trailingZeros config.chunkBytes
  segmentChunks := config.segmentChunks
  segmentsPerBlock := config.segmentsPerBlock
  maxSegments := config.maxSegments
  system := system

/-! ## Geometry -/

def chunkBytes (s : Store) : Nat := Nat.pow 2 s.chunkBits

/-- Bytes of a chunk, of which there is no word if the configured size
had no set bit. -/
def chunkBytes? (s : Store) : Except Fault Nat :=
  if s.chunkBits < 64 then .ok s.chunkBytes else .error .overflow

/-- Bytes of a small segment. Bits that leave the word are lost. -/
def segmentBytes? (s : Store) : Except Fault Nat :=
  if s.chunkBits < 64 then .ok (s.segmentChunks * s.chunkBytes % Word.limit)
  else .error .overflow

/-- Bytes obtained from the system. -/
def totalBytes (s : Store) : Nat := Word.total (s.blocks.map Block.size) + s.bigBytes

/-! ## The table -/

def segment? (s : Store) (index : SegmentIndex) : Option Segment := (s.segments[index]?).join

/-- The segment at an index that has to be reserved. -/
def segment (s : Store) (index : SegmentIndex) : Except Fault Segment :=
  match s.segment? index with
  | some segment => .ok segment
  | none => .error (.unreserved index)

/-- The store with the segment at `index` changed, if there is one. -/
def modifySegment (s : Store) (index : SegmentIndex) (f : Segment → Segment) : Store :=
  { s with segments := s.segments.modify index (Option.map f) }

/-- The indexes of reserved segments, in increasing order. -/
def indices (s : Store) : List SegmentIndex :=
  (List.range s.segments.size).filter fun index => (s.segment? index).isSome

/-- The reserved segments with their indexes, in increasing order. -/
def entries (s : Store) : List (SegmentIndex × Segment) :=
  (List.range s.segments.size).filterMap fun index => (s.segment? index).map (index, ·)

@[simp] theorem segment?_modifySegment (s : Store) (i j : SegmentIndex) (f : Segment → Segment) :
    (s.modifySegment i f).segment? j =
      if i = j then (s.segment? j).map f else s.segment? j := by
  simp only [segment?, modifySegment, Array.getElem?_modify]
  by_cases h : i = j
  · subst h
    cases s.segments[i]? with
    | none => simp
    | some o => cases o <;> simp
  · simp [h]

/-! ## References -/

/-- Where the data of a slot starts; its segment has to be reserved. -/
def addressOf (s : Store) (obj : ObjRef) : Except Fault Address := do
  let segment ← s.segment obj.segment
  return segment.base.advance (obj.offset.val * s.chunkBytes)

/-- The bytes from the data of `source` to that of `target`, both in one
region. Both segments have to be reserved; that of the target is looked
up first, and so is the one reported if neither is. -/
def displacement (s : Store) (source target : ObjRef) : Except Fault Int := do
  let stop ← s.addressOf target
  let start ← s.addressOf source
  return start.distance stop

/-- Whether the reference names an allocated object. -/
def isValid (s : Store) (obj : ObjRef) : Bool :=
  !obj.isNull && (s.segment? obj.segment).any (·.isAllocated obj.offset)

/-! ## Reserving -/

def lift {α : Type} (x : Except Fault α) : StoreM α := fun s =>
  match x with
  | .ok a => .ok a s
  | .error f => .error (.fault f) s

/-- Refuses once the limit on segments is reached. -/
def checkLimit : StoreM Unit := do
  let s ← get
  if s.maxSegments ≤ s.reserved then throw (.refused (.segmentLimit s.maxSegments))

/-- An area of a new pool block; the others become spare, and the lowest
is used first. -/
def growPool : StoreM Address := do
  let areaBytes ← lift (← get).segmentBytes?
  let size ← lift (Word.mul areaBytes (← get).segmentsPerBlock)
  let s ← get
  match Block.pool s.system s.totalBytes s.memory size with
  | .error e => throw (.refused (.block e))
  | .ok (block, memory) =>
    match ← lift (block.areas areaBytes) with
    | [] =>
      set { s with memory, blocks := block :: s.blocks }
      throw (.refused (.block .outOfMemory))
    | area :: rest =>
      set { s with memory, blocks := block :: s.blocks, spare := rest ++ s.spare }
      return area

/-- A spare area, or one of a new pool block. -/
def takeArea : StoreM Address := do
  let s ← get
  match s.spare with
  | area :: spare =>
    set { s with spare }
    return area
  | [] => growPool

/-- Enters a segment into the table, at the vacant entry used last or
at the end. -/
def install (segment : Segment) : StoreM SegmentIndex :=
  modifyGet fun s =>
    match s.vacant with
    | index :: vacant =>
      (index, { s with
        vacant
        segments := s.segments.setIfInBounds index (some segment)
        reserved := s.reserved + 1 })
    | [] =>
      (s.segments.size, { s with
        segments := s.segments.push (some segment)
        reserved := s.reserved + 1 })

/-- Reserves a small segment of a kind, with every slot free. -/
def reserveSmall (kind : KindId) (chunks : Nat) (stored : Bool) : StoreM SegmentIndex := do
  checkLimit
  let area ← takeArea
  let limit := (← get).segmentChunks
  install (← lift (Segment.small kind chunks limit area stored))

/-- Reserves a segment for one object of `chunks` chunks. -/
def reserveBig (kind : KindId) (chunks : Nat) (stored : Bool) : StoreM SegmentIndex := do
  checkLimit
  let chunkBytes ← lift (← get).chunkBytes?
  let bytes := chunks * chunkBytes
  if Word.limit ≤ bytes then throw (.refused (.block .badSize))
  let s ← get
  match Block.single s.system s.totalBytes s.memory bytes chunkBytes with
  | .error e => throw (.refused (.block e))
  | .ok (block, memory) =>
    set { s with memory, big := s.big + 1, bigBytes := s.bigBytes + block.size }
    install (Segment.big kind chunks block stored)

/-- The store with the segment at `index` taken back: its entry is
vacant, its area spare or its block returned to the system. Nothing
happens at a vacant entry. -/
def release (s : Store) (index : SegmentIndex) : Store :=
  match s.segment? index with
  | none => s
  | some segment =>
    let s := { s with
      segments := s.segments.setIfInBounds index none
      reserved := s.reserved - 1
      vacant := index :: s.vacant }
    match segment.backing with
    | .pooled area => { s with spare := area :: s.spare }
    | .dedicated block => { s with
        big := s.big - 1
        bigBytes := s.bigBytes - block.size
        memory := s.memory.release block.region }

/-- `release` for an index that has to lie in the table. -/
def releaseAt (index : SegmentIndex) : StoreM Unit := do
  if (← get).segments.size ≤ index then throw (.fault .outOfBounds)
  modify (·.release index)

/-- The written form: the segments, then a line of totals. -/
def text (s : Store) : String :=
  String.join (s.entries.map fun (index, segment) => s!"[{index}] " ++ segment.text)
    ++ s!"{s.reserved} segments ({s.big} big), {s.blocks.length} pool blocks, "
    ++ s!"{s.spare.length} spare areas\n"

end Store

end SegmentedHeap
