/-
SegmentedHeap.Segment — the unit in which memory is handed to kinds.

A segment holds equal slots for the small objects of one kind, or one
big object. What is known of the objects is kept in offset sets beside
the data, never in it: the slots that are free, the generations, the
marks, and which objects are in the *old-to-new* set, those that may
hold a reference to a younger object.

* `Segment.small`, `Segment.big` — a segment with every slot free.
* `allocated`, `inGeneration`, `inScope` — its objects, as sets.
* `takeSlot`, `releaseSlot` — a slot is handed out and comes back.
-/
import SegmentedHeap.Block
import SegmentedHeap.OffsetSet
import SegmentedHeap.Generation
import SegmentedHeap.Kind

namespace SegmentedHeap

/-- Where the data of a segment lies. -/
inductive Backing where
  /-- An area of a pool block. -/
  | pooled (area : Address)
  /-- A block of its own. -/
  | dedicated (block : Block)
deriving DecidableEq, Inhabited

structure Segment where
  kind : KindId
  /-- Chunks of each object. -/
  chunks : Nat
  backing : Backing
  /-- The offsets at which objects start. -/
  slots : OffsetSet
  /-- The slots that hold no object. -/
  free : OffsetSet
  /-- The slots of generation one. -/
  gen1 : OffsetSet := ∅
  /-- The slots of generation two. -/
  gen2 : OffsetSet := ∅
  marked : OffsetSet := ∅
  oldToNew : OffsetSet := ∅
  /-- Lengths by offset, for kinds that store them. -/
  lengths : Option (Array Nat)
  /-- Whether the segment waits in its kind's queue of free slots. -/
  queued : Bool := false
deriving DecidableEq, Inhabited

namespace Segment

/-- A segment of `limit` chunks cut into slots of `chunks` chunks. -/
def small (kind : KindId) (chunks limit : Nat) (area : Address) (stored : Bool) :
    Except Fault Segment := do
  let slots ← OffsetSet.slotStarts? chunks limit
  return { kind, chunks, backing := .pooled area, slots, free := slots,
           lengths := if stored then some (Array.replicate limit 0) else none }

/-- A segment for one object of `chunks` chunks. -/
def big (kind : KindId) (chunks : Nat) (block : Block) (stored : Bool) : Segment :=
  { kind, chunks, backing := .dedicated block, slots := {Offset.lowest}, free := {Offset.lowest},
    lengths := if stored then some #[0] else none }

def isBig (s : Segment) : Bool :=
  match s.backing with
  | .pooled _ => false
  | .dedicated _ => true

/-- Where the data starts. -/
def base (s : Segment) : Address :=
  match s.backing with
  | .pooled area => area
  | .dedicated block => block.base

/-! ## The objects -/

/-- The slots that hold an object. -/
def allocated (s : Segment) : OffsetSet := s.slots \ s.free

def isAllocated (s : Segment) (o : Offset) : Bool := s.slots.contains o && !s.free.contains o

def hasFree (s : Segment) : Bool := !s.free.isEmpty

/-- Whether the segment holds no object. -/
def isEmpty (s : Segment) : Bool := s.free == s.slots

def generation (s : Segment) (o : Offset) : Generation :=
  if s.gen2.contains o then .two else if s.gen1.contains o then .one else .zero

/-- The objects of a generation. -/
def inGeneration (s : Segment) : Generation → OffsetSet
  | .zero => s.allocated \ (s.gen1 ∪ s.gen2)
  | .one => s.allocated ∩ s.gen1
  | .two => s.allocated ∩ s.gen2

/-- The objects that a collection at a level considers. -/
def inScope (s : Segment) : Generation → OffsetSet
  | .zero => s.inGeneration .zero
  | .one => s.allocated \ s.gen2
  | .two => s.allocated

def isMarked (s : Segment) (o : Offset) : Bool := s.marked.contains o

def inOldToNew (s : Segment) (o : Offset) : Bool := s.oldToNew.contains o

/-! ## Changes -/

def setGeneration (s : Segment) (o : Offset) : Generation → Segment
  | .zero => { s with gen1 := s.gen1.erase o, gen2 := s.gen2.erase o }
  | .one => { s with gen1 := s.gen1.insert o, gen2 := s.gen2.erase o }
  | .two => { s with gen1 := s.gen1.erase o, gen2 := s.gen2.insert o }

def mark (s : Segment) (o : Offset) : Segment := { s with marked := s.marked.insert o }

def clearMarks (s : Segment) : Segment := { s with marked := ∅ }

def addOldToNew (s : Segment) (o : Offset) : Segment :=
  { s with oldToNew := s.oldToNew.insert o }

def removeOldToNew (s : Segment) (o : Offset) : Segment :=
  { s with oldToNew := s.oldToNew.erase o }

def clearOldToNew (s : Segment) : Segment := { s with oldToNew := ∅ }

def setQueued (s : Segment) (queued : Bool) : Segment := { s with queued }

/-- The segment with its lowest free slot handed out. -/
def takeSlot (s : Segment) : Option Offset × Segment :=
  match s.free.first? with
  | some o => (some o, { s with free := s.free.erase o })
  | none => (none, s)

/-- The segment with a slot free again and nothing known of it. -/
def vacate (s : Segment) (o : Offset) : Segment :=
  { s with
    free := s.free.insert o
    gen1 := s.gen1.erase o
    gen2 := s.gen2.erase o
    marked := s.marked.erase o
    oldToNew := s.oldToNew.erase o
    lengths := s.lengths.map (·.setIfInBounds o.val 0) }

/-- `vacate` for a slot that has to hold an object. -/
def releaseSlot (s : Segment) (o : Offset) : Except Fault Segment :=
  if s.isAllocated o then .ok (s.vacate o) else .error .unallocated

/-! ## Stored lengths -/

/-- The stored length of an object, if the segment stores any. -/
def length? (s : Segment) (o : Offset) : Option Nat :=
  s.lengths.bind fun lengths => lengths[o.val]?

/-- The stored length at a position, which has to lie inside the table of
lengths if there is one. -/
def storedLength (s : Segment) (position : Nat) : Except Fault (Option Nat) :=
  match s.lengths with
  | none => .ok none
  | some lengths =>
    match lengths[position]? with
    | some n => .ok (some n)
    | none => .error .outOfBounds

/-- The segment with a length stored at a position, which has to lie
inside the table of lengths; unchanged if it stores none. -/
def setLength (s : Segment) (position n : Nat) : Except Fault Segment :=
  match s.lengths with
  | none => .ok s
  | some lengths =>
    if position < lengths.size then
      .ok { s with lengths := some (lengths.setIfInBounds position n) }
    else .error .outOfBounds

/-- The written form, several lines; `PTR` stands for the place of the
data. -/
def text (s : Segment) : String :=
  s!"PTR kind {s.kind} x{s.chunks}" ++ (if s.isBig then " big" else "")
    ++ (if s.queued then " (free list)" else "") ++ "\n"
    ++ "  alloc " ++ s.allocated.text ++ "\n"
    ++ "  gen1  " ++ s.gen1.text ++ "\n"
    ++ "  gen2  " ++ s.gen2.text ++ "\n"
    ++ "  o2n   " ++ s.oldToNew.text ++ "\n"

/-! ## What the sets hold -/

@[simp] theorem mem_allocated {s : Segment} {o : Offset} :
    o ∈ s.allocated ↔ o ∈ s.slots ∧ ¬ o ∈ s.free := OffsetSet.mem_sdiff

theorem isAllocated_iff {s : Segment} {o : Offset} : s.isAllocated o = true ↔ o ∈ s.allocated := by
  simp [isAllocated]

/-- A slot of generation one is not of generation two as well. -/
def Disjoint (s : Segment) : Prop := ∀ o, o ∈ s.gen1 → ¬ o ∈ s.gen2

theorem mem_inGeneration {s : Segment} (h : s.Disjoint) {o : Offset} {g : Generation} :
    o ∈ s.inGeneration g ↔ o ∈ s.allocated ∧ s.generation o = g := by
  have := h o
  simp only [← OffsetSet.contains_iff] at this
  cases g <;> simp only [inGeneration, generation, OffsetSet.mem_sdiff, OffsetSet.mem_inter,
    OffsetSet.mem_union] <;> grind [OffsetSet.contains_iff]

theorem mem_inScope {s : Segment} {o : Offset} {level : Generation} :
    o ∈ s.inScope level ↔ o ∈ s.allocated ∧ s.generation o ≤ level := by
  cases level <;> simp only [inScope, inGeneration, generation, OffsetSet.mem_sdiff,
    OffsetSet.mem_union, Generation.le_iff] <;>
    grind [OffsetSet.contains_iff, Generation.toNat]

/-- The generation set is the generation read back, and no other
slot's. -/
theorem generation_setGeneration (s : Segment) (o p : Offset) (g : Generation) :
    (s.setGeneration o g).generation p = if o = p then g else s.generation p := by
  cases g <;> simp only [setGeneration, generation] <;>
    grind [OffsetSet.contains_iff, OffsetSet.mem_insert, OffsetSet.mem_erase]

end Segment

end SegmentedHeap
