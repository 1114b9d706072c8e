/-
SegmentedHeap.Proofs.Object — a heap as a map from references to objects.

What a heap knows of an allocated object is spread over the sets of its
segment, the table of lengths and memory. `Heap.lookup` gathers it in one
record, and every later statement about a heap is a statement about this
map: an operation is described by what it does to it.

* `Object`, `Heap.lookup` — the record and the map.
* `isAllocated_iff_lookup`, `kindOf_of_lookup`, … — each question that a
  heap answers about an allocated object is a field of the record.
* `lookup_modifySegment_at`, `lookup_setMemory` — a segment is changed at
  one slot, memory is changed.
-/
import SegmentedHeap.Heap.Tracer
import SegmentedHeap.Proofs.Reservation

namespace SegmentedHeap

/-- All that is known of an allocated object. -/
structure Object where
  kind : KindId
  chunks : Nat
  address : Address
  generation : Generation
  /-- Whether it is in the old-to-new set. -/
  remembered : Bool
  /-- Its length, if its segment stores lengths. -/
  stored : Option Nat
  bytes : List UInt8
deriving DecidableEq

namespace Object

/-- The length of an object of a kind. -/
def length (x : Object) (spec : Kind) : Option Nat :=
  match spec.length with
  | .untracked => none
  | .stored => x.stored
  | .constant n => some n

/-- What a runtime can see of an object of a kind. -/
def view (x : Object) (spec : Kind) : ObjectView where
  tag := spec.tag
  length := x.length spec
  capacity := x.bytes.length
  byte i := x.bytes.getD i 0

/-- Whether a byte of memory is one of the object's. -/
def Covers (x : Object) (a : Address) : Prop :=
  a.region = x.address.region ∧ x.address.offset ≤ a.offset ∧
    a.offset < x.address.offset + x.bytes.length

end Object

/-- A reference is known by its two halves. -/
theorem ObjRef.eq_iff {p q : ObjRef} : p = q ↔ p.segment = q.segment ∧ p.offset = q.offset := by
  constructor
  · rintro rfl
    exact ⟨rfl, rfl⟩
  · rintro ⟨hs, ho⟩
    rw [← ofSlot_segment_offset p, ← ofSlot_segment_offset q, hs, ho]

/-! ## Memory read in a row -/

theorem Memory.load_congr {m m' : Memory} {a : Address} {n : Nat}
    (h : ∀ i, i < n → m'.read (a.advance i) = m.read (a.advance i)) :
    m'.load a n = m.load a n := by
  apply List.map_congr_left
  intro i hi
  exact h i (List.mem_range.mp hi)

theorem Memory.getD_load (m : Memory) (a : Address) (n i : Nat) :
    (m.load a n).getD i 0 = if i < n then m.read (a.advance i) else 0 := by
  by_cases h : i < n
  · simp [load, h]
  · simp [load, h]

namespace Segment

/-- What is known of a slot, as of an object. -/
def objectAt (s : Segment) (m : Memory) (chunkBytes : Nat) (o : Offset) : Object where
  kind := s.kind
  chunks := s.chunks
  address := s.base.advance (o.val * chunkBytes)
  generation := s.generation o
  remembered := s.inOldToNew o
  stored := s.length? o
  bytes := m.load (s.base.advance (o.val * chunkBytes)) (s.chunks * chunkBytes)

/-- The object in a slot, if the slot holds one. -/
def object? (s : Segment) (m : Memory) (chunkBytes : Nat) (o : Offset) : Option Object :=
  if s.isAllocated o then some (s.objectAt m chunkBytes o) else none

theorem object?_of_mem {s : Segment} {o : Offset} (h : o ∈ s.allocated) (m : Memory)
    (chunkBytes : Nat) : s.object? m chunkBytes o = some (s.objectAt m chunkBytes o) := by
  rw [object?, if_pos (isAllocated_iff.mpr h)]

theorem object?_of_not_mem {s : Segment} {o : Offset} (h : ¬ o ∈ s.allocated) (m : Memory)
    (chunkBytes : Nat) : s.object? m chunkBytes o = none := by
  rw [object?, if_neg (fun ha => h (isAllocated_iff.mp ha))]

theorem object?_eq_some {s : Segment} {m : Memory} {chunkBytes : Nat} {o : Offset} {x : Object} :
    s.object? m chunkBytes o = some x ↔ o ∈ s.allocated ∧ x = s.objectAt m chunkBytes o := by
  by_cases h : o ∈ s.allocated
  · rw [object?_of_mem h, Option.some.injEq]
    exact ⟨fun e => ⟨h, e.symm⟩, fun e => e.2.symm⟩
  · rw [object?_of_not_mem h]
    exact ⟨nofun, fun e => absurd e.1 h⟩

/-- A slot of which the same is known in two segments of one shape holds
the same object. -/
theorem object?_congr {s t : Segment} (h : SameShape s t) {o : Offset}
    (ha : o ∈ t.allocated ↔ o ∈ s.allocated) (hg : t.generation o = s.generation o)
    (hr : o ∈ t.oldToNew ↔ o ∈ s.oldToNew) (hl : t.length? o = s.length? o) (m : Memory)
    (chunkBytes : Nat) : t.object? m chunkBytes o = s.object? m chunkBytes o := by
  by_cases hm : o ∈ s.allocated
  · have hr : t.inOldToNew o = s.inOldToNew o := Bool.eq_iff_iff.mpr hr
    rw [object?_of_mem hm, object?_of_mem (ha.mpr hm)]
    simp only [objectAt, h.kind, h.chunks, h.base, hg, hr, hl]
  · rw [object?_of_not_mem hm, object?_of_not_mem (fun hn => hm (ha.mp hn))]

end Segment

namespace Heap

/-- The object that a reference names. -/
def lookup (h : Heap) (obj : ObjRef) : Option Object :=
  (h.store.segment? obj.segment).bind
    (·.object? h.store.memory h.store.chunkBytes obj.offset)

theorem lookup_eq_some {h : Heap} {obj : ObjRef} {x : Object} :
    h.lookup obj = some x ↔ ∃ s, h.store.segment? obj.segment = some s ∧
      obj.offset ∈ s.allocated ∧
      x = s.objectAt h.store.memory h.store.chunkBytes obj.offset := by
  rw [lookup, Option.bind_eq_some_iff]
  simp only [Segment.object?_eq_some]

theorem lookup_of_segment? {h : Heap} {obj : ObjRef} {s : Segment}
    (hs : h.store.segment? obj.segment = some s) :
    h.lookup obj = s.object? h.store.memory h.store.chunkBytes obj.offset := by
  rw [lookup, hs]
  rfl

theorem lookup_of_none {h : Heap} {obj : ObjRef} (hs : h.store.segment? obj.segment = none) :
    h.lookup obj = none := by
  rw [lookup, hs]
  rfl

/-- What a reference names depends on its segment and on what memory
reads as in the region of that segment, and on nothing else. -/
theorem lookup_congr {h h' : Heap} {q : ObjRef}
    (hc : h'.store.chunkBytes = h.store.chunkBytes)
    (hs : h'.store.segment? q.segment = h.store.segment? q.segment)
    (hm : ∀ s, h.store.segment? q.segment = some s → ∀ a : Address, a.region = s.base.region →
      h'.store.memory.read a = h.store.memory.read a) : h'.lookup q = h.lookup q := by
  rw [lookup, lookup, hs, hc]
  cases hq : h.store.segment? q.segment with
  | none => rfl
  | some s =>
    have hload : ∀ n k, h'.store.memory.load (s.base.advance n) k =
        h.store.memory.load (s.base.advance n) k :=
      fun n k => Memory.load_congr fun i _ => hm s hq _ rfl
    simp only [Option.bind_some, Segment.object?, Segment.objectAt, hload]

/-! ## Changes to one segment, and to memory -/

/-- A segment that is changed at one slot changes one object. -/
theorem lookup_modifySegment_at {h : Heap} {p : ObjRef} {f : Segment → Segment}
    (hf : ∀ s, h.store.segment? p.segment = some s → ∀ o, o ≠ p.offset →
      (f s).object? h.store.memory h.store.chunkBytes o =
        s.object? h.store.memory h.store.chunkBytes o) (q : ObjRef) :
    (h.modifySegment p.segment f).lookup q =
      if p = q then (h.store.segment? p.segment).bind fun s =>
        (f s).object? h.store.memory h.store.chunkBytes p.offset
      else h.lookup q := by
  have hseg : (h.modifySegment p.segment f).store.segment? q.segment =
      if p.segment = q.segment then (h.store.segment? q.segment).map f
      else h.store.segment? q.segment := Store.segment?_modifySegment ..
  unfold lookup
  rw [hseg]
  by_cases e : p.segment = q.segment
  · rw [if_pos e, ← e]
    cases hs : h.store.segment? p.segment with
    | none =>
      split <;> rfl
    | some s =>
      show (f s).object? h.store.memory h.store.chunkBytes q.offset = _
      by_cases ho : q.offset = p.offset
      · rw [if_pos (ObjRef.eq_iff.mpr ⟨e, ho.symm⟩), ho]
        rfl
      · rw [if_neg (fun hpq : p = q => ho (by rw [hpq])), hf s hs q.offset ho]
        rfl
  · rw [if_neg e, if_neg (fun hpq : p = q => e (by rw [hpq]))]
    rfl

/-- A change of a segment that no object can tell is no change. -/
theorem lookup_modifySegment_of_same {h : Heap} {i : SegmentIndex} {f : Segment → Segment}
    (hf : ∀ s, h.store.segment? i = some s → ∀ o,
      (f s).object? h.store.memory h.store.chunkBytes o =
        s.object? h.store.memory h.store.chunkBytes o) :
    (h.modifySegment i f).lookup = h.lookup := by
  funext q
  have hseg : (h.modifySegment i f).store.segment? q.segment =
      if i = q.segment then (h.store.segment? q.segment).map f
      else h.store.segment? q.segment := Store.segment?_modifySegment ..
  unfold lookup
  rw [hseg]
  by_cases e : i = q.segment
  · rw [if_pos e, ← e]
    cases hs : h.store.segment? i with
    | none => rfl
    | some s => exact hf s hs q.offset
  · rw [if_neg e]
    rfl

/-- The heap with another memory. -/
def setMemory (h : Heap) (m : Memory) : Heap := { h with store := { h.store with memory := m } }

theorem lookup_setMemory (h : Heap) (m : Memory) (q : ObjRef) :
    (h.setMemory m).lookup q =
      (h.lookup q).map fun x => { x with bytes := m.load x.address x.bytes.length } := by
  unfold lookup
  show (h.store.segment? q.segment).bind _ = _
  cases h.store.segment? q.segment with
  | none => rfl
  | some s =>
    show s.object? m h.store.chunkBytes q.offset = Option.map _ (s.object? _ _ q.offset)
    by_cases ha : q.offset ∈ s.allocated
    · simp [Segment.object?_of_mem ha, Segment.objectAt, Memory.length_load]
    · simp [Segment.object?_of_not_mem ha]

/-- An object reads as before in a memory that agrees on its bytes. -/
theorem lookup_setMemory_of_read {h : Heap} {m : Memory} {q : ObjRef}
    (hm : ∀ x, h.lookup q = some x → ∀ a, x.Covers a → m.read a = h.store.memory.read a) :
    (h.setMemory m).lookup q = h.lookup q := by
  rw [lookup_setMemory]
  cases hx : h.lookup q with
  | none => rfl
  | some x =>
    have hload : m.load x.address x.bytes.length =
        h.store.memory.load x.address x.bytes.length := by
      refine Memory.load_congr fun i hi => hm x hx _ ⟨rfl, Nat.le_add_right _ i, ?_⟩
      exact Nat.add_lt_add_left hi _
    have hsame : h.store.memory.load x.address x.bytes.length = x.bytes := by
      obtain ⟨s, _, ha, rfl⟩ := lookup_eq_some.mp hx
      simp [Segment.objectAt, Memory.length_load]
    rw [Option.map_some, hload, hsame]

end Heap

end SegmentedHeap
