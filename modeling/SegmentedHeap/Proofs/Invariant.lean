/-
SegmentedHeap.Proofs.Invariant — what every operation on a heap keeps.

`Formed` says that the store is in order and each segment is cut as its
kind asks. It holds at every point, inside an operation as well, and it
is what keeps the bytes of objects apart. `Filed` says that the queue of
a kind holds its small segments with a free slot, each once, and that a
big segment is never without its object; a collection restores it at its
end. `Permanent` says that an object that is never collected is of
generation two. `WellFormed` is all three, at the end of an operation.

* `disjoint_of_ne` — no byte belongs to two objects.
* `isAllocated_iff_lookup`, `kindOf_of_lookup`, … — each question that a
  heap answers about an allocated object is a field of its record.
* `wellFormed_create` — a new heap is well formed.
-/
import SegmentedHeap.Proofs.Object

namespace SegmentedHeap

/-- The segment is cut as the kind asks, where small segments are of
`limit` chunks. -/
structure Segment.OfKind (s : Segment) (spec : Kind) (limit : Nat) : Prop where
  small : ∀ n, spec.size = .fixed n →
    s.isBig = false ∧ s.chunks = n ∧ s.slots = OffsetSet.slotStarts n limit
  big : spec.size = .big → s.isBig = true ∧ 0 < s.chunks ∧ s.slots = {(0 : Offset)}
  stores : s.lengths.isSome = spec.storesLength

theorem Segment.OfKind.sameShape {s t : Segment} {spec : Kind} {limit : Nat}
    (h : s.OfKind spec limit) (hst : SameShape s t) : t.OfKind spec limit where
  small n hn := by
    rw [hst.isBig, hst.chunks, hst.slots]
    exact h.small n hn
  big hb := by
    rw [hst.isBig, hst.chunks, hst.slots]
    exact h.big hb
  stores := by
    have e := congrArg Option.isSome hst.lengths
    rw [Option.isSome_map, Option.isSome_map] at e
    rw [e]
    exact h.stores

/-- What a configuration without an error promises. -/
structure Config.InOrder (c : Config) : Prop where
  chunk_pow : Word.isPowerOfTwo c.chunkBytes = true
  chunk_ge : 8 ≤ c.chunkBytes
  chunks_pow : Word.isPowerOfTwo c.segmentChunks = true
  chunks_le : c.segmentChunks ≤ 64
  segments_pow : Word.isPowerOfTwo c.segmentsPerBlock = true
  alignment_pow : Word.isPowerOfTwo c.dataAlignment = true
  alignment_le : c.dataAlignment ≤ c.chunkBytes
  limit_le : c.maxSegments ≤ SegmentedHeap.maxSegments

theorem Config.InOrder.chunkBytes_ne_zero {c : Config} (h : c.InOrder) : c.chunkBytes ≠ 0 :=
  Nat.ne_of_gt (Nat.lt_of_lt_of_le (by decide) h.chunk_ge)

theorem Config.inOrder {c : Config} (hc : c.error? = none) : c.InOrder := by
  simp only [Config.error?] at hc
  split at hc
  · cases hc
  · next h₁ =>
    split at hc
    · cases hc
    · next h₂ =>
      split at hc
      · cases hc
      · next h₃ =>
        split at hc
        · cases hc
        · next h₄ =>
          split at hc
          · cases hc
          · next h₅ =>
            simp only [Bool.or_eq_true, Bool.not_eq_true', decide_eq_true_eq, not_or,
              Bool.not_eq_false] at h₁ h₂ h₃ h₄
            exact ⟨h₁.1, Nat.le_of_not_lt h₁.2, h₂.1, Nat.le_of_not_lt h₂.2, h₃, h₄.1,
              Nat.le_of_not_lt h₄.2, Nat.le_of_not_lt h₅⟩

namespace Heap

/-! ## The invariant -/

/-- The store is in order, and each segment is of a kind in the table and
cut as that kind asks. -/
structure Formed (h : Heap) : Prop where
  store : h.store.WellFormed
  fixed : ∀ k spec n, h.kinds.get? k = some spec → spec.size = .fixed n →
    0 < n ∧ n ≤ h.store.segmentChunks
  typed : ∀ i s, h.store.segment? i = some s →
    ∃ spec, h.kinds.get? s.kind = some spec ∧ s.OfKind spec h.store.segmentChunks

/-- The queue of a kind. -/
def queue (h : Heap) (kind : KindId) : List SegmentIndex := h.queues[kind]?.getD []

/-- Each kind's queue holds its small segments with a free slot, each
once, and a big segment has no free slot. -/
structure Filed (h : Heap) : Prop where
  size : h.queues.size = h.kinds.size
  nodup : ∀ k, (h.queue k).Nodup
  mem_queue : ∀ k i, i ∈ h.queue k ↔
    ∃ s, h.store.segment? i = some s ∧ s.kind = k ∧ s.queued = true
  queued : ∀ i s, h.store.segment? i = some s →
    (s.queued = true ↔ s.isBig = false ∧ s.hasFree = true)
  full : ∀ i s, h.store.segment? i = some s → s.isBig = true → s.hasFree = false

/-- An object that is never collected is of generation two. -/
def Permanent (h : Heap) : Prop :=
  ∀ p x spec, h.lookup p = some x → h.kinds.get? x.kind = some spec →
    spec.uncollected = true → x.generation = .two

/-- What every operation keeps. -/
structure WellFormed (h : Heap) : Prop extends Formed h, Filed h where
  permanent : h.Permanent

/-- What no operation changes. -/
structure SameSetting (h h' : Heap) : Prop where
  config : h'.config = h.config
  layout : h'.layout = h.layout
  kinds : h'.kinds = h.kinds
  geometry : Store.SameGeometry h.store h'.store

namespace SameSetting

theorem refl (h : Heap) : SameSetting h h := ⟨rfl, rfl, rfl, .refl h.store⟩

theorem trans {h₁ h₂ h₃ : Heap} (h : SameSetting h₁ h₂) (k : SameSetting h₂ h₃) :
    SameSetting h₁ h₃ :=
  ⟨k.config.trans h.config, k.layout.trans h.layout, k.kinds.trans h.kinds,
    h.geometry.trans k.geometry⟩

end SameSetting

/-! ## What is known of an object -/

section Lookup

variable {h : Heap} {p q : ObjRef} {x y : Object}

/-- The kind of an object is in the table. -/
theorem Formed.spec_of_lookup (hf : h.Formed) (hx : h.lookup p = some x) :
    ∃ spec, h.kinds.get? x.kind = some spec := by
  obtain ⟨s, hs, _, rfl⟩ := lookup_eq_some.mp hx
  obtain ⟨spec, hspec, _⟩ := hf.typed _ s hs
  exact ⟨spec, hspec⟩

theorem length_bytes_of_lookup (hx : h.lookup p = some x) :
    x.bytes.length = x.chunks * h.store.chunkBytes := by
  obtain ⟨s, _, _, rfl⟩ := lookup_eq_some.mp hx
  exact Memory.length_load _ _ _

/-- The objects of a segment have at least one chunk. -/
theorem Formed.chunks_pos (hf : h.Formed) {i : SegmentIndex} {s : Segment}
    (hs : h.store.segment? i = some s) : 0 < s.chunks := by
  obtain ⟨spec, hspec, hkind⟩ := hf.typed i s hs
  cases hsize : spec.size with
  | fixed n =>
    rw [(hkind.small n hsize).2.1]
    exact (hf.fixed _ spec n hspec hsize).1
  | big => exact (hkind.big hsize).2.1

theorem Formed.chunkBytes_le_length (hf : h.Formed) (hx : h.lookup p = some x) :
    h.store.chunkBytes ≤ x.bytes.length := by
  obtain ⟨s, hs, _, rfl⟩ := lookup_eq_some.mp hx
  rw [Segment.objectAt, Memory.length_load]
  exact Nat.le_mul_of_pos_left _ (hf.chunks_pos hs)

/-- The bytes of an object are those of memory. -/
theorem bytes_of_lookup (hx : h.lookup p = some x) :
    x.bytes = h.store.memory.load x.address x.bytes.length := by
  obtain ⟨s, _, _, rfl⟩ := lookup_eq_some.mp hx
  rw [Segment.objectAt, Memory.length_load]

theorem Formed.region_lt_of_lookup (hf : h.Formed) (hx : h.lookup p = some x) :
    x.address.region < h.store.memory.regions.size := by
  obtain ⟨s, hs, _, rfl⟩ := lookup_eq_some.mp hx
  show (s.base.advance _).region < _
  rw [Segment.base_eq]
  exact (hf.store.placed _ s hs).1

/-- A reference to an object is not null: no segment has the index that
the null reference would point into. -/
theorem Formed.ne_null_of_lookup (hf : h.Formed) (hx : h.lookup p = some x) :
    p ≠ ObjRef.null := by
  obtain ⟨s, hs, _⟩ := lookup_eq_some.mp hx
  rintro rfl
  exact absurd (hf.store.index_lt hs) (by decide)

/-- The slot of an object in a small segment lies inside the segment, and
slots start a whole number of objects apart. -/
theorem Formed.slot_of_small (hf : h.Formed) {i : SegmentIndex} {s : Segment} {o : Offset}
    (hs : h.store.segment? i = some s) (ho : o ∈ s.slots) (hb : s.isBig = false) :
    0 < s.chunks ∧ o.val % s.chunks = 0 ∧ o.val + s.chunks ≤ h.store.segmentChunks := by
  obtain ⟨spec, hspec, hkind⟩ := hf.typed i s hs
  cases hsize : spec.size with
  | fixed n =>
    obtain ⟨_, hn, hslots⟩ := hkind.small n hsize
    rw [hslots] at ho
    rw [hn]
    exact ⟨(hf.fixed _ spec n hspec hsize).1, OffsetSet.mem_slotStarts.mp ho⟩
  | big =>
    rw [(hkind.big hsize).1] at hb
    cases hb

/-- The one slot of a big segment is the first. -/
theorem Formed.slot_of_big (hf : h.Formed) {i : SegmentIndex} {s : Segment} {o : Offset}
    (hs : h.store.segment? i = some s) (ho : o ∈ s.slots) (hb : s.isBig = true) : o = 0 := by
  obtain ⟨spec, hspec, hkind⟩ := hf.typed i s hs
  cases hsize : spec.size with
  | fixed n =>
    rw [(hkind.small n hsize).1] at hb
    cases hb
  | big =>
    rw [(hkind.big hsize).2.2] at ho
    exact (OffsetSet.mem_singleton.mp ho).symm

/-- Two multiples of a length are at least that far apart. -/
theorem apart_of_mod {a b n : Nat} (ha : a % n = 0) (hb : b % n = 0) (h : a < b) : a + n ≤ b := by
  obtain ⟨j, rfl⟩ := Nat.dvd_of_mod_eq_zero ha
  obtain ⟨k, rfl⟩ := Nat.dvd_of_mod_eq_zero hb
  have hjk : j + 1 ≤ k := by
    apply Nat.succ_le_of_lt
    exact Nat.lt_of_mul_lt_mul_left h
  calc n * j + n = n * (j + 1) := rfl
    _ ≤ n * k := Nat.mul_le_mul_left n hjk

/-- Two different slots of one segment have no byte in common. -/
theorem Formed.disjoint_of_segment (hf : h.Formed) {i : SegmentIndex} {s : Segment}
    {o o' : Offset} (hs : h.store.segment? i = some s) (ho : o ∈ s.slots) (ho' : o' ∈ s.slots)
    (hlt : o.val < o'.val) :
    o.val * h.store.chunkBytes + s.chunks * h.store.chunkBytes ≤ o'.val * h.store.chunkBytes := by
  cases hb : s.isBig with
  | false =>
    obtain ⟨_, hm, _⟩ := hf.slot_of_small hs ho hb
    obtain ⟨_, hm', _⟩ := hf.slot_of_small hs ho' hb
    rw [← Nat.add_mul]
    exact Nat.mul_le_mul_right _ (apart_of_mod hm hm' hlt)
  | true =>
    rw [hf.slot_of_big hs ho hb, hf.slot_of_big hs ho' hb] at hlt
    exact absurd hlt (Nat.lt_irrefl _)

/-- Of two slots of a segment, the objects lie one behind the other. -/
theorem Formed.disjoint_of_offset_ne (hf : h.Formed) {i : SegmentIndex} {s : Segment}
    {o o' : Offset} (hs : h.store.segment? i = some s) (ho : o ∈ s.slots) (ho' : o' ∈ s.slots)
    (hne : o.val ≠ o'.val) :
    o.val * h.store.chunkBytes + s.chunks * h.store.chunkBytes ≤ o'.val * h.store.chunkBytes ∨
      o'.val * h.store.chunkBytes + s.chunks * h.store.chunkBytes ≤ o.val * h.store.chunkBytes := by
  rcases Nat.lt_or_gt_of_ne hne with hlt | hlt
  · exact Or.inl (hf.disjoint_of_segment hs ho ho' hlt)
  · exact Or.inr (hf.disjoint_of_segment hs ho' ho hlt)

/-- The area of a small segment holds its objects. -/
theorem Formed.end_le_area (hf : h.Formed) {i : SegmentIndex} {s : Segment} {o : Offset}
    (hs : h.store.segment? i = some s) (ho : o ∈ s.slots) (hb : s.isBig = false) :
    o.val * h.store.chunkBytes + s.chunks * h.store.chunkBytes ≤ h.store.areaBytes := by
  rw [← Nat.add_mul]
  exact Nat.mul_le_mul_right _ (hf.slot_of_small hs ho hb).2.2

/-- Slots of different segments have no byte in common. -/
theorem Formed.disjoint_of_segments (hf : h.Formed) {i j : SegmentIndex} {s t : Segment}
    {o o' : Offset} (hs : h.store.segment? i = some s) (ht : h.store.segment? j = some t)
    (ho : o ∈ s.slots) (ho' : o' ∈ t.slots) (hne : i ≠ j)
    (hr : s.base.region = t.base.region) :
    s.base.offset + (o.val * h.store.chunkBytes + s.chunks * h.store.chunkBytes) ≤ t.base.offset ∨
    t.base.offset + (o'.val * h.store.chunkBytes + t.chunks * h.store.chunkBytes) ≤
      s.base.offset := by
  have hapart := hf.store.apart i j s t hs ht hne
  rw [Segment.base_eq, Segment.base_eq] at hr ⊢
  have hd : s.backing.isDedicated = false ∧ t.backing.isDedicated = false := by
    constructor
    · exact Bool.eq_false_iff.mpr fun hd => hapart.2 (Or.inl hd) hr
    · exact Bool.eq_false_iff.mpr fun hd => hapart.2 (Or.inr hd) hr
  have hend := hf.end_le_area hs ho (by rw [Segment.isBig_eq]; exact hd.1)
  have hend' := hf.end_le_area ht ho' (by rw [Segment.isBig_eq]; exact hd.2)
  have hmod := (hf.store.placed i s hs).2 hd.1
  have hmod' := (hf.store.placed j t ht).2 hd.2
  rcases Nat.lt_or_gt_of_ne (hapart.offset_ne hr) with hlt | hlt
  · have := apart_of_mod hmod hmod' hlt
    exact Or.inl (by omega)
  · have := apart_of_mod hmod' hmod hlt
    exact Or.inr (by omega)

/-- **No byte belongs to two objects.** -/
theorem Formed.disjoint_of_ne (hf : h.Formed) (hx : h.lookup p = some x)
    (hy : h.lookup q = some y) (hne : p ≠ q) (a : Address) (ha : x.Covers a) : ¬ y.Covers a := by
  obtain ⟨s, hs, ho, rfl⟩ := lookup_eq_some.mp hx
  obtain ⟨t, ht, ho', rfl⟩ := lookup_eq_some.mp hy
  have ho := (Segment.mem_allocated.mp ho).1
  have ho' := (Segment.mem_allocated.mp ho').1
  rintro ⟨hr', hlo', hhi'⟩
  obtain ⟨hr, hlo, hhi⟩ := ha
  simp only [Segment.objectAt, Memory.length_load, Address.advance] at hr hlo hhi hr' hlo' hhi'
  by_cases hseg : p.segment = q.segment
  · rw [hseg, ht] at hs
    cases hs
    have hoff : p.offset.val ≠ q.offset.val := fun e =>
      hne (ObjRef.eq_iff.mpr ⟨hseg, Fin.ext e⟩)
    have := hf.disjoint_of_offset_ne ht ho ho' hoff
    omega
  · have := hf.disjoint_of_segments hs ht ho ho' hseg (hr.symm.trans hr')
    omega

/-! ## Questions about an object -/

theorem Formed.isAllocated_iff_lookup (hf : h.Formed) :
    h.isAllocated p = true ↔ ∃ x, h.lookup p = some x := by
  simp only [isAllocated, Store.isValid, Bool.and_eq_true, Bool.not_eq_true']
  constructor
  · rintro ⟨_, ha⟩
    obtain ⟨s, hs, ho⟩ := (Option.any_eq_true _ _).mp ha
    exact ⟨_, lookup_eq_some.mpr ⟨s, hs, Segment.isAllocated_iff.mp ho, rfl⟩⟩
  · rintro ⟨x, hx⟩
    obtain ⟨s, hs, ho, _⟩ := lookup_eq_some.mp hx
    refine ⟨Bool.eq_false_iff.mpr fun hn => ?_, ?_⟩
    · exact hf.ne_null_of_lookup hx (ObjRef.isNull_iff.mp hn)
    · rw [hs]
      exact Segment.isAllocated_iff.mpr ho

theorem Formed.not_isAllocated_iff_lookup (hf : h.Formed) :
    h.isAllocated p = false ↔ h.lookup p = none := by
  rw [Bool.eq_false_iff, ne_eq, hf.isAllocated_iff_lookup, Option.eq_none_iff_forall_ne_some]
  exact not_exists

theorem segment_of_lookup (hx : h.lookup p = some x) :
    ∃ s, h.segment p = .ok s ∧ h.store.segment? p.segment = some s ∧ p.offset ∈ s.allocated ∧
      x = s.objectAt h.store.memory h.store.chunkBytes p.offset := by
  obtain ⟨s, hs, ho, hx⟩ := lookup_eq_some.mp hx
  refine ⟨s, ?_, hs, ho, hx⟩
  simp only [segment, Store.segment, hs]

theorem kindOf_of_lookup (hx : h.lookup p = some x) : h.kindOf p = .ok x.kind := by
  obtain ⟨s, hs, _, _, rfl⟩ := segment_of_lookup hx
  rw [kindOf, hs]
  rfl

theorem chunksOf_of_lookup (hx : h.lookup p = some x) : h.chunksOf p = .ok x.chunks := by
  obtain ⟨s, hs, _, _, rfl⟩ := segment_of_lookup hx
  rw [chunksOf, hs]
  rfl

theorem generationOf_of_lookup (hx : h.lookup p = some x) :
    h.generationOf p = .ok x.generation := by
  obtain ⟨s, hs, _, _, rfl⟩ := segment_of_lookup hx
  rw [generationOf, hs]
  rfl

theorem inOldToNew_of_lookup (hx : h.lookup p = some x) : h.inOldToNew p = .ok x.remembered := by
  obtain ⟨s, hs, _, _, rfl⟩ := segment_of_lookup hx
  rw [inOldToNew, hs]
  rfl

theorem capacity_of_lookup (hx : h.lookup p = some x) : h.capacity p = .ok x.bytes.length := by
  rw [capacity, chunksOf_of_lookup hx, length_bytes_of_lookup hx]
  rfl

theorem addressOf_of_lookup (hx : h.lookup p = some x) : h.addressOf p = .ok x.address := by
  obtain ⟨s, _, hs, _, rfl⟩ := segment_of_lookup hx
  simp only [addressOf, Store.addressOf, Store.segment, hs]
  rfl

theorem bytes_eq_of_lookup (hf : h.Formed) (hx : h.lookup p = some x) :
    h.bytes p = .ok x.bytes := by
  have ha := hf.isAllocated_iff_lookup.mpr ⟨x, hx⟩
  rw [bytes, ha, addressOf_of_lookup hx, capacity_of_lookup hx]
  exact congrArg Except.ok (bytes_of_lookup hx).symm

variable {spec : Kind}

theorem specOf_of_lookup (hx : h.lookup p = some x) (hspec : h.kinds.get? x.kind = some spec) :
    h.specOf p = .ok spec := by
  rw [specOf, kindOf_of_lookup hx]
  show h.kinds.get x.kind = _
  rw [KindTable.get, hspec]

theorem isUncollected_of_lookup (hx : h.lookup p = some x)
    (hspec : h.kinds.get? x.kind = some spec) : h.isUncollected p = .ok spec.uncollected := by
  rw [isUncollected, specOf_of_lookup hx hspec]
  rfl

theorem lengthOf_of_lookup (hf : h.Formed) (hx : h.lookup p = some x)
    (hspec : h.kinds.get? x.kind = some spec) : h.lengthOf p = .ok (x.length spec) := by
  rw [lengthOf, specOf_of_lookup hx hspec]
  obtain ⟨s, hs, hs?, ho, rfl⟩ := segment_of_lookup hx
  rw [hs]
  simp only [bind, Except.bind, Object.length, Segment.objectAt]
  cases hr : spec.length with
  | untracked => rfl
  | constant n => rfl
  | stored =>
    simp only [Segment.storedLength, Segment.length?]
    cases hl : s.lengths with
    | none => rfl
    | some lengths =>
      have hlt := (hf.store.segment_wf _ s hs?).stored_slots lengths hl p.offset
        (Segment.mem_allocated.mp ho).1
      simp [hlt]

theorem object?_of_lookup (hf : h.Formed) (hx : h.lookup p = some x)
    (hspec : h.kinds.get? x.kind = some spec) :
    ∃ s, h.store.segment? p.segment = some s ∧ p.offset ∈ s.allocated ∧
      x = s.objectAt h.store.memory h.store.chunkBytes p.offset ∧
      h.object? p = some (s, spec) := by
  obtain ⟨s, hs, ho, rfl⟩ := lookup_eq_some.mp hx
  refine ⟨s, hs, ho, rfl, ?_⟩
  rw [object?, if_pos (hf.isAllocated_iff_lookup.mpr ⟨_, hx⟩), hs]
  show (h.kinds.get? s.kind).bind _ = _
  rw [show h.kinds.get? s.kind = some spec from hspec]
  rfl

theorem Formed.object?_of_none (hf : h.Formed) (hn : h.lookup p = none) :
    h.object? p = none := by
  rw [object?, hf.not_isAllocated_iff_lookup.mpr hn]
  rfl

theorem view?_of_lookup (hf : h.Formed) (hx : h.lookup p = some x)
    (hspec : h.kinds.get? x.kind = some spec) : h.view? p = some (x.view spec) := by
  obtain ⟨s, _, _, rfl, ho⟩ := object?_of_lookup hf hx hspec
  rw [view?, ho]
  simp only [Option.bind_eq_bind, Option.bind_some, Object.view, Object.length, Segment.objectAt,
    Memory.length_load, Memory.getD_load]
  rfl

theorem Formed.view?_of_none (hf : h.Formed) (hn : h.lookup p = none) : h.view? p = none := by
  rw [view?, hf.object?_of_none hn]
  rfl

theorem refsOf_of_lookup {σ : Type} {tracer : Tracer σ} (hf : h.Formed)
    (hx : h.lookup p = some x) (hspec : h.kinds.get? x.kind = some spec) :
    h.refsOf tracer p = tracer.refs (x.view spec) ++ tracer.tied p := by
  rw [refsOf, view?_of_lookup hf hx hspec]

theorem Formed.refsOf_of_none {σ : Type} {tracer : Tracer σ} (hf : h.Formed)
    (hn : h.lookup p = none) : h.refsOf tracer p = [] := by
  rw [refsOf, hf.view?_of_none hn]

end Lookup

/-! ## Changes that keep the invariant -/

section Changes

variable {h h' : Heap}

theorem segment?_modifySegment (h : Heap) (i j : SegmentIndex) (f : Segment → Segment) :
    (h.modifySegment i f).store.segment? j =
      if i = j then (h.store.segment? j).map f else h.store.segment? j :=
  Store.segment?_modifySegment h.store i j f

theorem sameSetting_modifySegment (h : Heap) (i : SegmentIndex) (f : Segment → Segment) :
    SameSetting h (h.modifySegment i f) :=
  ⟨rfl, rfl, rfl, Store.sameGeometry_modifySegment h.store i f⟩

theorem Formed.modifySegment (hf : h.Formed) {i : SegmentIndex} {f : Segment → Segment}
    (hs : ∀ s, h.store.segment? i = some s → Segment.SameShape s (f s) ∧ (f s).WellFormed) :
    (h.modifySegment i f).Formed where
  store := hf.store.modifySegment hs
  fixed := hf.fixed
  typed := by
    intro j t ht
    obtain ⟨s, hsj, ⟨rfl, rfl⟩ | rfl⟩ := Store.exists_of_modifySegment ht
    · obtain ⟨spec, hspec, hkind⟩ := hf.typed i s hsj
      have hshape := (hs s hsj).1
      refine ⟨spec, ?_, hkind.sameShape hshape⟩
      rw [hshape.kind]
      exact hspec
    · exact hf.typed j t hsj

theorem Formed.setMemory (hf : h.Formed) {m : Memory}
    (hm : m.regions.size = h.store.memory.regions.size) : (h.setMemory m).Formed where
  store := hf.store.setMemory hm
  fixed := hf.fixed
  typed := hf.typed

theorem sameSetting_setMemory (h : Heap) (m : Memory) : SameSetting h (h.setMemory m) :=
  ⟨rfl, rfl, rfl, ⟨rfl, rfl, rfl, rfl, rfl⟩⟩

/-- The heap with another store. -/
def setStore (h : Heap) (s : Store) : Heap := { h with store := s }

theorem Formed.release (hf : h.Formed) (i : SegmentIndex) :
    (h.setStore (h.store.release i)).Formed := by
  have hgeo := Store.sameGeometry_release h.store i
  refine ⟨hf.store.release i, ?_, ?_⟩
  · intro k spec n hk hn
    show 0 < n ∧ n ≤ (h.store.release i).segmentChunks
    rw [hgeo.segmentChunks]
    exact hf.fixed k spec n hk hn
  · intro j t ht
    obtain ⟨spec, hspec, hkind⟩ := hf.typed j t (Store.segment?_release_eq_some.mp ht).2
    refine ⟨spec, hspec, ?_⟩
    show t.OfKind spec (h.store.release i).segmentChunks
    rw [hgeo.segmentChunks]
    exact hkind

theorem sameSetting_release (h : Heap) (i : SegmentIndex) :
    SameSetting h (h.setStore (h.store.release i)) :=
  ⟨rfl, rfl, rfl, Store.sameGeometry_release h.store i⟩

/-- The heap with every segment changed in the same way. -/
def mapSegments (h : Heap) (f : Segment → Segment) : Heap :=
  h.setStore { h.store with segments := h.store.segments.map (Option.map f) }

theorem segment?_mapSegments (h : Heap) (f : Segment → Segment) (i : SegmentIndex) :
    (h.mapSegments f).store.segment? i = (h.store.segment? i).map f := by
  simp only [mapSegments, setStore, Store.segment?, Array.getElem?_map]
  cases h.store.segments[i]? with
  | none => rfl
  | some x => cases x <;> rfl

theorem mapSegments_mapSegments (h : Heap) {f g : Segment → Segment} (hfg : ∀ s, g (f s) = g s) :
    (h.mapSegments f).mapSegments g = h.mapSegments g := by
  have e : (h.store.segments.map (Option.map f)).map (Option.map g) =
      h.store.segments.map (Option.map g) := by
    rw [Array.map_map]
    congr 1
    funext x
    cases x with
    | none => rfl
    | some s => exact congrArg some (hfg s)
  rw [mapSegments, mapSegments, mapSegments, setStore, setStore, setStore, e]

/-- A change of one segment that a change of all of them undoes. -/
theorem mapSegments_modifySegment (h : Heap) (i : SegmentIndex) {f g : Segment → Segment}
    (hfg : ∀ s, g (f s) = g s) : (h.modifySegment i f).mapSegments g = h.mapSegments g := by
  have e : (h.store.segments.modify i (Option.map f)).map (Option.map g) =
      h.store.segments.map (Option.map g) := by
    apply Array.ext_getElem?
    intro j
    rw [Array.getElem?_map, Array.getElem?_map, Array.getElem?_modify]
    split
    · cases h.store.segments[j]? with
      | none => rfl
      | some x =>
        cases x with
        | none => rfl
        | some s => exact congrArg (some ∘ some) (hfg s)
    · rfl
  rw [mapSegments, mapSegments, setStore, setStore, modifySegment, Store.modifySegment, e]

/-- Heaps that a change of all segments makes equal differ in nothing that
does not change. -/
theorem setting_of_mapSegments {f : Segment → Segment}
    (e : h'.mapSegments f = h.mapSegments f) : SameSetting h h' := by
  have hs : SameSetting (h.mapSegments f) (h'.mapSegments f) := by
    rw [e]
    exact .refl _
  exact ⟨hs.config, hs.layout, hs.kinds, ⟨hs.geometry.chunkBits, hs.geometry.segmentChunks,
    hs.geometry.segmentsPerBlock, hs.geometry.maxSegments, hs.geometry.system⟩⟩

theorem queues_of_mapSegments {f : Segment → Segment}
    (e : h'.mapSegments f = h.mapSegments f) : h'.queues = h.queues := by
  show (h'.mapSegments f).queues = (h.mapSegments f).queues
  rw [e]

theorem segment?_of_mapSegments {f : Segment → Segment}
    (e : h'.mapSegments f = h.mapSegments f) (i : SegmentIndex) :
    (h'.store.segment? i).map f = (h.store.segment? i).map f := by
  rw [← segment?_mapSegments, ← segment?_mapSegments, e]

theorem Formed.mapSegments (hf : h.Formed) {f : Segment → Segment}
    (hshape : ∀ s, Segment.SameShape s (f s))
    (hwf : ∀ s : Segment, s.WellFormed → (f s).WellFormed) : (h.mapSegments f).Formed := by
  have back : ∀ i t, (h.mapSegments f).store.segment? i = some t →
      ∃ s, h.store.segment? i = some s ∧ t = f s := by
    intro i t ht
    rw [segment?_mapSegments] at ht
    obtain ⟨s, hs, rfl⟩ := Option.map_eq_some_iff.mp ht
    exact ⟨s, hs, rfl⟩
  refine ⟨hf.store.reshaped Array.size_map (fun i => ?_) fun i t ht => ?_, hf.fixed,
    fun i t ht => ?_⟩
  · show (h.mapSegments f).store.segment? i = none ↔ _
    rw [segment?_mapSegments]
    exact Option.map_eq_none_iff
  · obtain ⟨s, hs, rfl⟩ := back i t ht
    exact ⟨hwf s (hf.store.segment_wf i s hs), s, hs, (hshape s).backing, (hshape s).chunks⟩
  · obtain ⟨s, hs, rfl⟩ := back i t ht
    obtain ⟨spec, hspec, hkind⟩ := hf.typed i s hs
    refine ⟨spec, ?_, hkind.sameShape (hshape s)⟩
    rw [(hshape s).kind]
    exact hspec

/-- Only the table and the memory matter. -/
theorem Formed.congr (hf : h.Formed) (hstore : h'.store = h.store) (hkinds : h'.kinds = h.kinds) :
    h'.Formed where
  store := by rw [hstore]; exact hf.store
  fixed := by rw [hstore, hkinds]; exact hf.fixed
  typed := by rw [hstore, hkinds]; exact hf.typed

/-- A change to segments that leaves slots and queues alone. -/
theorem Filed.congr (hq : h.Filed) (hkinds : h'.kinds = h.kinds) (hqueues : h'.queues = h.queues)
    (hseg : ∀ i t, h'.store.segment? i = some t → ∃ s, h.store.segment? i = some s ∧
      t.kind = s.kind ∧ t.isBig = s.isBig ∧ t.free = s.free ∧ t.queued = s.queued)
    (hback : ∀ i s, h.store.segment? i = some s → ∃ t, h'.store.segment? i = some t) :
    h'.Filed := by
  have hqueue : ∀ k, h'.queue k = h.queue k := fun k => by rw [queue, queue, hqueues]
  refine ⟨by rw [hqueues, hkinds]; exact hq.size, fun k => by rw [hqueue]; exact hq.nodup k,
    ?_, ?_, ?_⟩
  · intro k i
    rw [hqueue, hq.mem_queue]
    constructor
    · rintro ⟨s, hs, hk, hqd⟩
      obtain ⟨t, ht⟩ := hback i s hs
      obtain ⟨s', hs', e₁, _, _, e₂⟩ := hseg i t ht
      rw [hs] at hs'
      cases hs'
      exact ⟨t, ht, e₁.trans hk, e₂.trans hqd⟩
    · rintro ⟨t, ht, hk, hqd⟩
      obtain ⟨s, hs, e₁, _, _, e₂⟩ := hseg i t ht
      exact ⟨s, hs, e₁.symm.trans hk, e₂.symm.trans hqd⟩
  · intro i t ht
    obtain ⟨s, hs, _, e₁, e₂, e₃⟩ := hseg i t ht
    rw [Segment.hasFree, e₁, e₂, e₃]
    exact hq.queued i s hs
  · intro i t ht hb
    obtain ⟨s, hs, _, e₁, e₂, _⟩ := hseg i t ht
    rw [Segment.hasFree, e₂]
    exact hq.full i s hs (e₁ ▸ hb)

/-- A change to one segment that leaves its slots alone. -/
theorem Filed.modifySegment (hq : h.Filed) {i : SegmentIndex} {f : Segment → Segment}
    (hs : ∀ s, h.store.segment? i = some s →
      Segment.SameShape s (f s) ∧ (f s).free = s.free ∧ (f s).queued = s.queued) :
    (h.modifySegment i f).Filed := by
  refine hq.congr rfl rfl (fun j t ht => ?_) fun j s hsj => ?_
  · obtain ⟨s, hsj, ⟨rfl, rfl⟩ | rfl⟩ := Store.exists_of_modifySegment ht
    · obtain ⟨hshape, hfree, hqueued⟩ := hs s hsj
      exact ⟨s, hsj, hshape.kind, hshape.isBig, hfree, hqueued⟩
    · exact ⟨t, hsj, rfl, rfl, rfl, rfl⟩
  · rw [segment?_modifySegment, hsj]
    split
    · exact ⟨f s, rfl⟩
    · exact ⟨s, rfl⟩

/-- A change at one index, to its segment and to where it waits. -/
theorem Filed.changeAt (hq : h.Filed) {i : SegmentIndex} (hkinds : h'.kinds = h.kinds)
    (hsize : h'.queues.size = h.queues.size)
    (hseg : ∀ j, j ≠ i → h'.store.segment? j = h.store.segment? j)
    (hnodup : ∀ k, (h'.queue k).Nodup)
    (hother : ∀ k j, j ≠ i → (j ∈ h'.queue k ↔ j ∈ h.queue k))
    (hself : ∀ k, i ∈ h'.queue k ↔
      ∃ t, h'.store.segment? i = some t ∧ t.kind = k ∧ t.queued = true)
    (hqueued : ∀ t, h'.store.segment? i = some t →
      (t.queued = true ↔ t.isBig = false ∧ t.hasFree = true))
    (hfull : ∀ t, h'.store.segment? i = some t → t.isBig = true → t.hasFree = false) :
    h'.Filed := by
  refine ⟨by rw [hsize, hkinds]; exact hq.size, hnodup, fun k j => ?_, fun j t ht => ?_,
    fun j t ht => ?_⟩
  · by_cases e : j = i
    · rw [e]
      exact hself k
    · rw [hother k j e, hseg j e]
      exact hq.mem_queue k j
  · by_cases e : j = i
    · rw [e] at ht
      exact hqueued t ht
    · rw [hseg j e] at ht
      exact hq.queued j t ht
  · by_cases e : j = i
    · rw [e] at ht
      exact hfull t ht
    · rw [hseg j e] at ht
      exact hq.full j t ht

/-- The queues in which a segment waits. -/
theorem Filed.mem_queue_iff (hq : h.Filed) {i : SegmentIndex} {s : Segment}
    (hs : h.store.segment? i = some s) (k : KindId) :
    i ∈ h.queue k ↔ s.kind = k ∧ s.queued = true := by
  rw [hq.mem_queue, hs]
  constructor
  · rintro ⟨_, ht, hk⟩
    cases ht
    exact hk
  · exact fun hk => ⟨s, rfl, hk⟩

/-- A change at one index, where there is a segment afterwards. -/
theorem Filed.replaceAt (hq : h.Filed) {i : SegmentIndex} {t : Segment}
    (hi : h'.store.segment? i = some t) (hkinds : h'.kinds = h.kinds)
    (hsize : h'.queues.size = h.queues.size)
    (hseg : ∀ j, j ≠ i → h'.store.segment? j = h.store.segment? j)
    (hnodup : ∀ k, (h'.queue k).Nodup)
    (hother : ∀ k j, j ≠ i → (j ∈ h'.queue k ↔ j ∈ h.queue k))
    (hself : ∀ k, i ∈ h'.queue k ↔ t.kind = k ∧ t.queued = true)
    (hqueued : t.queued = true ↔ t.isBig = false ∧ t.hasFree = true)
    (hfull : t.isBig = true → t.hasFree = false) : h'.Filed := by
  have honly : ∀ u, h'.store.segment? i = some u → u = t := fun u hu =>
    Option.some.inj (hu.symm.trans hi)
  refine hq.changeAt hkinds hsize hseg hnodup hother (fun k => ?_) (fun u hu => ?_) fun u hu => ?_
  · rw [hself k]
    constructor
    · exact fun hk => ⟨t, hi, hk⟩
    · rintro ⟨u, hu, hk⟩
      rw [honly u hu] at hk
      exact hk
  · rw [honly u hu]
    exact hqueued
  · rw [honly u hu]
    exact hfull

/-- A queue after one kind's queue was changed. -/
theorem queue_modify (h : Heap) (kind k : KindId) (f : List SegmentIndex → List SegmentIndex) :
    ({ h with queues := h.queues.modify kind f } : Heap).queue k =
      if kind = k ∧ k < h.queues.size then f (h.queue k) else h.queue k := by
  simp only [queue, Array.getElem?_modify]
  by_cases e : kind = k
  · subst e
    by_cases hk : kind < h.queues.size
    · simp [hk]
    · simp [hk]
  · simp [e]

/-- A kind in the table has a queue. -/
theorem Filed.lt_queues (hq : h.Filed) {k : KindId} {spec : Kind}
    (hk : h.kinds.get? k = some spec) : k < h.queues.size := by
  rw [hq.size]
  exact (Array.getElem?_eq_some_iff.mp hk).1

end Changes

/-! ## A new heap -/

/-- There is no segment in a new store. -/
theorem segment?_ofConfig (c : Config) (system : System) (i : SegmentIndex) :
    (Store.ofConfig c system).segment? i = none := by
  simp [Store.ofConfig, Store.segment?]

/-- An empty store is in order. -/
theorem wellFormed_ofConfig {c : Config} (hc : c.error? = none) (system : System) :
    (Store.ofConfig c system).WellFormed := by
  have ho := Config.inOrder hc
  have hnone : ∀ {i t}, (Store.ofConfig c system).segment? i ≠ some t := fun {i t} ht => by
    rw [segment?_ofConfig] at ht
    cases ht
  exact {
    chunks_le := ho.chunks_le
    chunks_pow := ho.chunks_pow
    limit_le := ho.limit_le
    mem_vacant := fun i => ⟨nofun, fun hi => absurd hi.1 (Nat.not_lt_zero i)⟩
    vacant_nodup := List.nodup_nil
    size_eq := rfl
    size_le := Nat.zero_le _
    segment_wf := fun _ _ ht => absurd ht hnone
    placed := fun _ _ ht => absurd ht hnone
    apart := fun _ _ _ _ ht => absurd ht hnone
    spare_placed := nofun
    spare_nodup := List.nodup_nil
    spare_apart := nofun
    block_size := nofun
    block_placed := nofun
    block_nodup := List.nodup_nil
    backed := fun _ _ ht => absurd ht hnone
    spare_pooled := nofun
    totalBytes_lt := Nat.zero_lt_succ _ }

/-- A table that is made of a list holds its kinds, and their sizes are
right. -/
theorem ofList_eq_ok {kinds : List Kind} {segmentChunks : Nat} {table : KindTable}
    (ht : KindTable.ofList kinds segmentChunks = .ok table) :
    table = ⟨kinds.toArray⟩ ∧ ∀ k spec, kinds[k]? = some spec →
      KindTable.sizeError? segmentChunks k spec = none := by
  unfold KindTable.ofList at ht
  split at ht
  · cases ht
  · split at ht
    · cases ht
    · split at ht
      · cases ht
      · next hnone =>
        cases ht
        refine ⟨rfl, fun k spec hk => ?_⟩
        exact List.findSome?_eq_none_iff.mp hnone (spec, k) (List.mk_mem_zipIdx_iff_getElem?.mpr hk)

theorem get?_ofList {kinds : List Kind} {segmentChunks : Nat} {table : KindTable}
    (ht : KindTable.ofList kinds segmentChunks = .ok table) (k : KindId) :
    table.get? k = kinds[k]? := by
  rw [(ofList_eq_ok ht).1]
  exact List.getElem?_toArray ..

theorem fixed_of_ofList {kinds : List Kind} {segmentChunks : Nat} {table : KindTable}
    (ht : KindTable.ofList kinds segmentChunks = .ok table) {k : KindId} {spec : Kind} {n : Nat}
    (hk : table.get? k = some spec) (hn : spec.size = .fixed n) : 0 < n ∧ n ≤ segmentChunks := by
  rw [get?_ofList ht] at hk
  have hnone := (ofList_eq_ok ht).2 k spec hk
  simp only [KindTable.sizeError?, hn] at hnone
  split at hnone
  · cases hnone
  · split at hnone
    · cases hnone
    · omega

/-- A heap that is built is empty, over the kinds of its layout. -/
theorem create_eq_ok {config : Config} {layout : ObjectLayout} {system : System} {h : Heap}
    (hc : create config layout system = .ok h) :
    config.error? = none ∧ ∃ kinds table, layout.kinds = .ok kinds ∧
      KindTable.ofList kinds config.segmentChunks = .ok table ∧
      h = { config, layout, kinds := table, store := .ofConfig config system
            queues := Array.replicate table.size [] } := by
  unfold create at hc
  cases herr : config.error? with
  | some e =>
    rw [herr] at hc
    cases hc
  | none =>
    rw [herr] at hc
    cases hkinds : layout.kinds with
    | error f =>
      rw [hkinds] at hc
      cases hc
    | ok kinds =>
      rw [hkinds] at hc
      cases htable : KindTable.ofList kinds config.segmentChunks with
      | error e =>
        simp only [Failure.ofExcept, bind, Except.bind, htable] at hc
        cases hc
      | ok table =>
        simp only [Failure.ofExcept, bind, Except.bind, htable, pure, Except.pure] at hc
        cases hc
        exact ⟨rfl, kinds, table, rfl, htable, rfl⟩

/-- Nothing waits in a new heap. -/
theorem queue_create {config : Config} {layout : ObjectLayout} {system : System} {h : Heap}
    (hc : create config layout system = .ok h) (k : KindId) : h.queue k = [] := by
  obtain ⟨_, _, table, _, _, rfl⟩ := create_eq_ok hc
  show (Array.replicate table.size ([] : List SegmentIndex))[k]?.getD [] = []
  rw [Array.getElem?_replicate]
  split <;> rfl

/-- The heap is set up as its configuration says, which is in order, over
the kinds of its layout. -/
structure Configured (h : Heap) : Prop where
  accepted : h.config.error? = none
  kinds : ∃ kinds, h.layout.kinds = .ok kinds ∧
    KindTable.ofList kinds h.config.segmentChunks = .ok h.kinds
  geometry : Store.SameGeometry (.ofConfig h.config h.store.system) h.store

theorem configured_create {config : Config} {layout : ObjectLayout} {system : System} {h : Heap}
    (hc : create config layout system = .ok h) : h.Configured := by
  obtain ⟨herr, kinds, table, hkinds, htable, rfl⟩ := create_eq_ok hc
  exact ⟨herr, ⟨kinds, hkinds, htable⟩, .refl _⟩

theorem Configured.congr {h h' : Heap} (hc : h.Configured) (hs : SameSetting h h') :
    h'.Configured where
  accepted := by rw [hs.config]; exact hc.accepted
  kinds := by rw [hs.config, hs.layout, hs.kinds]; exact hc.kinds
  geometry := by rw [hs.config, hs.geometry.system]; exact hc.geometry.trans hs.geometry

/-- The bytes of a chunk are those of the configuration, if they are a
word. -/
theorem Configured.chunkBytes_eq {h : Heap} (hc : h.Configured) (hbits : h.store.chunkBits < 64) :
    h.store.chunkBytes = h.config.chunkBytes := by
  obtain ⟨k, hk⟩ := Word.isPowerOfTwo_iff.mp (Config.inOrder hc.accepted).chunk_pow
  have hzeros : h.store.chunkBits = Word.trailingZeros h.config.chunkBytes := hc.geometry.chunkBits
  rw [hk] at hzeros ⊢
  by_cases hlt : k < 64
  · rw [Store.chunkBytes, hzeros, Word.trailingZeros_two_pow hlt]
  · rw [Word.trailingZeros_two_pow_of_le (Nat.le_of_not_lt hlt)] at hzeros
    rw [hzeros] at hbits
    exact absurd hbits (Nat.lt_irrefl 64)

/-- **A new heap is well formed**, and it holds no object. -/
theorem wellFormed_create {config : Config} {layout : ObjectLayout} {system : System} {h : Heap}
    (hc : create config layout system = .ok h) :
    h.WellFormed ∧ (∀ p, h.lookup p = none) ∧ h.config = config ∧ h.layout = layout := by
  have hqueue := queue_create hc
  have hseg : ∀ i, h.store.segment? i = none := fun i => by
    obtain ⟨_, _, _, _, _, rfl⟩ := create_eq_ok hc
    exact segment?_ofConfig ..
  have hnone : ∀ {i t}, h.store.segment? i ≠ some t := fun {i t} ht => by
    rw [hseg] at ht
    cases ht
  have hempty : ∀ p, h.lookup p = none := fun p => lookup_of_none (hseg p.segment)
  have hpermanent : h.Permanent := fun p x spec hx => by
    rw [hempty] at hx
    cases hx
  obtain ⟨herr, kinds, table, _, htable, rfl⟩ := create_eq_ok hc
  refine ⟨⟨⟨wellFormed_ofConfig herr system, fun k spec n hk hn => fixed_of_ofList htable hk hn,
    fun _ _ ht => absurd ht hnone⟩, ⟨Array.size_replicate, fun k => ?_, fun k i => ?_,
    fun _ _ ht => absurd ht hnone, fun _ _ ht => absurd ht hnone⟩, hpermanent⟩, hempty, rfl, rfl⟩
  · rw [hqueue]
    exact List.nodup_nil
  · rw [hqueue]
    exact ⟨nofun, fun ⟨_, ht, _⟩ => absurd ht hnone⟩

end Heap

end SegmentedHeap
