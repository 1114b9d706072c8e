/-
SegmentedHeap.Proofs.Sweeping — what sweeping leaves of a heap.

Sweeping goes through the segments one by one, and what it does to one
does not depend on the others: it leaves `Segment.swept` of a segment
whose kind is collected, and the bytes of what is left are those from
before. So the whole of it is described segment by segment, and the
counts are those of rows of objects that can be named beforehand.

* `discarded_all` — a row of objects of one segment is discarded.
* `segment_swept` — one segment is swept.
* `sweep_eq` — **all segments are swept**, and the counts.
-/
import Mathlib.Data.List.Basic
import SegmentedHeap.Proofs.Marking
import SegmentedHeap.Proofs.Release
import SegmentedHeap.Proofs.SegmentSweep

namespace SegmentedHeap

/-- The record of an object that a collection has left, whether objects of
its kind are collected or not. -/
def Object.promoted (x : Object) (level : Generation) (collected : Bool) : Object :=
  { x with generation :=
      if collected = true ∧ x.generation ≤ level then x.generation.promoted level
      else x.generation }

namespace Heap

/-! ## Heaps with fewer objects -/

/-- Every object of `h'` is one of `h`, with the same bytes. -/
def Shrinks (h h' : Heap) : Prop :=
  ∀ q y, h'.lookup q = some y → ∃ x, h.lookup q = some x ∧ x.bytes = y.bytes

theorem Shrinks.refl (h : Heap) : Shrinks h h := fun _ y hy => ⟨y, hy, rfl⟩

theorem Shrinks.trans {h₁ h₂ h₃ : Heap} (hs : Shrinks h₁ h₂) (ht : Shrinks h₂ h₃) :
    Shrinks h₁ h₃ := by
  intro q z hz
  obtain ⟨y, hy, e⟩ := ht q z hz
  obtain ⟨x, hx, e'⟩ := hs q y hy
  exact ⟨x, hx, e'.trans e⟩

theorem Discarded.shrinks {h h' : Heap} {p : ObjRef} (hd : Discarded h p h') : Shrinks h h' := by
  intro q y hy
  rw [hd.lookup] at hy
  split at hy
  · cases hy
  · exact ⟨y, hy, rfl⟩

/-- A segment that is changed and keeps its shape and its objects. -/
theorem shrinks_modifySegment {h : Heap} {i : SegmentIndex} {f : Segment → Segment}
    (hf : ∀ s, h.store.segment? i = some s →
      Segment.SameShape s (f s) ∧ (f s).allocated = s.allocated) :
    Shrinks h (h.modifySegment i f) := by
  intro q y hy
  obtain ⟨t, ht, ho, rfl⟩ := lookup_eq_some.mp hy
  obtain ⟨s, hs, ⟨e, rfl⟩ | rfl⟩ := Store.exists_of_modifySegment ht
  · obtain ⟨hshape, halloc⟩ := hf s (e ▸ hs)
    rw [halloc] at ho
    refine ⟨_, lookup_eq_some.mpr ⟨s, hs, ho, rfl⟩, ?_⟩
    simp only [Segment.objectAt, hshape.base, hshape.chunks]
    rfl
  · exact ⟨_, lookup_eq_some.mpr ⟨t, hs, ho, rfl⟩, rfl⟩

/-! ## Discarding a row of objects -/

variable {h : Heap} {i : SegmentIndex} {s : Segment} {dead : List Offset}

/-- What discarding these slots of a segment leaves of a heap. -/
structure DiscardedAll (h : Heap) (i : SegmentIndex) (s : Segment) (dead : List Offset)
    (h' : Heap) : Prop where
  setting : SameSetting h h'
  formed : h'.Formed
  shrinks : Shrinks h h'
  other : ∀ j, j ≠ i → h'.store.segment? j = h.store.segment? j
  self : h'.store.segment? i =
    if s.isBig = true ∧ dead ≠ [] then none else some (s.vacateAll dead)
  queues : h'.queues = h.queues

/-- The list of references to slots of a segment. -/
def slotsOf (i : SegmentIndex) (os : List Offset) : List ObjRef := os.map (ObjRef.ofSlot i)

theorem discarded_slot (hf : h.Formed) {o : Offset} (hs : h.store.segment? i = some s)
    (ho : o ∈ s.allocated) : Discarded h (.ofSlot i o) (h.discard (.ofSlot i o)) := by
  have hi := Nat.le_of_lt (hf.store.index_lt hs)
  refine discarded hf (lookup_eq_some.mpr ⟨s, ?_, ?_, rfl⟩)
  · rw [ObjRef.segment_ofSlot hi]
    exact hs
  · rw [ObjRef.offset_ofSlot hi]
    exact ho

theorem discarded_all (hf : h.Formed) (hs : h.store.segment? i = some s) (hn : dead.Nodup)
    (hd : ∀ o ∈ dead, o ∈ s.allocated) :
    DiscardedAll h i s dead ((slotsOf i dead).foldl discard h) := by
  induction dead generalizing h s with
  | nil =>
    refine ⟨.refl h, hf, .refl h, fun _ _ => rfl, ?_, rfl⟩
    rw [if_neg (fun hc => hc.2 rfl)]
    exact hs
  | cons o dead ih =>
    have hi := Nat.le_of_lt (hf.store.index_lt hs)
    have hseg := ObjRef.segment_ofSlot hi o
    have hoff := ObjRef.offset_ofSlot hi o
    obtain ⟨hnew, hn⟩ := List.nodup_cons.mp hn
    have hone := discarded_slot hf hs (hd o List.mem_cons_self)
    have hother : ∀ j, j ≠ i → (h.discard (.ofSlot i o)).store.segment? j = h.store.segment? j := by
      intro j hj
      rw [hone.segment?, hseg, if_neg (Ne.symm hj)]
    have hself : (h.discard (.ofSlot i o)).store.segment? i = s.without o := by
      rw [hone.segment?, hseg, hoff, if_pos rfl, hs]
      rfl
    cases hb : s.isBig with
    | true =>
      -- a big segment has one slot, so that this was all of the row
      have hnil : dead = [] := by
        refine List.eq_nil_iff_forall_not_mem.mpr fun p hp => hnew ?_
        have hslot : ∀ r ∈ o :: dead, r ∈ s.slots := fun r hr =>
          (Segment.mem_allocated.mp (hd r hr)).1
        rw [hf.slot_of_big hs (hslot o List.mem_cons_self) hb,
          ← hf.slot_of_big hs (hslot p (List.mem_cons_of_mem o hp)) hb]
        exact hp
      rw [hnil]
      refine ⟨hone.setting, hone.formed, hone.shrinks, hother, ?_, hone.queues⟩
      rw [if_pos ⟨hb, List.cons_ne_nil _ _⟩]
      refine hself.trans ?_
      rw [Segment.without, hb, if_pos rfl]
    | false =>
      rw [Segment.without, hb, if_neg Bool.false_ne_true] at hself
      have hrest := ih hone.formed hself hn fun p hp => by
        refine Segment.mem_allocated_vacate.mpr ⟨?_, hd p (List.mem_cons_of_mem o hp)⟩
        rintro rfl
        exact hnew hp
      refine ⟨hone.setting.trans hrest.setting, hrest.formed, hone.shrinks.trans hrest.shrinks,
        fun j hj => (hrest.other j hj).trans (hother j hj), ?_, hrest.queues.trans hone.queues⟩
      have hb' : (s.vacate o).isBig = false := hb
      have hself' := hrest.self
      simp only [hb', Bool.false_eq_true, false_and, if_false] at hself'
      simp only [hb, Bool.false_eq_true, false_and, if_false]
      exact hself'

/-! ## One segment -/

/-- The segment at an index, if objects of its kind are collected. -/
def collected? (h : Heap) (i : SegmentIndex) : Option Segment :=
  (h.store.segment? i).filter fun s => (h.kinds.get? s.kind).any (!·.uncollected)

/-- What sweeping leaves of a segment of a heap. -/
def sweptSegment (h : Heap) (level : Generation) (s : Segment) : Option Segment :=
  if (h.kinds.get? s.kind).any (!·.uncollected) then s.swept level else some s

/-- The references to some slots of the segment at an index, if objects of
its kind are collected. -/
def slotsAt (h : Heap) (f : Segment → List Offset) (i : SegmentIndex) : List ObjRef :=
  (h.collected? i).elim [] fun s => slotsOf i (f s)

/-- The objects of a segment that a collection frees. -/
def deadAt (h : Heap) (level : Generation) : SegmentIndex → List ObjRef :=
  h.slotsAt fun s => (s.dying level).members

/-- The objects of a segment whose generation a collection changes. -/
def movedAt (h : Heap) (level : Generation) : SegmentIndex → List ObjRef :=
  h.slotsAt (·.promotable level)

/-- Those among them that come of age. -/
def agedAt (h : Heap) (level : Generation) : SegmentIndex → List ObjRef :=
  h.slotsAt fun s => (s.promotable level).filter fun o => s.generation o == .one

/-- The chunks of the objects of a segment that a collection frees. -/
def deadChunksAt (h : Heap) (level : Generation) (i : SegmentIndex) : Nat :=
  (h.collected? i).elim 0 fun s => (s.dying level).members.length * s.chunks

/-- What a collection does to a table of segments when those at some
indexes were swept. -/
structure SweptBy (h : Heap) (level : Generation) (done : SegmentIndex → Prop) (h' : Heap) :
    Prop where
  setting : SameSetting h h'
  formed : h'.Formed
  shrinks : Shrinks h h'
  swept : ∀ j, done j → h'.store.segment? j = (h.store.segment? j).bind (h.sweptSegment level)
  other : ∀ j, ¬ done j → h'.store.segment? j = h.store.segment? j
  queues : h'.queues = h.queues

variable {level : Generation}

/-- The discarded objects gone, the others promoted. -/
theorem sweptBy_promote (hf : h.Formed) (hs : h.store.segment? i = some s)
    (hc : (h.kinds.get? s.kind).any (!·.uncollected) = true) :
    SweptBy h level (· = i)
      (((slotsOf i (s.dying level).members).foldl discard h).modifySegment i
        (·.promote level (s.promotable level))) := by
  have hwf := hf.store.segment_wf i s hs
  have hdying : ∀ o ∈ (s.dying level).members, o ∈ s.allocated := fun o ho =>
    (Segment.mem_dying.mp (OffsetSet.mem_members.mp ho)).1
  have hd := discarded_all hf hs (Segment.nodup_members _) hdying
  generalize (slotsOf i (s.dying level).members).foldl discard h = h₁ at hd
  have hself := hd.self
  -- the promoted slots still hold their objects
  have hstay : ∀ t, h₁.store.segment? i = some t → t = s.vacateAll (s.dying level).members ∧
      ∀ o ∈ s.promotable level, o ∈ t.allocated := by
    intro t ht
    rw [hself] at ht
    split at ht
    · cases ht
    · cases ht
      refine ⟨rfl, fun o ho => Segment.mem_allocated_vacateAll.mpr ⟨fun hm => ?_, ?_⟩⟩
      · have hmarked := (Segment.mem_promotable.mp ho).1.2.2
        exact (Segment.mem_dying.mp (OffsetSet.mem_members.mp hm)).2.2 hmarked
      · exact (Segment.mem_promotable.mp ho).1.1
  refine ⟨hd.setting.trans (sameSetting_modifySegment h₁ i _),
    hd.formed.modifySegment fun t ht => ?_,
    hd.shrinks.trans (shrinks_modifySegment fun t _ => ?_), ?_, fun j hj => ?_, hd.queues⟩
  · obtain ⟨_, hp⟩ := hstay t ht
    exact ⟨Segment.sameShape_promote t level _,
      (hd.formed.store.segment_wf i t ht).promote hp⟩
  · exact ⟨Segment.sameShape_promote t level _, Segment.allocated_promote t level _⟩
  · rintro j rfl
    rw [segment?_modifySegment, if_pos rfl, hself, hs, Option.bind_some, sweptSegment, hc,
      if_pos rfl, Segment.swept]
    have hiff : (s.isBig && !(s.dying level).isEmpty) = true ↔
        s.isBig = true ∧ (s.dying level).members ≠ [] := by
      rw [Bool.and_eq_true, Bool.not_eq_true', Bool.eq_false_iff, ne_eq, OffsetSet.isEmpty_iff,
        ne_eq, List.eq_nil_iff_forall_not_mem]
      simp only [OffsetSet.mem_members]
    by_cases hbig : s.isBig = true ∧ (s.dying level).members ≠ []
    · rw [if_pos hbig, if_pos (hiff.mpr hbig)]
      rfl
    · rw [if_neg hbig, if_neg (fun hn => hbig (hiff.mp hn))]
      rfl
  · rw [segment?_modifySegment, if_neg (Ne.symm hj), hd.other j hj]

/-- What sweeping one segment leaves. -/
structure SegmentSwept {σ : Type} (a : Sweeping σ) (level : Generation) (i : SegmentIndex)
    (b : Sweeping σ) : Prop where
  heap : SweptBy a.heap level (· = i) b.heap
  freed : b.freed = a.freed + (a.heap.deadAt level i).length
  freedChunks : b.freedChunks = a.freedChunks + a.heap.deadChunksAt level i
  promoted : b.promoted = a.promoted + (a.heap.movedAt level i).length
  aged : b.aged = a.aged ++ a.heap.agedAt level i

/-- A segment without collected objects is passed over. -/
theorem segmentSwept_skip {σ : Type} {a : Sweeping σ} (hf : a.heap.Formed) (level : Generation)
    (hnone : a.heap.collected? i = none) : SegmentSwept a level i a := by
  refine ⟨⟨.refl _, hf, .refl _, ?_, fun _ _ => rfl, rfl⟩, ?_, ?_, ?_, ?_⟩
  · rintro j rfl
    cases hs : a.heap.store.segment? j with
    | none => rfl
    | some s =>
      rw [collected?, hs, Option.filter_eq_none_iff] at hnone
      have hc := Bool.eq_false_iff.mpr (hnone s rfl)
      rw [Option.bind_some, sweptSegment, hc, if_neg Bool.false_ne_true]
  · rw [deadAt, slotsAt, hnone]
    rfl
  · rw [deadChunksAt, hnone]
    rfl
  · rw [movedAt, slotsAt, hnone]
    rfl
  · rw [agedAt, slotsAt, hnone]
    exact (List.append_nil _).symm

theorem segment_swept {σ : Type} (tracer : Tracer σ) (level : Generation) (a : Sweeping σ)
    (hf : a.heap.Formed) (i : SegmentIndex) :
    SegmentSwept a level i (a.segment tracer level i) := by
  unfold Sweeping.segment
  cases hs : a.heap.store.segment? i with
  | none => exact segmentSwept_skip hf level (by rw [collected?, hs]; rfl)
  | some s =>
    obtain ⟨spec, hspec, _⟩ := hf.typed i s hs
    simp only [hspec]
    cases hu : spec.uncollected with
    | true =>
      refine segmentSwept_skip hf level ?_
      rw [collected?, hs, Option.filter_eq_none_iff]
      rintro t ⟨⟩
      rw [hspec, Option.any_some, hu]
      exact Bool.false_ne_true
    | false =>
      have hc : (a.heap.kinds.get? s.kind).any (!·.uncollected) = true := by
        rw [hspec, Option.any_some, hu]
        rfl
      have hcol : a.heap.collected? i = some s := by
        rw [collected?, hs, Option.filter_some, if_pos hc]
      refine ⟨sweptBy_promote hf hs hc, ?_, ?_, ?_, ?_⟩
      · rw [deadAt, slotsAt, hcol]
        rfl
      · rw [deadChunksAt, hcol]
        show _ + (slotsOf i (s.dying level).members).length * s.chunks = _
        rw [slotsOf, List.length_map]
        rfl
      · rw [movedAt, slotsAt, hcol]
        show _ + (s.promotable level).length = _ + (slotsOf i (s.promotable level)).length
        rw [slotsOf, List.length_map]
      · rw [agedAt, slotsAt, hcol]
        rfl

/-! ## All segments -/

/-- Nothing but the kind table and the segment itself matters. -/
theorem collected?_congr {h h' : Heap} (hk : h'.kinds = h.kinds) {j : SegmentIndex}
    (hs : h'.store.segment? j = h.store.segment? j) : h'.collected? j = h.collected? j := by
  rw [collected?, collected?, hk, hs]

theorem SweptBy.trans {h₁ h₂ : Heap} {l : List SegmentIndex} (hi : i ∉ l)
    (ha : SweptBy h level (· = i) h₁) (hb : SweptBy h₁ level (· ∈ l) h₂) :
    SweptBy h level (· ∈ i :: l) h₂ where
  setting := ha.setting.trans hb.setting
  formed := hb.formed
  shrinks := ha.shrinks.trans hb.shrinks
  swept j hj := by
    rcases List.mem_cons.mp hj with rfl | hj
    · rw [hb.other j hi, ha.swept j rfl]
    · have hsame : h₁.sweptSegment level = h.sweptSegment level := by
        funext s
        rw [sweptSegment, sweptSegment, ha.setting.kinds]
      rw [hb.swept j hj, hsame, ha.other j fun e => hi (e ▸ hj)]
  other j hj := by
    rw [hb.other j fun hm => hj (List.mem_cons_of_mem i hm),
      ha.other j fun e => hj (e ▸ List.mem_cons_self)]
  queues := hb.queues.trans ha.queues

/-- What sweeping the segments at these indexes leaves. -/
structure AllSwept {σ : Type} (a : Sweeping σ) (level : Generation) (l : List SegmentIndex)
    (b : Sweeping σ) : Prop where
  heap : SweptBy a.heap level (· ∈ l) b.heap
  freed : b.freed = a.freed + (l.flatMap (a.heap.deadAt level)).length
  freedChunks : b.freedChunks = a.freedChunks + Word.total (l.map (a.heap.deadChunksAt level))
  promoted : b.promoted = a.promoted + (l.flatMap (a.heap.movedAt level)).length
  aged : b.aged = a.aged ++ l.flatMap (a.heap.agedAt level)

theorem all_swept {σ : Type} (tracer : Tracer σ) (level : Generation) (l : List SegmentIndex)
    (hn : l.Nodup) (a : Sweeping σ) (hf : a.heap.Formed) :
    AllSwept a level l (l.foldl (Sweeping.segment tracer level) a) := by
  induction l generalizing a with
  | nil =>
    refine ⟨⟨.refl _, hf, .refl _, nofun, fun _ _ => rfl, rfl⟩, rfl, rfl, rfl, ?_⟩
    exact (List.append_nil _).symm
  | cons i l ih =>
    obtain ⟨hi, hn⟩ := List.nodup_cons.mp hn
    have hone := segment_swept tracer level a hf i
    have hrest := ih hn _ hone.heap.formed
    have hsame : ∀ j ∈ l, (a.segment tracer level i).heap.collected? j = a.heap.collected? j :=
      fun j hj => collected?_congr hone.heap.setting.kinds
        (hone.heap.other j fun e => hi (e ▸ hj))
    refine ⟨hone.heap.trans hi hrest.heap, ?_, ?_, ?_, ?_⟩
    · rw [List.foldl_cons, hrest.freed, hone.freed, List.flatMap_cons, List.length_append,
        Nat.add_assoc, List.flatMap_congr fun j hj => ?_]
      rw [deadAt, deadAt, slotsAt, slotsAt, hsame j hj]
    · rw [List.foldl_cons, hrest.freedChunks, hone.freedChunks, List.map_cons, Word.total_cons,
        Nat.add_assoc, List.map_congr_left fun j hj => ?_]
      rw [deadChunksAt, deadChunksAt, hsame j hj]
    · rw [List.foldl_cons, hrest.promoted, hone.promoted, List.flatMap_cons, List.length_append,
        Nat.add_assoc, List.flatMap_congr fun j hj => ?_]
      rw [movedAt, movedAt, slotsAt, slotsAt, hsame j hj]
    · rw [List.foldl_cons, hrest.aged, hone.aged, List.flatMap_cons, List.append_assoc,
        List.flatMap_congr fun j hj => ?_]
      rw [agedAt, agedAt, slotsAt, slotsAt, hsame j hj]

/-- What sweeping leaves of a heap, segment by segment. -/
structure Swept (h : Heap) (level : Generation) (h' : Heap) : Prop where
  setting : SameSetting h h'
  formed : h'.Formed
  shrinks : Shrinks h h'
  segment? : ∀ j, h'.store.segment? j = (h.store.segment? j).bind (h.sweptSegment level)
  queues : h'.queues = h.queues

/-- **Every segment is swept**, and the counts are those of the objects
that go, or move. -/
theorem sweep_eq {σ : Type} (hf : h.Formed) (tracer : Tracer σ) (level : Generation) (log : σ) :
    Swept h level (h.sweep tracer level log).heap ∧
    AllSwept { heap := h, log } level h.store.indices (h.sweep tracer level log) := by
  have hall := all_swept tracer level h.store.indices (Store.nodup_indices _)
    { heap := h, log } hf
  refine ⟨⟨hall.heap.setting, hall.heap.formed, hall.heap.shrinks, fun j => ?_,
    hall.heap.queues⟩, hall⟩
  by_cases hj : j ∈ h.store.indices
  · exact hall.heap.swept j hj
  · have hnone := Store.segment?_of_not_mem_indices hj
    rw [hnone]
    exact (hall.heap.other j hj).trans hnone

/-! ## Objects after sweeping -/

/-- An object that sweeping frees. -/
def Doomed (h : Heap) (level : Generation) (q : ObjRef) : Prop :=
  h.collectable q = true ∧ ¬ h.IsMarked q ∧
    ∃ x, h.lookup q = some x ∧ x.generation ≤ level

theorem collectable_of_segment? {q : ObjRef} (hs : h.store.segment? q.segment = some s)
    (ho : q.offset ∈ s.allocated) :
    h.collectable q = (h.kinds.get? s.kind).any (!·.uncollected) := by
  rw [collectable, lookup_of_segment? hs, Segment.object?_of_mem ho]
  rfl

theorem doomed_iff {q : ObjRef} (hs : h.store.segment? q.segment = some s) :
    h.Doomed level q ↔ (h.kinds.get? s.kind).any (!·.uncollected) = true ∧
      q.offset ∈ s.dying level := by
  rw [Segment.mem_dying]
  constructor
  · rintro ⟨hc, hm, x, hx, hg⟩
    obtain ⟨t, ht, ho, rfl⟩ := lookup_eq_some.mp hx
    rw [hs] at ht
    cases ht
    rw [collectable_of_segment? hs ho] at hc
    exact ⟨hc, ho, hg, fun hmk => hm ⟨s, hs, hmk⟩⟩
  · rintro ⟨hc, ho, hg, hm⟩
    refine ⟨?_, ?_, _, lookup_eq_some.mpr ⟨s, hs, ho, rfl⟩, hg⟩
    · rw [collectable_of_segment? hs ho]
      exact hc
    · rintro ⟨t, ht, hmk⟩
      rw [hs] at ht
      cases ht
      exact hm hmk

variable {h' : Heap} {q : ObjRef} {x : Object}

/-- Sweeping makes no object. -/
theorem Swept.lookup_of_none (hw : Swept h level h') (hx : h.lookup q = none) :
    h'.lookup q = none := by
  cases hy : h'.lookup q with
  | none => rfl
  | some y =>
    obtain ⟨x, hx', _⟩ := hw.shrinks q y hy
    rw [hx] at hx'
    cases hx'

/-- The doomed objects are gone. -/
theorem Swept.lookup_of_doomed (hw : Swept h level h') (hd : h.Doomed level q) :
    h'.lookup q = none := by
  obtain ⟨_, _, x, hx, _⟩ := id hd
  obtain ⟨s, hs, _⟩ := lookup_eq_some.mp hx
  obtain ⟨hc, ho⟩ := (doomed_iff hs).mp hd
  have hseg := hw.segment? q.segment
  rw [hs, Option.bind_some, sweptSegment, if_pos hc] at hseg
  cases ht : s.swept level with
  | none =>
    rw [ht] at hseg
    exact Heap.lookup_of_none hseg
  | some t =>
    rw [ht] at hseg
    rw [lookup_of_segment? hseg, Segment.object?_of_not_mem]
    exact fun hm => ((Segment.mem_allocated_swept ht).mp hm).2 ho

/-- An object of which all but the bytes is known to be left. -/
theorem Shrinks.lookup_eq {y : Object} (hw : Shrinks h h') (hx : h.lookup q = some x)
    (hy : h'.lookup q = some y) : y = { y with bytes := x.bytes } := by
  obtain ⟨x', hx', hbytes⟩ := hw q y hy
  rw [hx] at hx'
  cases hx'
  rw [hbytes]

/-- **The others are left as they were, or promoted.** -/
theorem Swept.lookup_of_survivor (hf : h.Formed) (hw : Swept h level h')
    (hx : h.lookup q = some x) (hd : ¬ h.Doomed level q) :
    h'.lookup q = some (x.promoted level (h.collectable q)) := by
  obtain ⟨s, hs, ho, hxs⟩ := lookup_eq_some.mp hx
  have hseg := hw.segment? q.segment
  rw [hs, Option.bind_some, sweptSegment] at hseg
  rw [doomed_iff hs] at hd
  rw [collectable_of_segment? hs ho]
  cases hc : (h.kinds.get? s.kind).any (!·.uncollected) with
  | false =>
    rw [hc, if_neg Bool.false_ne_true] at hseg
    have hy : h'.lookup q = some _ := lookup_eq_some.mpr ⟨s, hseg, ho, rfl⟩
    rw [hy, hw.shrinks.lookup_eq hx hy, hxs]
    simp only [Segment.objectAt, Object.promoted, hw.setting.geometry.chunkBytes,
      Bool.false_eq_true, false_and, if_false]
  | true =>
    rw [hc, if_pos rfl] at hseg
    have hno : ¬ q.offset ∈ s.dying level := fun hm => hd ⟨hc, hm⟩
    cases ht : s.swept level with
    | none =>
      -- a big segment that is swept away held one object, and this one would be it
      obtain ⟨hb, o, hdo⟩ := Segment.swept_eq_none ht
      have hslot := (Segment.mem_allocated.mp (Segment.mem_dying.mp hdo).1).1
      rw [hf.slot_of_big hs hslot hb,
        ← hf.slot_of_big hs (Segment.mem_allocated.mp ho).1 hb] at hdo
      exact absurd hdo hno
    | some t =>
      rw [ht] at hseg
      have hmem : q.offset ∈ t.allocated := (Segment.mem_allocated_swept ht).mpr ⟨ho, hno⟩
      have hy : h'.lookup q = some _ := lookup_eq_some.mpr ⟨t, hseg, hmem, rfl⟩
      have hshape := Segment.sameShape_swept ht
      have hrem : t.inOldToNew q.offset = s.inOldToNew q.offset := by
        rw [Bool.eq_iff_iff, Segment.inOldToNew_iff, Segment.inOldToNew_iff,
          Segment.mem_oldToNew_swept ht]
        exact ⟨And.left, fun hm => ⟨hm, hno⟩⟩
      rw [hy, hw.shrinks.lookup_eq hx hy, hxs]
      simp only [Segment.objectAt, Object.promoted, hw.setting.geometry.chunkBytes, hshape.kind,
        hshape.chunks, hshape.base, hrem, Segment.length?_swept ht hno,
        Segment.generation_swept ht hmem, true_and]

end Heap

end SegmentedHeap
