/-
SegmentedHeap.Proofs.Queueing — the queues are made anew.

At the end of a collection every segment is filed: a small one without
objects is given back, and each other one waits in the queue of its kind
exactly if it is small and has a free slot. No object can tell. The
queues hold indexes in increasing order, as they are gone through.

* `fileSegment_filed` — one segment is filed.
* `rebuildQueues_filed` — **all of them**, after which the heap is in order.
-/
import Mathlib.Data.List.Basic
import SegmentedHeap.Proofs.Release
import SegmentedHeap.Proofs.SegmentSweep

namespace SegmentedHeap

namespace Heap

/-- Whether filing gives the segment at an index back. -/
def givesBack (h : Heap) (i : SegmentIndex) : Bool :=
  (h.store.segment? i).any fun s => !s.isBig && s.isEmpty

/-- Whether filing puts the index in the queue of a kind. -/
def joins (h : Heap) (k : KindId) (i : SegmentIndex) : Bool :=
  (h.store.segment? i).any fun s => !s.isBig && !s.isEmpty && s.hasFree && s.kind == k

variable {h h' : Heap} {i : SegmentIndex} {s : Segment}

/-- What filing the segments at these indexes leaves of a heap and a
count. -/
structure AllFiled (a : Heap × Nat) (l : List SegmentIndex) (b : Heap × Nat) : Prop where
  setting : SameSetting a.1 b.1
  formed : b.1.Formed
  lookup : b.1.lookup = a.1.lookup
  filed : ∀ j, j ∈ l → b.1.store.segment? j = (a.1.store.segment? j).bind Segment.filed
  other : ∀ j, j ∉ l → b.1.store.segment? j = a.1.store.segment? j
  size : b.1.queues.size = a.1.queues.size
  queue : ∀ k, b.1.queue k = a.1.queue k ++ l.filter (a.1.joins k)
  released : b.2 = a.2 + (l.filter a.1.givesBack).length

/-- A segment that is kept and does not join a queue. -/
theorem allFiled_setQueued (hf : h.Formed) (n : Nat) (hs : h.store.segment? i = some s)
    (hfiled : s.filed = some (s.setQueued false)) (hstay : h.givesBack i = false)
    (hjoins : ∀ k, h.joins k i = false) :
    AllFiled (h, n) [i] (h.modifySegment i (·.setQueued false), n) := by
  have hwf := hf.store.segment_wf
  refine ⟨sameSetting_modifySegment h i _, hf.modifySegment fun t ht =>
      ⟨Segment.sameShape_setQueued t false, (hwf i t ht).setQueued false⟩,
    lookup_modifySegment_of_same fun t _ o => ?_, fun j hj => ?_, fun j hj => ?_, rfl,
    fun k => ?_, ?_⟩
  · exact Segment.object?_congr (Segment.sameShape_setQueued t false) Iff.rfl rfl Iff.rfl rfl _ _
  · rw [List.mem_singleton.mp hj]
    show (h.modifySegment i _).store.segment? i = _
    rw [segment?_modifySegment, if_pos rfl, hs, Option.bind_some, hfiled]
    rfl
  · show (h.modifySegment i _).store.segment? j = _
    rw [segment?_modifySegment, if_neg fun e : i = j => hj (e ▸ List.mem_singleton_self i)]
  · show h.queue k = _
    simp [hjoins]
  · show n = _
    simp [hstay]

/-- A small segment with objects and a free slot joins its queue. -/
theorem allFiled_waiting (hf : h.Formed) (n : Nat) (hsize : h.queues.size = h.kinds.size)
    (hs : h.store.segment? i = some s) (hb : s.isBig = false) (he : s.isEmpty = false)
    (hfree : s.hasFree = true) : AllFiled (h, n) [i] (h.waiting s.kind i, n) := by
  obtain ⟨spec, hspec, _⟩ := hf.typed i s hs
  refine ⟨⟨rfl, rfl, rfl, Store.sameGeometry_modifySegment h.store i _⟩, hf.waiting s.kind i,
    lookup_waiting h s.kind i, fun j hj => ?_, fun j hj => ?_, Array.size_modify, fun k => ?_, ?_⟩
  · rw [List.mem_singleton.mp hj, segment?_waiting hs, if_pos rfl, hs, Option.bind_some,
      Segment.filed, hb, he, hfree]
    rfl
  · rw [segment?_waiting hs, if_neg fun e : i = j => hj (e ▸ List.mem_singleton_self i)]
  · have hlt : s.kind < h.queues.size := by
      rw [hsize]
      exact (Array.getElem?_eq_some_iff.mp hspec).1
    have hjoins : h.joins k i = (s.kind == k) := by
      rw [joins, hs, Option.any_some, hb, he, hfree]
      rfl
    show (h.waiting s.kind i).queue k = h.queue k ++ [i].filter (h.joins k)
    rw [queue_waiting hlt, List.filter_singleton, hjoins]
    by_cases e : s.kind = k
    · rw [if_pos e, beq_iff_eq.mpr e]
      simp
    · rw [if_neg e, beq_false_of_ne e]
      simp
  · have hstay : h.givesBack i = false := by
      rw [givesBack, hs, Option.any_some, hb, he]
      rfl
    show n = _
    simp [hstay]

/-- A small segment without objects is given back. -/
theorem allFiled_release (hf : h.Formed) (n : Nat) (hs : h.store.segment? i = some s)
    (hb : s.isBig = false) (he : s.isEmpty = true) :
    AllFiled (h, n) [i] (h.setStore (h.store.release i), n + 1) := by
  have hwf := hf.store.segment_wf i s hs
  refine ⟨sameSetting_release h i, hf.release i, ?_, fun j hj => ?_, fun j hj => ?_, rfl,
    fun k => ?_, ?_⟩
  · funext q
    show (h.setStore (h.store.release i)).lookup q = h.lookup q
    rw [lookup_release hf hs]
    split
    · next e =>
      rw [lookup_of_segment? (e ▸ hs), Segment.object?_of_not_mem]
      exact (Segment.isEmpty_iff hwf).mp he _
    · rfl
  · rw [List.mem_singleton.mp hj]
    show (h.store.release i).segment? i = _
    rw [Store.segment?_release, if_pos rfl, hs, Option.bind_some,
      Segment.filed_eq_none.mpr ⟨hb, he⟩]
  · show (h.store.release i).segment? j = _
    rw [Store.segment?_release, if_neg fun e : i = j => hj (e ▸ List.mem_singleton_self i)]
  · have hjoins : h.joins k i = false := by
      rw [joins, hs, Option.any_some, hb, he]
      rfl
    show h.queue k = _
    simp [hjoins]
  · have hback : h.givesBack i = true := by
      rw [givesBack, hs, Option.any_some, hb, he]
      rfl
    show n + 1 = _
    simp [hback]

/-- **One segment is filed.** -/
theorem fileSegment_filed (hf : h.Formed) (n : Nat) (hsize : h.queues.size = h.kinds.size)
    (i : SegmentIndex) : AllFiled (h, n) [i] (fileSegment (h, n) i) := by
  cases hs : h.store.segment? i with
  | none =>
    simp only [fileSegment, hs]
    have hj : ∀ k, h.joins k i = false := fun k => by rw [joins, hs]; rfl
    have hb : h.givesBack i = false := by rw [givesBack, hs]; rfl
    refine ⟨.refl h, hf, rfl, fun j hj => ?_, fun _ _ => rfl, rfl, fun k => ?_, ?_⟩
    · rw [List.mem_singleton.mp hj]
      show h.store.segment? i = (h.store.segment? i).bind _
      rw [hs]
      rfl
    · simp [hj]
    · simp [hb]
  | some s =>
    -- a big segment never waits, an empty one goes back, the others wait if they have room
    cases hb : s.isBig with
    | true =>
      simp only [fileSegment, hs, hb, if_true]
      refine allFiled_setQueued hf n hs (by rw [Segment.filed, hb, if_pos rfl]) ?_ fun k => ?_
      · rw [givesBack, hs, Option.any_some, hb]
        rfl
      · rw [joins, hs, Option.any_some, hb]
        rfl
    | false =>
      cases he : s.isEmpty with
      | true =>
        simp only [fileSegment, hs, hb, he, if_true, Bool.false_eq_true, if_false]
        exact allFiled_release hf n hs hb he
      | false =>
        cases hfree : s.hasFree with
        | true =>
          simp only [fileSegment, hs, hb, he, hfree, if_true, Bool.false_eq_true, if_false]
          exact allFiled_waiting hf n hsize hs hb he hfree
        | false =>
          simp only [fileSegment, hs, hb, he, hfree, Bool.false_eq_true, if_false]
          refine allFiled_setQueued hf n hs ?_ ?_ fun k => ?_
          · rw [Segment.filed, hb, he, hfree]
            rfl
          · rw [givesBack, hs, Option.any_some, hb, he]
            rfl
          · rw [joins, hs, Option.any_some, hb, he, hfree]
            rfl

/-! ## All segments -/

theorem AllFiled.trans {a b c : Heap × Nat} {l : List SegmentIndex} (hi : i ∉ l)
    (ha : AllFiled a [i] b) (hb : AllFiled b l c) : AllFiled a (i :: l) c := by
  have hne : ∀ j ∈ l, j ∉ [i] := fun j hj hm => hi (List.mem_singleton.mp hm ▸ hj)
  refine ⟨ha.setting.trans hb.setting, hb.formed, hb.lookup.trans ha.lookup, fun j hj => ?_,
    fun j hj => ?_, hb.size.trans ha.size, fun k => ?_, ?_⟩
  · rcases List.mem_cons.mp hj with rfl | hj
    · rw [hb.other j hi, ha.filed j (List.mem_singleton_self j)]
    · rw [hb.filed j hj, ha.other j (hne j hj)]
  · rw [hb.other j fun hm => hj (List.mem_cons_of_mem i hm),
      ha.other j fun hm => hj (List.mem_singleton.mp hm ▸ List.mem_cons_self)]
  · have hsame : l.filter (b.1.joins k) = l.filter (a.1.joins k) := by
      refine List.filter_congr fun j hj => ?_
      rw [joins, joins, ha.other j (hne j hj)]
    rw [hb.queue, ha.queue, hsame, List.append_assoc, ← List.filter_append, List.singleton_append]
  · have hsame : l.filter b.1.givesBack = l.filter a.1.givesBack := by
      refine List.filter_congr fun j hj => ?_
      rw [givesBack, givesBack, ha.other j (hne j hj)]
    rw [hb.released, ha.released, hsame, Nat.add_assoc, ← List.length_append, ← List.filter_append,
      List.singleton_append]

theorem foldl_filed (l : List SegmentIndex) (hn : l.Nodup) (a : Heap × Nat) (hf : a.1.Formed)
    (hsize : a.1.queues.size = a.1.kinds.size) : AllFiled a l (l.foldl fileSegment a) := by
  induction l generalizing a with
  | nil =>
    exact ⟨.refl _, hf, rfl, nofun, fun _ _ => rfl, rfl, fun k => (List.append_nil _).symm, rfl⟩
  | cons i l ih =>
    obtain ⟨hi, hn⟩ := List.nodup_cons.mp hn
    have hone := fileSegment_filed hf a.2 hsize i
    refine hone.trans hi (ih hn _ hone.formed ?_)
    rw [hone.size, hone.setting.kinds]
    exact hsize

/-- The segments that join a queue are those that wait when all are
filed. -/
theorem joins_iff_filed (k : KindId) (i : SegmentIndex) : h.joins k i = true ↔
    ∃ t, (h.store.segment? i).bind Segment.filed = some t ∧ t.kind = k ∧ t.queued = true := by
  cases hs : h.store.segment? i with
  | none =>
    rw [joins, hs]
    exact iff_of_false Bool.false_ne_true (by simp)
  | some s =>
    rw [joins, hs, Option.any_some, Option.bind_some]
    simp only [Bool.and_eq_true, Bool.not_eq_true', beq_iff_eq]
    constructor
    · rintro ⟨⟨⟨hb, he⟩, hfree⟩, hk⟩
      refine ⟨s.setQueued true, ?_, hk, rfl⟩
      rw [Segment.filed, hb, he, hfree]
      rfl
    · rintro ⟨t, hst, hk, hq⟩
      obtain ⟨hb, hfree⟩ := (Segment.queued_filed hst).mp hq
      obtain ⟨b, rfl⟩ := Segment.filed_eq_some hst
      refine ⟨⟨⟨hb, Bool.eq_false_iff.mpr fun he => ?_⟩, hfree⟩, hk⟩
      rw [(Segment.filed_eq_none (s := s)).mpr ⟨hb, he⟩] at hst
      cases hst

/-- What making the queues anew leaves of a heap, and the count. -/
structure Refiled (h h' : Heap) (n : Nat) : Prop where
  setting : SameSetting h h'
  formed : h'.Formed
  filed : h'.Filed
  lookup : h'.lookup = h.lookup
  segment? : ∀ j, h'.store.segment? j = (h.store.segment? j).bind Segment.filed
  queue : ∀ k, h'.queue k = h.store.indices.filter (h.joins k)
  released : n = (h.store.indices.filter h.givesBack).length

/-- **Every segment is filed**, and the heap is in order again. -/
theorem rebuildQueues_filed (hf : h.Formed) (hsize : h.queues.size = h.kinds.size)
    (hfull : ∀ i s, h.store.segment? i = some s → s.isBig = true → s.hasFree = false) :
    Refiled h h.rebuildQueues.1 h.rebuildQueues.2 := by
  have hempty : ∀ k : KindId,
      (h.queues.map fun _ => ([] : List SegmentIndex))[k]?.getD [] = [] := by
    intro k
    rw [Array.getElem?_map]
    cases h.queues[k]? <;> rfl
  -- all queues are emptied first, and each segment is then filed once
  have hall := foldl_filed h.store.indices (Store.nodup_indices _)
    ({ h with queues := h.queues.map fun _ => [] }, 0) (hf.congr rfl rfl)
    (Array.size_map.trans hsize)
  have hseg : ∀ j, h.rebuildQueues.1.store.segment? j =
      (h.store.segment? j).bind Segment.filed := by
    intro j
    by_cases hj : j ∈ h.store.indices
    · exact hall.filed j hj
    · have hnone := Store.segment?_of_not_mem_indices hj
      rw [hnone]
      exact (hall.other j hj).trans hnone
  have hqueue : ∀ k, h.rebuildQueues.1.queue k = h.store.indices.filter (h.joins k) := by
    intro k
    refine (hall.queue k).trans ?_
    show (h.queues.map fun _ => ([] : List SegmentIndex))[k]?.getD [] ++ _ = _
    rw [hempty, List.nil_append]
    rfl
  have hsetting : SameSetting h h.rebuildQueues.1 :=
    ⟨hall.setting.config, hall.setting.layout, hall.setting.kinds, hall.setting.geometry⟩
  refine ⟨hsetting, hall.formed, ⟨?_, fun k => ?_, fun k i => ?_, fun i t ht => ?_,
    fun i t ht hb => ?_⟩, hall.lookup, hseg, hqueue, ?_⟩
  · rw [hsetting.kinds, ← hsize]
    exact hall.size.trans Array.size_map
  · rw [hqueue]
    exact (Store.nodup_indices _).filter _
  · rw [hqueue, List.mem_filter, hseg, ← joins_iff_filed]
    refine and_iff_right_of_imp fun hj => ?_
    obtain ⟨t, ht, _⟩ := (joins_iff_filed k i).mp hj
    obtain ⟨s, hs, _⟩ := Option.bind_eq_some_iff.mp ht
    exact Store.mem_indices.mpr ⟨s, hs⟩
  · rw [hseg] at ht
    obtain ⟨s, _, hst⟩ := Option.bind_eq_some_iff.mp ht
    exact Segment.queued_filed hst
  · rw [hseg] at ht
    obtain ⟨s, hs, hst⟩ := Option.bind_eq_some_iff.mp ht
    obtain ⟨b, rfl⟩ := Segment.filed_eq_some hst
    exact hfull i s hs hb
  · exact hall.released.trans (Nat.zero_add _)

end Heap

end SegmentedHeap
