/-
SegmentedHeap.Proofs.Pruning — a collection leaves no segment empty.

During a collection segments are given back on two paths: a big one as
soon as its object goes, and a small one that is empty when the queues are
made anew at the end. Each step gives back some segments and leaves the
others, and so does the whole. What is left holds an object each, so that
there are no more segments than live objects; the areas of those that went
are spare; and each queue has the lowest free slot of its kind at the
front.

* `Store.GivesBack` — what giving segments back does to a store.
* `collect_refiled` — a collection gives back segments and files the rest.
* `Occupied`, `LowestSlot` — no segment without an object, and the slot
  that comes next.
* `pruned_collect` — **a collection prunes a heap**.
-/
import Mathlib.Data.List.Sort
import SegmentedHeap.Proofs.Accounting
import SegmentedHeap.Proofs.Books
import SegmentedHeap.Proofs.FreeLists

namespace SegmentedHeap

/-- No member of a set is below the first. -/
theorem OffsetSet.first?_le {t : OffsetSet} {o p : Offset} (ho : t.first? = some o)
    (hp : p ∈ t) : o ≤ p := by
  obtain ⟨_, before, rest, hsplit, hbefore⟩ := List.find?_eq_some_iff_append.mp ho
  have hsorted := (List.sortedLT_finRange 64).pairwise
  have hmem := mem_offsets p
  rw [← offsets, hsplit, List.pairwise_append] at hsorted
  rw [hsplit, List.mem_append, List.mem_cons] at hmem
  rcases hmem with hm | rfl | hm
  · exact absurd hp (by simpa using hbefore p hm)
  · exact le_refl p
  · exact le_of_lt ((List.pairwise_cons.mp hsorted.2.1).1 p hm)

/-! ## Giving segments back -/

namespace Store

/-- Some segments of `s` are given back in `s'`: those that are left keep
their shape, and the areas of the others are spare with those that were. -/
structure GivesBack (s s' : Store) : Prop where
  left : ∀ i t', s'.segment? i = some t' → ∃ t, s.segment? i = some t ∧ Segment.SameShape t t'
  mem_spare : ∀ a, a ∈ s'.spare ↔ a ∈ s.spare ∨ ∃ i t, s.segment? i = some t ∧
    s'.segment? i = none ∧ t.backing = .pooled a

namespace GivesBack

variable {s s' s'' : Store} {i : SegmentIndex}

/-- No segment is given back. -/
theorem of_sameStock (h : SameStock s s') : GivesBack s s' where
  left i t' ht' := by
    cases hi : s.segment? i with
    | none =>
      rw [h.of_none hi] at ht'
      cases ht'
    | some t =>
      obtain ⟨u, hu, hshape⟩ := h.of_some hi
      rw [ht'] at hu
      cases hu
      exact ⟨t, rfl, hshape⟩
  mem_spare a := by
    rw [h.spare]
    refine (or_iff_left fun hgone => ?_).symm
    obtain ⟨i, t, hi, hnone, _⟩ := hgone
    obtain ⟨u, hu, _⟩ := h.of_some hi
    rw [hnone] at hu
    cases hu

theorem refl (s : Store) : GivesBack s s := of_sameStock (.refl s)

theorem none_of_none (h : GivesBack s s') (hi : s.segment? i = none) : s'.segment? i = none := by
  cases ht' : s'.segment? i with
  | none => rfl
  | some t' =>
    obtain ⟨t, ht, _⟩ := h.left i t' ht'
    rw [hi] at ht
    cases ht

theorem trans (h : GivesBack s s') (k : GivesBack s' s'') : GivesBack s s'' where
  left i u hu := by
    obtain ⟨t', ht', hshape'⟩ := k.left i u hu
    obtain ⟨t, ht, hshape⟩ := h.left i t' ht'
    exact ⟨t, ht, hshape.trans hshape'⟩
  mem_spare a := by
    rw [k.mem_spare, h.mem_spare]
    constructor
    · rintro ((ha | ⟨i, t, hi, hnone, hb⟩) | ⟨i, t', hi, hnone, hb⟩)
      · exact Or.inl ha
      · exact Or.inr ⟨i, t, hi, k.none_of_none hnone, hb⟩
      · obtain ⟨t, ht, hshape⟩ := h.left i t' hi
        exact Or.inr ⟨i, t, ht, hnone, hshape.backing ▸ hb⟩
    · rintro (ha | ⟨i, t, hi, hnone, hb⟩)
      · exact Or.inl (Or.inl ha)
      · -- it is gone from the first store on, or from the second
        cases ht' : s'.segment? i with
        | none => exact Or.inl (Or.inr ⟨i, t, hi, ht', hb⟩)
        | some t' =>
          obtain ⟨u, hu, hshape⟩ := h.left i t' ht'
          rw [hi] at hu
          cases hu
          exact Or.inr ⟨i, t', ht', hnone, hshape.backing.trans hb⟩

/-- What each round of a fold gives back, the fold gives back. -/
theorem foldl {α β : Type} {f : β → α → β} {g : β → Store}
    (hf : ∀ b a, GivesBack (g b) (g (f b a))) (l : List α) (b : β) :
    GivesBack (g b) (g (l.foldl f b)) := by
  induction l generalizing b with
  | nil => exact refl (g b)
  | cons a l ih => exact (hf b a).trans (ih (f b a))

end GivesBack

theorem givesBack_release (s : Store) (i : SegmentIndex) : GivesBack s (s.release i) := by
  cases hi : s.segment? i with
  | none =>
    rw [release_of_none hi]
    exact .refl s
  | some t =>
    refine ⟨fun j u hu => ?_, fun a => ?_⟩
    · exact ⟨u, (segment?_release_eq_some.mp hu).2, .refl u⟩
    · rw [mem_spare_release hi, or_comm]
      refine or_congr_right ⟨fun hb => ⟨i, t, hi, by rw [segment?_release, if_pos rfl], hb⟩, ?_⟩
      rintro ⟨j, u, hu, hnone, hb⟩
      rw [segment?_release] at hnone
      split at hnone
      · next e =>
        rw [← e, hi] at hu
        cases hu
        exact hb
      · rw [hu] at hnone
        cases hnone

theorem givesBack_modifySegment {s : Store} {f : Segment → Segment}
    (hf : ∀ t, Segment.SameShape t (f t)) (i : SegmentIndex) :
    GivesBack s (s.modifySegment i f) :=
  .of_sameStock (sameStock_modifySegment fun t _ => hf t)

end Store

namespace Heap

open Store (GivesBack)

variable {σ : Type} {h h' : Heap} {tracer : Tracer σ} {level : Generation} {p q : ObjRef}
  {i : SegmentIndex} {s : Segment}

theorem givesBack_discard (h : Heap) (p : ObjRef) : GivesBack h.store (h.discard p).store := by
  unfold discard
  cases h.store.segment? p.segment with
  | none => exact .refl _
  | some s =>
    have hvacate : ∀ g : Store, GivesBack g (g.modifySegment p.segment (·.vacate p.offset)) :=
      fun g => Store.givesBack_modifySegment (fun t => Segment.sameShape_vacate t _) _
    have hscribble : ∀ m, GivesBack h.store { h.store with memory := m } := fun m =>
      .of_sameStock (Store.sameStock_memory _ m)
    simp only
    split <;> split
    · exact (hscribble _).trans ((hvacate _).trans (Store.givesBack_release _ _))
    · exact (hvacate _).trans (Store.givesBack_release _ _)
    · exact (hscribble _).trans (hvacate _)
    · exact hvacate _

/-- A free gives a big segment back. -/
theorem free_givesBack (he : free p h = .ok () h') : GivesBack h.store h'.store := by
  have hends : Ends (free p h) (fun _ h' => GivesBack h.store h'.store) (fun _ _ => True)
      fun _ => True := by
    unfold free
    refine Ends.get_bind ?_
    split
    · trivial
    · cases hu : h.isUncollected p with
      | error f => exact Ends.ask_bind_fault hu trivial
      | ok uncollected =>
        refine Ends.ask_bind hu ?_
        cases uncollected with
        | true => trivial
        | false =>
          exact (givesBack_discard h p).trans (.of_sameStock (sameStock_enqueue
            ((h.discard p).withMetrics (h.discard p).metrics.recordFree) p.segment))
  exact hends.of_ok he

theorem givesBack_sweep (h : Heap) (tracer : Tracer σ) (level : Generation) (log : σ) :
    GivesBack h.store (h.sweep tracer level log).heap.store := by
  refine GivesBack.foldl (g := fun a : Sweeping σ => a.heap.store) (fun a i => ?_)
    h.store.indices { heap := h, log }
  unfold Sweeping.segment
  cases a.heap.store.segment? i with
  | none => exact .refl _
  | some t =>
    simp only
    cases a.heap.kinds.get? t.kind with
    | none => exact .refl _
    | some spec =>
      simp only
      split
      · exact .refl _
      · exact (GivesBack.foldl givesBack_discard _ a.heap).trans
          (Store.givesBack_modifySegment (fun u => Segment.sameShape_promote u level _) i)

theorem givesBack_rebuildQueues (h : Heap) : GivesBack h.store h.rebuildQueues.1.store := by
  refine GivesBack.foldl (g := fun a : Heap × Nat => a.1.store) (fun a i => ?_) h.store.indices
    ({ h with queues := h.queues.map fun _ => [] }, 0)
  obtain ⟨g, n⟩ := a
  have hqueued : ∀ b, GivesBack g.store (g.store.modifySegment i (·.setQueued b)) := fun b =>
    Store.givesBack_modifySegment (fun t => Segment.sameShape_setQueued t b) i
  simp only [fileSegment]
  cases g.store.segment? i with
  | none => exact .refl _
  | some t =>
    simp only
    split
    · exact hqueued false
    · split
      · exact Store.givesBack_release _ _
      · split
        · exact hqueued true
        · exact hqueued false

/-! ## A collection -/

/-- The end of a collection: the queues of some heap are made anew. -/
theorem collect_refiled {r : CollectionReport × σ} {log : σ} (hw : h.WellFormed)
    (he : collect tracer level log h = .ok r h') : ∃ g g' n, g.Formed ∧ g.Full ∧
      Refiled g g' n ∧ h'.store = g'.store ∧ h'.queues = g'.queues ∧
      GivesBack h.store h'.store := by
  have hm := marked hw.toFormed tracer level
  simp only [collect] at he
  split at he
  · cases he
  · cases he
    obtain ⟨hf, hfull, _, hq⟩ := hm.refiled hw log
    have hs := (sweep_eq hm.formed tracer level log).1
    have hr := renewOldToNew_reckoned hs.formed tracer level
      ((h.mark tracer level).heap.sweep tracer level log).aged
    have hrebuilt := ((GivesBack.of_sameStock
      (sameStock_of_mapSegments Segment.sameShape_clearMarks hm.same)).trans
        (givesBack_sweep _ tracer level log)).trans ((GivesBack.of_sameStock
      (sameStock_of_mapSegments Segment.sameShape_clearOldToNew hr.same)).trans
        (givesBack_rebuildQueues _))
    refine ⟨_, _, _, hf, hfull, hq, ?_, ?_, ?_⟩
    · exact (recorded_collection _ _ level).2.1
    · exact (recorded_collection _ _ level).2.2
    · rw [reclaim]
      simp only
      rw [(recorded_collection _ _ level).2.1]
      exact hrebuilt

/-! ## Segments with objects -/

/-- Each reserved segment holds an object. -/
def Occupied (h : Heap) : Prop :=
  ∀ i s, h.store.segment? i = some s → ∃ p : ObjRef, p.segment = i ∧ h.isAllocated p = true

/-- A slot that is taken is an object. -/
theorem Formed.isAllocated_ofSlot (hf : h.Formed) (hs : h.store.segment? i = some s) {o : Offset}
    (ho : o ∈ s.allocated) :
    (ObjRef.ofSlot i o).segment = i ∧ h.isAllocated (.ofSlot i o) = true := by
  have hi := Nat.le_of_lt (hf.store.index_lt hs)
  have hseg := ObjRef.segment_ofSlot hi o
  refine ⟨hseg, hf.isAllocated_iff_lookup.mpr ⟨_, lookup_eq_some.mpr ⟨s, ?_, ?_, rfl⟩⟩⟩
  · rw [hseg]
    exact hs
  · rw [ObjRef.offset_ofSlot hi]
    exact ho

/-- **A big segment holds one object**, since the slot that it has is
taken. -/
theorem WellFormed.existsUnique_of_big (hw : h.WellFormed) (hs : h.store.segment? i = some s)
    (hb : s.isBig = true) : ∃! p : ObjRef, p.segment = i ∧ h.isAllocated p = true := by
  have hf := hw.toFormed
  have hslot : (0 : Offset) ∈ s.slots := by
    obtain ⟨spec, _, hkind⟩ := hf.typed i s hs
    cases hsize : spec.size with
    | fixed n =>
      rw [(hkind.small n hsize).1] at hb
      cases hb
    | big =>
      rw [(hkind.big hsize).2.2]
      exact OffsetSet.mem_singleton.mpr rfl
  have hfree : (0 : Offset) ∉ s.free := fun hm => by
    have hfull := hw.full i s hs hb
    rw [Segment.hasFree_iff.mpr ⟨0, hm⟩] at hfull
    cases hfull
  have hself := hf.isAllocated_ofSlot hs (Segment.mem_allocated.mpr ⟨hslot, hfree⟩)
  refine ⟨.ofSlot i 0, hself, fun q hq => ?_⟩
  obtain ⟨rfl, ha⟩ := hq
  obtain ⟨x, hx⟩ := hf.isAllocated_iff_lookup.mp ha
  obtain ⟨y, hy⟩ := hf.isAllocated_iff_lookup.mp hself.2
  refine (hf.eq_of_big ?_ hb hy hx hself.1).symm
  rw [hself.1]
  exact hs

/-- Where each segment holds an object, there are no more segments than
objects. -/
theorem Occupied.reserved_le (ho : h.Occupied) (hs : h.Sound) :
    h.store.reserved ≤ h.occupancy.totalObjects := by
  obtain ⟨live, _, hmem, hlength⟩ := counts_all hs.wellFormed.toFormed
  have hnodup : (h.store.entries.map Prod.fst).Nodup :=
    List.pairwise_map.mpr (entries_pairwise h.store)
  have hsub : h.store.entries.map Prod.fst ⊆ live.map ObjRef.segment := by
    intro i hi
    obtain ⟨⟨j, s⟩, he, rfl⟩ := List.mem_map.mp hi
    obtain ⟨p, hp, ha⟩ := ho j s (Store.mem_entries.mp he)
    exact List.mem_map.mpr ⟨p, (hmem p).mpr ha, hp⟩
  calc h.store.reserved = (h.store.entries.map Prod.fst).length := by
        rw [hs.accounted.reserved_eq, List.length_map]
    _ ≤ (live.map ObjRef.segment).length := List.Nodup.length_le_of_subset hnodup hsub
    _ = h.occupancy.totalObjects := by rw [List.length_map, hlength]

/-- **A collection leaves no segment empty**: a big one goes with its object,
and a small one that is empty is given back at the end. -/
theorem occupied_collect {r : CollectionReport × σ} {log : σ} (hw : h.WellFormed)
    (he : collect tracer level log h = .ok r h') : h'.Occupied := by
  obtain ⟨g, g', _, hf, _, hq, hstore, _, _⟩ := collect_refiled hw he
  have hw' := ((collect_ends hw tracer level log).of_ok he).wellFormed
  intro i t ht
  cases hb : t.isBig with
  | true => exact (hw'.existsUnique_of_big ht hb).exists
  | false =>
    have hfiled := ht
    rw [hstore, hq.segment?] at hfiled
    obtain ⟨s, hs, hst⟩ := Option.bind_eq_some_iff.mp hfiled
    obtain ⟨b, rfl⟩ := Segment.filed_eq_some hst
    have hne : s.isEmpty ≠ true := fun he => by
      rw [(Segment.filed_eq_none (s := s)).mpr ⟨hb, he⟩] at hst
      cases hst
    obtain ⟨o, ho⟩ : ∃ o, o ∈ s.allocated :=
      Classical.byContradiction fun hn => hne
        ((Segment.isEmpty_iff (hf.store.segment_wf i s hs)).mpr fun o ho => hn ⟨o, ho⟩)
    exact ⟨_, hw'.toFormed.isAllocated_ofSlot ht ho⟩

/-! ## The next small object -/

/-- The lowest free slot of the first segment of a kind that has one. -/
structure LowestSlot (h : Heap) (kind : KindId) (i : SegmentIndex) (o : Offset) : Prop where
  hasSlot : h.HasSlot kind i
  first : ∀ j, h.HasSlot kind j → i ≤ j
  free : ∀ s, h.store.segment? i = some s → o ∈ s.free ∧ ∀ p ∈ s.free, o ≤ p

/-- Where the queues are in order, it is the next to be taken. -/
theorem alloc_lowest (hw : h.WellFormed) (hsorted : ∀ k, (h.queue k).Pairwise (· < ·))
    {tag : TypeTag} {length : Nat} {r : Request} (hreq : h.request tag length = .ok r)
    (hsmall : r.spec.isBig = false) {o : Offset} (hl : h.LowestSlot r.kind i o) :
    ∃ h', alloc tag length h = .ok (.ofSlot i o) h' := by
  obtain ⟨obj, h₁, hclaim, _, _⟩ := claimSmall_of_hasSlot hw.toFormed hw.toFiled hl.hasSlot
  have hc : claim r h = .ok obj h₁ := by
    rw [claim, hsmall, if_neg Bool.false_ne_true]
    exact hclaim
  obtain ⟨hv, _⟩ := valid_of_request hreq
  have hplace := ((claim_ends hw.toFormed hw.toFiled hv).of_ok hc).place
  have hmem := (hw.mem_queue_iff_hasSlot r.kind i).mpr hl.hasSlot
  cases hqueue : h.queue r.kind with
  | nil =>
    rw [hqueue] at hmem
    cases hmem
  | cons j rest =>
    have hslot : h.HasSlot r.kind j :=
      (hw.mem_queue_iff_hasSlot r.kind j).mp (hqueue ▸ List.mem_cons_self)
    -- the queue is sorted, so its front is the lowest index with a slot
    have hji : j ≤ i := by
      rw [hqueue] at hmem
      rcases List.mem_cons.mp hmem with rfl | hm
      · exact le_refl i
      · exact le_of_lt ((List.pairwise_cons.mp (hqueue ▸ hsorted r.kind)).1 i hm)
    obtain rfl : i = j := le_antisymm (hl.first j hslot) hji
    obtain ⟨s, hs, _, _, p, hp⟩ := hslot
    obtain ⟨hfree, hleast⟩ := hl.free s hs
    obtain ⟨q, hq⟩ := Segment.first?_of_hasFree (Segment.hasFree_iff.mpr ⟨p, hp⟩)
    obtain rfl : o = q :=
      le_antisymm (hleast q (OffsetSet.mem_of_first? hq)) (OffsetSet.first?_le hq hfree)
    obtain ⟨h', _, hdone⟩ := alloc_of_claim hw hreq hc
    rw [nextSlot_of_queue hsmall hqueue hs hq] at hplace
    exact ⟨h', hplace ▸ hdone⟩

/-- What a collection leaves of the segments of a heap. -/
structure Pruned (h h' : Heap) : Prop where
  occupied : h'.Occupied
  reserved_le : h'.store.reserved ≤ h'.occupancy.totalObjects
  /-- An area is spare once if it was spare before, or belonged to a
  segment that was given back; and no other is spare. -/
  spare : ∀ a, h'.store.spare.count a ≤ 1 ∧ (a ∈ h'.store.spare ↔ a ∈ h.store.spare ∨
    ∃ i t, h.store.segment? i = some t ∧ h'.store.segment? i = none ∧ t.backing = .pooled a)
  queues : ∀ k, (h'.queue k).Pairwise (· < ·) ∧ ∀ i, i ∈ h'.queue k ↔ h'.HasSlot k i
  next : ∀ tag length r, h'.request tag length = .ok r → r.spec.isBig = false →
    ∀ i o, h'.LowestSlot r.kind i o → ∃ h'', alloc tag length h' = .ok (.ofSlot i o) h''

/-- **A collection prunes a heap.** -/
theorem pruned_collect {r : CollectionReport × σ} {log : σ} (hs : h.Sound)
    (he : collect tracer level log h = .ok r h') : Pruned h h' := by
  have hw := hs.wellFormed
  obtain ⟨g, g', _, _, _, hq, _, hqueues, hback⟩ := collect_refiled hw he
  have hs' := (hs.collect tracer level log).of_ok he
  have hocc := occupied_collect hw he
  have hsorted : ∀ k, (h'.queue k).Pairwise (· < ·) := fun k => by
    have hsame : h'.queue k = g'.queue k := by rw [queue, queue, hqueues]
    rw [hsame, hq.queue]
    exact (List.pairwise_lt_range.filter _).filter _
  refine ⟨hocc, hocc.reserved_le hs', fun a => ⟨?_, hback.mem_spare a⟩, fun k => ⟨hsorted k,
    hs'.wellFormed.mem_queue_iff_hasSlot k⟩, fun tag length r hreq hsmall i o hl =>
      alloc_lowest hs'.wellFormed hsorted hreq hsmall hl⟩
  exact List.nodup_iff_count_le_one.mp hs'.accounted.spare_nodup a

end Heap

end SegmentedHeap
