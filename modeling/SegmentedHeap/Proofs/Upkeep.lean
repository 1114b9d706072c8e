/-
SegmentedHeap.Proofs.Upkeep — after marking, nothing is missing.

After marking a collection goes back to segments and objects that it knew
of before it gave others back. It finds them where they were: sweeping
gives back the objects of one segment at a time, each once, and a big
segment with its only object; an object is decided for only while it is
there; the segments to be filed are looked up anew. And since the books of
the store are kept at each step, no counter falls below what is taken from
it.

* `guardedRelease_eq`, `guardedDiscard_eq` — what is asked for when a
  segment or an object goes is there.
* `guardedSweep_eq`, `guardedRenew_eq`, `guardedRebuild_eq` — the parts of
  a collection after marking.
* `guardedCollect_eq` — **the guarded collection** comes to the same.
* `accounted_collect` — a collection keeps the books.
-/
import SegmentedHeap.Proofs.Guarded

namespace SegmentedHeap

/-- A row of steps, each of them taken for a thing that has to be there. The
guarded steps return what the plain ones come to, if each step keeps the
invariant and leaves all other things where they are, and nothing is gone
back to twice. -/
theorem foldlM_of_each_once {α β : Type} (Inv : β → Prop) (There : β → α → Prop)
    {guarded : β → α → Except Fault β} {plain : β → α → β}
    (hstep : ∀ b a, Inv b → There b a → guarded b a = .ok (plain b a) ∧ Inv (plain b a) ∧
      ∀ c, c ≠ a → There b c → There (plain b a) c)
    {l : List α} (hn : l.Nodup) {b : β} (hb : Inv b) (hl : ∀ a ∈ l, There b a) :
    l.foldlM guarded b = .ok (l.foldl plain b) ∧ Inv (l.foldl plain b) := by
  induction l generalizing b with
  | nil => exact ⟨rfl, hb⟩
  | cons a l ih =>
    obtain ⟨ha, hn⟩ := List.nodup_cons.mp hn
    obtain ⟨hone, hb', hothers⟩ := hstep b a hb (hl a List.mem_cons_self)
    rw [List.foldlM_cons, hone]
    exact ih hn hb' fun c hc =>
      hothers c (fun e => ha (e ▸ hc)) (hl c (List.mem_cons_of_mem a hc))

namespace Store

variable {s : Store} {i : SegmentIndex} {t : Segment}

theorem sameStock_memory (s : Store) (m : Memory) : SameStock s { s with memory := m } := by
  have h := SameStock.refl s
  exact ⟨⟨rfl, rfl, rfl, rfl, rfl⟩, rfl, rfl, rfl, rfl, rfl, rfl, rfl, h.segment?⟩

/-- A reserved segment is counted. -/
theorem guardedRelease_eq (h : s.Accounted) (hi : s.segment? i = some t) :
    s.guardedRelease i = .ok (s.release i) := by
  have ha := adds_release hi
  have hres : 0 < s.reserved := by
    rw [h.reserved_eq, ha.length]
    exact Nat.succ_pos _
  have hbig : (!t.isBig || (decide (0 < s.big) && decide (t.ownBytes ≤ s.bigBytes))) = true := by
    cases hb : t.isBig with
    | false => rfl
    | true =>
      have hcount := ha.count Segment.isBig
      rw [hb, Bool.toNat_true, ← h.big_eq] at hcount
      have hsum := ha.summed Segment.ownBytes
      rw [← h.bigBytes_eq] at hsum
      rw [Bool.not_true, Bool.false_or, Bool.and_eq_true, decide_eq_true_eq, decide_eq_true_eq]
      omega
  rw [guardedRelease, require_of (decide_eq_true (lt_size_of_segment? hi)), hi]
  simp only [require_of (decide_eq_true hres), require_of hbig]
  rfl

end Store

namespace Heap

variable {σ : Type} {h h' : Heap} {tracer : Tracer σ} {level : Generation} {p : ObjRef}

open Store (SameStock)

/-- Heaps that a change of all segments makes equal have the same stock, if
it keeps their shape. -/
theorem sameStock_of_mapSegments {f : Segment → Segment} (hf : ∀ s, Segment.SameShape s (f s))
    (e : h'.mapSegments f = h.mapSegments f) : SameStock h.store h'.store := by
  have same : ∀ {α : Type} (g : Heap → α), g (h'.mapSegments f) = g (h.mapSegments f) :=
    fun g => congrArg g e
  refine ⟨(setting_of_mapSegments e).geometry, ?_, same (·.store.vacant), same (·.store.spare),
    same (·.store.blocks), same (·.store.reserved), same (·.store.big), same (·.store.bigBytes),
    fun i => ?_⟩
  · exact Array.size_map.symm.trans ((same (·.store.segments.size)).trans Array.size_map)
  · have hi := segment?_of_mapSegments e i
    cases hs : h.store.segment? i with
    | none =>
      rw [hs] at hi
      exact Option.map_eq_none_iff.mp hi
    | some s =>
      rw [hs] at hi
      obtain ⟨t, ht, hst⟩ := Option.map_eq_some_iff.mp hi
      exact ⟨t, ht, (hf s).trans (hst ▸ (hf t).symm)⟩

/-! ## Giving objects back -/

theorem sameStock_scribbled (h : Heap) (x : Object) : SameStock h.store (h.scribbled x).store := by
  unfold scribbled
  split
  · exact Store.sameStock_memory _ _
  · exact .refl _

/-- **An object that is there is discarded** without anything missing, and
the books are kept. -/
theorem guardedDiscard_eq {x : Object} (hf : h.Formed) (ha : h.store.Accounted)
    (hx : h.lookup p = some x) :
    h.guardedDiscard p = .ok (h.discard p) ∧ (h.discard p).store.Accounted := by
  obtain ⟨s, hs, ho, _⟩ := lookup_eq_some.mp hx
  have hslot : (s.lengths.all (p.offset.val < ·.size)) = true := by
    cases hl : s.lengths with
    | none => rfl
    | some lengths =>
      rw [Option.all_some, decide_eq_true_eq]
      exact (hf.store.segment_wf _ s hs).stored_slots lengths hl _ (Segment.mem_allocated.mp ho).1
  have hvacate : s.guardedVacate p.offset = .ok (s.vacate p.offset) := by
    rw [Segment.guardedVacate, require_of hslot, Segment.releaseSlot,
      if_pos (Segment.isAllocated_iff.mpr ho)]
    rfl
  refine ⟨?_, ?_⟩
  · rw [guardedDiscard, segment, Store.segment, hs]
    show (s.guardedVacate p.offset >>= _) = _
    rw [hvacate]
    cases hb : s.isBig with
    | false => rfl
    | true =>
      show (h.store.guardedRelease p.segment >>= _) = _
      rw [Store.guardedRelease_eq ha hs]
      rfl
  · have hstock : SameStock h.store
        ((h.scribbled x).modifySegment p.segment (·.vacate p.offset)).store :=
      (sameStock_scribbled h x).trans
        (Store.sameStock_modifySegment fun t _ => Segment.sameShape_vacate t _)
    have hacc := hstock.accounted ha (hf.vacated hx).store
    obtain ⟨t, ht, _⟩ := hstock.of_some hs
    rw [discard_eq hx hs]
    cases s.isBig with
    | false => exact hacc
    | true => exact (hacc.release ht).accounted

/-- A row of objects, each once. -/
theorem guardedDiscards_eq (hf : h.Formed) (ha : h.store.Accounted) {l : List ObjRef}
    (hn : l.Nodup) (hl : ∀ p ∈ l, ∃ x, h.lookup p = some x) :
    l.foldlM guardedDiscard h = .ok (l.foldl discard h) ∧
      (l.foldl discard h).Formed ∧ (l.foldl discard h).store.Accounted := by
  refine foldlM_of_each_once (fun g : Heap => g.Formed ∧ g.store.Accounted)
    (fun g p => ∃ x, g.lookup p = some x) (fun g p hg hp => ?_) hn ⟨hf, ha⟩ hl
  obtain ⟨x, hx⟩ := hp
  obtain ⟨hone, hacc⟩ := guardedDiscard_eq hg.1 hg.2 hx
  have hd := discarded hg.1 hx
  refine ⟨hone, ⟨hd.formed, hacc⟩, fun q hq hy => ?_⟩
  rw [hd.lookup, if_neg (Ne.symm hq)]
  exact hy

/-! ## Sweeping -/

/-- **One segment is swept.** -/
theorem guardedSegment_eq {s : Sweeping σ} {i : SegmentIndex} {t : Segment}
    (hf : s.heap.Formed) (ha : s.heap.store.Accounted) (ht : s.heap.store.segment? i = some t) :
    guardedSegment tracer level s i = .ok (s.segment tracer level i) ∧
      (s.segment tracer level i).heap.store.Accounted := by
  obtain ⟨spec, hspec, _⟩ := hf.typed i t ht
  have hformed := (segment_swept tracer level s hf i).heap.formed
  have hi := Nat.le_of_lt (hf.store.index_lt ht)
  -- the slots to be discarded hold an object each, and none is named twice
  have hdiscards := guardedDiscards_eq hf ha
    (nodup_slotsOf hi (Segment.nodup_members (t.dying level))) fun p hp => by
      obtain ⟨hseg, ho⟩ := (mem_slotsOf hi).mp hp
      have ho := (Segment.mem_dying.mp (OffsetSet.mem_members.mp ho)).1
      exact ⟨_, lookup_eq_some.mpr ⟨t, hseg ▸ ht, ho, rfl⟩⟩
  rw [guardedSegment, Store.segment, ht]
  show (s.heap.kinds.get t.kind >>= _) = _ ∧ _
  rw [KindTable.get, hspec]
  cases hu : spec.uncollected with
  | true =>
    have hsame : s.segment tracer level i = s := by
      simp only [Sweeping.segment, ht, hspec, hu, if_true]
    refine ⟨?_, by rw [hsame]; exact ha⟩
    show (if (!spec.uncollected) = true then _ else _ : Except Fault (Sweeping σ)) = _
    rw [hu]
    rfl
  | false =>
    refine ⟨?_, ?_⟩
    · show (if (!spec.uncollected) = true then _ else _ : Except Fault (Sweeping σ)) = _
      rw [hu, Bool.not_false, if_pos rfl, hdiscards.1]
      rfl
    · -- the promotions keep the shape of whatever segment is there by now
      have hheap : (s.segment tracer level i).heap =
          ((slotsOf i (t.dying level).members).foldl discard s.heap).modifySegment i
            (·.promote level (t.promotable level)) := by
        simp only [Sweeping.segment, ht, hspec, hu, Bool.false_eq_true, if_false]
        rfl
      rw [hheap] at hformed ⊢
      exact (Store.sameStock_modifySegment fun u _ => Segment.sameShape_promote u level _).accounted
        hdiscards.2.2 hformed.store

/-- **Sweeping** finds each segment and each object that it goes back to. -/
theorem guardedSweep_eq (hf : h.Formed) (ha : h.store.Accounted) (tracer : Tracer σ)
    (level : Generation) (log : σ) :
    h.guardedSweep tracer level log = .ok (h.sweep tracer level log) ∧
      (h.sweep tracer level log).heap.store.Accounted := by
  refine And.imp_right And.right (foldlM_of_each_once
    (fun s : Sweeping σ => s.heap.Formed ∧ s.heap.store.Accounted)
    (fun s i => ∃ t, s.heap.store.segment? i = some t) (fun s i hs hi => ?_)
    (Store.nodup_indices _) ⟨hf, ha⟩ fun i hi => Store.mem_indices.mp hi)
  obtain ⟨t, ht⟩ := hi
  obtain ⟨hone, hacc⟩ := guardedSegment_eq hs.1 hs.2 ht
  have hswept := (segment_swept tracer level s hs.1 i).heap
  refine ⟨hone, ⟨hswept.formed, hacc⟩, fun j hj hu => ?_⟩
  rw [hswept.other j hj]
  exact hu

/-! ## The old-to-new set -/

/-- A question that has an answer for each of a list. -/
theorem exists_mapM {α β : Type} {f : α → Except Fault β} {l : List α}
    (hf : ∀ a ∈ l, ∃ b, f a = .ok b) : ∃ bs, l.mapM f = .ok bs := by
  induction l with
  | nil => exact ⟨[], rfl⟩
  | cons a l ih =>
    obtain ⟨b, hb⟩ := hf a List.mem_cons_self
    obtain ⟨bs, hbs⟩ := ih fun c hc => hf c (List.mem_cons_of_mem a hc)
    refine ⟨b :: bs, ?_⟩
    rw [List.mapM_cons, hb, hbs]
    rfl

theorem Formed.exists_generation (hf : h.Formed) (ha : h.isAllocated p = true) :
    ∃ g, h.generationOf p = .ok g := by
  obtain ⟨x, hx⟩ := hf.isAllocated_iff_lookup.mp ha
  exact ⟨_, generationOf_of_lookup hx⟩

/-- **One object is decided for.** -/
theorem guardedReconsider_eq (hf : h.Formed) (tracer : Tracer σ) (p : ObjRef) :
    guardedReconsider tracer h p = .ok (reconsider tracer h p) := by
  rw [guardedReconsider]
  cases ha : h.isAllocated p with
  | false => rfl
  | true =>
    obtain ⟨g, hg⟩ := hf.exists_generation ha
    obtain ⟨gs, hgs⟩ := exists_mapM (f := h.generationOf)
      (l := (h.refsOf tracer p).filter h.isAllocated) fun r hr =>
        hf.exists_generation (List.mem_filter.mp hr).2
    rw [if_pos rfl, hg]
    show (((h.refsOf tracer p).filter h.isAllocated).mapM h.generationOf >>= _) = _
    rw [hgs]
    rfl

theorem guardedReconsiders_eq (hf : h.Formed) (tracer : Tracer σ) (l : List ObjRef) :
    l.foldlM (guardedReconsider tracer) h = .ok (l.foldl (reconsider tracer) h) := by
  induction l generalizing h with
  | nil => rfl
  | cons p l ih =>
    rw [List.foldlM_cons, guardedReconsider_eq hf]
    exact ih (reconsider_renewed hf tracer p).formed

/-- **Making the old-to-new set anew** asks for what is there. -/
theorem guardedRenew_eq (hf : h.Formed) (tracer : Tracer σ) (level : Generation)
    (aged : List ObjRef) :
    h.guardedRenew tracer level aged = .ok (h.renewOldToNew tracer level aged) := by
  rw [guardedRenew, renewOldToNew, guardedReconsiders_eq hf]
  split <;> rfl

/-! ## The queues -/

/-- **One segment is filed.** -/
theorem guardedFile_eq {n : Nat} {i : SegmentIndex} {t : Segment} (hf : h.Formed)
    (ha : h.store.Accounted) (hsize : h.queues.size = h.kinds.size)
    (ht : h.store.segment? i = some t) :
    guardedFile (h, n) i = .ok (fileSegment (h, n) i) ∧
      (fileSegment (h, n) i).1.store.Accounted := by
  obtain ⟨spec, hspec, _⟩ := hf.typed i t ht
  -- the one index the filing looks up is that of the kind's queue
  have hkind : t.kind < h.queues.size := by
    rw [hsize]
    exact (Array.getElem?_eq_some_iff.mp hspec).1
  have hformed := (fileSegment_filed hf n hsize i).formed
  have hqueued : ∀ b, SameStock h.store (h.store.modifySegment i (·.setQueued b)) := fun b =>
    Store.sameStock_modifySegment fun u _ => Segment.sameShape_setQueued u b
  rw [guardedFile, Store.segment, ht]
  simp only [fileSegment, ht] at hformed ⊢
  cases hb : t.isBig with
  | true =>
    simp only [hb, if_true] at hformed ⊢
    refine ⟨?_, (hqueued false).accounted ha hformed.store⟩
    show (if (!t.isBig) = true then _ else _ : Except Fault (Heap × Nat)) = _
    rw [hb, Bool.not_true, if_neg Bool.false_ne_true]
    rfl
  | false =>
    cases he : t.isEmpty with
    | true =>
      refine ⟨?_, (ha.release ht).accounted⟩
      show (if (!t.isBig) = true then _ else _ : Except Fault (Heap × Nat)) = _
      rw [hb, Bool.not_false, if_pos rfl, he, if_pos rfl, Store.guardedRelease_eq ha ht]
      rfl
    | false =>
      refine ⟨?_, ?_⟩
      · show (if (!t.isBig) = true then _ else _ : Except Fault (Heap × Nat)) = _
        rw [hb, Bool.not_false, if_pos rfl, he, if_neg Bool.false_ne_true,
          require_of (decide_eq_true hkind)]
        rfl
      · cases hfree : t.hasFree with
        | true =>
          simp only [hb, he, hfree, if_true, Bool.false_eq_true, if_false] at hformed ⊢
          exact (hqueued true).accounted ha hformed.store
        | false =>
          simp only [hb, he, hfree, Bool.false_eq_true, if_false] at hformed ⊢
          exact (hqueued false).accounted ha hformed.store

/-- **Making the queues anew** finds each segment that it files. -/
theorem guardedRebuild_eq (hf : h.Formed) (ha : h.store.Accounted)
    (hsize : h.queues.size = h.kinds.size) :
    h.guardedRebuild = .ok h.rebuildQueues ∧ h.rebuildQueues.1.store.Accounted := by
  refine And.imp_right (And.left ∘ And.right) (foldlM_of_each_once
    (fun a : Heap × Nat => a.1.Formed ∧ a.1.store.Accounted ∧ a.1.queues.size = a.1.kinds.size)
    (fun a i => ∃ t, a.1.store.segment? i = some t) (fun a i hi hs => ?_)
    (Store.nodup_indices _) ⟨hf.congr rfl rfl, ha, Array.size_map.trans hsize⟩
    fun i hi => Store.mem_indices.mp hi)
  obtain ⟨hformed, hacc, hsize⟩ := hi
  obtain ⟨t, ht⟩ := hs
  obtain ⟨hone, hacc'⟩ := guardedFile_eq (n := a.2) hformed hacc hsize ht
  have hfiled := fileSegment_filed hformed a.2 hsize i
  have hsize' : (fileSegment a i).1.queues.size = (fileSegment a i).1.kinds.size :=
    hfiled.size.trans (hsize.trans (congrArg KindTable.size hfiled.setting.kinds).symm)
  refine ⟨hone, ⟨hfiled.formed, hacc', hsize'⟩, fun j hj hu => ?_⟩
  rw [← hfiled.other j fun hm => hj (List.mem_singleton.mp hm)] at hu
  exact hu

/-! ## The whole collection -/

/-- **The parts after marking** find what they go back to, and keep the
books. -/
theorem guardedReclaim_eq {m : Marking} (hw : h.WellFormed) (ha : h.store.Accounted)
    (hm : Marked h tracer level m) (log : σ) :
    guardedReclaim m tracer level log = .ok (reclaim m tracer level log) ∧
      (reclaim m tracer level log).2.store.Accounted := by
  have hmarked : m.heap.store.Accounted :=
    (sameStock_of_mapSegments Segment.sameShape_clearMarks hm.same).accounted ha hm.formed.store
  obtain ⟨hsweep, hswept⟩ := guardedSweep_eq hm.formed hmarked tracer level log
  have hs := (sweep_eq hm.formed tracer level log).1
  have hr := renewOldToNew_reckoned hs.formed tracer level (m.heap.sweep tracer level log).aged
  have hrenewed := (sameStock_of_mapSegments Segment.sameShape_clearOldToNew hr.same).accounted
    hswept hr.formed.store
  have hsize := hw.size
  rw [← queues_of_mapSegments hm.same, ← hs.queues, ← hr.same.queues, ← hm.setting.kinds,
    ← hs.setting.kinds, ← hr.same.setting.kinds] at hsize
  obtain ⟨hrebuild, hrebuilt⟩ := guardedRebuild_eq hr.formed hrenewed hsize
  constructor
  · rw [guardedReclaim, hsweep]
    show (guardedRenew _ tracer level _ >>= _) = _
    rw [guardedRenew_eq hs.formed]
    show (guardedRebuild _ >>= _) = _
    rw [hrebuild]
    rfl
  · rw [reclaim]
    simp only
    rw [(recorded_collection _ _ level).2.1]
    exact hrebuilt

/-- **The guarded collection** returns what a collection returns, and
faults as it does. -/
theorem guardedCollect_eq (hw : h.WellFormed) (ha : h.store.Accounted) (tracer : Tracer σ)
    (level : Generation) (log : σ) :
    guardedCollect tracer level log h = match collect tracer level log h with
      | .ok r h' => .ok (r, h')
      | .error (.fault f) _ => .error f
      | .error (.refused _) _ => .error .endless := by
  have hm := marked hw.toFormed tracer level
  rw [guardedCollect, guardedMark_eq hw.toFormed]
  simp only [collect]
  unfold Marking.checked
  cases if (h.mark tracer level).heap.config.checkRefs = true then (h.mark tracer level).stray
    else none with
  | some p => rfl
  | none => exact (guardedReclaim_eq hw ha hm log).1

/-- **A collection keeps the books.** -/
theorem accounted_collect {r : CollectionReport × σ} {log : σ} (hw : h.WellFormed)
    (ha : h.store.Accounted) (hc : collect tracer level log h = .ok r h') :
    h'.store.Accounted := by
  have hm := marked hw.toFormed tracer level
  simp only [collect] at hc
  split at hc
  · cases hc
  · cases hc
    exact (guardedReclaim_eq hw ha hm log).2

end Heap

end SegmentedHeap
