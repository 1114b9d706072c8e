/-
SegmentedHeap.Proofs.Idempotence — collecting twice is collecting once.

A heap is at rest if a full collection has nothing left to do on it: it
is marked already, without garbage, all its objects are of generation two,
each segment holds an object, and the queues are in order. That is what a
full collection leaves, and each pass of another one leaves such a heap
alone. Below level two the second collection frees nothing either, though
it may move objects on.

* `sweep_at_rest`, `rebuildQueues_at_rest` — the passes, one by one.
* `atRest_of_collect`, `AtRest.settle_eq` — **a full collection leaves a
  heap at rest, and such a heap as it is**.
* `collect_idempotent` — **the second of two collections** at any level.
-/
import SegmentedHeap.Proofs.Counters
import SegmentedHeap.Proofs.Finalizing
import SegmentedHeap.Proofs.Pruning
import SegmentedHeap.Proofs.Repetition

namespace SegmentedHeap

namespace Segment

variable {s t : Segment} {level : Generation}

/-- Sweeping releases no marked slot, so that it leaves the marks. -/
theorem marked_swept (h : s.swept level = some t) : t.marked = s.marked := by
  ext o
  rw [swept_eq_some h, marked_promote, mem_marked_vacateAll, OffsetSet.mem_members]
  exact and_iff_right_of_imp fun hm hd => (mem_dying.mp hd).2.2 hm

/-- A segment with an object that waits as it should is filed already. -/
theorem filed_eq_self (he : s.isEmpty = false)
    (hq : s.queued = true ↔ s.isBig = false ∧ s.hasFree = true) : s.filed = some s := by
  have hsame : ∀ b, s.queued = b → s.setQueued b = s := by
    rintro _ rfl
    rfl
  unfold filed
  cases hb : s.isBig with
  | true =>
    rw [if_pos rfl, hsame false]
    rw [Bool.eq_false_iff, ne_eq, hq, hb]
    exact fun hn => Bool.false_ne_true hn.1.symm
  | false =>
    rw [if_neg Bool.false_ne_true, he, if_neg Bool.false_ne_true, hsame]
    rw [Bool.eq_iff_iff, hq, hb]
    exact and_iff_right rfl

end Segment

namespace Heap

variable {σ : Type} {h h' : Heap} {tracer : Tracer σ} {level : Generation} {p q : ObjRef}

/-! ## The marks that a collection leaves -/

/-- The segments of `h'` are segments of `h` with the same marks. -/
def MarksRemain (h h' : Heap) : Prop :=
  ∀ i t, h'.store.segment? i = some t → ∃ s, h.store.segment? i = some s ∧ t.marked = s.marked

theorem MarksRemain.trans {h₁ h₂ h₃ : Heap} (ha : MarksRemain h₁ h₂) (hb : MarksRemain h₂ h₃) :
    MarksRemain h₁ h₃ := by
  intro i u hu
  obtain ⟨t, ht, e⟩ := hb i u hu
  obtain ⟨s, hs, e'⟩ := ha i t ht
  exact ⟨s, hs, e.trans e'⟩

theorem Swept.marksRemain (hs : Swept h level h') : MarksRemain h h' := by
  intro i t ht
  rw [hs.segment?] at ht
  obtain ⟨s, hs, hst⟩ := Option.bind_eq_some_iff.mp ht
  refine ⟨s, hs, ?_⟩
  rw [sweptSegment] at hst
  split at hst
  · exact Segment.marked_swept hst
  · cases hst
    rfl

theorem SameButOldToNew.marksRemain (hs : SameButOldToNew h h') : MarksRemain h h' := by
  intro i t ht
  have e := hs.segment? i
  rw [ht, Option.map_some] at e
  obtain ⟨s, hs, hst⟩ := Option.map_eq_some_iff.mp e.symm
  exact ⟨s, hs, (congrArg Segment.marked hst).symm⟩

theorem Refiled.marksRemain {n : Nat} (hq : Refiled h h' n) : MarksRemain h h' := by
  intro i t ht
  rw [hq.segment?] at ht
  obtain ⟨s, hs, hst⟩ := Option.bind_eq_some_iff.mp ht
  obtain ⟨b, rfl⟩ := Segment.filed_eq_some hst
  exact ⟨s, hs, rfl⟩

/-- **A collection leaves the marks of what it kept.** -/
theorem isMarked_of_collect {r : CollectionReport × σ} {log : σ} (hw : h.WellFormed)
    (he : collect tracer level log h = .ok r h') (p : ObjRef) :
    h'.IsMarked p ↔ h.Kept tracer level p := by
  have hc := (collect_ends hw tracer level log).of_ok he
  have hm := marked hw.toFormed tracer level
  -- no phase after marking changes a mark of a segment it leaves in place
  have hremain : MarksRemain (h.mark tracer level).heap h' := by
    simp only [collect] at he
    split at he
    · cases he
    · cases he
      obtain ⟨_, _, _, hq⟩ := hm.refiled hw log
      have hs := (sweep_eq hm.formed tracer level log).1
      have hr := renewOldToNew_reckoned hs.formed tracer level
        ((h.mark tracer level).heap.sweep tracer level log).aged
      refine (hs.marksRemain.trans hr.same.marksRemain).trans ?_
      have hlast := hq.marksRemain
      rw [reclaim]
      simp only
      intro i t ht
      rw [(recorded_collection _ _ level).2.1] at ht
      exact hlast i t ht
  rw [← hm.marks]
  constructor
  · rintro ⟨t, ht, ho⟩
    obtain ⟨s, hs, e⟩ := hremain _ t ht
    exact ⟨s, hs, e ▸ ho⟩
  · intro hp
    have hk := (hm.marks p).mp hp
    obtain ⟨x, _, hx, _⟩ := hk.eligible
    obtain ⟨b, hy, _⟩ := hc.survived p x hx hk.not_garbage
    obtain ⟨t, ht, _⟩ := lookup_eq_some.mp hy
    obtain ⟨s, hs, e⟩ := hremain _ t ht
    obtain ⟨s', hs', ho⟩ := hp
    rw [hs] at hs'
    cases hs'
    exact ⟨t, ht, e ▸ ho⟩

/-! ## Passes that change nothing -/

/-- A change that changes nothing. -/
theorem modifySegment_eq_self {i : SegmentIndex} {f : Segment → Segment}
    (hf : ∀ s, h.store.segment? i = some s → f s = s) : h.modifySegment i f = h := by
  have e : h.store.segments.modify i (Option.map f) = h.store.segments := by
    refine Array.ext_getElem? fun j => ?_
    rw [Array.getElem?_modify]
    split
    · next hij =>
      subst hij
      cases hx : h.store.segments[i]? with
      | none => rfl
      | some x =>
        cases x with
        | none => rfl
        | some s => exact congrArg (some ∘ some) (hf s (by rw [Store.segment?, hx]; rfl))
    · rfl
  rw [modifySegment, Store.modifySegment, e]

/-- A segment without objects to release or to promote is left alone. -/
theorem segment_at_rest {a : Sweeping σ} {i : SegmentIndex}
    (hrest : ∀ s, a.heap.collected? i = some s →
      (s.dying level).members = [] ∧ s.promotable level = []) :
    a.segment tracer level i = a := by
  unfold Sweeping.segment
  cases hs : a.heap.store.segment? i with
  | none => rfl
  | some s =>
    cases hk : a.heap.kinds.get? s.kind with
    | none => simp only [hk]
    | some spec =>
      simp only [hk]
      split
      · rfl
      · next hu =>
        obtain ⟨hdead, hmoved⟩ := hrest s (collected?_eq_some.mpr ⟨hs, by simp [hk, hu]⟩)
        rw [Segment.dying] at hdead
        rw [Segment.promotable] at hmoved
        have hsame : a.heap.modifySegment i (·.promote level []) = a.heap :=
          modifySegment_eq_self fun _ _ => rfl
        simp [hdead, hmoved, hsame]

/-- **Sweeping** leaves a heap without such objects alone. -/
theorem sweep_at_rest {log : σ}
    (hrest : ∀ i s, h.collected? i = some s →
      (s.dying level).members = [] ∧ s.promotable level = []) :
    h.sweep tracer level log = { heap := h, log } := by
  have hall : ∀ l : List SegmentIndex,
      l.foldl (Sweeping.segment tracer level) { heap := h, log } = { heap := h, log } := by
    intro l
    induction l with
    | nil => rfl
    | cons i l ih => rw [List.foldl_cons, segment_at_rest (hrest i), ih]
  exact hall _

/-- **Emptying the old-to-new set** leaves a heap alone where it is empty. -/
theorem clearOldToNew_at_rest
    (hrest : ∀ i s, h.store.segment? i = some s → s.oldToNew = ∅) : h.clearOldToNew = h := by
  refine eq_of_segments (f := Segment.clearOldToNew)
    (mapSegments_mapSegments h fun _ => rfl) fun i => ?_
  rw [segment?_clearOldToNew]
  cases hs : h.store.segment? i with
  | none => rfl
  | some s =>
    have hsame : { s with oldToNew := ∅ } = s := by rw [← hrest i s hs]
    exact congrArg some hsame

/-- Filing a segment that is filed already changes queues only. -/
theorem fileSegment_at_rest {g : Heap} {n : Nat} {i : SegmentIndex}
    (hrest : ∀ s, g.store.segment? i = some s → s.filed = some s) :
    ∃ queues, fileSegment (g, n) i = ({ g with queues }, n) := by
  cases hs : g.store.segment? i with
  | none => exact ⟨g.queues, by simp only [fileSegment, hs]⟩
  | some s =>
    have hfiled := hrest s hs
    have hsame : ∀ b, s.setQueued b = s → g.modifySegment i (·.setQueued b) = g := fun b e =>
      modifySegment_eq_self fun t ht => by
        rw [hs] at ht
        cases ht
        exact e
    simp only [fileSegment, hs]
    rw [Segment.filed] at hfiled
    split at hfiled
    · next hb => exact ⟨g.queues, by rw [if_pos hb, hsame false (Option.some.inj hfiled)]⟩
    · next hb =>
      split at hfiled
      · cases hfiled
      · next he =>
        have e := hsame _ (Option.some.inj hfiled)
        rw [if_neg hb, if_neg he]
        split
        · next hfree => exact ⟨_, by rw [← hfree, e]⟩
        · next hfree => exact ⟨g.queues, by rw [← Bool.eq_false_iff.mpr hfree, e]⟩

theorem foldl_fileSegment_at_rest (l : List SegmentIndex) (a : Heap × Nat)
    (hrest : ∀ i s, a.1.store.segment? i = some s → s.filed = some s) :
    ∃ queues, l.foldl fileSegment a = ({ a.1 with queues }, a.2) := by
  induction l generalizing a with
  | nil => exact ⟨a.1.queues, rfl⟩
  | cons i l ih =>
    obtain ⟨g, n⟩ := a
    obtain ⟨queues, hone⟩ := fileSegment_at_rest (n := n) (hrest i)
    rw [List.foldl_cons, hone]
    exact ih ({ g with queues }, n) hrest

/-- Tables of queues in order are equal if they hold the same. -/
theorem queues_eq (hsize : h'.queues.size = h.queues.size)
    (hsorted : ∀ k, (h.queue k).Pairwise (· < ·)) (hsorted' : ∀ k, (h'.queue k).Pairwise (· < ·))
    (hmem : ∀ k i, i ∈ h'.queue k ↔ i ∈ h.queue k) : h'.queues = h.queues := by
  refine Array.ext hsize fun k hk hk' => ?_
  have hsame : h'.queue k = h.queue k :=
    List.Perm.eq_of_pairwise' (hsorted' k) (hsorted k)
      ((List.perm_ext_iff_of_nodup ((hsorted' k).imp Nat.ne_of_lt)
        ((hsorted k).imp Nat.ne_of_lt)).mpr (hmem k))
  rw [queue, queue, Array.getElem?_eq_getElem hk, Array.getElem?_eq_getElem hk'] at hsame
  exact hsame

/-- **Making the queues anew** leaves a heap alone whose segments hold
objects and whose queues are in order. -/
theorem rebuildQueues_at_rest (hw : h.WellFormed) (ho : h.Occupied)
    (hsorted : ∀ k, (h.queue k).Pairwise (· < ·)) : h.rebuildQueues = (h, 0) := by
  have hrest : ∀ i s, h.store.segment? i = some s → s.filed = some s := by
    intro i s hs
    refine Segment.filed_eq_self ?_ (hw.queued i s hs)
    obtain ⟨p, rfl, ha⟩ := ho i s hs
    obtain ⟨x, hx⟩ := hw.isAllocated_iff_lookup.mp ha
    obtain ⟨t, ht, hmem, _⟩ := lookup_eq_some.mp hx
    rw [hs] at ht
    cases ht
    exact Bool.eq_false_iff.mpr fun he =>
      (Segment.isEmpty_iff (hw.store.segment_wf _ s hs)).mp he _ hmem
  have hrefiled := rebuildQueues_filed hw.toFormed hw.size hw.full
  obtain ⟨queues, hall⟩ := foldl_fileSegment_at_rest h.store.indices
    ({ h with queues := h.queues.map fun _ => [] }, 0) hrest
  have hall : h.rebuildQueues = ({ h with queues }, 0) := hall
  rw [hall] at hrefiled ⊢
  have hqueues : ({ h with queues } : Heap).queues = h.queues := by
    refine queues_eq ?_ hsorted (fun k => ?_) fun k i => ?_
    · exact hrefiled.filed.size.trans hw.size.symm
    · rw [hrefiled.queue]
      exact (Store.sorted_indices _).filter _
    · rw [hrefiled.filed.mem_queue, hw.mem_queue]
  have hqueues : queues = h.queues := hqueues
  rw [hqueues]

/-! ## Heaps at rest -/

/-- A full collection has nothing left to do. -/
structure AtRest (h : Heap) (tracer : Tracer σ) : Prop where
  wellFormed : h.WellFormed
  marks : ∀ p, h.IsMarked p ↔ h.Kept tracer .two p
  garbage : ∀ p, ¬ h.IsGarbage tracer .two p
  old : ∀ p x, h.lookup p = some x → x.generation = .two ∧ x.remembered = false
  occupied : h.Occupied
  sorted : ∀ k, (h.queue k).Pairwise (· < ·)
  allocations : h.allocations = 0
  youngCollections : h.youngCollections = 0
  level1Collections : h.level1Collections = 0

/-- What a full collection keeps does not change in one. -/
theorem Sifted.kept_two_iff (hw : h.WellFormed) (hf' : h'.Formed)
    (hs : Sifted h tracer .two h') : h'.Kept tracer .two p ↔ h.Kept tracer .two p := by
  refine ⟨hs.kept_before hw hf', fun hk => ?_⟩
  exact (kept_two_iff_live hf').mpr (hs.live hw.toFormed hf'
    ((kept_two_iff_live hw.toFormed).mp hk))

/-- **A full collection leaves a heap at rest.** -/
theorem atRest_of_collect {r : CollectionReport × σ} {log : σ} (hs : h.Sound)
    (he : collect tracer .two log h = .ok r h') : h'.AtRest tracer := by
  have hw := hs.wellFormed
  have hc := (collect_ends hw tracer .two log).of_ok he
  have hf' := hc.wellFormed.toFormed
  have hpruned := pruned_collect hs he
  have hcounters := (collect_counters hw.toFormed tracer .two log).of_ok he
  rw [Counters.collected, hc.level_eq] at hcounters
  refine ⟨hc.wellFormed, fun p => (isMarked_of_collect hw he p).trans (hc.kept_two_iff hw hf').symm,
    hc.no_garbage hw hf' nofun, fun p y hy => ?_,
    hpruned.occupied, fun k => (hpruned.queues k).1, congrArg Counters.allocations hcounters,
    congrArg Counters.youngCollections hcounters, congrArg Counters.level1Collections hcounters⟩
  obtain ⟨x, hx, hg, e⟩ := hc.generation hw hy
  obtain ⟨b, hy', hiff⟩ := hc.survived p x hx hg
  rw [hy] at hy'
  cases hy'
  exact ⟨e.trans ((movesTo_ne_zero .two _).2 rfl),
    Bool.eq_false_iff.mpr fun hb => (hiff.mp hb).1 rfl⟩

/-- Marking a heap at rest again leaves it alone. -/
theorem AtRest.mark_eq (hr : h.AtRest tracer) : (h.mark tracer .two).heap = h := by
  have hf := hr.wellFormed.toFormed
  have hm := marked hf tracer .two
  exact eq_of_marks hf hm.formed hm.same fun p => by rw [hm.marks, hr.marks]

/-- No object of a heap at rest is released, or promoted. -/
theorem AtRest.swept (hr : h.AtRest tracer) {i : SegmentIndex} {s : Segment}
    (hs : h.collected? i = some s) :
    (s.dying .two).members = [] ∧ s.promotable .two = [] := by
  have hf := hr.wellFormed.toFormed
  obtain ⟨hs, hc⟩ := collected?_eq_some.mp hs
  have hi := Nat.le_of_lt (hf.store.index_lt hs)
  have hslot : ∀ o, h.store.segment? (ObjRef.ofSlot i o).segment = some s := fun o => by
    rw [ObjRef.segment_ofSlot hi, hs]
  refine ⟨List.eq_nil_iff_forall_not_mem.mpr fun o ho => ?_,
    List.eq_nil_iff_forall_not_mem.mpr fun o ho => ?_⟩
  · -- a dying object of a heap that is marked is garbage
    have hdoomed : h.Doomed .two (.ofSlot i o) := (doomed_iff (hslot o)).mpr
      ⟨hc, by rw [ObjRef.offset_ofSlot hi]; exact OffsetSet.mem_members.mp ho⟩
    have hm := marked hf tracer .two
    rw [← hr.mark_eq] at hdoomed
    exact hr.garbage _ ((hm.doomed_iff _).mp hdoomed)
  · obtain ⟨⟨ha, _⟩, hne⟩ := Segment.mem_promotable.mp ho
    have hx : h.lookup (.ofSlot i o) = some _ :=
      lookup_eq_some.mpr ⟨s, hslot o, by rw [ObjRef.offset_ofSlot hi]; exact ha, rfl⟩
    have hgen : s.generation o = .two := by
      rw [← (hr.old _ _ hx).1, Segment.objectAt, ObjRef.offset_ofSlot hi]
    rw [hgen] at hne
    exact hne rfl

/-- Its old-to-new set is empty. -/
theorem AtRest.oldToNew_eq (hr : h.AtRest tracer) {i : SegmentIndex} {s : Segment}
    (hs : h.store.segment? i = some s) : s.oldToNew = ∅ := by
  have hf := hr.wellFormed.toFormed
  have hi := Nat.le_of_lt (hf.store.index_lt hs)
  ext o
  refine ⟨fun ho => ?_, fun ho => absurd ho (OffsetSet.not_mem_empty o)⟩
  have ha := (hf.store.segment_wf i s hs).oldToNew_allocated o ho
  have hx : h.lookup (.ofSlot i o) = some _ := lookup_eq_some.mpr
    ⟨s, by rw [ObjRef.segment_ofSlot hi, hs], by rw [ObjRef.offset_ofSlot hi]; exact ha, rfl⟩
  have hrem : s.inOldToNew o = false := by
    rw [← (hr.old _ _ hx).2, Segment.objectAt, ObjRef.offset_ofSlot hi]
  exact absurd ho (OffsetSet.contains_eq_false_iff.mp hrem)

/-- **The rest of a full collection leaves it as it is**, but for the
totals. -/
theorem AtRest.settle_eq (hr : h.AtRest tracer) :
    (settle (h.mark tracer .two) tracer .two).2.withMetrics h.metrics = h := by
  have hswept : h.recordedSweep .two = { heap := h, log := [] } :=
    sweep_at_rest fun i s hs => hr.swept hs
  have hrenewed : h.renewOldToNew tracer .two [] = h :=
    (renewOldToNew_two h tracer []).trans (clearOldToNew_at_rest fun i s hs => hr.oldToNew_eq hs)
  have hfiled : h.rebuildQueues = (h, 0) :=
    rebuildQueues_at_rest hr.wellFormed hr.occupied hr.sorted
  simp only [settle, hr.mark_eq, hswept, hrenewed, hfiled]
  obtain ⟨_, _, _, _, _, allocations, young, level1, _⟩ := h
  obtain rfl : allocations = 0 := hr.allocations
  obtain rfl : young = 0 := hr.youngCollections
  obtain rfl : level1 = 0 := hr.level1Collections
  rfl

/-! ## The second collection -/

/-- What a collection does that follows another at the same level. -/
structure Repeats (level : Generation) (h : Heap) (report : CollectionReport) (h' : Heap) :
    Prop where
  freed : report.freed = 0 ∧ report.freedChunks = 0
  released : report.released = 0
  objects : ∀ p, h'.isAllocated p = h.isAllocated p
  segments : ∀ i, (h'.store.segment? i).isSome = (h.store.segment? i).isSome
  /-- At level zero nothing is marked that could be freed, and nothing moves. -/
  zero : level = .zero → report.marked = 0 ∧ report.promoted = 0 ∧
    ∀ p, h.isAllocated p = true → h'.generationOf p = h.generationOf p
  /-- At level two all but the totals is left as it was. -/
  two : level = .two → report.promoted = 0 ∧ h'.withMetrics h.metrics = h ∧
    h'.occupancy = h.occupancy ∧ h'.queues = h.queues

variable {h'' : Heap} {report : CollectionReport}

theorem Collected.isAllocated_eq (hf : h.Formed) (hg : ∀ p, ¬ h.IsGarbage tracer level p)
    (hc : Collected h tracer level report h') (p : ObjRef) :
    h'.isAllocated p = h.isAllocated p := by
  rw [Bool.eq_iff_iff, hf.isAllocated_iff_lookup, hc.wellFormed.isAllocated_iff_lookup]
  constructor
  · rintro ⟨y, hy⟩
    obtain ⟨x, hx, _⟩ := hc.before hy
    exact ⟨x, hx⟩
  · rintro ⟨x, hx⟩
    obtain ⟨b, hy, _⟩ := hc.survived p x hx (hg p)
    exact ⟨_, hy⟩

/-- Where there is no garbage, and each segment holds an object, nothing is
given back. -/
theorem Collected.repeats_store (hw : h.WellFormed) (ho : h.Occupied)
    (hg : ∀ p, ¬ h.IsGarbage tracer level p) (hc : Collected h tracer level report h') :
    report.freed = 0 ∧ report.freedChunks = 0 ∧ report.released = 0 := by
  obtain ⟨dead, _, hmem, hfreed, hchunks⟩ := hc.swept
  have hdead : dead = [] := List.eq_nil_iff_forall_not_mem.mpr fun p hp => hg p ((hmem p).mp hp)
  rw [hdead] at hfreed hchunks
  refine ⟨hfreed, hchunks, hc.released.unique ⟨[], List.nodup_nil, fun i => ⟨nofun, fun hi => ?_⟩,
    rfl⟩⟩
  obtain ⟨s, hs, _⟩ := (Option.any_eq_true _ _).mp hi.1
  obtain ⟨p, hp, ha⟩ := ho i s hs
  rw [← hc.isAllocated_eq hw.toFormed hg, hc.wellFormed.isAllocated_iff_lookup] at ha
  obtain ⟨y, hy⟩ := ha
  rw [hi.2 p hp] at hy
  cases hy

theorem Collected.repeats_segments (hw : h.WellFormed) (ho : h.Occupied)
    (hg : ∀ p, ¬ h.IsGarbage tracer level p) (hc : Collected h tracer level report h')
    (hback : Store.GivesBack h.store h'.store) (i : SegmentIndex) :
    (h'.store.segment? i).isSome = (h.store.segment? i).isSome := by
  cases hs : h.store.segment? i with
  | none => rw [hback.none_of_none hs]
  | some s =>
    obtain ⟨p, rfl, ha⟩ := ho i s hs
    rw [← hc.isAllocated_eq hw.toFormed hg, hc.wellFormed.isAllocated_iff_lookup] at ha
    obtain ⟨y, hy⟩ := ha
    obtain ⟨t, ht, _⟩ := lookup_eq_some.mp hy
    rw [ht]
    rfl

/-- A collection at level zero passes over a heap without objects of that
generation. -/
theorem Collected.repeats_zero (hw : h.WellFormed) (hc : Collected h tracer .zero report h')
    (hgen : ∀ p x, h.lookup p = some x → x.generation ≠ .zero) :
    report.marked = 0 ∧ report.promoted = 0 ∧
      ∀ p, h.isAllocated p = true → h'.generationOf p = h.generationOf p := by
  have hstays : ∀ g, g ≠ Generation.zero → movesTo .zero g = g := by
    intro g hg
    cases g with
    | zero => exact absurd rfl hg
    | one => rfl
    | two => rfl
  have hsame : ∀ p x y, h.lookup p = some x → h'.lookup p = some y →
      y.generation = x.generation := by
    intro p x y hx hy
    obtain ⟨x', hx', _, e⟩ := hc.generation hw hy
    rw [hx] at hx'
    cases hx'
    exact e.trans (hstays _ (hgen p x hx))
  refine ⟨hc.marked.unique ⟨[], List.nodup_nil, fun p => ⟨nofun, fun hp => ?_⟩, rfl⟩,
    hc.promoted.unique ⟨[], List.nodup_nil, fun p => ⟨nofun, fun hp => ?_⟩, rfl⟩, fun p ha => ?_⟩
  · obtain ⟨x, _, hx, _⟩ := hp.1.eligible
    exact absurd (Generation.eq_zero_of_le (hp.1.generation_le hx hp.2)) (hgen p x hx)
  · obtain ⟨x, y, hx, hy, hne⟩ := hp
    exact absurd (hsame p x y hx hy) hne
  · obtain ⟨x, hx⟩ := hw.isAllocated_iff_lookup.mp ha
    have hout : ¬ h.IsGarbage tracer .zero p := fun ⟨_, _, x', hx', hle⟩ =>
      hgen p x' hx' (Generation.eq_zero_of_le hle)
    obtain ⟨b, hy, _⟩ := hc.survived p x hx hout
    rw [generationOf_of_lookup hx, generationOf_of_lookup hy, hsame p x _ hx hy]

/-- Where every object is of generation two, none is promoted. -/
theorem Collected.repeats_two (hw : h.WellFormed) (hc : Collected h tracer .two report h')
    (hold : ∀ p x, h.lookup p = some x → x.generation = .two) : report.promoted = 0 := by
  refine hc.promoted.unique ⟨[], List.nodup_nil, fun p => ⟨nofun, fun hp => ?_⟩, rfl⟩
  obtain ⟨x, y, hx, hy, hne⟩ := hp
  obtain ⟨x', _, _, e⟩ := hc.generation hw hy
  exact absurd (e.trans ((movesTo_ne_zero .two _).2 rfl)) (hold p x hx ▸ hne)

/-- **Collecting twice is collecting once.** The second of two collections
at a level frees nothing, calls for nothing and gives no segment back. At
level zero it moves nothing either, and after a full one the heap is left
as it was. Only level one needs a complete old-to-new set for that. -/
theorem collect_idempotent (hr : h.Reachable) (tracer : Tracer σ) (level : Generation) (log : σ)
    (hb : level = .one → h.BarrierComplete tracer) :
    Ends (collect tracer level log h)
      (fun _ h' => ∃ report h'', h'.Collects tracer level report [] h'' ∧
        Repeats level h' report h'')
      (fun _ _ => False) (h.StrayFault tracer level) := by
  have hw := hr.wellFormed
  refine (collect_ends hw tracer level log).sharpen fun r h' he => ?_
  have hc := (collect_ends hw tracer level log).of_ok he
  have hw' := hc.wellFormed
  have hf' := hw'.toFormed
  have hm := marked hf' tracer level
  -- after the first collection nothing is garbage at that level
  have hgarbage := hc.no_garbage hw hf' hb
  have hocc := occupied_collect hw he
  have hagain := collects_of_clean hf' tracer level (clean_again hw he)
  have hsecond := (collect_ends hw' tracer level log).of_ok (hagain log)
  obtain ⟨_, _, _, _, _, _, _, _, hback⟩ := collect_refiled hw' (hagain log)
  have hsegments := hsecond.repeats_segments hw' hocc hgarbage hback
  have hcalls : (h'.mark tracer level).heap.freedCalls level = [] :=
    List.eq_nil_iff_forall_not_mem.mpr fun call hcall =>
      hgarbage _ (hm.mem_freedCalls.mp (List.mem_map_of_mem hcall)).1
  rw [hcalls] at hagain
  refine ⟨_, _, hagain, ?_⟩
  generalize hsettle : settle (h'.mark tracer level) tracer level = settled at hsecond hsegments
  obtain ⟨hfreed, hchunks, hreleased⟩ := hsecond.repeats_store hw' hocc hgarbage
  refine ⟨⟨hfreed, hchunks⟩, hreleased, hsecond.isAllocated_eq hf' hgarbage, hsegments, ?_, ?_⟩
  · rintro rfl
    refine hsecond.repeats_zero hw' fun p y hy hzero => ?_
    obtain ⟨x, _, _, e⟩ := hc.generation hw hy
    exact (movesTo_ne_zero .zero x.generation).1 (e.symm.trans hzero)
  · rintro rfl
    -- a full collection leaves only old objects, for which every phase is at rest
    have hrest := atRest_of_collect hr.sound he
    have hsame := hrest.settle_eq
    rw [hsettle] at hsame
    refine ⟨hsecond.repeats_two hw' fun p x hx => (hrest.old p x hx).1, hsame, ?_, ?_⟩
    · show (settled.2.withMetrics h'.metrics).occupancy = h'.occupancy
      rw [hsame]
    · show (settled.2.withMetrics h'.metrics).queues = h'.queues
      rw [hsame]

/-- The first of two collections at level one frees a pair, and takes the
one that only the old pair refers to from the youngest generation to the
next. That pair is in scope again, and the second collection takes it to
the last generation. -/
theorem collect_idempotent_family : ∃ (h' h'' : Heap) (r : CollectionReport × Unit)
    (report : CollectionReport), family.Reachable ∧ family.BarrierComplete (pairsFrom [holder]) ∧
      collect (pairsFrom [holder]) .one () family = .ok r h' ∧ r.1.freed = 1 ∧
      h'.Collects (pairsFrom [holder]) .one report [] h'' ∧ Repeats .one h' report h'' ∧
      report.promoted = 1 ∧ h'.inOldToNew holder = .ok true ∧
      h'.generationOf child = .ok .one ∧ h''.generationOf child = .ok .two := by
  let tracer := pairsFrom [holder]
  let h' := after (collect tracer .one ()) family
  have he : collect tracer .one () family = .ok (⟨.one, 1, 1, 1, 1, 0, 1⟩, ()) h' :=
    eq_ok_of_returned (by decide +kernel)
  have hb := barrierComplete_family [holder]
  obtain ⟨report, h'', hagain, hrepeats⟩ :=
    (collect_idempotent reachable_family tracer .one () fun _ => hb).of_ok he
  have hstate : h'.inOldToNew holder = .ok true ∧ h'.generationOf child = .ok .one ∧
      returned (collect tracer .one ()) h' = some (⟨.one, 1, 0, 0, 1, 0, 0⟩, ()) ∧
      (after (collect tracer .one ()) h').generationOf child = .ok .two := by
    decide +kernel
  rw [returned, after, hagain ()] at hstate
  obtain ⟨hin, hone, hreport, htwo⟩ := hstate
  have hpromoted := congrArg (Option.map fun r : CollectionReport × Unit => r.1.promoted) hreport
  exact ⟨h', h'', _, report, reachable_family, hb, he, rfl, hagain, hrepeats,
    Option.some.inj hpromoted, hin, hone, htwo⟩

end Heap

end SegmentedHeap
