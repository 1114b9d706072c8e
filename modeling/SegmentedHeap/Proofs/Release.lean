/-
SegmentedHeap.Proofs.Release — objects and segments are given back.

An object that is discarded is gone and no other object can tell, whether
its bytes are overwritten, its slot is free again, or its segment is
given back with the region it had to itself. The collector discards
objects one after the other, so that `Discarded` says nothing of queues;
`free` puts the segment back in its queue as well.

* `lookup_release` — a segment is taken back.
* `discarded` — an object is discarded.
* `free_ends` — an object is freed.
-/
import SegmentedHeap.Proofs.Allocation

namespace SegmentedHeap

/-- What a segment is after one of its objects was discarded. -/
def Segment.without (s : Segment) (o : Offset) : Option Segment :=
  if s.isBig then none else some (s.vacate o)

/-- A release empties at most the region of the segment's own block. -/
theorem Store.read_release {s : Store} {i : SegmentIndex} {t : Segment} {a : Address}
    (ht : s.segment? i = some t)
    (ha : t.isBig = true → a.region ≠ t.base.region) :
    (s.release i).memory.read a = s.memory.read a := by
  rw [release_eq ht]
  cases hb : t.backing with
  | pooled area => rfl
  | dedicated block =>
    have hregion := ha (by rw [Segment.isBig_eq, hb]; rfl)
    rw [Segment.base_eq, hb] at hregion
    exact Memory.read_release s.memory block.region a hregion

namespace Heap

variable {h : Heap} {i : SegmentIndex} {s : Segment} {p q : ObjRef} {x : Object}

/-- The objects of a segment that is taken back are gone, and no others. -/
theorem lookup_release (hf : h.Formed) (hs : h.store.segment? i = some s) (q : ObjRef) :
    (h.setStore (h.store.release i)).lookup q =
      if i = q.segment then none else h.lookup q := by
  have hseg : (h.setStore (h.store.release i)).store.segment? q.segment =
      if i = q.segment then none else h.store.segment? q.segment := Store.segment?_release ..
  split
  · next e =>
    rw [if_pos e] at hseg
    exact lookup_of_none hseg
  · next e =>
    rw [if_neg e] at hseg
    refine lookup_congr (Store.sameGeometry_release h.store i).chunkBytes hseg fun t ht a ha => ?_
    refine Store.read_release hs fun hb => ?_
    rw [ha, Segment.base_eq, Segment.base_eq]
    rw [Segment.isBig_eq] at hb
    exact Ne.symm ((hf.store.apart i _ s t hs ht e).2 (Or.inl hb))

/-! ## Discarding an object -/

/-- What discarding an object leaves of a heap. -/
structure Discarded (h : Heap) (p : ObjRef) (h' : Heap) : Prop where
  setting : SameSetting h h'
  formed : h'.Formed
  lookup : ∀ q, h'.lookup q = if p = q then none else h.lookup q
  segment? : ∀ j, h'.store.segment? j =
    if p.segment = j then (h.store.segment? j).bind (·.without p.offset)
    else h.store.segment? j
  queues : h'.queues = h.queues

/-- The heap with the bytes of an object overwritten, if the configuration
asks for that. -/
def scribbled (h : Heap) (x : Object) : Heap :=
  if h.config.debugFill then
    h.setMemory (h.store.memory.fill x.address x.bytes.length freedByte)
  else h

theorem discard_eq (hx : h.lookup p = some x) (hs : h.store.segment? p.segment = some s) :
    h.discard p =
      let h' := (h.scribbled x).modifySegment p.segment (·.vacate p.offset)
      if s.isBig then h'.setStore (h'.store.release p.segment) else h' := by
  obtain ⟨t, ht, _, rfl⟩ := lookup_eq_some.mp hx
  rw [hs] at ht
  cases ht
  simp only [discard, hs, scribbled, Segment.objectAt, Memory.length_load]
  rfl

theorem scribbled_eq (h : Heap) (x : Object) :
    SameSetting h (h.scribbled x) ∧ (h.scribbled x).store.segments = h.store.segments ∧
      (h.scribbled x).queues = h.queues := by
  unfold scribbled
  split
  · exact ⟨sameSetting_setMemory h _, rfl, rfl⟩
  · exact ⟨.refl h, rfl, rfl⟩

theorem Formed.scribbled (hf : h.Formed) (x : Object) : (h.scribbled x).Formed := by
  unfold Heap.scribbled
  split
  · exact hf.setMemory (Memory.size_fill _ _ _ _)
  · exact hf

/-- Only the object itself can tell that its bytes are overwritten. -/
theorem lookup_scribbled (hf : h.Formed) (hx : h.lookup p = some x) (hq : p ≠ q) :
    (h.scribbled x).lookup q = h.lookup q := by
  unfold scribbled
  split
  · refine lookup_setMemory_of_read fun y hy a ha => ?_
    rw [Memory.read_fill _ _ _ _ _ (hf.region_lt_of_lookup hx), if_neg]
    rintro ⟨hr, hlo, hhi⟩
    exact hf.disjoint_of_ne hx hy hq a ⟨hr.symm, hlo, hhi⟩ ha
  · rfl

/-- A slot that is given back holds nothing, and no other slot can tell. -/
theorem lookup_vacate (h : Heap) (p q : ObjRef) :
    (h.modifySegment p.segment (·.vacate p.offset)).lookup q =
      if p = q then none else h.lookup q := by
  rw [lookup_modifySegment_at]
  · split
    · cases h.store.segment? p.segment with
      | none => rfl
      | some s =>
        rw [Option.bind_some, Segment.object?_of_not_mem]
        exact fun hm => (Segment.mem_allocated_vacate.mp hm).1 rfl
    · rfl
  · intro s _ o ho
    refine Segment.object?_congr (Segment.sameShape_vacate s _) ?_
      (Segment.generation_vacate (Ne.symm ho)) ?_ (Segment.length?_vacate (Ne.symm ho)) _ _
    · rw [Segment.mem_allocated_vacate]
      exact ⟨And.right, fun hm => ⟨Ne.symm ho, hm⟩⟩
    · show o ∈ s.oldToNew.erase p.offset ↔ _
      rw [OffsetSet.mem_erase]
      exact ⟨And.right, fun hm => ⟨Ne.symm ho, hm⟩⟩

/-- The heap between the end of an object and that of its segment. -/
theorem Formed.vacated (hf : h.Formed) (hx : h.lookup p = some x) :
    ((h.scribbled x).modifySegment p.segment (·.vacate p.offset)).Formed := by
  obtain ⟨s, hs, ho, _⟩ := lookup_eq_some.mp hx
  have hf₁ := hf.scribbled x
  refine hf₁.modifySegment fun t ht => ⟨Segment.sameShape_vacate t _, ?_⟩
  refine (hf₁.store.segment_wf _ t ht).vacate ?_
  rw [Store.segment?, (scribbled_eq h x).2.1, ← Store.segment?, hs] at ht
  cases ht
  exact (Segment.mem_allocated.mp ho).1

/-- The object of a big segment is alone in it. -/
theorem Formed.eq_of_big (hf : h.Formed) {y : Object} (hs : h.store.segment? p.segment = some s)
    (hb : s.isBig = true) (hx : h.lookup p = some x) (hy : h.lookup q = some y)
    (hpq : p.segment = q.segment) : p = q := by
  obtain ⟨t, ht, ho, _⟩ := lookup_eq_some.mp hx
  obtain ⟨u, hu, ho', _⟩ := lookup_eq_some.mp hy
  rw [hs] at ht
  rw [← hpq, hs] at hu
  cases ht
  cases hu
  refine ObjRef.eq_iff.mpr ⟨hpq, ?_⟩
  rw [hf.slot_of_big hs (Segment.mem_allocated.mp ho).1 hb,
    hf.slot_of_big hs (Segment.mem_allocated.mp ho').1 hb]

/-- **An object that is discarded is gone, and no other can tell.** -/
theorem discarded (hf : h.Formed) (hx : h.lookup p = some x) : Discarded h p (h.discard p) := by
  obtain ⟨s, hs, ho, _⟩ := lookup_eq_some.mp hx
  obtain ⟨hset, hsegs, hqueues⟩ := scribbled_eq h x
  have hseg : ∀ j, (h.scribbled x).store.segment? j = h.store.segment? j := fun j => by
    rw [Store.segment?, Store.segment?, hsegs]
  rw [discard_eq hx hs]
  -- with the slot vacated, what remains is whether the segment goes with it
  generalize hh : (h.scribbled x).modifySegment p.segment (·.vacate p.offset) = h₂
  have hf₂ : h₂.Formed := hh ▸ hf.vacated hx
  have hset₂ : SameSetting h h₂ := hh ▸ hset.trans (sameSetting_modifySegment _ _ _)
  have hseg₂ : ∀ j, h₂.store.segment? j = if p.segment = j then
      (h.store.segment? j).map (·.vacate p.offset) else h.store.segment? j := fun j => by
    rw [← hh, segment?_modifySegment, hseg]
  have hqueues₂ : h₂.queues = h.queues := hh ▸ hqueues
  have hlookup₂ : ∀ q, h₂.lookup q = if p = q then none else h.lookup q := fun q => by
    rw [← hh, lookup_vacate]
    split
    · rfl
    · next e => exact lookup_scribbled hf hx e
  have hat : h₂.store.segment? p.segment = some (s.vacate p.offset) := by
    rw [hseg₂, if_pos rfl, hs]
    rfl
  cases hb : s.isBig with
  | false =>
    refine ⟨hset₂, hf₂, hlookup₂, fun j => ?_, hqueues₂⟩
    rw [if_neg Bool.false_ne_true, hseg₂]
    split
    · next e =>
      rw [← e, hs]
      simp [Segment.without, hb]
    · rfl
  | true =>
    rw [if_pos rfl]
    refine ⟨hset₂.trans (sameSetting_release h₂ _), hf₂.release _, fun q => ?_, fun j => ?_,
      hqueues₂⟩
    · rw [lookup_release hf₂ hat, hlookup₂]
      by_cases e : p.segment = q.segment
      · rw [if_pos e]
        split
        · rfl
        · next hne =>
          cases hy : h.lookup q with
          | none => rfl
          | some y => exact absurd (hf.eq_of_big hs hb hx hy e) hne
      · rw [if_neg e]
    · show (h₂.store.release p.segment).segment? j = _
      rw [Store.segment?_release, hseg₂]
      by_cases e : p.segment = j
      · rw [if_pos e, if_pos e, ← e, hs]
        simp [Segment.without, hb]
      · rw [if_neg e, if_neg e, if_neg e]

/-! ## Freeing an object -/

/-- A discarded object's segment is put back in its queue, unless it
waits there or is gone. -/
theorem filed_enqueue {h' : Heap} (hf : h.Formed) (hq : h.Filed) (hx : h.lookup p = some x)
    (hd : Discarded h p h') : (h'.enqueue p.segment).Filed := by
  obtain ⟨s, hs, ho, _⟩ := lookup_eq_some.mp hx
  have hslot := (Segment.mem_allocated.mp ho).1
  have hother : ∀ j, j ≠ p.segment → h'.store.segment? j = h.store.segment? j := fun j hj => by
    rw [hd.segment?, if_neg (Ne.symm hj)]
  have hself := hd.segment? p.segment
  rw [if_pos rfl, hs, Option.bind_some, Segment.without] at hself
  have hqueue : ∀ k, h'.queue k = h.queue k := fun k => by rw [queue, queue, hd.queues]
  have hkinds := hd.setting.kinds
  -- the segment is gone with its object, waits already, or joins its queue
  cases hb : s.isBig with
  | true =>
    rw [hb, if_pos rfl] at hself
    have hsame : h'.enqueue p.segment = h' := by
      simp only [enqueue, hself]
    rw [hsame]
    refine hq.changeAt (i := p.segment) hkinds (congrArg Array.size hd.queues) hother
      (fun k => by rw [hqueue]; exact hq.nodup k) (fun k j _ => by rw [hqueue]) (fun k => ?_)
      (fun t ht => by rw [hself] at ht; cases ht) (fun t ht => by rw [hself] at ht; cases ht)
    rw [hqueue, hself, hq.mem_queue_iff hs]
    refine iff_of_false (fun hk => ?_) fun hn => ?_
    · exact Bool.false_ne_true (hb.symm.trans ((hq.queued _ s hs).mp hk.2).1).symm
    · obtain ⟨_, ht, _⟩ := hn
      cases ht
  | false =>
    rw [hb, if_neg Bool.false_ne_true] at hself
    have hfree : (s.vacate p.offset).hasFree = true :=
      Segment.hasFree_iff.mpr ⟨p.offset, OffsetSet.mem_insert.mpr (Or.inl rfl)⟩
    obtain ⟨spec, hspec, _⟩ := hf.typed _ s hs
    cases hqd : s.queued with
    | true =>
      have hsame : h'.enqueue p.segment = h' := by
        have hqd' : (s.vacate p.offset).queued = true := hqd
        simp only [enqueue, hself, hqd', if_true]
      rw [hsame]
      refine hq.replaceAt hself hkinds (congrArg Array.size hd.queues) hother
        (fun k => by rw [hqueue]; exact hq.nodup k) (fun k j _ => by rw [hqueue]) (fun k => ?_)
        ⟨fun _ => ⟨hb, hfree⟩, fun _ => hqd⟩ fun hbig => ?_
      · rw [hqueue]
        exact hq.mem_queue_iff hs k
      · exact absurd (hb.symm.trans hbig) Bool.false_ne_true
    | false =>
      have hwait : h'.enqueue p.segment = h'.waiting s.kind p.segment := by
        have hqd' : (s.vacate p.offset).queued = false := hqd
        simp only [enqueue, hself, hqd']
        rfl
      rw [hwait]
      refine filed_waiting hq hkinds hd.queues hother hself rfl hspec (fun k hm => ?_) hb hfree
      exact Bool.false_ne_true (hqd.symm.trans ((hq.mem_queue_iff hs k).mp hm).2)

theorem enqueue_cases (h : Heap) (i : SegmentIndex) :
    h.enqueue i = h ∨ ∃ kind, h.enqueue i = h.waiting kind i := by
  unfold enqueue
  cases h.store.segment? i with
  | none => exact Or.inl rfl
  | some s =>
    by_cases hq : s.queued = true
    · simp only [hq, if_true]
      exact Or.inl trivial
    · simp only [hq]
      exact Or.inr ⟨s.kind, rfl⟩

/-- Whether a segment waits is of no account to objects. -/
theorem lookup_enqueue (h : Heap) (i : SegmentIndex) : (h.enqueue i).lookup = h.lookup := by
  rcases enqueue_cases h i with e | ⟨kind, e⟩
  · rw [e]
  · rw [e, lookup_waiting]

theorem Formed.enqueue (hf : h.Formed) (i : SegmentIndex) :
    (h.enqueue i).Formed ∧ SameSetting h (h.enqueue i) := by
  rcases enqueue_cases h i with e | ⟨kind, e⟩
  · rw [e]
    exact ⟨hf, .refl h⟩
  · rw [e]
    exact ⟨hf.waiting kind i, rfl, rfl, rfl, Store.sameGeometry_modifySegment h.store i _⟩

/-- **Freeing removes one object and changes no other; or it is refused
and changes nothing.** It meets no fault. -/
theorem free_ends (hw : h.WellFormed) (p : ObjRef) :
    Ends (free p h)
      (fun _ h' => h'.WellFormed ∧ Changed h p none h' ∧ ∃ x, h.lookup p = some x)
      (fun _ h' => h' = h) (fun _ => False) := by
  have hf := hw.toFormed
  unfold free
  refine Ends.get_bind ?_
  cases hx : h.lookup p with
  | none =>
    rw [hf.not_isAllocated_iff_lookup.mpr hx]
    rfl
  | some x =>
    obtain ⟨spec, hspec⟩ := hf.spec_of_lookup hx
    rw [hf.isAllocated_iff_lookup.mpr ⟨x, hx⟩]
    refine Ends.ask_bind (isUncollected_of_lookup hx hspec) ?_
    cases hu : spec.uncollected with
    | true => rfl
    | false =>
      have hd := discarded hf hx
      -- the counter of frees is of no account
      have hd : Discarded h p { h.discard p with metrics := (h.discard p).metrics.recordFree } :=
        ⟨hd.setting.trans ⟨rfl, rfl, rfl, .refl _⟩, hd.formed.congr rfl rfl, hd.lookup, hd.segment?,
          hd.queues⟩
      generalize hh : ({ h.discard p with metrics := (h.discard p).metrics.recordFree } : Heap) = h₁
        at hd
      have hfiled := filed_enqueue hf hw.toFiled hx hd
      obtain ⟨hformed, hsetting⟩ := hd.formed.enqueue p.segment
      have hc : Changed h p none (h₁.enqueue p.segment) :=
        ⟨hd.setting.trans hsetting, hformed, fun _ => hfiled,
          fun q => by rw [lookup_enqueue, hd.lookup]⟩
      rw [← hh] at hc
      exact ⟨⟨hc.formed, hc.filed hw.toFiled, hc.permanent hw.permanent nofun⟩, hc, x, rfl⟩

end Heap

end SegmentedHeap
