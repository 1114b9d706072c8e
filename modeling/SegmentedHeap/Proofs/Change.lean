/-
SegmentedHeap.Proofs.Change — one object of a heap is changed.

Between collections every operation changes at most one object: it comes,
it goes, or something about it changes. `Changed` states that, and that
the heap is still in order. Changes of one object compose, which is how
an operation of several steps is described.

* `Changed.permanent` — what is never collected stays of generation two.
* `changed_modifySegment` — the change is made to the object's segment.
* `changed_setMemory` — the change is made to the object's bytes.
-/
import SegmentedHeap.Proofs.Invariant

namespace SegmentedHeap

/-! ## Memory that is filled or stored to -/

theorem Memory.load_fill {m : Memory} {a : Address} (h : a.region < m.regions.size) (n : Nat)
    (b : UInt8) : (m.fill a n b).load a n = List.replicate n b := by
  rw [List.eq_replicate_iff]
  refine ⟨Memory.length_load _ _ _, fun c hc => ?_⟩
  obtain ⟨i, hi, rfl⟩ := List.mem_map.mp hc
  rw [Memory.read_fill m a _ n b h, if_pos]
  exact ⟨rfl, Nat.le_add_right _ _, Nat.add_lt_add_left (List.mem_range.mp hi) _⟩

theorem Memory.size_fill (m : Memory) (a : Address) (n : Nat) (b : UInt8) :
    (m.fill a n b).regions.size = m.regions.size := Array.size_modify

namespace Heap

/-! ## One object -/

/-- `h'` is `h` with `x` for what the reference named, and is in order;
the queues are if they were. -/
structure Changed (h : Heap) (obj : ObjRef) (x : Option Object) (h' : Heap) : Prop where
  setting : SameSetting h h'
  formed : h'.Formed
  filed : h.Filed → h'.Filed
  lookup : ∀ q, h'.lookup q = if obj = q then x else h.lookup q

namespace Changed

variable {h h₁ h₂ h' : Heap} {obj : ObjRef} {x y : Option Object}

theorem lookup_self (hc : Changed h obj x h') : h'.lookup obj = x := by
  rw [hc.lookup, if_pos rfl]

theorem lookup_other (hc : Changed h obj x h') {q : ObjRef} (hq : q ≠ obj) :
    h'.lookup q = h.lookup q := by
  rw [hc.lookup, if_neg (Ne.symm hq)]

theorem trans (hc : Changed h obj x h₁) (hd : Changed h₁ obj y h₂) : Changed h obj y h₂ where
  setting := hc.setting.trans hd.setting
  formed := hd.formed
  filed hq := hd.filed (hc.filed hq)
  lookup q := by
    rw [hd.lookup]
    split
    · rfl
    · next e => exact hc.lookup_other (Ne.symm e)

theorem permanent (hc : Changed h obj x h') (hp : h.Permanent)
    (hx : ∀ y spec, x = some y → h.kinds.get? y.kind = some spec → spec.uncollected = true →
      y.generation = .two) : h'.Permanent := by
  intro q y spec hy hspec hu
  rw [hc.setting.kinds] at hspec
  rw [hc.lookup] at hy
  split at hy
  · exact hx y spec hy hspec hu
  · exact hp q y spec hy hspec hu

/-- Counters do not matter. -/
theorem congr (hc : Changed h obj x h₁) (hconfig : h₂.config = h₁.config)
    (hlayout : h₂.layout = h₁.layout) (hkinds : h₂.kinds = h₁.kinds)
    (hstore : h₂.store = h₁.store) (hqueues : h₂.queues = h₁.queues) : Changed h obj x h₂ where
  setting := by
    refine hc.setting.trans ⟨hconfig, hlayout, hkinds, ?_⟩
    rw [hstore]
    exact .refl h₁.store
  formed := hc.formed.congr hstore hkinds
  filed hq := by
    refine (hc.filed hq).congr hkinds hqueues (fun i t ht => ?_) fun i s hs => ⟨s, ?_⟩
    · rw [hstore] at ht
      exact ⟨t, ht, rfl, rfl, rfl, rfl⟩
    · rw [hstore]
      exact hs
  lookup q := by
    rw [← hc.lookup q, Heap.lookup, Heap.lookup, hstore]

end Changed

/-! ## The object's segment is changed -/

variable {h : Heap} {p : ObjRef} {x : Object}

/-- A change to the segment of an object that leaves the slots alone and
cannot be told from any other object. -/
theorem changed_modifySegment (hf : h.Formed) (hx : h.lookup p = some x)
    {f : Segment → Segment} {y : Object}
    (hs : ∀ s, h.store.segment? p.segment = some s → p.offset ∈ s.allocated →
      (Segment.SameShape s (f s) ∧ (f s).WellFormed) ∧ (f s).free = s.free ∧
        (f s).queued = s.queued ∧
        (∀ o, o ≠ p.offset → (f s).generation o = s.generation o ∧
          (o ∈ (f s).oldToNew ↔ o ∈ s.oldToNew) ∧ (f s).length? o = s.length? o) ∧
        (x = s.objectAt h.store.memory h.store.chunkBytes p.offset →
          (f s).objectAt h.store.memory h.store.chunkBytes p.offset = y)) :
    Changed h p (some y) (h.modifySegment p.segment f) := by
  obtain ⟨s, hseg, ho, hx⟩ := lookup_eq_some.mp hx
  have hs' : ∀ t, h.store.segment? p.segment = some t → s = t := fun t ht => by
    rw [hseg] at ht
    exact Option.some.inj ht
  obtain ⟨hshape, hfree, hqueued, hother, hself⟩ := hs s hseg ho
  have halloc : ∀ o, o ∈ (f s).allocated ↔ o ∈ s.allocated := fun o => by
    rw [Segment.mem_allocated, Segment.mem_allocated, hfree, hshape.1.slots]
  refine ⟨sameSetting_modifySegment h _ f, hf.modifySegment fun t ht => ?_,
    fun hq => hq.modifySegment fun t ht => ?_, fun q => ?_⟩
  · rw [← hs' t ht]
    exact hshape
  · rw [← hs' t ht]
    exact ⟨hshape.1, hfree, hqueued⟩
  · rw [lookup_modifySegment_at]
    · rw [hseg, Option.bind_some, Segment.object?_of_mem ((halloc _).mpr ho), hself hx]
    · intro t ht o hne
      rw [← hs' t ht]
      obtain ⟨hg, hr, hl⟩ := hother o hne
      exact Segment.object?_congr hshape.1 (halloc o) hg hr hl _ _

/-- An object may be given any generation, but a member of the old-to-new
set not generation zero. -/
theorem changed_setGeneration (hf : h.Formed) (hx : h.lookup p = some x)
    {g : Generation} (hg : x.remembered = true → g ≠ .zero) :
    Changed h p (some { x with generation := g })
      (h.modifySegment p.segment (·.setGeneration p.offset g)) := by
  refine changed_modifySegment hf hx fun s hs ho => ⟨⟨Segment.sameShape_setGeneration s _ g,
    (hf.store.segment_wf _ s hs).setGeneration ho fun hm => ?_⟩,
    Segment.free_setGeneration s _ g, ?_, fun o hne => ⟨?_, ?_, ?_⟩, ?_⟩
  · obtain ⟨t, ht, _, rfl⟩ := lookup_eq_some.mp hx
    rw [hs] at ht
    cases ht
    exact hg hm
  · cases g <;> rfl
  · rw [Segment.generation_setGeneration, if_neg (Ne.symm hne)]
  · rw [Segment.oldToNew_setGeneration]
  · rw [Segment.length?, Segment.lengths_setGeneration]
    rfl
  · rintro rfl
    have hgen := Segment.generation_setGeneration s p.offset p.offset g
    rw [if_pos rfl] at hgen
    have hshape := Segment.sameShape_setGeneration s p.offset g
    simp only [Segment.objectAt, Segment.inOldToNew, Segment.length?, hgen, hshape.kind,
      hshape.chunks, hshape.base, Segment.oldToNew_setGeneration, Segment.lengths_setGeneration]

/-- A length is stored for an object whose segment stores lengths. -/
theorem changed_withLength (hf : h.Formed) (hx : h.lookup p = some x)
    (hn : x.stored.isSome = true) (n : Nat) :
    Changed h p (some { x with stored := some n })
      (h.modifySegment p.segment (·.withLength p.offset n)) := by
  refine changed_modifySegment hf hx fun s hs ho => ⟨⟨Segment.sameShape_withLength s _ n,
    (hf.store.segment_wf _ s hs).withLength ho n⟩, rfl, rfl, fun o hne => ⟨rfl, Iff.rfl, ?_⟩, ?_⟩
  · rw [Segment.length?_withLength (hf.store.segment_wf _ s hs) (Segment.mem_allocated.mp ho).1,
      if_neg (Ne.symm hne)]
  · intro e
    have hlen := Segment.length?_withLength (hf.store.segment_wf _ s hs)
      (Segment.mem_allocated.mp ho).1 n p.offset
    rw [if_pos rfl] at hlen
    obtain ⟨lengths, hl⟩ : ∃ lengths, s.lengths = some lengths := by
      cases hl : s.lengths with
      | some lengths => exact ⟨lengths, rfl⟩
      | none =>
        rw [e, Segment.objectAt, Segment.length?, hl] at hn
        cases hn
    rw [hl, Option.map_some] at hlen
    rw [e, Segment.objectAt, hlen]
    rfl

/-- An object that has left generation zero joins the old-to-new set. -/
theorem changed_addOldToNew (hf : h.Formed) (hx : h.lookup p = some x)
    (hg : x.generation ≠ .zero) :
    Changed h p (some { x with remembered := true })
      (h.modifySegment p.segment (·.addOldToNew p.offset)) := by
  refine changed_modifySegment hf hx fun s hs ho => ⟨⟨Segment.sameShape_addOldToNew s _,
    (hf.store.segment_wf _ s hs).addOldToNew ?_⟩, rfl, rfl, fun o hne => ⟨rfl, ?_, rfl⟩, ?_⟩
  · obtain ⟨t, ht, _, rfl⟩ := lookup_eq_some.mp hx
    rw [hs] at ht
    cases ht
    exact hg
  · show o ∈ s.oldToNew.insert p.offset ↔ _
    rw [OffsetSet.mem_insert]
    exact ⟨fun hm => hm.resolve_left (Ne.symm hne), Or.inr⟩
  · rintro rfl
    have hm : (s.addOldToNew p.offset).inOldToNew p.offset = true :=
      OffsetSet.mem_insert.mpr (Or.inl rfl)
    simp only [Segment.objectAt, hm]
    rfl

/-- An object leaves the old-to-new set. -/
theorem changed_removeOldToNew (hf : h.Formed) (hx : h.lookup p = some x) :
    Changed h p (some { x with remembered := false })
      (h.modifySegment p.segment (·.removeOldToNew p.offset)) := by
  refine changed_modifySegment hf hx fun s hs ho => ⟨⟨Segment.sameShape_removeOldToNew s _,
    (hf.store.segment_wf _ s hs).removeOldToNew _⟩, rfl, rfl, fun o hne => ⟨rfl, ?_, rfl⟩, ?_⟩
  · show o ∈ s.oldToNew.erase p.offset ↔ _
    rw [OffsetSet.mem_erase]
    exact ⟨And.right, fun hm => ⟨Ne.symm hne, hm⟩⟩
  · rintro rfl
    have hm : (s.removeOldToNew p.offset).inOldToNew p.offset = false :=
      OffsetSet.contains_eq_false_iff.mpr fun hm => (OffsetSet.mem_erase.mp hm).1 rfl
    simp only [Segment.objectAt, hm]
    rfl

/-! ## The object's bytes are changed -/

/-- A change to memory that only the bytes of one object can tell. -/
theorem changed_setMemory (hf : h.Formed) (hx : h.lookup p = some x) {m : Memory}
    (hm : m.regions.size = h.store.memory.regions.size)
    (hread : ∀ a, ¬ x.Covers a → m.read a = h.store.memory.read a) :
    Changed h p (some { x with bytes := m.load x.address x.bytes.length }) (h.setMemory m) where
  setting := sameSetting_setMemory h m
  formed := hf.setMemory hm
  filed hq := hq.congr rfl rfl (fun i t ht => ⟨t, ht, rfl, rfl, rfl, rfl⟩) fun i s hs => ⟨s, hs⟩
  lookup q := by
    split
    · next e =>
      rw [← e, lookup_setMemory, hx]
      rfl
    · next e =>
      apply lookup_setMemory_of_read
      intro y hy a ha
      exact hread a (hf.disjoint_of_ne hy hx (Ne.symm e) a ha)

/-- Filling the bytes of an object. -/
theorem changed_fill {p : ObjRef} {x : Object} (hf : h.Formed)
    (hx : h.lookup p = some x) (b : UInt8) :
    Changed h p (some { x with bytes := List.replicate x.bytes.length b })
      (h.setMemory (h.store.memory.fill x.address x.bytes.length b)) := by
  have hlt := hf.region_lt_of_lookup hx
  rw [← Memory.load_fill hlt]
  refine changed_setMemory hf hx (Memory.size_fill _ _ _ _) fun a ha => ?_
  rw [Memory.read_fill _ _ _ _ _ hlt, if_neg]
  rintro ⟨hr, hlo, hhi⟩
  exact ha ⟨hr.symm, hlo, hhi⟩

end Heap

end SegmentedHeap
