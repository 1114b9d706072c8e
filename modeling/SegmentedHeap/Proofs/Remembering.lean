/-
SegmentedHeap.Proofs.Remembering — the old-to-new set is made anew.

Whether an object belongs to the old-to-new set is decided anew for its
members and for the objects that have come of age. Each decision changes
the set at one object and nothing else, so that none depends on another:
`Renewed` gives the whole in terms of the heap before.

* `YieldsYounger` — what membership is decided by.
* `reconsider_renewed` — one decision.
* `renewOldToNew_renewed` — all of them.
* `renewOldToNew_reckoned` — **the set that this leaves**.
-/
import SegmentedHeap.Heap.Sweep
import SegmentedHeap.Proofs.Change
import SegmentedHeap.Proofs.Marking

namespace SegmentedHeap

/-- The record without what is known of the old-to-new set. -/
def Object.forget (x : Object) : Object := { x with remembered := false }

namespace Heap

variable {σ : Type} {h h' : Heap} {tracer : Tracer σ} {p q : ObjRef}

/-- The object yields an object of a younger generation. -/
def YieldsYounger (h : Heap) (tracer : Tracer σ) (q : ObjRef) : Prop :=
  ∃ x, h.lookup q = some x ∧ ∃ r ∈ h.refsOf tracer q, ∃ y, h.lookup r = some y ∧
    y.generation < x.generation

/-! ## Heaps that differ in their old-to-new sets -/

theorem segment?_clearOldToNew (h : Heap) (i : SegmentIndex) :
    h.clearOldToNew.store.segment? i = (h.store.segment? i).map Segment.clearOldToNew :=
  segment?_mapSegments h _ i

theorem Formed.clearOldToNew (hf : h.Formed) : h.clearOldToNew.Formed :=
  hf.mapSegments Segment.sameShape_clearOldToNew fun _ hs => hs.clearOldToNew

theorem lookup_clearOldToNew (h : Heap) (q : ObjRef) :
    h.clearOldToNew.lookup q = (h.lookup q).map Object.forget := by
  rw [lookup, lookup, segment?_clearOldToNew]
  cases h.store.segment? q.segment with
  | none => rfl
  | some s =>
    show s.clearOldToNew.object? _ _ q.offset = Option.map _ (s.object? _ _ q.offset)
    by_cases ho : q.offset ∈ s.allocated
    · rw [Segment.object?_of_mem ho,
        Segment.object?_of_mem (show _ ∈ s.clearOldToNew.allocated from ho)]
      have hm : s.clearOldToNew.inOldToNew q.offset = false :=
        OffsetSet.contains_eq_false_iff.mpr (OffsetSet.not_mem_empty _)
      simp only [Option.map_some, Segment.objectAt, hm]
      rfl
    · rw [Segment.object?_of_not_mem ho,
        Segment.object?_of_not_mem (show ¬ _ ∈ s.clearOldToNew.allocated from ho)]
      rfl

/-- The two differ in their old-to-new sets only. -/
def SameButOldToNew (h h' : Heap) : Prop := h'.clearOldToNew = h.clearOldToNew

namespace SameButOldToNew

theorem lookup_map (hs : SameButOldToNew h h') (q : ObjRef) :
    (h'.lookup q).map Object.forget = (h.lookup q).map Object.forget := by
  rw [← lookup_clearOldToNew, ← lookup_clearOldToNew, hs]

theorem setting (hs : SameButOldToNew h h') : SameSetting h h' := setting_of_mapSegments hs

theorem kinds (hs : SameButOldToNew h h') : h'.kinds = h.kinds := hs.setting.kinds

theorem queues (hs : SameButOldToNew h h') : h'.queues = h.queues := queues_of_mapSegments hs

/-- The segments are the same but for the set. -/
theorem segment? (hs : SameButOldToNew h h') (i : SegmentIndex) :
    (h'.store.segment? i).map Segment.clearOldToNew =
      (h.store.segment? i).map Segment.clearOldToNew :=
  segment?_of_mapSegments hs i

/-- A record is the same but for the membership. -/
theorem lookup (hs : SameButOldToNew h h') {x : Object} (hx : h.lookup q = some x) :
    ∃ b, h'.lookup q = some { x with remembered := b } := by
  have e := hs.lookup_map q
  rw [hx, Option.map_some] at e
  obtain ⟨y, hy, e⟩ := Option.map_eq_some_iff.mp e
  refine ⟨y.remembered, hy.trans (congrArg some ?_)⟩
  cases y
  cases x
  simp only [Object.forget, Object.mk.injEq] at e ⊢
  simp only [e, and_self]

theorem symm (hs : SameButOldToNew h h') : SameButOldToNew h' h := Eq.symm hs

theorem lookup_none (hs : SameButOldToNew h h') (hx : h.lookup q = none) :
    h'.lookup q = none := by
  have e := hs.lookup_map q
  rw [hx] at e
  exact Option.map_eq_none_iff.mp e

/-- A view does not show the membership. -/
theorem refsOf (hs : SameButOldToNew h h') (hf : h.Formed) (hf' : h'.Formed) (q : ObjRef) :
    h'.refsOf tracer q = h.refsOf tracer q := by
  cases hx : h.lookup q with
  | none => rw [hf.refsOf_of_none hx, hf'.refsOf_of_none (hs.lookup_none hx)]
  | some x =>
    obtain ⟨b, hy⟩ := hs.lookup hx
    obtain ⟨spec, hspec⟩ := hf.spec_of_lookup hx
    rw [refsOf_of_lookup hf hx hspec, refsOf_of_lookup hf' hy (by rw [hs.kinds]; exact hspec)]
    rfl

theorem yieldsYounger (hs : SameButOldToNew h h') (hf : h.Formed) (hf' : h'.Formed) (q : ObjRef) :
    h'.YieldsYounger tracer q ↔ h.YieldsYounger tracer q := by
  have half : ∀ {h h' : Heap}, SameButOldToNew h h' → h.Formed → h'.Formed →
      h.YieldsYounger tracer q → h'.YieldsYounger tracer q := by
    intro h h' hs hf hf' hyields
    obtain ⟨x, hx, r, hr, y, hy, hlt⟩ := hyields
    obtain ⟨_, hx'⟩ := hs.lookup hx
    obtain ⟨_, hy'⟩ := hs.lookup hy
    refine ⟨_, hx', r, ?_, _, hy', hlt⟩
    rw [hs.refsOf hf hf']
    exact hr
  exact ⟨half hs.symm hf' hf, half hs hf hf'⟩

end SameButOldToNew

/-! ## One decision -/

/-- What deciding anew for these objects leaves of a heap. -/
structure Renewed (h : Heap) (tracer : Tracer σ) (considered : ObjRef → Prop) (h' : Heap) :
    Prop where
  same : SameButOldToNew h h'
  formed : h'.Formed
  decided : ∀ q x, considered q → h.lookup q = some x → ∃ b,
    h'.lookup q = some { x with remembered := b } ∧ (b = true ↔ h.YieldsYounger tracer q)
  other : ∀ q, ¬ considered q → h'.lookup q = h.lookup q

/-- An object that is younger than the bound. -/
theorem isYounger_iff (hf : h.Formed) {g : Generation} {r : ObjRef} :
    h.isYounger g r = true ↔ ∃ y, h.lookup r = some y ∧ y.generation < g := by
  cases hr : h.lookup r with
  | none =>
    rw [isYounger, hf.object?_of_none hr]
    exact ⟨nofun, nofun⟩
  | some y =>
    obtain ⟨spec, hspec⟩ := hf.spec_of_lookup hr
    obtain ⟨s, _, _, rfl, hobj⟩ := object?_of_lookup hf hr hspec
    rw [isYounger, hobj]
    simp only [decide_eq_true_eq, Option.some.injEq, exists_eq_left']
    exact Iff.rfl

theorem yieldsYounger_iff (hf : h.Formed) {x : Object} (hx : h.lookup q = some x) :
    h.YieldsYounger tracer q ↔ (h.refsOf tracer q).any (h.isYounger x.generation) = true := by
  rw [List.any_eq_true, YieldsYounger]
  simp only [isYounger_iff hf, hx, Option.some.injEq, exists_eq_left']

theorem sameButOldToNew_add (h : Heap) (i : SegmentIndex) (o : Offset) :
    SameButOldToNew h (h.modifySegment i (·.addOldToNew o)) :=
  mapSegments_modifySegment h i (f := (·.addOldToNew o)) fun _ => rfl

theorem sameButOldToNew_remove (h : Heap) (i : SegmentIndex) (o : Offset) :
    SameButOldToNew h (h.modifySegment i (·.removeOldToNew o)) :=
  mapSegments_modifySegment h i (f := (·.removeOldToNew o)) fun _ => rfl

/-- **One object is decided for.** -/
theorem reconsider_renewed (hf : h.Formed) (tracer : Tracer σ) (p : ObjRef) :
    Renewed h tracer (· = p) (reconsider tracer h p) := by
  unfold reconsider
  cases hx : h.lookup p with
  | none =>
    rw [hf.object?_of_none hx]
    refine ⟨rfl, hf, ?_, fun _ _ => rfl⟩
    rintro q x rfl hq
    rw [hx] at hq
    cases hq
  | some x =>
    obtain ⟨spec, hspec⟩ := hf.spec_of_lookup hx
    obtain ⟨s, _, _, hxs, hobj⟩ := object?_of_lookup hf hx hspec
    have hgen : s.generation p.offset = x.generation := by rw [hxs]; rfl
    simp only [hobj, hgen]
    -- the flag is set or cleared by the very condition it stands for
    by_cases hy : h.YieldsYounger tracer p
    · rw [if_pos ((yieldsYounger_iff hf hx).mp hy)]
      obtain ⟨x', hx', r, _, y, _, hlt⟩ := id hy
      rw [hx] at hx'
      cases hx'
      have hc := changed_addOldToNew hf hx fun e => by
        rw [e, Generation.lt_iff] at hlt
        exact Nat.not_lt_zero _ hlt
      refine ⟨sameButOldToNew_add h _ _, hc.formed, ?_, fun q hq => hc.lookup_other hq⟩
      rintro q z rfl hz
      rw [hx] at hz
      cases hz
      exact ⟨true, hc.lookup_self, fun _ => hy, fun _ => rfl⟩
    · rw [if_neg fun hn => hy ((yieldsYounger_iff hf hx).mpr hn)]
      have hc := changed_removeOldToNew hf hx
      refine ⟨sameButOldToNew_remove h _ _, hc.formed, ?_, fun q hq => hc.lookup_other hq⟩
      rintro q z rfl hz
      rw [hx] at hz
      cases hz
      exact ⟨false, hc.lookup_self, nofun, fun hn => absurd hn hy⟩

/-! ## A row of decisions -/

theorem Renewed.trans {l : List ObjRef} {h₁ h₂ : Heap} (hf : h.Formed)
    (ha : Renewed h tracer (· = p) h₁) (hb : Renewed h₁ tracer (· ∈ l) h₂) :
    Renewed h tracer (· ∈ p :: l) h₂ := by
  have hyields : ∀ q, h₁.YieldsYounger tracer q ↔ h.YieldsYounger tracer q :=
    ha.same.yieldsYounger hf ha.formed
  refine ⟨Eq.trans hb.same ha.same, hb.formed, fun q x hq hx => ?_, fun q hq => ?_⟩
  · by_cases hl : q ∈ l
    · obtain ⟨_, hx'⟩ := ha.same.lookup hx
      obtain ⟨b, hy, hb⟩ := hb.decided q _ hl hx'
      exact ⟨b, hy, hb.trans (hyields q)⟩
    · rw [hb.other q hl]
      exact ha.decided q x ((List.mem_cons.mp hq).resolve_right hl) hx
  · rw [hb.other q fun hm => hq (List.mem_cons_of_mem p hm),
      ha.other q fun e => hq (e ▸ List.mem_cons_self)]

theorem foldl_renewed (hf : h.Formed) (tracer : Tracer σ) (l : List ObjRef) :
    Renewed h tracer (· ∈ l) (l.foldl (reconsider tracer) h) := by
  induction l generalizing h with
  | nil => exact ⟨rfl, hf, nofun, fun _ _ => rfl⟩
  | cons p l ih =>
    have hone := reconsider_renewed hf tracer p
    exact hone.trans hf (ih hone.formed)

/-! ## The whole set -/

/-- The list of members holds the members. -/
theorem mem_oldToNew (hf : h.Formed) :
    q ∈ h.oldToNew ↔ ∃ x, h.lookup q = some x ∧ x.remembered = true := by
  simp only [oldToNew, List.mem_flatMap, Prod.exists, Store.mem_entries, List.mem_map,
    OffsetSet.mem_members]
  constructor
  · rintro ⟨i, s, hs, o, ho, rfl⟩
    have hi := Nat.le_of_lt (hf.store.index_lt hs)
    refine ⟨s.objectAt h.store.memory h.store.chunkBytes o, ?_, ho⟩
    rw [lookup_eq_some, ObjRef.segment_ofSlot hi, ObjRef.offset_ofSlot hi]
    exact ⟨s, hs, (hf.store.segment_wf i s hs).oldToNew_allocated o ho, rfl⟩
  · rintro ⟨x, hx, hr⟩
    obtain ⟨s, hs, _, rfl⟩ := lookup_eq_some.mp hx
    exact ⟨q.segment, s, hs, q.offset, hr, ObjRef.ofSlot_segment_offset q⟩

/-- Below level two the members and those come of age are decided for. -/
theorem renewOldToNew_renewed (hf : h.Formed) (tracer : Tracer σ) {level : Generation}
    (hl : level ≠ .two) (aged : List ObjRef) :
    Renewed h tracer (fun q => (∃ x, h.lookup q = some x ∧ x.remembered = true) ∨ q ∈ aged)
      (h.renewOldToNew tracer level aged) := by
  rw [renewOldToNew, if_neg hl]
  have hall := foldl_renewed hf tracer (h.oldToNew ++ aged)
  have hmem : ∀ q, q ∈ h.oldToNew ++ aged ↔
      (∃ x, h.lookup q = some x ∧ x.remembered = true) ∨ q ∈ aged := fun q => by
    rw [List.mem_append, mem_oldToNew hf]
  exact ⟨hall.same, hall.formed, fun q x hq hx => hall.decided q x ((hmem q).mpr hq) hx,
    fun q hq => hall.other q fun hm => hq ((hmem q).mp hm)⟩

/-- At level two the set is emptied. -/
theorem renewOldToNew_two (h : Heap) (tracer : Tracer σ) (aged : List ObjRef) :
    h.renewOldToNew tracer .two aged = h.clearOldToNew := by
  rw [renewOldToNew, if_pos rfl]

/-- What making the old-to-new set anew leaves of a heap. -/
structure Reckoned (h : Heap) (tracer : Tracer σ) (level : Generation) (aged : List ObjRef)
    (h' : Heap) : Prop where
  same : SameButOldToNew h h'
  formed : h'.Formed
  remembered : ∀ q x, h.lookup q = some x → ∃ b,
    h'.lookup q = some { x with remembered := b } ∧
      (b = true ↔ level ≠ .two ∧ (x.remembered = true ∨ q ∈ aged) ∧ h.YieldsYounger tracer q)

/-- **The set made anew** holds those that yield a younger object among
its members and the objects come of age, and at level two nothing. -/
theorem renewOldToNew_reckoned (hf : h.Formed) (tracer : Tracer σ) (level : Generation)
    (aged : List ObjRef) : Reckoned h tracer level aged (h.renewOldToNew tracer level aged) := by
  by_cases hl : level = .two
  · rw [hl, renewOldToNew_two]
    refine ⟨mapSegments_mapSegments h fun _ => rfl, hf.clearOldToNew, fun q x hx => ⟨false, ?_, ?_⟩⟩
    · rw [lookup_clearOldToNew, hx]
      rfl
    · exact ⟨nofun, fun hn => absurd rfl hn.1⟩
  · have hr := renewOldToNew_renewed hf tracer hl aged
    refine ⟨hr.same, hr.formed, fun q x hx => ?_⟩
    by_cases hc : x.remembered = true ∨ q ∈ aged
    · obtain ⟨b, hy, hb⟩ := hr.decided q x (hc.imp_left fun hm => ⟨x, hx, hm⟩) hx
      exact ⟨b, hy, hb.trans ⟨fun hyields => ⟨hl, hc, hyields⟩, fun hn => hn.2.2⟩⟩
    · have hm : x.remembered = false := Bool.eq_false_iff.mpr fun hm => hc (Or.inl hm)
      refine ⟨false, ?_, nofun, fun hn => absurd hn.2.1 hc⟩
      rw [hr.other q, hx, ← hm]
      intro hn
      refine hc (hn.imp_left fun ⟨x', hx', hm'⟩ => ?_)
      rw [hx] at hx'
      cases hx'
      exact hm'

/-! ## What the set should hold -/

/-- An allocated object that yields an allocated one of a younger
generation. -/
def HoldsYounger (h : Heap) (tracer : Tracer σ) (p : ObjRef) : Prop :=
  h.isAllocated p = true ∧ ∃ q ∈ h.refsOf tracer p, h.isAllocated q = true ∧
    ∃ g g', h.generationOf p = .ok g ∧ h.generationOf q = .ok g' ∧ g' < g

/-- The old-to-new set holds every object that yields a younger one. -/
def BarrierComplete (h : Heap) (tracer : Tracer σ) : Prop :=
  ∀ p, h.HoldsYounger tracer p → h.inOldToNew p = .ok true

/-- The old-to-new set holds those objects and no others. -/
def BarrierExact (h : Heap) (tracer : Tracer σ) : Prop :=
  ∀ p, h.inOldToNew p = .ok true ↔ h.HoldsYounger tracer p

theorem BarrierExact.complete (he : h.BarrierExact tracer) : h.BarrierComplete tracer :=
  fun p => (he p).mpr

theorem Formed.holdsYounger_iff (hf : h.Formed) :
    h.HoldsYounger tracer p ↔ h.YieldsYounger tracer p := by
  rw [HoldsYounger, hf.isAllocated_iff_lookup]
  constructor
  · intro hp
    obtain ⟨⟨x, hx⟩, q, hq, ha, g, g', hg, hg', hlt⟩ := hp
    obtain ⟨y, hy⟩ := hf.isAllocated_iff_lookup.mp ha
    rw [generationOf_of_lookup hx] at hg
    rw [generationOf_of_lookup hy] at hg'
    cases hg
    cases hg'
    exact ⟨x, hx, q, hq, y, hy, hlt⟩
  · intro hp
    obtain ⟨x, hx, q, hq, y, hy, hlt⟩ := hp
    exact ⟨⟨x, hx⟩, q, hq, hf.isAllocated_iff_lookup.mpr ⟨y, hy⟩, _, _,
      generationOf_of_lookup hx, generationOf_of_lookup hy, hlt⟩

/-- Only an allocated object is a member. -/
theorem Formed.inOldToNew_iff (hf : h.Formed) :
    h.inOldToNew p = .ok true ↔ ∃ x, h.lookup p = some x ∧ x.remembered = true := by
  constructor
  · intro hp
    cases hs : h.store.segment? p.segment with
    | none =>
      rw [inOldToNew, segment, Store.segment, hs] at hp
      cases hp
    | some s =>
      rw [inOldToNew, segment, Store.segment, hs] at hp
      have hm : s.inOldToNew p.offset = true := Except.ok.inj hp
      have ho := (hf.store.segment_wf _ s hs).oldToNew_allocated _ (Segment.inOldToNew_iff.mp hm)
      exact ⟨_, lookup_eq_some.mpr ⟨s, hs, ho, rfl⟩, hm⟩
  · intro hp
    obtain ⟨x, hx, hr⟩ := hp
    rw [inOldToNew_of_lookup hx, hr]

theorem Formed.barrierComplete_iff (hf : h.Formed) :
    h.BarrierComplete tracer ↔ ∀ p x, h.lookup p = some x → h.YieldsYounger tracer p →
      x.remembered = true := by
  constructor
  · intro hb p x hx hy
    obtain ⟨x', hx', hr⟩ := hf.inOldToNew_iff.mp (hb p (hf.holdsYounger_iff.mpr hy))
    rw [hx] at hx'
    cases hx'
    exact hr
  · intro hb p hp
    have hy := hf.holdsYounger_iff.mp hp
    obtain ⟨x, hx, _⟩ := id hy
    exact hf.inOldToNew_iff.mpr ⟨x, hx, hb p x hx hy⟩

end Heap

end SegmentedHeap
