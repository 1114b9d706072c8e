/-
SegmentedHeap.Proofs.Marking — marking finds exactly what is kept.

What a collection at a level keeps is a least set: the eligible objects
that a root, a remembered object or a kept object yields. An object is
eligible if it is never collected or of a generation in scope.

Marking is followed by the row of references that it has visited. The
invariant `Holds` says that the marked objects are the eligible ones in
that row, each once, and that the stray reference is the first in it that
names nothing. Draining scans each marked object, so that in the end the
row holds the roots, what the remembered objects yield, and what the
marked ones yield. The fuel is enough since a row without repetitions is
not longer than there are slots.

* `Kept`, `Met` — the least set, and the references that lead to it.
* `Holds.visitAll` — the step.
* `mark_holds` — the whole of marking.
* `mem_reached_iff_kept` — **the marked objects are the kept ones**.
-/
import SegmentedHeap.Heap.Mark
import SegmentedHeap.Proofs.Invariant

namespace SegmentedHeap

namespace Heap

/-! ## What a collection keeps -/

/-- An object that a collection at a level marks when it reaches it. -/
def Eligible (h : Heap) (level : Generation) (p : ObjRef) : Prop :=
  ∃ x spec, h.lookup p = some x ∧ h.kinds.get? x.kind = some spec ∧
    (spec.uncollected = true ∨ x.generation ≤ level)

/-- A member of the old-to-new set that is out of scope. -/
def IsRemembered (h : Heap) (level : Generation) (p : ObjRef) : Prop :=
  level ≠ .two ∧ ∃ x, h.lookup p = some x ∧ x.remembered = true ∧ ¬ x.generation ≤ level

/-- The least set that a collection at a level has to keep. -/
inductive Kept {σ : Type} (h : Heap) (tracer : Tracer σ) (level : Generation) : ObjRef → Prop where
  | root {p : ObjRef} : p ∈ tracer.roots → h.Eligible level p → Kept h tracer level p
  | remembered {p q : ObjRef} : h.IsRemembered level q → p ∈ h.refsOf tracer q →
      h.Eligible level p → Kept h tracer level p
  | step {p q : ObjRef} : Kept h tracer level q → p ∈ h.refsOf tracer q →
      h.Eligible level p → Kept h tracer level p

/-- A reference that marking has to look at. -/
def Met {σ : Type} (h : Heap) (tracer : Tracer σ) (level : Generation) (p : ObjRef) : Prop :=
  p ∈ tracer.roots ∨ (∃ q, h.IsRemembered level q ∧ p ∈ h.refsOf tracer q) ∨
    ∃ q, h.Kept tracer level q ∧ p ∈ h.refsOf tracer q

section Kept

variable {σ : Type} {h : Heap} {tracer : Tracer σ} {level : Generation} {p : ObjRef}

theorem Kept.eligible (hk : h.Kept tracer level p) : h.Eligible level p := by
  cases hk with
  | root _ he => exact he
  | remembered _ _ he => exact he
  | step _ _ he => exact he

theorem kept_iff_met : h.Kept tracer level p ↔ h.Met tracer level p ∧ h.Eligible level p := by
  constructor
  · intro hk
    refine ⟨?_, hk.eligible⟩
    cases hk with
    | root hr _ => exact Or.inl hr
    | remembered hq hp _ => exact Or.inr (Or.inl ⟨_, hq, hp⟩)
    | step hq hp _ => exact Or.inr (Or.inr ⟨_, hq, hp⟩)
  · rintro ⟨hr | ⟨q, hq, hp⟩ | ⟨q, hq, hp⟩, he⟩
    · exact .root hr he
    · exact .remembered hq hp he
    · exact .step hq hp he

end Kept

/-- Whether the reference names an object that a collection may free. -/
def collectable (h : Heap) (p : ObjRef) : Bool :=
  ((h.lookup p).bind fun x => h.kinds.get? x.kind).any (!·.uncollected)

/-- Whether the reference names nothing though it is not null. -/
def isStray (h : Heap) (p : ObjRef) : Bool := !p.isNull && (h.lookup p).isNone

/-- Whether the slot that the reference names is marked. -/
def IsMarked (h : Heap) (p : ObjRef) : Prop :=
  ∃ s, h.store.segment? p.segment = some s ∧ p.offset ∈ s.marked

/-! ## Heaps that differ in their marks -/

section Marks

variable {h h' : Heap}

theorem segment?_clearMarks (h : Heap) (i : SegmentIndex) :
    h.clearMarks.store.segment? i = (h.store.segment? i).map Segment.clearMarks :=
  segment?_mapSegments h _ i

/-- Marks cannot be told from an object. -/
theorem lookup_clearMarks (h : Heap) : h.clearMarks.lookup = h.lookup := by
  funext p
  rw [lookup, lookup, segment?_clearMarks]
  cases h.store.segment? p.segment with
  | none => rfl
  | some s =>
    exact Segment.object?_congr (Segment.sameShape_clearMarks s) Iff.rfl rfl Iff.rfl rfl _ _

theorem Formed.clearMarks (hf : h.Formed) : h.clearMarks.Formed :=
  hf.mapSegments Segment.sameShape_clearMarks fun _ hs => hs.clearMarks

theorem lookup_of_sameMarks (he : h'.clearMarks = h.clearMarks) : h'.lookup = h.lookup := by
  rw [← lookup_clearMarks h', he, lookup_clearMarks]

theorem kinds_of_sameMarks (he : h'.clearMarks = h.clearMarks) : h'.kinds = h.kinds := by
  show h'.clearMarks.kinds = h.clearMarks.kinds
  rw [he]

/-- What an object yields is a matter of its record. -/
theorem refsOf_congr {σ : Type} {tracer : Tracer σ} {p : ObjRef} (hf : h.Formed) (hf' : h'.Formed)
    (hk : h'.kinds = h.kinds) (hl : h'.lookup p = h.lookup p) :
    h'.refsOf tracer p = h.refsOf tracer p := by
  cases hx : h.lookup p with
  | none =>
    rw [hf.refsOf_of_none hx, hf'.refsOf_of_none (hl.trans hx)]
  | some x =>
    obtain ⟨spec, hspec⟩ := hf.spec_of_lookup hx
    rw [refsOf_of_lookup hf hx hspec, refsOf_of_lookup hf' (hl.trans hx) (hk ▸ hspec)]

end Marks

/-- Each object has a slot of the table to itself. -/
theorem length_le_slotCount {h : Heap} {objs : List ObjRef} (hn : objs.Nodup)
    (hx : ∀ p ∈ objs, ∃ x, h.lookup p = some x) : objs.length ≤ h.slotCount := by
  have hle : (objs.map fun p => p.raw.toNat).length ≤ (List.range h.slotCount).length := by
    apply List.Nodup.length_le_of_subset
    · refine List.Pairwise.map _ (fun p q hne e => hne ?_) hn
      exact ObjRef.ext_raw (UInt32.toNat_inj.mp e)
    · intro n hn
      obtain ⟨p, hp, rfl⟩ := List.mem_map.mp hn
      obtain ⟨x, hx⟩ := hx p hp
      obtain ⟨s, hs, _⟩ := lookup_eq_some.mp hx
      have hlt : p.raw.toNat / 64 < h.store.segments.size := Store.lt_size_of_segment? hs
      rw [List.mem_range, slotCount]
      omega
  rw [List.length_map, List.length_range] at hle
  exact hle

/-! ## Remembered objects -/

/-- The list that marking scans holds the remembered objects. -/
theorem mem_remembered {h : Heap} (hf : h.Formed) {level : Generation} (hne : level ≠ .two)
    {p : ObjRef} : p ∈ h.remembered level ↔ h.IsRemembered level p := by
  simp only [remembered, List.mem_flatMap, Prod.exists, Store.mem_entries, List.mem_map,
    OffsetSet.mem_members, OffsetSet.mem_sdiff, Segment.mem_inScope]
  constructor
  · rintro ⟨i, s, hs, o, ⟨ho, hscope⟩, rfl⟩
    have hi := Nat.le_of_lt (hf.store.index_lt hs)
    have ha := (hf.store.segment_wf i s hs).oldToNew_allocated o ho
    refine ⟨hne, s.objectAt h.store.memory h.store.chunkBytes o, ?_, ho, fun hg =>
      hscope ⟨ha, hg⟩⟩
    rw [lookup_eq_some, ObjRef.segment_ofSlot hi, ObjRef.offset_ofSlot hi]
    exact ⟨s, hs, ha, rfl⟩
  · rintro ⟨_, x, hx, hr, hg⟩
    obtain ⟨s, hs, ho, rfl⟩ := lookup_eq_some.mp hx
    exact ⟨p.segment, s, hs, p.offset, ⟨hr, fun hn => hg hn.2⟩, ObjRef.ofSlot_segment_offset p⟩

end Heap

/-! ## The invariant of marking -/

namespace Marking

/-- What marking knows after it has visited a row of references. -/
structure Holds (h : Heap) (level : Generation) (visited : List ObjRef) (m : Marking) : Prop where
  same : m.heap.clearMarks = h.clearMarks
  formed : m.heap.Formed
  marks : ∀ p, m.heap.IsMarked p ↔ p ∈ m.reached.toList
  reached : ∀ p, p ∈ m.reached.toList ↔ p ∈ visited ∧ h.Eligible level p
  nodup : m.reached.toList.Nodup
  counted : m.counted = (m.reached.toList.filter h.collectable).length
  stray : m.stray = visited.find? h.isStray

section Visit

variable {h : Heap} {level : Generation} {visited : List ObjRef} {m : Marking} {p q : ObjRef}

theorem Holds.lookup (hm : Holds h level visited m) : m.heap.lookup = h.lookup :=
  Heap.lookup_of_sameMarks hm.same

theorem Holds.kinds (hm : Holds h level visited m) : m.heap.kinds = h.kinds :=
  Heap.kinds_of_sameMarks hm.same

/-- The reference visited last is no more to be reached, or is not new. -/
theorem Holds.reached_append (hm : Holds h level visited m)
    (hnot : ¬ h.Eligible level p ∨ p ∈ m.reached.toList) (q : ObjRef) :
    q ∈ m.reached.toList ↔ q ∈ visited ++ [p] ∧ h.Eligible level q := by
  rw [hm.reached, List.mem_append, List.mem_singleton]
  constructor
  · rintro ⟨hv, he⟩
    exact ⟨Or.inl hv, he⟩
  · rintro ⟨hv | rfl, he⟩
    · exact ⟨hv, he⟩
    · rcases hnot with hn | hr
      · exact absurd he hn
      · exact (hm.reached q).mp hr

/-- A reference that changes nothing but the row of those visited. -/
theorem Holds.skip (hm : Holds h level visited m)
    (hnot : ¬ h.Eligible level p ∨ p ∈ m.reached.toList)
    (hstray : h.isStray p = false) : Holds h level (visited ++ [p]) m := { hm with
  reached := hm.reached_append hnot
  stray := by
    rw [hm.stray, List.find?_append, List.find?_singleton, hstray, if_neg Bool.false_ne_true,
      Option.or_none] }

/-- The mark of a slot is set, and no other. -/
theorem isMarked_mark {h : Heap} {s : Segment} (hs : h.store.segment? p.segment = some s)
    (q : ObjRef) :
    (h.modifySegment p.segment (·.mark p.offset)).IsMarked q ↔ p = q ∨ h.IsMarked q := by
  simp only [Heap.IsMarked, Heap.segment?_modifySegment]
  by_cases e : p.segment = q.segment
  · rw [if_pos e, ← e, hs]
    constructor
    · rintro ⟨t, ht, hq⟩
      cases ht
      rcases OffsetSet.mem_insert.mp hq with ho | hq
      · exact Or.inl (ObjRef.eq_iff.mpr ⟨e, ho⟩)
      · exact Or.inr ⟨s, rfl, hq⟩
    · rintro (rfl | ⟨t, ht, hq⟩)
      · exact ⟨_, rfl, OffsetSet.mem_insert.mpr (Or.inl rfl)⟩
      · cases ht
        exact ⟨_, rfl, OffsetSet.mem_insert.mpr (Or.inr hq)⟩
  · rw [if_neg e]
    constructor
    · exact Or.inr
    · rintro (rfl | hq)
      · exact absurd rfl e
      · exact hq

/-- A reference to an eligible object that is not marked yet. -/
theorem Holds.push (hm : Holds h level visited m) (he : h.Eligible level p)
    (hnew : ¬ p ∈ m.reached.toList) (hstray : h.isStray p = false) (n : Nat)
    (hn : n = if h.collectable p then m.counted + 1 else m.counted) :
    Holds h level (visited ++ [p])
      { m with
        heap := m.heap.modifySegment p.segment (·.mark p.offset)
        reached := m.reached.push p
        counted := n } := by
  have ⟨x, _, hx, _⟩ := he
  rw [← hm.lookup] at hx
  obtain ⟨s, hs, ho, _⟩ := Heap.lookup_eq_some.mp hx
  refine {
    same := (Heap.mapSegments_modifySegment m.heap _ (f := (·.mark p.offset))
      fun _ => rfl).trans hm.same
    formed := hm.formed.modifySegment fun t ht => ?_
    marks := fun q => ?_
    reached := fun q => ?_
    nodup := ?_
    counted := ?_
    stray := ?_ }
  · rw [hs] at ht
    cases ht
    exact ⟨Segment.sameShape_mark s _, (hm.formed.store.segment_wf _ s hs).mark ho⟩
  -- the marks and the row grow by the same object
  · rw [isMarked_mark hs, hm.marks, Array.toList_push, List.mem_append, List.mem_singleton]
    exact ⟨fun hq => hq.elim (fun e => Or.inr e.symm) Or.inl,
      fun hq => hq.elim Or.inr fun e => Or.inl e.symm⟩
  · rw [Array.toList_push, List.mem_append, List.mem_append, List.mem_singleton, hm.reached]
    constructor
    · rintro (⟨hv, hq⟩ | rfl)
      · exact ⟨Or.inl hv, hq⟩
      · exact ⟨Or.inr rfl, he⟩
    · rintro ⟨hv | rfl, hq⟩
      · exact Or.inl ⟨hv, hq⟩
      · exact Or.inr rfl
  · rw [Array.toList_push, List.nodup_append]
    refine ⟨hm.nodup, List.pairwise_singleton _ p, fun a ha b hb e => hnew ?_⟩
    rw [← List.mem_singleton.mp hb, ← e]
    exact ha
  · rw [Array.toList_push, List.filter_append, List.length_append, ← hm.counted, hn]
    cases hc : h.collectable p with
    | true => simp [hc]
    | false => simp [hc]
  · show m.stray = _
    rw [hm.stray, List.find?_append, List.find?_singleton, hstray, if_neg Bool.false_ne_true,
      Option.or_none]

/-- A reference that names nothing is stray, unless it is null. -/
theorem Holds.miss (hm : Holds h level visited m) (hnone : h.lookup p = none)
    (hnull : p ≠ .null) :
    Holds h level (visited ++ [p]) { m with stray := m.stray <|> some p } := by
  have hstray : h.isStray p = true := by
    rw [Heap.isStray, hnone, Bool.eq_false_iff.mpr fun hn => hnull (ObjRef.isNull_iff.mp hn)]
    rfl
  have hnot : ¬ h.Eligible level p := by
    intro he
    obtain ⟨x, _, hx, _⟩ := he
    rw [hnone] at hx
    cases hx
  refine { hm with
    reached := hm.reached_append (Or.inl hnot)
    stray := ?_ }
  show (m.stray <|> some p) = _
  rw [hm.stray, List.find?_append, List.find?_singleton, hstray, if_pos rfl]
  cases visited.find? h.isStray <;> rfl

/-- The check that a visit makes: the object is in scope, and not reached
yet. -/
theorem Holds.eligible_iff (hm : Holds h level visited m) {s : Segment} {x : Object} {spec : Kind}
    (hs : m.heap.store.segment? p.segment = some s) (hx : h.lookup p = some x)
    (hspec : h.kinds.get? x.kind = some spec) (hg : x.generation = s.generation p.offset) :
    eligible level s spec p.offset = true ↔
      h.Eligible level p ∧ ¬ p ∈ m.reached.toList := by
  have hmark : s.isMarked p.offset = true ↔ p ∈ m.reached.toList := by
    rw [← hm.marks, Segment.isMarked_iff]
    refine ⟨fun hmk => ⟨s, hs, hmk⟩, ?_⟩
    rintro ⟨t, ht, hmk⟩
    rw [hs] at ht
    cases ht
    exact hmk
  have helig : h.Eligible level p ↔
      spec.uncollected = true ∨ s.generation p.offset ≤ level := by
    rw [← hg]
    refine ⟨?_, fun he => ⟨_, spec, hx, hspec, he⟩⟩
    rintro ⟨y, spec', hy, hspec', he⟩
    rw [hx] at hy
    cases hy
    rw [hspec] at hspec'
    cases hspec'
    exact he
  rw [helig, ← hmark]
  simp only [eligible, Bool.and_eq_true, Bool.or_eq_true, decide_eq_true_eq, Bool.not_eq_true',
    Bool.not_eq_true]

/-- **One visit keeps the invariant**: the row of references visited is
longer by one. -/
theorem Holds.visit (hf : h.Formed) (hm : Holds h level visited m) (p : ObjRef) :
    Holds h level (visited ++ [p]) (m.visit level p) := by
  unfold Marking.visit
  by_cases hnull : p = .null
  · rw [if_pos (ObjRef.isNull_iff.mpr hnull)]
    refine hm.skip (Or.inl ?_) ?_
    · rintro ⟨x, _, hx, _⟩
      exact hf.ne_null_of_lookup hx hnull
    · rw [Heap.isStray, ObjRef.isNull_iff.mpr hnull]
      rfl
  · rw [if_neg fun hn => hnull (ObjRef.isNull_iff.mp hn)]
    cases hx : h.lookup p with
    | none =>
      rw [hm.formed.object?_of_none (by rw [hm.lookup]; exact hx)]
      exact hm.miss hx hnull
    | some x =>
      have hx' : m.heap.lookup p = some x := by rw [hm.lookup]; exact hx
      obtain ⟨spec, hspec⟩ := hf.spec_of_lookup hx
      obtain ⟨s, hs, ho, rfl, hobj⟩ :=
        Heap.object?_of_lookup hm.formed hx' (by rw [hm.kinds]; exact hspec)
      have hstray : h.isStray p = false := by
        rw [Heap.isStray, hx, Option.isNone_some, Bool.and_false]
      have hcollect : h.collectable p = !spec.uncollected := by
        rw [Heap.collectable, hx, Option.bind_some, hspec]
        rfl
      -- the test is whether it is eligible in the heap as it was, and not marked yet
      have hiff := hm.eligible_iff hs hx hspec rfl
      simp only [hobj]
      by_cases hc : eligible level s spec p.offset = true
      · rw [if_pos hc]
        obtain ⟨he, hnew⟩ := hiff.mp hc
        refine hm.push he hnew hstray _ ?_
        rw [hcollect]
        cases spec.uncollected <;> rfl
      · rw [if_neg hc]
        refine hm.skip ?_ hstray
        by_cases he : h.Eligible level p
        · exact Or.inr (Classical.byContradiction fun hn => hc (hiff.mpr ⟨he, hn⟩))
        · exact Or.inl he

theorem Holds.visitAll (hf : h.Formed) (hm : Holds h level visited m) (objs : List ObjRef) :
    Holds h level (visited ++ objs) (m.visitAll level objs) := by
  induction objs generalizing m visited with
  | nil =>
    rw [List.append_nil]
    exact hm
  | cons p objs ih =>
    have := ih (hm.visit hf p)
    rw [List.append_assoc, List.singleton_append] at this
    exact this

/-- Visits only add to the row of marked objects. -/
theorem reached_visit (level : Generation) (m : Marking) (p : ObjRef) :
    ∃ new, (m.visit level p).reached.toList = m.reached.toList ++ new := by
  unfold Marking.visit
  split
  · exact ⟨[], (List.append_nil _).symm⟩
  · split
    · exact ⟨[], (List.append_nil _).symm⟩
    · split
      · exact ⟨[p], Array.toList_push⟩
      · exact ⟨[], (List.append_nil _).symm⟩

theorem reached_visitAll (level : Generation) (m : Marking) (objs : List ObjRef) :
    ∃ new, (m.visitAll level objs).reached.toList = m.reached.toList ++ new := by
  induction objs generalizing m with
  | nil => exact ⟨[], (List.append_nil _).symm⟩
  | cons p objs ih =>
    obtain ⟨new, hnew⟩ := reached_visit level m p
    obtain ⟨more, hmore⟩ := ih (m.visit level p)
    refine ⟨new ++ more, ?_⟩
    rw [← List.append_assoc, ← hnew]
    exact hmore

/-- The object at a position stays there, whatever is visited next. -/
theorem take_reached_visitAll {next : Nat} (hp : m.reached[next]? = some p) (objs : List ObjRef) :
    (m.visitAll level objs).reached.toList.take (next + 1) =
      m.reached.toList.take next ++ [p] := by
  obtain ⟨hlt, hobj⟩ := Array.getElem?_eq_some_iff.mp hp
  obtain ⟨new, hnew⟩ := reached_visitAll level m objs
  have hlt' : next < m.reached.toList.length := hlt
  rw [hnew, List.take_append_of_le_length hlt', List.take_succ_eq_append_getElem hlt',
    Array.getElem_toList, hobj]

end Visit

/-! ## Draining -/

section Drain

variable {σ : Type} {h : Heap} {tracer : Tracer σ} {level : Generation} {visited : List ObjRef}
  {m : Marking}

/-- What an object yields does not change while objects are marked. -/
theorem Holds.refsOf (hf : h.Formed) (hm : Holds h level visited m) (p : ObjRef) :
    m.heap.refsOf tracer p = h.refsOf tracer p :=
  Heap.refsOf_congr hf hm.formed hm.kinds (congrFun hm.lookup p)

theorem Holds.scan (hf : h.Formed) (hm : Holds h level visited m) (p : ObjRef) :
    Holds h level (visited ++ h.refsOf tracer p) (m.scan tracer level p) := by
  unfold Marking.scan
  rw [hm.refsOf hf]
  exact hm.visitAll hf _

theorem Holds.scanAll (hf : h.Formed) (hm : Holds h level visited m) (objs : List ObjRef) :
    Holds h level (visited ++ objs.flatMap (h.refsOf tracer))
      (objs.foldl (Marking.scan tracer level) m) := by
  induction objs generalizing m visited with
  | nil =>
    rw [List.flatMap_nil, List.append_nil]
    exact hm
  | cons p objs ih =>
    have hscan : Holds h level (visited ++ h.refsOf tracer p) (m.scan tracer level p) :=
      hm.scan hf p
    have hall := ih hscan
    rw [List.append_assoc] at hall
    rw [List.flatMap_cons]
    exact hall

/-- There are no more marked objects than slots. -/
theorem Holds.size_le (hm : Holds h level visited m) :
    m.reached.size ≤ h.slotCount := by
  rw [← Array.length_toList]
  refine Heap.length_le_slotCount hm.nodup fun p hp => ?_
  obtain ⟨x, _, hx, _⟩ := ((hm.reached p).mp hp).2
  exact ⟨x, hx⟩

/-- What was visited leads to kept objects only, as soon as it was met. -/
theorem Holds.kept (hm : Holds h level visited m) (hmet : ∀ p ∈ visited, h.Met tracer level p)
    {p : ObjRef} (hp : p ∈ m.reached.toList) : h.Kept tracer level p := by
  obtain ⟨hv, he⟩ := (hm.reached p).mp hp
  exact Heap.kept_iff_met.mpr ⟨hmet p hv, he⟩

theorem met_of_kept {objs : List ObjRef} (hk : ∀ p ∈ objs, h.Kept tracer level p) :
    ∀ p ∈ objs.flatMap (h.refsOf tracer), h.Met tracer level p := by
  intro p hp
  obtain ⟨q, hq, hr⟩ := List.mem_flatMap.mp hp
  exact Or.inr (Or.inr ⟨q, hk q hq, hr⟩)

/-- **Draining scans every marked object.** `start` is what was visited
before; from there on the row holds what the marked objects yield, in the
order in which they were marked. -/
theorem drain_holds (hf : h.Formed) {start : List ObjRef}
    (hstart : ∀ p ∈ start, h.Met tracer level p) (passes next : Nat)
    (hpasses : h.slotCount < passes + next)
    (hkept : ∀ p ∈ m.reached.toList, h.Kept tracer level p)
    (hm : Holds h level (start ++ (m.reached.toList.take next).flatMap (h.refsOf tracer)) m) :
    (∀ p ∈ (m.drain tracer level passes next).reached.toList, h.Kept tracer level p) ∧
    Holds h level
      (start ++ (m.drain tracer level passes next).reached.toList.flatMap (h.refsOf tracer))
      (m.drain tracer level passes next) := by
  -- Induction on the passes left. What carries it: all that the first `next`
  -- objects yield was visited, and each object of the row is kept.
  induction passes generalizing m next with
  | zero =>
    -- there are fewer slots than scans, so the row was at its end
    have hsize := hm.size_le
    rw [List.take_of_length_le (by rw [Array.length_toList]; omega)] at hm
    exact ⟨hkept, hm⟩
  | succ passes ih =>
    unfold drain
    cases hnext : m.reached[next]? with
    | none =>
      have hle := Array.getElem?_eq_none_iff.mp hnext
      rw [List.take_of_length_le (by rw [Array.length_toList]; exact hle)] at hm
      exact ⟨hkept, hm⟩
    | some obj =>
      have htake : (m.scan tracer level obj).reached.toList.take (next + 1) =
          m.reached.toList.take next ++ [obj] := take_reached_visitAll hnext _
      have hscan : Holds h level _ (m.scan tracer level obj) := hm.scan hf obj
      rw [List.append_assoc, ← List.flatMap_singleton (h.refsOf tracer) obj,
        ← List.flatMap_append] at hscan
      -- what a scan adds was met from a kept object, since the one scanned is kept
      refine ih (next + 1) (by omega) (fun p hp => hscan.kept (fun q hq => ?_) hp) ?_
      · rcases List.mem_append.mp hq with hq | hq
        · exact hstart q hq
        · refine met_of_kept (fun r hr => hkept r ?_) q hq
          rcases List.mem_append.mp hr with hr | hr
          · exact List.mem_of_mem_take hr
          · rw [List.mem_singleton.mp hr]
            exact Array.mem_toList_iff.mpr (Array.mem_of_getElem? hnext)
      · rw [htake]
        exact hscan

end Drain

end Marking

/-! ## The whole of marking -/

namespace Heap

variable {σ : Type} {h : Heap}

theorem holds_start (hf : h.Formed) (level : Generation) :
    Marking.Holds h level [] { heap := h.clearMarks } where
  same := mapSegments_mapSegments h fun _ => rfl
  formed := hf.clearMarks
  marks p := by
    refine ⟨?_, nofun⟩
    rintro ⟨s, hs, hp⟩
    rw [segment?_clearMarks] at hs
    obtain ⟨t, _, rfl⟩ := Option.map_eq_some_iff.mp hs
    exact absurd hp (OffsetSet.not_mem_empty _)
  reached p := ⟨nofun, fun hp => nomatch hp.1⟩
  nodup := List.nodup_nil
  counted := rfl
  stray := rfl

/-- Marking before the loop: the roots have been visited, and what the
remembered objects yield. -/
def greyed (h : Heap) (tracer : Tracer σ) (level : Generation) : Marking :=
  let rooted := ({ heap := h.clearMarks } : Marking).visitAll level tracer.roots
  if level = .two then rooted
  else (rooted.heap.remembered level).foldl (Marking.scan tracer level) rooted

theorem mark_eq_drain (h : Heap) (tracer : Tracer σ) (level : Generation) :
    h.mark tracer level = (h.greyed tracer level).drain tracer level (h.slotCount + 1) 0 := by
  have hsize : h.clearMarks.store.segments.size = h.store.segments.size := Array.size_map
  unfold mark greyed slotCount
  simp only [hsize]

theorem greyed_holds (hf : h.Formed) (tracer : Tracer σ) (level : Generation) :
    ∃ old : List ObjRef, (∀ p, p ∈ old ↔ h.IsRemembered level p) ∧
      Marking.Holds h level (tracer.roots ++ old.flatMap (h.refsOf tracer))
        (h.greyed tracer level) := by
  have hroots := (holds_start hf level).visitAll hf tracer.roots
  rw [List.nil_append] at hroots
  unfold greyed
  generalize ({ heap := h.clearMarks } : Marking).visitAll level tracer.roots = rooted
    at hroots
  by_cases hl : level = .two
  · refine ⟨[], fun p => ⟨nofun, fun hp => absurd hl hp.1⟩, ?_⟩
    rw [if_pos hl, List.flatMap_nil, List.append_nil]
    exact hroots
  · refine ⟨rooted.heap.remembered level, fun p => ?_, ?_⟩
    · rw [mem_remembered hroots.formed hl, IsRemembered, IsRemembered, hroots.lookup]
    · rw [if_neg hl]
      exact hroots.scanAll hf _

/-- **What marking visits**: the roots, what the remembered objects yield,
and what the marked objects yield. -/
theorem mark_holds (hf : h.Formed) (tracer : Tracer σ) (level : Generation) :
    ∃ old : List ObjRef, (∀ p, p ∈ old ↔ h.IsRemembered level p) ∧
      (∀ p ∈ (h.mark tracer level).reached.toList, h.Kept tracer level p) ∧
      Marking.Holds h level (tracer.roots ++ old.flatMap (h.refsOf tracer) ++
        (h.mark tracer level).reached.toList.flatMap (h.refsOf tracer)) (h.mark tracer level) := by
  obtain ⟨old, hold, hgrey⟩ := greyed_holds hf tracer level
  have hmet : ∀ p ∈ tracer.roots ++ old.flatMap (h.refsOf tracer), h.Met tracer level p := by
    intro p hp
    rcases List.mem_append.mp hp with hp | hp
    · exact Or.inl hp
    · obtain ⟨q, hq, hp⟩ := List.mem_flatMap.mp hp
      exact Or.inr (Or.inl ⟨q, (hold q).mp hq, hp⟩)
  rw [mark_eq_drain]
  have hdrain := Marking.drain_holds hf hmet (h.slotCount + 1) 0 (Nat.lt_succ_self _)
    (fun p hp => hgrey.kept hmet hp) (by
      rw [List.take_zero, List.flatMap_nil, List.append_nil]
      exact hgrey)
  exact ⟨old, hold, hdrain⟩

/-- **The marked objects are the kept ones.** -/
theorem mem_reached_iff_kept (hf : h.Formed) (tracer : Tracer σ) (level : Generation)
    (p : ObjRef) : p ∈ (h.mark tracer level).reached.toList ↔ h.Kept tracer level p := by
  obtain ⟨old, hold, hkept, hm⟩ := mark_holds hf tracer level
  refine ⟨hkept p, fun hk => ?_⟩
  -- what leads to a kept object was visited, since the row is closed
  induction hk with
  | root hr he =>
    exact (hm.reached _).mpr ⟨List.mem_append_left _ (List.mem_append_left _ hr), he⟩
  | remembered hq hp he =>
    refine (hm.reached _).mpr ⟨List.mem_append_left _ (List.mem_append_right _ ?_), he⟩
    exact List.mem_flatMap.mpr ⟨_, (hold _).mpr hq, hp⟩
  | step _ hp he ih =>
    exact (hm.reached _).mpr ⟨List.mem_append_right _ (List.mem_flatMap.mpr ⟨_, ih, hp⟩), he⟩

/-- What marking leaves of a heap. -/
structure Marked (h : Heap) (tracer : Tracer σ) (level : Generation) (m : Marking) : Prop where
  same : m.heap.clearMarks = h.clearMarks
  formed : m.heap.Formed
  marks : ∀ p, m.heap.IsMarked p ↔ h.Kept tracer level p
  counted : ∃ kept : List ObjRef, kept.Nodup ∧
    (∀ p, p ∈ kept ↔ h.Kept tracer level p ∧ h.collectable p = true) ∧ m.counted = kept.length
  stray : ∀ p, m.stray = some p → h.Met tracer level p ∧ p ≠ .null ∧ h.lookup p = none
  clean : m.stray = none → ∀ p, h.Met tracer level p → p = .null ∨ ∃ x, h.lookup p = some x

theorem isStray_iff {p : ObjRef} : h.isStray p = true ↔ p ≠ .null ∧ h.lookup p = none := by
  rw [isStray, Bool.and_eq_true, Bool.not_eq_true', Option.isNone_iff_eq_none, Bool.eq_false_iff,
    ne_eq, ObjRef.isNull_iff]

/-- **Marking marks the kept objects and no others**, and the stray
reference is one that it met. -/
theorem marked (hf : h.Formed) (tracer : Tracer σ) (level : Generation) :
    Marked h tracer level (h.mark tracer level) := by
  obtain ⟨old, hold, _, hm⟩ := mark_holds hf tracer level
  have hreached := mem_reached_iff_kept hf tracer level
  have hvisited : ∀ p, p ∈ tracer.roots ++ old.flatMap (h.refsOf tracer) ++
      (h.mark tracer level).reached.toList.flatMap (h.refsOf tracer) ↔ h.Met tracer level p := by
    intro p
    simp only [List.mem_append, List.mem_flatMap, hold, hreached, Met, or_assoc]
  refine ⟨hm.same, hm.formed, fun p => (hm.marks p).trans (hreached p), ?_, fun p hp => ?_,
    fun hn p hp => ?_⟩
  · refine ⟨_, hm.nodup.filter _, fun p => ?_, hm.counted⟩
    rw [List.mem_filter, hreached]
  · rw [hm.stray] at hp
    exact ⟨(hvisited p).mp (List.mem_of_find?_eq_some hp), isStray_iff.mp (List.find?_some hp)⟩
  · rw [hm.stray, List.find?_eq_none] at hn
    by_cases hnull : p = .null
    · exact Or.inl hnull
    · refine Or.inr (Option.ne_none_iff_exists'.mp fun hx => ?_)
      exact hn p ((hvisited p).mpr hp) (isStray_iff.mpr ⟨hnull, hx⟩)

end Heap

end SegmentedHeap
