/-
SegmentedHeap.Proofs.Confluence — in which order references are visited.

A tracer may yield the roots and the references of an object in any
order, any of them more than once, and null ones in between. Marking then
goes another way through the heap, and its row of marked objects is
another one. But the set of marked objects is a least set, and nothing
after marking reads more than that set: sweeping goes through the
segments in order, and an object stays in the old-to-new set if anything
that it yields is younger, wherever in its list that is.

What counts of a reference is whether it names an object, so the argument
is made for tracers that are `Alike`: they yield the same allocated
objects, whatever else they yield.

* `Alike` — tracers that yield the same allocated objects.
* `Alike.mark_eq` — marking leaves the same heap and the same count.
* `renewOldToNew_alike` — so does making the old-to-new set anew.
* `Alike.collects` — **the collections of alike tracers are the same**.
* `collect_confluent` — the same for tracers that yield the same
  references in different orders.
-/
import SegmentedHeap.Proofs.Callbacks
import SegmentedHeap.Proofs.Reachable

namespace SegmentedHeap

namespace Heap

section

variable {σ τ : Type} {h h₁ h₂ : Heap} {t₁ : Tracer σ} {t₂ : Tracer τ} {level : Generation}
  {p q : ObjRef}

/-! ## Tracers that yield the same objects -/

/-- Each object yields the same allocated objects to both tracers. -/
def YieldAlike (h : Heap) (t₁ : Tracer σ) (t₂ : Tracer τ) : Prop :=
  ∀ q p, h.isAllocated p = true → (p ∈ h.refsOf t₁ q ↔ p ∈ h.refsOf t₂ q)

/-- The tracers have the same allocated objects for roots, and yield the
same ones. -/
structure Alike (h : Heap) (t₁ : Tracer σ) (t₂ : Tracer τ) : Prop where
  roots : ∀ p, h.isAllocated p = true → (p ∈ t₁.roots ↔ p ∈ t₂.roots)
  yields : h.YieldAlike t₁ t₂

theorem Alike.symm (ha : h.Alike t₁ t₂) : h.Alike t₂ t₁ :=
  ⟨fun p hp => (ha.roots p hp).symm, fun q p hp => (ha.yields q p hp).symm⟩

theorem Eligible.isAllocated (hf : h.Formed) (he : h.Eligible level p) :
    h.isAllocated p = true := by
  obtain ⟨x, _, hx, _⟩ := he
  exact hf.isAllocated_iff_lookup.mpr ⟨x, hx⟩

/-- Only allocated objects lead to kept ones, or are kept. -/
theorem Alike.kept (hf : h.Formed) (ha : h.Alike t₁ t₂) (hk : h.Kept t₁ level p) :
    h.Kept t₂ level p := by
  induction hk with
  | root hr he => exact .root ((ha.roots _ (he.isAllocated hf)).mp hr) he
  | remembered hq hp he => exact .remembered hq ((ha.yields _ _ (he.isAllocated hf)).mp hp) he
  | step _ hp he ih => exact .step ih ((ha.yields _ _ (he.isAllocated hf)).mp hp) he

theorem Alike.kept_iff (hf : h.Formed) (ha : h.Alike t₁ t₂) :
    h.Kept t₁ level p ↔ h.Kept t₂ level p :=
  ⟨ha.kept hf, ha.symm.kept hf⟩

/-! ## The marked heap -/

/-- Two heaps with the same segments that a change of all segments makes
equal are equal. -/
theorem eq_of_segments {f : Segment → Segment} (e : h₂.mapSegments f = h₁.mapSegments f)
    (hs : ∀ i, h₂.store.segment? i = h₁.store.segment? i) : h₂ = h₁ := by
  have hsize : h₂.store.segments.size = h₁.store.segments.size := by
    have hmap : (h₂.mapSegments f).store.segments.size =
        (h₁.mapSegments f).store.segments.size := by
      rw [e]
    exact Array.size_map.symm.trans (hmap.trans Array.size_map)
  have hsegments : h₂.store.segments = h₁.store.segments := by
    refine Array.ext_getElem? fun i => ?_
    have hi := hs i
    rw [Store.segment?, Store.segment?] at hi
    by_cases hlt : i < h₁.store.segments.size
    · rw [Array.getElem?_eq_getElem hlt, Array.getElem?_eq_getElem (hsize ▸ hlt)] at hi ⊢
      exact congrArg some hi
    · rw [Array.getElem?_eq_none (Nat.le_of_not_lt hlt),
        Array.getElem?_eq_none (hsize ▸ Nat.le_of_not_lt hlt)]
  calc h₂ = (h₂.mapSegments f).setStore
        { (h₂.mapSegments f).store with segments := h₂.store.segments } := rfl
    _ = (h₁.mapSegments f).setStore
        { (h₁.mapSegments f).store with segments := h₁.store.segments } := by rw [e, hsegments]
    _ = h₁ := rfl

/-- The mark of a slot, read from its segment. -/
theorem isMarked_ofSlot {i : SegmentIndex} {s : Segment} {o : Offset} (hf : h.Formed)
    (hs : h.store.segment? i = some s) : h.IsMarked (.ofSlot i o) ↔ o ∈ s.marked := by
  have hi := Nat.le_of_lt (hf.store.index_lt hs)
  rw [IsMarked, ObjRef.segment_ofSlot hi, ObjRef.offset_ofSlot hi, hs]
  constructor
  · rintro ⟨_, e, hm⟩
    cases e
    exact hm
  · intro hm
    exact ⟨s, rfl, hm⟩

/-- Heaps that differ in their marks at most are equal if the marks are. -/
theorem eq_of_marks (hf₁ : h₁.Formed) (hf₂ : h₂.Formed) (e : h₂.clearMarks = h₁.clearMarks)
    (hm : ∀ p, h₂.IsMarked p ↔ h₁.IsMarked p) : h₂ = h₁ := by
  refine eq_of_segments (f := Segment.clearMarks) e fun i => ?_
  have hi := segment?_of_mapSegments (f := Segment.clearMarks) e i
  cases h₁s : h₁.store.segment? i with
  | none =>
    rw [h₁s] at hi
    exact Option.map_eq_none_iff.mp hi
  | some s₁ =>
    rw [h₁s] at hi
    obtain ⟨s₂, h₂s, hclear⟩ := Option.map_eq_some_iff.mp hi
    have hmarked : s₂.marked = s₁.marked := OffsetSet.ext fun o => by
      rw [← isMarked_ofSlot hf₁ h₁s, ← isMarked_ofSlot hf₂ h₂s, hm]
    rw [h₂s]
    calc some s₂ = some { s₂.clearMarks with marked := s₂.marked } := rfl
      _ = some { s₁.clearMarks with marked := s₁.marked } := by rw [hclear, hmarked]
      _ = some s₁ := rfl

/-- **Alike tracers mark the same objects**, and count as many. -/
theorem Alike.mark_eq (hf : h.Formed) (ha : h.Alike t₁ t₂) (level : Generation) :
    (h.mark t₂ level).heap = (h.mark t₁ level).heap ∧
      (h.mark t₂ level).counted = (h.mark t₁ level).counted := by
  have hm₁ := marked hf t₁ level
  have hm₂ := marked hf t₂ level
  refine ⟨eq_of_marks hm₁.formed hm₂.formed (hm₂.same.trans hm₁.same.symm) fun p => ?_, ?_⟩
  · rw [hm₁.marks, hm₂.marks, ha.kept_iff hf]
  · have hcount : Counts (fun p => h.Kept t₁ level p ∧ h.collectable p = true)
        (h.mark t₁ level).counted := hm₁.counted
    exact Counts.unique hm₂.counted (hcount.congr fun p => and_congr_left' (ha.kept_iff hf))

/-! ## What is left of a heap -/

/-- Every object of `g` is one of `h`, of the same kind and with the same
data. -/
structure Remains (h g : Heap) : Prop where
  kinds : g.kinds = h.kinds
  object : ∀ q y, g.lookup q = some y → ∃ x, h.lookup q = some x ∧
    y = { x with generation := y.generation, remembered := y.remembered }

theorem Remains.refsOf {g : Heap} (hf : h.Formed) (hg : g.Formed) (hr : Remains h g) {y : Object}
    (hy : g.lookup q = some y) (tracer : Tracer σ) : g.refsOf tracer q = h.refsOf tracer q := by
  obtain ⟨x, hx, e⟩ := hr.object q y hy
  obtain ⟨spec, hspec⟩ := hf.spec_of_lookup hx
  have hkind : y.kind = x.kind := by rw [e]
  rw [refsOf_of_lookup hf hx hspec,
    refsOf_of_lookup hg hy (by rw [hr.kinds, hkind]; exact hspec), e]
  rfl

/-- Tracers are still alike for what is left of a heap. -/
theorem YieldAlike.remains {g : Heap} (hf : h.Formed) (hg : g.Formed) (ha : h.YieldAlike t₁ t₂)
    (hr : Remains h g) : g.YieldAlike t₁ t₂ := by
  intro q p hp
  cases hy : g.lookup q with
  | none => rw [hg.refsOf_of_none hy, hg.refsOf_of_none hy]
  | some y =>
    obtain ⟨z, hz⟩ := hg.isAllocated_iff_lookup.mp hp
    obtain ⟨x, hx, _⟩ := hr.object p z hz
    rw [hr.refsOf hf hg hy, hr.refsOf hf hg hy]
    exact ha q p (hf.isAllocated_iff_lookup.mpr ⟨x, hx⟩)

theorem Marked.remains {m : Marking} (hm : Marked h t₁ level m) : Remains h m.heap where
  kinds := hm.setting.kinds
  object q y hy := ⟨y, by rw [← hm.lookup]; exact hy, rfl⟩

theorem Swept.remains {g : Heap} (hf : h.Formed) (hs : Swept h level g) : Remains h g where
  kinds := hs.setting.kinds
  object q y hy := by
    cases hx : h.lookup q with
    | none =>
      rw [hs.lookup_of_none hx] at hy
      cases hy
    | some x =>
      have hd : ¬ h.Doomed level q := fun hd => by
        rw [hs.lookup_of_doomed hd] at hy
        cases hy
      rw [hs.lookup_of_survivor hf hx hd] at hy
      cases hy
      exact ⟨x, rfl, rfl⟩

theorem SameButOldToNew.remains {g : Heap} (hs : SameButOldToNew h g) : Remains h g where
  kinds := hs.kinds
  object q y hy := by
    cases hx : h.lookup q with
    | none =>
      rw [hs.lookup_none hx] at hy
      cases hy
    | some x =>
      obtain ⟨b, hy'⟩ := hs.lookup hx
      rw [hy'] at hy
      cases hy
      exact ⟨x, rfl, rfl⟩

/-! ## The old-to-new set -/

theorem isAllocated_of_isYounger {g : Generation} (hf : h.Formed) (hy : h.isYounger g p = true) :
    h.isAllocated p = true := by
  obtain ⟨y, hy, _⟩ := (isYounger_iff hf).mp hy
  exact hf.isAllocated_iff_lookup.mpr ⟨y, hy⟩

/-- Whether anything that is yielded is younger does not depend on the
order, or on what names nothing. -/
theorem YieldAlike.any_isYounger (hf : h.Formed) (ha : h.YieldAlike t₁ t₂) (g : Generation)
    (q : ObjRef) : (h.refsOf t₂ q).any (h.isYounger g) = (h.refsOf t₁ q).any (h.isYounger g) := by
  rw [Bool.eq_iff_iff, List.any_eq_true, List.any_eq_true]
  constructor
  · rintro ⟨p, hp, hy⟩
    exact ⟨p, (ha q p (isAllocated_of_isYounger hf hy)).mpr hp, hy⟩
  · rintro ⟨p, hp, hy⟩
    exact ⟨p, (ha q p (isAllocated_of_isYounger hf hy)).mp hp, hy⟩

theorem reconsider_alike (hf : h.Formed) (ha : h.YieldAlike t₁ t₂) (p : ObjRef) :
    reconsider t₂ h p = reconsider t₁ h p := by
  unfold reconsider
  cases h.object? p with
  | none => rfl
  | some x => simp only [ha.any_isYounger hf]

theorem foldl_reconsider_alike (hf : h.Formed) (ha : h.YieldAlike t₁ t₂) (l : List ObjRef) :
    l.foldl (reconsider t₂) h = l.foldl (reconsider t₁) h := by
  induction l generalizing h with
  | nil => rfl
  | cons p l ih =>
    have hone := reconsider_renewed hf t₁ p
    rw [List.foldl_cons, List.foldl_cons, reconsider_alike hf ha]
    exact ih hone.formed (ha.remains hf hone.formed hone.same.remains)

/-- **Alike tracers make the same old-to-new set.** -/
theorem renewOldToNew_alike (hf : h.Formed) (ha : h.YieldAlike t₁ t₂) (level : Generation)
    (aged : List ObjRef) : h.renewOldToNew t₂ level aged = h.renewOldToNew t₁ level aged := by
  rw [renewOldToNew, renewOldToNew, foldl_reconsider_alike hf ha]

/-! ## The whole collection -/

/-- The report of the part after marking, and the heap that it leaves. -/
def settle (m : Marking) (tracer : Tracer σ) (level : Generation) : CollectionReport × Heap :=
  let swept := m.heap.recordedSweep level
  let renewed := swept.heap.renewOldToNew tracer level swept.aged
  let filed := renewed.rebuildQueues
  let report : CollectionReport := {
    level, marked := m.counted, freed := swept.freed, freedChunks := swept.freedChunks
    promoted := swept.promoted, released := filed.2, oldToNew := renewed.oldToNewSize }
  (report,
    { filed.1 with metrics := filed.1.metrics.recordCollection report }.countCollection level)

/-- The part after marking, with its calls listed. -/
theorem reclaim_told (m : Marking) (tracer : Tracer σ) (level : Generation) (log : σ) :
    reclaim m tracer level log = (((settle m tracer level).1,
      tracer.told (m.heap.freedCalls level) log), (settle m tracer level).2) := by
  rw [reclaim, sweep_told]
  rfl

/-- **After marking**, alike tracers come to the same report and the same
heap. -/
theorem settle_alike {m₁ m₂ : Marking} (hf : m₁.heap.Formed) (he : m₂.heap = m₁.heap)
    (hc : m₂.counted = m₁.counted) (ha : m₁.heap.YieldAlike t₁ t₂) (level : Generation) :
    settle m₂ t₂ level = settle m₁ t₁ level := by
  have hs : Swept m₁.heap level (m₁.heap.recordedSweep level).heap :=
    (sweep_eq hf Tracer.recorder level []).1
  have hrenew := renewOldToNew_alike hs.formed (ha.remains hf hs.formed (hs.remains hf)) level
    (m₁.heap.recordedSweep level).aged
  simp only [settle, he, hc, hrenew]

/-- A collection with this tracer returns, whatever its log: the report,
the calls that it makes, and the heap that it leaves. -/
def Collects (h : Heap) (tracer : Tracer σ) (level : Generation) (report : CollectionReport)
    (calls : List FreedCall) (h' : Heap) : Prop :=
  ∀ log, collect tracer level log h = .ok (report, tracer.told calls log) h'

/-- A collection that does not stop at a stray reference. -/
theorem collects_of_clean (hf : h.Formed) (tracer : Tracer σ) (level : Generation)
    (hc : h.config.checkRefs = true → (h.mark tracer level).stray = none) :
    h.Collects tracer level (settle (h.mark tracer level) tracer level).1
      ((h.mark tracer level).heap.freedCalls level)
      (settle (h.mark tracer level) tracer level).2 := by
  intro log
  have hnone : (if h.config.checkRefs then (h.mark tracer level).stray else none) = none := by
    split
    · next hcheck => exact hc hcheck
    · rfl
  simp only [collect, (marked hf tracer level).setting.config, hnone]
  rw [reclaim_told]

/-- Where references are not checked no collection stops. -/
theorem collects_of_unchecked (hf : h.Formed) (tracer : Tracer σ) (level : Generation)
    (hc : h.config.checkRefs = false) :
    h.Collects tracer level (settle (h.mark tracer level) tracer level).1
      ((h.mark tracer level).heap.freedCalls level)
      (settle (h.mark tracer level) tracer level).2 :=
  collects_of_clean hf tracer level fun hcheck => by
    rw [hc] at hcheck
    cases hcheck

/-- **The collections of alike tracers are the same.** -/
theorem Alike.collects (hf : h.Formed) (hc : h.config.checkRefs = false) (ha : h.Alike t₁ t₂)
    (level : Generation) :
    h.Collects t₂ level (settle (h.mark t₁ level) t₁ level).1
      ((h.mark t₁ level).heap.freedCalls level) (settle (h.mark t₁ level) t₁ level).2 := by
  have hm₁ := marked hf t₁ level
  obtain ⟨he, hcounted⟩ := ha.mark_eq hf level
  have h₂ := collects_of_unchecked hf t₂ level hc
  rw [settle_alike hm₁.formed he hcounted (ha.yields.remains hf hm₁.formed hm₁.remains), he] at h₂
  exact h₂

/-! ## Orders, repetitions and nulls -/

/-- The tracers have the same roots, and each object yields the same
references to both: in any order, any number of times, and with any null
ones in between. -/
structure Agree (h : Heap) (t₁ : Tracer σ) (t₂ : Tracer τ) : Prop where
  roots : ∀ p, p ≠ .null → (p ∈ t₁.roots ↔ p ∈ t₂.roots)
  refs : ∀ q p, p ≠ .null → (p ∈ h.refsOf t₁ q ↔ p ∈ h.refsOf t₂ q)

theorem Agree.alike (hf : h.Formed) (ha : h.Agree t₁ t₂) : h.Alike t₁ t₂ := by
  have hne : ∀ p, h.isAllocated p = true → p ≠ .null := fun p hp => by
    obtain ⟨x, hx⟩ := hf.isAllocated_iff_lookup.mp hp
    exact hf.ne_null_of_lookup hx
  exact ⟨fun p hp => ha.roots p (hne p hp), fun q p hp => ha.refs q p (hne p hp)⟩

/-- Objects are asked for one after the other; what each request came
to. -/
def allocEach (requests : List (TypeTag × Nat)) : HeapM (List (Except HeapError ObjRef)) :=
  requests.mapM fun request => attempt (alloc request.1 request.2)

/-- **Collections do not depend on the order of visits.** Two tracers that
visit the same roots and the same references of each object lead to the
same heap, the same report and the same calls about objects that go, and
allocations after either collection go alike. -/
theorem collect_confluent (hr : h.Reachable) (hc : h.config.checkRefs = false)
    (ha : h.Agree t₁ t₂) (level : Generation) :
    (∃ report calls h',
      h.Collects t₁ level report calls h' ∧ h.Collects t₂ level report calls h') ∧
    ∀ requests log₁ log₂,
      (do let _ ← collect t₁ level log₁; allocEach requests) h =
        (do let _ ← collect t₂ level log₂; allocEach requests) h := by
  have hf := hr.wellFormed.toFormed
  have h₁ := collects_of_unchecked hf t₁ level hc
  have h₂ := (ha.alike hf).collects hf hc level
  refine ⟨⟨_, _, _, h₁, h₂⟩, fun requests log₁ log₂ => ?_⟩
  rw [bind_of_ok (h₁ log₁), bind_of_ok (h₂ log₂)]

end

/-- Two tracers of the family, of which one meets the old pair first and
the other the young one, visits it twice, and gives the halves of each
pair backwards as well, after a null. Both keep the two, and free the
third. -/
theorem collect_confluent_family : ∃ (t₁ : Tracer (List ObjRef)) (t₂ : Tracer Nat),
    family.Reachable ∧ family.config.checkRefs = false ∧ family.Agree t₁ t₂ ∧
      (family.mark t₁ .two).reached.toList = [holder, child] ∧
      (family.mark t₂ .two).reached.toList = [child, holder] ∧
      (∃ report calls h', family.Collects t₁ .two report calls h' ∧
        family.Collects t₂ .two report calls h' ∧ report.marked = 2 ∧ report.freed = 1 ∧
        h'.objects = [holder, child]) ∧
      ∀ requests log₁ log₂,
        (do let _ ← collect t₁ .two log₁; allocEach requests) family =
          (do let _ ← collect t₂ .two log₂; allocEach requests) family := by
  let t₁ : Tracer (List ObjRef) :=
    { roots := [holder, child], refs := fun v => v.refs 2, freed := fun _ obj log => obj :: log }
  let t₂ : Tracer Nat :=
    { roots := [.null, child, holder, child]
      refs := fun v => .null :: ((v.refs 2).reverse ++ v.refs 2)
      freed := fun _ _ n => n + 1 }
  have ha : family.Agree t₁ t₂ := by
    refine ⟨fun q hq => ?_, fun r q hq => ?_⟩
    · simp only [t₁, t₂, List.mem_cons, List.not_mem_nil, or_false, hq, false_or]
      tauto
    · unfold refsOf
      cases family.view? r with
      | none => exact Iff.rfl
      | some v => simp [t₁, t₂, hq]
  have hunchecked : family.config.checkRefs = false := by decide +kernel
  have horder : (family.mark t₁ .two).reached.toList = [holder, child] ∧
      (family.mark t₂ .two).reached.toList = [child, holder] := by
    decide +kernel
  obtain ⟨⟨report, calls, h', h₁, h₂⟩, hlater⟩ :=
    collect_confluent reachable_family hunchecked ha .two
  have hends : (returned (collect t₂ .two 0) family).map (·.1) = some ⟨.two, 2, 1, 1, 1, 0, 0⟩ ∧
      (after (collect t₂ .two 0) family).objects = [holder, child] := by
    decide +kernel
  rw [returned, after, h₂ 0] at hends
  obtain ⟨hreport, hobjects⟩ := hends
  obtain rfl : report = ⟨.two, 2, 1, 1, 1, 0, 0⟩ := Option.some.inj hreport
  exact ⟨t₁, t₂, reachable_family, hunchecked, ha, horder.1, horder.2,
    ⟨_, calls, h', h₁, h₂, rfl, rfl, hobjects⟩, hlater⟩

end Heap

end SegmentedHeap
