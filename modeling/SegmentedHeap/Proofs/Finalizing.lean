/-
SegmentedHeap.Proofs.Finalizing — who is told of an object that goes.

A collection tells its tracer of the objects of finalized kinds that it
frees, of each exactly once, and in the order of their references. It
does so segment by segment, so that by the time of a call the dead of
earlier segments are gone, overwritten or given back with their segment.
What carries the argument is that a sweep which has not come to a segment
yet has left it alone: there every object is as it was before, and so is
all that can be asked of it.

* `segment_log`, `row_told` — the calls of one segment, and of a row.
* `Finalizes` — which calls a collection is to make, and on what heaps.
* `collect_finalizes` — **a collection makes these calls**.
-/
import SegmentedHeap.Proofs.Confluence
import SegmentedHeap.Proofs.Exactness
import SegmentedHeap.Proofs.FiniteMap

namespace SegmentedHeap

/-- The order of references: by segments, and in one segment by offsets. -/
def ObjRef.Before (p q : ObjRef) : Prop :=
  p.segment < q.segment ∨ p.segment = q.segment ∧ p.offset < q.offset

theorem OffsetSet.sorted_members (s : OffsetSet) : s.members.Pairwise (· < ·) :=
  (List.pairwise_lt_finRange 64).filter _

theorem Store.sorted_indices (s : Store) : s.indices.Pairwise (· < ·) :=
  List.pairwise_lt_range.filter _

/-- What comes before a member of a row in order is what is less. -/
theorem mem_before {l done rest : List Nat} {i j : Nat} (hs : l.Pairwise (· < ·))
    (e : l = done ++ i :: rest) : j ∈ done ↔ j ∈ l ∧ j < i := by
  subst e
  obtain ⟨_, hrest, hlt⟩ := List.pairwise_append.mp hs
  rw [List.mem_append]
  refine ⟨fun hj => ⟨Or.inl hj, hlt j hj i List.mem_cons_self⟩, fun hj => ?_⟩
  rcases hj.1 with hj' | hj'
  · exact hj'
  · rcases List.mem_cons.mp hj' with rfl | hj'
    · exact absurd hj.2 (Nat.lt_irrefl _)
    · exact absurd hj.2 (Nat.lt_asymm ((List.pairwise_cons.mp hrest).1 j hj'))

/-- What is written down one by one. -/
theorem foldl_concat {α β : Type} (f : α → β) (l : List α) (acc : List β) :
    l.foldl (fun acc a => acc ++ [f a]) acc = acc ++ l.map f := by
  rw [List.foldl_append_eq_append, ← List.flatMap_def, ← List.map_eq_flatMap]

/-- The recorder writes the calls of a row down at the end. -/
theorem Tracer.recorded_row (h : Heap) (dead : List ObjRef) (calls : List FreedCall) :
    dead.foldl (fun calls obj => recorder.freed h obj calls) calls = calls ++ dead.map (h, ·) :=
  foldl_concat (h, ·) dead calls

namespace Heap

variable {σ : Type} {h h' : Heap} {tracer : Tracer σ} {level : Generation} {p q : ObjRef}

/-! ## The calls of a sweep -/

/-- Whether a tracer is told before objects of the segment's kind go. -/
def finalizes (h : Heap) (s : Segment) : Bool := (h.kinds.get? s.kind).any (·.finalize)

/-- The objects of a segment that a tracer is told of. -/
def finalizedAt (h : Heap) (level : Generation) : SegmentIndex → List ObjRef :=
  h.slotsAt fun s => if h.finalizes s then (s.dying level).members else []

/-- **One segment**: the calls are about its own objects, before any of
them goes. -/
theorem segment_log (level : Generation) (a : Sweeping (List FreedCall)) (i : SegmentIndex) :
    (a.segment Tracer.recorder level i).log =
      a.log ++ (a.heap.finalizedAt level i).map (a.heap, ·) := by
  rw [finalizedAt, slotsAt, collected?]
  unfold Sweeping.segment
  cases hs : a.heap.store.segment? i with
  | none => exact (List.append_nil _).symm
  | some s =>
    cases hk : a.heap.kinds.get? s.kind with
    | none => simp [Option.filter_some, hk]
    | some spec =>
      simp only [hk, Option.filter_some, Option.any_some, finalizes]
      cases spec.uncollected with
      | true => simp
      | false =>
        cases hz : spec.finalize with
        | true => simp [Tracer.recorded_row, slotsOf, Segment.dying, hk, hz]
        | false => simp [slotsOf, hk, hz]

theorem segment_of_mem_slotsAt (hf : h.Formed) {f : Segment → List Offset} {i : SegmentIndex}
    (hp : p ∈ h.slotsAt f i) : p.segment = i := by
  cases hc : h.collected? i with
  | none =>
    rw [slotsAt, hc] at hp
    exact absurd hp List.not_mem_nil
  | some s =>
    have hi := Store.mem_indices.mpr ⟨s, (collected?_eq_some.mp hc).1⟩
    exact ((mem_slotsAt_index hf hi).mp hp).1

/-- What a sweep of the segments at these indexes tells: of which objects,
and that a call is made when the segments before that of the object have
been swept, and no other. -/
structure RowTold (h : Heap) (level : Generation) (l : List SegmentIndex)
    (calls : List FreedCall) : Prop where
  objects : calls.map Prod.snd = l.flatMap (h.finalizedAt level)
  heaps : ∀ call ∈ calls, ∃ done rest, l = done ++ call.2.segment :: rest ∧
    SweptBy h level (· ∈ done) call.1

/-- **A row of segments**, by induction on it: what was told of the first
segment comes before what is told of the others. -/
theorem row_told (level : Generation) (l : List SegmentIndex) (hn : l.Nodup)
    (a : Sweeping (List FreedCall)) (hf : a.heap.Formed) :
    ∃ calls, (l.foldl (Sweeping.segment Tracer.recorder level) a).log = a.log ++ calls ∧
      RowTold a.heap level l calls := by
  induction l generalizing a with
  | nil => exact ⟨[], (List.append_nil _).symm, rfl, List.forall_mem_nil _⟩
  | cons i l ih =>
    obtain ⟨hi, hn⟩ := List.nodup_cons.mp hn
    have hone := (segment_swept Tracer.recorder level a hf i).heap
    obtain ⟨calls, hlog, hcalls⟩ := ih hn _ hone.formed
    have hsame : ∀ j ∈ l, (a.segment Tracer.recorder level i).heap.finalizedAt level j =
        a.heap.finalizedAt level j := fun j hj => by
      have hcol := collected?_congr hone.setting.kinds (hone.other j fun e => hi (e ▸ hj))
      have hkinds : (a.segment Tracer.recorder level i).heap.finalizes = a.heap.finalizes := by
        funext s
        rw [finalizes, finalizes, hone.setting.kinds]
      rw [finalizedAt, finalizedAt, slotsAt, slotsAt, hcol, hkinds]
    refine ⟨(a.heap.finalizedAt level i).map (a.heap, ·) ++ calls, ?_, ?_, fun call hc => ?_⟩
    · rw [List.foldl_cons, hlog, segment_log, List.append_assoc]
    · rw [List.map_append, hcalls.objects, List.flatMap_cons, List.flatMap_congr hsame,
        List.map_map]
      exact congrArg (· ++ _) (List.map_id _)
    · rcases List.mem_append.mp hc with hc | hc
      · obtain ⟨p, hp, rfl⟩ := List.mem_map.mp hc
        rw [segment_of_mem_slotsAt hf hp]
        exact ⟨[], l, rfl, .refl _, hf, .refl _, List.forall_mem_nil _, fun _ _ => rfl, rfl⟩
      · obtain ⟨done, rest, rfl, hg⟩ := hcalls.heaps call hc
        refine ⟨i :: done, rest, rfl, hone.trans (fun hm => hi ?_) hg⟩
        exact List.mem_append_left _ hm

/-- Rows of slots of segments in order are in order. -/
theorem sorted_slots (hf : h.Formed) {f : Segment → List Offset}
    (hs : ∀ s, (f s).Pairwise (· < ·)) :
    (h.store.indices.flatMap (h.slotsAt f)).Pairwise ObjRef.Before := by
  refine List.pairwise_flatMap.mpr ⟨fun i hi => ?_, ?_⟩
  · rw [slotsAt]
    cases h.collected? i with
    | none => exact .nil
    | some s =>
      have hle := hf.index_le hi
      refine List.pairwise_map.mpr ((hs s).imp fun {o o'} hlt => Or.inr ?_)
      rw [ObjRef.segment_ofSlot hle, ObjRef.segment_ofSlot hle, ObjRef.offset_ofSlot hle,
        ObjRef.offset_ofSlot hle]
      exact ⟨rfl, hlt⟩
  · refine (Store.sorted_indices h.store).imp fun {i j} hlt p hp q hq => Or.inl ?_
    rw [segment_of_mem_slotsAt hf hp, segment_of_mem_slotsAt hf hq]
    exact hlt

/-! ## The heaps on which calls are made -/

/-- A segment that was not swept yet holds the objects that it held. -/
theorem SweptBy.lookup_of_not {done : SegmentIndex → Prop} (hg : SweptBy h level done h')
    (hp : ¬ done p.segment) : h'.lookup p = h.lookup p := by
  have hseg := hg.other _ hp
  cases hx : h.lookup p with
  | none =>
    cases hy : h'.lookup p with
    | none => rfl
    | some y =>
      obtain ⟨x, hx', _⟩ := hg.shrinks p y hy
      rw [hx] at hx'
      cases hx'
  | some x =>
    obtain ⟨s, hs, ho, hxs⟩ := lookup_eq_some.mp hx
    have hy : h'.lookup p = some _ := lookup_eq_some.mpr ⟨s, hseg.trans hs, ho, rfl⟩
    rw [hy, hg.shrinks.lookup_eq hx hy, hxs]
    simp only [Segment.objectAt, hg.setting.geometry.chunkBytes]

/-- Whether a reference names an object is for its segment to say. -/
theorem isAllocated_congr (hs : h'.store.segment? p.segment = h.store.segment? p.segment) :
    h'.isAllocated p = h.isAllocated p := by
  rw [isAllocated, isAllocated, Store.isValid, Store.isValid, hs]

/-! ## The calls of a collection -/

/-- Whether a tracer is told before an object of its kind is swept. -/
def Finalized (h : Heap) (p : ObjRef) : Prop :=
  ∃ spec, h.specOf p = .ok spec ∧ spec.finalize = true

/-- The calls about the objects that a collection at a level, which leaves
`h'` of `h`, frees. -/
structure Finalizes (h : Heap) (level : Generation) (calls : List FreedCall) (h' : Heap) :
    Prop where
  /-- The calls are made in the order of references, so that none is made twice. -/
  sorted : (calls.map Prod.snd).Pairwise ObjRef.Before
  /-- They are about the freed objects of finalized kinds. -/
  objects : ∀ p, p ∈ calls.map Prod.snd ↔
    h.isAllocated p = true ∧ h'.isAllocated p = false ∧ h.Finalized p
  inScope : ∀ p ∈ calls.map Prod.snd,
    h.isUncollected p = .ok false ∧ ∃ g, h.generationOf p = .ok g ∧ g ≤ level
  /-- At a call the object is there, and is answered for as before. -/
  intact : ∀ g p, (g, p) ∈ calls → g.isAllocated p = true ∧ SameAnswers h g p
  /-- By then the dead of earlier segments are gone, and nothing else is. -/
  others : ∀ g p, (g, p) ∈ calls → ∀ q, h.isAllocated q = true →
    (g.isAllocated q = false ↔ h'.isAllocated q = false ∧ q.segment < p.segment)

variable {m : Marking} {report : CollectionReport}

/-- The dead objects of finalized kinds. -/
theorem mem_finalized (hf : h.Formed) :
    p ∈ h.store.indices.flatMap (h.finalizedAt level) ↔ h.Doomed level p ∧ h.Finalized p := by
  rw [finalizedAt, mem_slotsAt hf]
  constructor
  · intro hp
    obtain ⟨s, hc, ho⟩ := hp
    obtain ⟨hs, hcol⟩ := collected?_eq_some.mp hc
    split at ho
    · next hfin =>
      have hd := OffsetSet.mem_members.mp ho
      have hx : h.lookup p = some _ :=
        lookup_eq_some.mpr ⟨s, hs, (Segment.mem_dying.mp hd).1, rfl⟩
      obtain ⟨spec, hspec, hz⟩ := (Option.any_eq_true _ _).mp hfin
      exact ⟨(doomed_iff hs).mpr ⟨hcol, hd⟩, spec, specOf_of_lookup hx hspec, hz⟩
    · exact absurd ho List.not_mem_nil
  · intro hp
    obtain ⟨hd, spec, hspec, hz⟩ := hp
    obtain ⟨_, _, x, hx, _⟩ := id hd
    obtain ⟨s, hs, _, rfl⟩ := lookup_eq_some.mp hx
    obtain ⟨hcol, ho⟩ := (doomed_iff hs).mp hd
    obtain ⟨spec', hspec'⟩ := hf.spec_of_lookup hx
    rw [specOf_of_lookup hx hspec'] at hspec
    cases hspec
    have hfin : h.finalizes s = true := (Option.any_eq_true _ _).mpr ⟨spec, hspec', hz⟩
    refine ⟨s, collected?_eq_some.mpr ⟨hs, hcol⟩, ?_⟩
    rw [if_pos hfin]
    exact OffsetSet.mem_members.mpr ho

theorem Marked.finalized_iff (hm : Marked h tracer level m) (hf : h.Formed)
    (ha : h.isAllocated p = true) : m.heap.Finalized p ↔ h.Finalized p := by
  obtain ⟨x, hx⟩ := hf.isAllocated_iff_lookup.mp ha
  have hx' : m.heap.lookup p = some x := by rw [hm.lookup]; exact hx
  rw [Finalized, Finalized, specOf, specOf, kindOf_of_lookup hx, kindOf_of_lookup hx',
    hm.setting.kinds]

/-- What a heap answers at a call. -/
theorem Marked.intact (hm : Marked h tracer level m) (hf : h.Formed)
    {done : SegmentIndex → Prop} {g : Heap} (hg : SweptBy m.heap level done g)
    (hp : ¬ done p.segment) (ha : h.isAllocated p = true) :
    g.isAllocated p = true ∧ SameAnswers h g p := by
  obtain ⟨x, hx⟩ := hf.isAllocated_iff_lookup.mp ha
  have hy : g.lookup p = some x := by rw [hg.lookup_of_not hp, hm.lookup, hx]
  exact ⟨hg.formed.isAllocated_iff_lookup.mpr ⟨x, hy⟩,
    sameAnswers_of_lookup hf hg.formed (hm.setting.trans hg.setting) hx hy⟩

/-- The dead of the segments that were swept are gone, the others are not. -/
theorem Marked.gone_iff (hm : Marked h tracer level m) (hf : h.Formed)
    (hc : Collected h tracer level report h') {done : SegmentIndex → Prop} {g : Heap}
    (hg : SweptBy m.heap level done g) (ha : h.isAllocated q = true) :
    g.isAllocated q = false ↔ h'.isAllocated q = false ∧ done q.segment := by
  by_cases hq : done q.segment
  · rw [and_iff_left hq, hc.isAllocated_iff hf ha, ← hm.doomed_iff]
    -- a segment that was swept is what sweeping all of them makes of it
    have hs := (sweep_eq hm.formed Tracer.recorder level []).1
    rw [← isAllocated_congr (h := g) ((hs.segment? _).trans (hg.swept _ hq).symm),
      hs.formed.not_isAllocated_iff_lookup]
    obtain ⟨x, hx⟩ := hf.isAllocated_iff_lookup.mp ha
    refine ⟨fun hnone => Classical.byContradiction fun hd => ?_, hs.lookup_of_doomed⟩
    rw [hs.lookup_of_survivor hm.formed (by rw [hm.lookup]; exact hx) hd] at hnone
    cases hnone
  · rw [(hm.intact hf hg hq ha).1]
    exact ⟨nofun, fun hd => absurd hd.2 hq⟩

/-- Of which objects a tracer is told, and on what heaps. -/
theorem Marked.rowTold (hm : Marked h tracer level m) :
    RowTold m.heap level m.heap.store.indices (m.heap.freedCalls level) := by
  obtain ⟨calls, hlog, hcalls⟩ := row_told level m.heap.store.indices (Store.nodup_indices _)
    { heap := m.heap, log := [] } hm.formed
  have hlog : m.heap.freedCalls level = calls := hlog
  rw [hlog]
  exact hcalls

theorem Marked.mem_freedCalls (hm : Marked h tracer level m) :
    p ∈ (m.heap.freedCalls level).map Prod.snd ↔
      h.IsGarbage tracer level p ∧ m.heap.Finalized p := by
  rw [hm.rowTold.objects, mem_finalized hm.formed, hm.doomed_iff]

/-- **The calls of the part after marking.** -/
theorem Marked.finalizes (hf : h.Formed) (hm : Marked h tracer level m)
    (hc : Collected h tracer level report h') :
    Finalizes h level (m.heap.freedCalls level) h' := by
  have halloc : ∀ p, p ∈ (m.heap.freedCalls level).map Prod.snd → h.isAllocated p = true :=
    fun p hp => (hf.isGarbage_iff.mp (hm.mem_freedCalls.mp hp).1).1
  -- each call comes when just the segments of lower index are swept
  have hdone : ∀ g p, (g, p) ∈ m.heap.freedCalls level →
      ∃ done : List SegmentIndex, SweptBy m.heap level (· ∈ done) g ∧
        ∀ j, j ∈ done ↔ j ∈ m.heap.store.indices ∧ j < p.segment := by
    intro g p hp
    obtain ⟨done, rest, e, hg⟩ := hm.rowTold.heaps _ hp
    exact ⟨done, hg, fun j => mem_before (Store.sorted_indices _) e⟩
  refine ⟨?_, fun p => ?_, fun p hp => ?_, fun g p hp => ?_, fun g p hp q hq => ?_⟩
  · rw [hm.rowTold.objects]
    refine sorted_slots hm.formed fun s => ?_
    split
    · exact OffsetSet.sorted_members _
    · exact .nil
  · rw [hm.mem_freedCalls]
    constructor
    · intro hp
      have ha := (hf.isGarbage_iff.mp hp.1).1
      exact ⟨ha, (hc.isAllocated_iff hf ha).mpr hp.1, (hm.finalized_iff hf ha).mp hp.2⟩
    · intro hp
      exact ⟨(hc.isAllocated_iff hf hp.1).mp hp.2.1, (hm.finalized_iff hf hp.1).mpr hp.2.2⟩
  · have hg := hf.isGarbage_iff.mp (hm.mem_freedCalls.mp hp).1
    exact ⟨hg.2.1, hg.2.2.1⟩
  · obtain ⟨done, hg, hlt⟩ := hdone g p hp
    refine hm.intact hf hg (fun hd => ?_) (halloc p (List.mem_map_of_mem hp))
    exact Nat.lt_irrefl _ ((hlt _).mp hd).2
  · obtain ⟨done, hg, hlt⟩ := hdone g p hp
    have hidx : q.segment ∈ m.heap.store.indices := by
      obtain ⟨x, hx⟩ := hf.isAllocated_iff_lookup.mp hq
      rw [← hm.lookup] at hx
      obtain ⟨s, hs, _⟩ := lookup_eq_some.mp hx
      exact Store.mem_indices.mpr ⟨s, hs⟩
    rw [hm.gone_iff hf hc hg hq, hlt, and_iff_right hidx]

/-- The log after a collection is the log before it, and then the calls. -/
theorem log_of_collect {log : σ} {r : CollectionReport × σ}
    (e : collect tracer level log h = .ok r h') :
    r.2 = tracer.told ((h.mark tracer level).heap.freedCalls level) log := by
  simp only [collect] at e
  split at e
  · cases e
  · rw [reclaim_told] at e
    cases e
    rfl

/-- **Finalizers run exactly once, on objects that are still whole.** A
collection calls its tracer for the objects of finalized kinds that it
frees, in the order of their references, each on a heap that holds the
object as it was; what was freed by hand it does not call for. -/
theorem collect_finalizes (hr : h.Reachable) (tracer : Tracer σ) (level : Generation) :
    ∃ calls, (∀ log, Ends (collect tracer level log h)
        (fun r h' => r.2 = tracer.told calls log ∧ Finalizes h level calls h')
        (fun _ _ => False) (h.StrayFault tracer level)) ∧
      ∀ h₀ obj, h₀.Reachable → free obj h₀ = .ok () h → obj ∉ calls.map Prod.snd := by
  have hw := hr.wellFormed
  have hf := hw.toFormed
  have hm := marked hf tracer level
  refine ⟨(h.mark tracer level).heap.freedCalls level, fun log => ?_, fun h₀ obj hr₀ hfree hp => ?_⟩
  · have hends := collect_ends hw tracer level log
    exact hends.sharpen fun r h' e => ⟨log_of_collect e, hm.finalizes hf (hends.of_ok e)⟩
  · have ha := (hf.isGarbage_iff.mp (hm.mem_freedCalls.mp hp).1).1
    rw [(removed_of_free hr₀.wellFormed hfree).absent] at ha
    cases ha

/-- Two finalized kinds, one small and one big, and one that is not. -/
def finalizingLayout : RuleLayout where
  kinds := [{ tag := 1, size := .fixed 1, finalize := true }, { tag := 2, size := .fixed 1 },
    { tag := 3, size := .big, finalize := true }]
  rules := [⟨1, none, 0, 1, 0⟩, ⟨2, none, 1, 1, 0⟩, ⟨3, none, 2, 1, 0⟩]
  chunkBytes := 8

/-- An object of each kind, and one that is freed by hand, are dead. A
collection overwrites the first, a small one, before it calls for the big
one. -/
theorem collect_finalizes_dead : ∃ (h : Heap) (tracer : Tracer (List ObjRef)),
    h.Reachable ∧ h.occupancy.totalObjects = 3 ∧ ∃ calls report h',
      calls.map Prod.snd = [.ofSlot 0 0, .ofSlot 2 0] ∧
      collect tracer .zero [] h = .ok (report, calls.map Prod.snd) h' ∧
      Finalizes h .zero calls h' ∧ report.freed = 3 := by
  let tracer : Tracer (List ObjRef) :=
    { roots := [], refs := fun _ => [], freed := fun _ obj log => log ++ [obj] }
  let h₀ := (create smallConfig finalizingLayout.toLayout .standard).toOption.get
    (by decide +kernel)
  let h₁ := after (alloc 1 8) h₀
  let h₂ := after (alloc 2 8) h₁
  let h₃ := after (alloc 3 100) h₂
  let h₄ := after (alloc 1 8) h₃
  let h := after (free (.ofSlot 0 1)) h₄
  have hr₁ : h₁.Reachable := .alloc _ _ (.create (eq_ok_of_toOption (Option.some_get _).symm))
    (leaves_after (by decide +kernel))
  have hr₂ : h₂.Reachable := .alloc _ _ hr₁ (leaves_after (by decide +kernel))
  have hr₃ : h₃.Reachable := .alloc _ _ hr₂ (leaves_after (by decide +kernel))
  have hr₄ : h₄.Reachable := .alloc _ _ hr₃ (leaves_after (by decide +kernel))
  have hr : h.Reachable := .free _ hr₄ (leaves_after (by decide +kernel))
  have hrun : h.occupancy.totalObjects = 3 ∧
      (returned (collect tracer .zero []) h).map (fun r => (r.2, r.1.freed)) =
        some ([.ofSlot 0 0, .ofSlot 2 0], 3) := by
    decide +kernel
  obtain ⟨hobjects, hreturned⟩ := hrun
  obtain ⟨⟨report, log⟩, hreturned, hresult⟩ := Option.map_eq_some_iff.mp hreturned
  obtain ⟨hlog, hfreed⟩ := Prod.mk.inj hresult
  have he := eq_ok_of_returned hreturned
  obtain ⟨calls, hends, _⟩ := collect_finalizes hr tracer .zero
  obtain ⟨htold, hfinalizes⟩ := (hends []).of_ok he
  have hcalls : tracer.told calls [] = calls.map Prod.snd := foldl_concat Prod.snd calls []
  have hlog' : log = calls.map Prod.snd := htold.trans hcalls
  exact ⟨h, tracer, hr, hobjects, calls, report, _, hlog'.symm.trans hlog, hlog' ▸ he, hfinalizes,
    hfreed⟩

end Heap

end SegmentedHeap
