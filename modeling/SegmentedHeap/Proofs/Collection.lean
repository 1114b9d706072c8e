/-
SegmentedHeap.Proofs.Collection — what a collection does to a heap.

A collection at a level frees its garbage: the collectable objects in
scope that it does not keep. It leaves all others where they are, gives
those in scope a later generation, and makes the old-to-new set and the
queues anew. `Collected` says so of the heap afterwards in terms of the
heap before, and what each number of the report counts.

* `IsGarbage`, `Collected` — what goes, and what is left.
* `reclaim_collected` — the part after marking.
* `collect_ends` — **a collection**, which returns unless it met a stray
  reference where these are looked for.
* `allocRetrying_ends` — an allocation that collects if there is no room.
-/
import SegmentedHeap.Heap.Collect
import SegmentedHeap.Proofs.Counting
import SegmentedHeap.Proofs.Outcome
import SegmentedHeap.Proofs.Queueing

namespace SegmentedHeap

namespace Heap

variable {σ : Type} {h h' : Heap} {tracer : Tracer σ} {level : Generation} {q : ObjRef} {x : Object}

/-! ## What a collection leaves -/

/-- A collectable object in scope that a collection does not keep. -/
def IsGarbage (h : Heap) (tracer : Tracer σ) (level : Generation) (q : ObjRef) : Prop :=
  h.collectable q = true ∧ ¬ h.Kept tracer level q ∧
    ∃ x, h.lookup q = some x ∧ x.generation ≤ level

/-- An object that a collection at level one takes to generation two. -/
def ComesOfAge (h : Heap) (level : Generation) (q : ObjRef) : Prop :=
  level = .one ∧ h.collectable q = true ∧ ∃ x, h.lookup q = some x ∧ x.generation = .one

/-- Whether a small segment has the index. -/
def hasSmall (h : Heap) (i : SegmentIndex) : Bool := (h.store.segment? i).any (!·.isBig)

/-- No big segment is without its object. -/
def Full (h : Heap) : Prop :=
  ∀ i s, h.store.segment? i = some s → s.isBig = true → s.hasFree = false

/-- The objects of `h'` are those that a collection leaves of `h`. -/
structure Sifted (h : Heap) (tracer : Tracer σ) (level : Generation) (h' : Heap) : Prop where
  setting : SameSetting h h'
  absent : ∀ q, h.lookup q = none → h'.lookup q = none
  freed : ∀ q, h.IsGarbage tracer level q → h'.lookup q = none
  survived : ∀ q x, h.lookup q = some x → ¬ h.IsGarbage tracer level q → ∃ b,
    h'.lookup q = some { x.promoted level (h.collectable q) with remembered := b } ∧
      (b = true ↔ level ≠ .two ∧ (x.remembered = true ∨ h.ComesOfAge level q) ∧
        h'.YieldsYounger tracer q)

/-- A heap after a collection, and the report on it. -/
structure Collected (h : Heap) (tracer : Tracer σ) (level : Generation)
    (report : CollectionReport) (h' : Heap) : Prop extends Sifted h tracer level h' where
  wellFormed : h'.WellFormed
  level_eq : report.level = level
  marked : Counts (fun p => h.Kept tracer level p ∧ h.collectable p = true) report.marked
  swept : ∃ dead : List ObjRef, dead.Nodup ∧ (∀ p, p ∈ dead ↔ h.IsGarbage tracer level p) ∧
    report.freed = dead.length ∧ report.freedChunks = Word.total (dead.map h.chunksAt)
  promoted : Counts (fun p => ∃ x y, h.lookup p = some x ∧ h'.lookup p = some y ∧
    y.generation ≠ x.generation) report.promoted
  released : Counts (fun i => h.hasSmall i = true ∧ ∀ p : ObjRef, p.segment = i →
    h'.lookup p = none) report.released
  oldToNew : Counts (fun p => ∃ y, h'.lookup p = some y ∧ y.remembered = true) report.oldToNew

/-- An object of a heap after a collection was there before. -/
theorem Sifted.before {y : Object} (hs : Sifted h tracer level h') (hy : h'.lookup q = some y) :
    ∃ x, h.lookup q = some x ∧ ¬ h.IsGarbage tracer level q ∧
      y = { x.promoted level (h.collectable q) with remembered := y.remembered } := by
  cases hx : h.lookup q with
  | none =>
    rw [hs.absent q hx] at hy
    cases hy
  | some x =>
    have hg : ¬ h.IsGarbage tracer level q := fun hg => by
      rw [hs.freed q hg] at hy
      cases hy
    obtain ⟨b, hy', _⟩ := hs.survived q x hx hg
    rw [hy] at hy'
    cases hy'
    exact ⟨x, rfl, hg, rfl⟩

/-! ## Segments and their sizes -/

theorem hasSmall_of_mapSegments {f : Segment → Segment} (hf : ∀ s, (f s).isBig = s.isBig)
    (e : h'.mapSegments f = h.mapSegments f) (i : SegmentIndex) :
    h'.hasSmall i = h.hasSmall i := by
  have hany : ∀ o : Option Segment, (o.map f).any (!·.isBig) = o.any (!·.isBig) := by
    intro o
    cases o with
    | none => rfl
    | some s => simp [hf]
  rw [hasSmall, ← hany, segment?_of_mapSegments e, hany, hasSmall]

theorem full_of_mapSegments {f : Segment → Segment}
    (hf : ∀ s, (f s).isBig = s.isBig ∧ (f s).hasFree = s.hasFree)
    (e : h'.mapSegments f = h.mapSegments f) (hfull : h.Full) : h'.Full := by
  intro i t ht hb
  have hs := segment?_of_mapSegments e i
  rw [ht, Option.map_some] at hs
  obtain ⟨s, hs, hst⟩ := Option.map_eq_some_iff.mp hs.symm
  rw [← (hf t).1, ← hst, (hf s).1] at hb
  rw [← (hf t).2, ← hst, (hf s).2]
  exact hfull i s hs hb

theorem Swept.hasSmall_eq (hw : Swept h level h') (i : SegmentIndex) :
    h'.hasSmall i = h.hasSmall i := by
  rw [hasSmall, hasSmall, hw.segment?]
  cases h.store.segment? i with
  | none => rfl
  | some s =>
    rw [Option.bind_some, sweptSegment]
    split
    · cases ht : s.swept level with
      | none => simp [(Segment.swept_eq_none ht).1]
      | some t => simp [(Segment.sameShape_swept ht).isBig]
    · rfl

theorem Swept.full (hw : Swept h level h') (hfull : h.Full) : h'.Full := by
  intro i t ht hb
  rw [hw.segment?] at ht
  obtain ⟨s, hs, hst⟩ := Option.bind_eq_some_iff.mp ht
  rw [sweptSegment] at hst
  split at hst
  · have hb' : s.isBig = true := by rw [← (Segment.sameShape_swept hst).isBig]; exact hb
    rw [Segment.hasFree, Segment.free_swept_of_big hst hb']
    exact hfull i s hs hb'
  · cases hst
    exact hfull i t hs hb

/-- A segment is given back if it is small and names no object. -/
theorem givesBack_iff (hf : h.Formed) (i : SegmentIndex) :
    h.givesBack i = true ↔ h.hasSmall i = true ∧ ∀ p : ObjRef, p.segment = i →
      h.lookup p = none := by
  rw [givesBack, hasSmall]
  cases hs : h.store.segment? i with
  | none => simp
  | some s =>
    have hwf := hf.store.segment_wf i s hs
    have hi := Nat.le_of_lt (hf.store.index_lt hs)
    rw [Option.any_some, Option.any_some, Bool.and_eq_true, Segment.isEmpty_iff hwf]
    refine and_congr_right fun _ => ⟨fun he p hp => ?_, fun hn o ho => ?_⟩
    · rw [← hp] at hs
      rw [lookup_of_segment? hs, Segment.object?_of_not_mem (he _)]
    · have hx := hn (.ofSlot i o) (ObjRef.segment_ofSlot hi o)
      have hs' : h.store.segment? (ObjRef.ofSlot i o).segment = some s := by
        rw [ObjRef.segment_ofSlot hi]
        exact hs
      rw [lookup_of_segment? hs', ObjRef.offset_ofSlot hi, Segment.object?_of_mem ho] at hx
      cases hx

/-- What an object yields younger is a matter of the objects alone. -/
theorem yieldsYounger_congr (hf : h.Formed) (hf' : h'.Formed) (hk : h'.kinds = h.kinds)
    (hl : h'.lookup = h.lookup) (q : ObjRef) :
    h'.YieldsYounger tracer q ↔ h.YieldsYounger tracer q := by
  rw [YieldsYounger, YieldsYounger, refsOf_congr hf hf' hk (congrFun hl q), hl]

/-! ## After marking -/

section Reclaim

variable {m : Marking}

theorem Marked.lookup (hm : Marked h tracer level m) : m.heap.lookup = h.lookup :=
  lookup_of_sameMarks hm.same

theorem Marked.setting (hm : Marked h tracer level m) : SameSetting h m.heap :=
  setting_of_mapSegments hm.same

theorem Marked.collectable (hm : Marked h tracer level m) : m.heap.collectable = h.collectable := by
  funext q
  rw [Heap.collectable, Heap.collectable, hm.lookup, hm.setting.kinds]

/-- The doomed objects of a marked heap are the garbage. -/
theorem Marked.doomed_iff (hm : Marked h tracer level m) (q : ObjRef) :
    m.heap.Doomed level q ↔ h.IsGarbage tracer level q := by
  rw [Doomed, IsGarbage, hm.collectable, hm.marks, hm.lookup]

/-- The objects that move are those in scope that are kept and not of
generation two. -/
theorem Marked.moves_iff (hm : Marked h tracer level m) (q : ObjRef) (x : Object) :
    m.heap.Moves level q x ↔ h.lookup q = some x ∧ ¬ h.IsGarbage tracer level q ∧
      (x.promoted level (h.collectable q)).generation ≠ x.generation := by
  rw [Moves, hm.lookup, hm.collectable, hm.marks, IsGarbage, Object.promoted]
  constructor
  · intro hx
    obtain ⟨hx, hc, hk, hg, hne⟩ := hx
    refine ⟨hx, fun hn => hn.2.1 hk, ?_⟩
    rw [if_pos ⟨hc, hg⟩]
    exact hne
  · intro hx
    obtain ⟨hx, hn, hne⟩ := hx
    split at hne
    · next hc =>
      refine ⟨hx, hc.1, ?_, hc.2, hne⟩
      exact Classical.byContradiction fun hk => hn ⟨hc.1, hk, x, hx, hc.2⟩
    · exact absurd rfl hne

/-- Those among them that leave generation one come of age. -/
theorem Marked.aged_iff (hm : Marked h tracer level m) (hl : level ≠ .two)
    (hx : h.lookup q = some x) (hg : ¬ h.IsGarbage tracer level q) :
    (∃ x, m.heap.Moves level q x ∧ x.generation = .one) ↔ h.ComesOfAge level q := by
  simp only [hm.moves_iff, hx, Option.some.injEq, ComesOfAge]
  constructor
  · intro hy
    obtain ⟨y, ⟨rfl, _, hne⟩, hone⟩ := hy
    rw [Object.promoted] at hne
    split at hne
    · next hc =>
      refine ⟨?_, hc.1, x, rfl, hone⟩
      rw [hone] at hc
      cases level with
      | zero => exact absurd hc.2 (by decide)
      | one => rfl
      | two => exact absurd rfl hl
    · exact absurd rfl hne
  · intro hy
    obtain ⟨rfl, hc, y, rfl, hone⟩ := hy
    refine ⟨x, ⟨rfl, hg, ?_⟩, hone⟩
    rw [Object.promoted, hone, if_pos ⟨hc, by decide⟩]
    intro e
    cases e

/-- **Sweeping a marked heap and making its old-to-new set anew** leaves
what a collection leaves. -/
theorem Marked.sifted {g₁ g₂ : Heap} {aged : List ObjRef} (hm : Marked h tracer level m)
    (hs : Swept m.heap level g₁) (hr : Reckoned g₁ tracer level aged g₂)
    (haged : ∀ q, q ∈ aged ↔ ∃ x, m.heap.Moves level q x ∧ x.generation = .one) :
    Sifted h tracer level g₂ where
  setting := hm.setting.trans (hs.setting.trans hr.same.setting)
  absent q hx := hr.same.lookup_none (hs.lookup_of_none (by rw [hm.lookup]; exact hx))
  freed q hg := hr.same.lookup_none (hs.lookup_of_doomed ((hm.doomed_iff q).mpr hg))
  survived q x hx hg := by
    have hx₁ := hs.lookup_of_survivor hm.formed (by rw [hm.lookup]; exact hx)
      (fun hd => hg ((hm.doomed_iff q).mp hd))
    rw [hm.collectable] at hx₁
    obtain ⟨b, hy, hb⟩ := hr.remembered q _ hx₁
    refine ⟨b, hy, hb.trans (and_congr_right fun hl => ?_)⟩
    rw [haged, hm.aged_iff hl hx hg, hr.same.yieldsYounger hs.formed hr.formed]
    exact Iff.rfl

/-- An object that is never collected is not promoted. -/
theorem Sifted.permanent (hp : h.Permanent) (hs : Sifted h tracer level h') : h'.Permanent := by
  intro q y spec hy hspec hu
  obtain ⟨x, hx, _, e⟩ := hs.before hy
  rw [hs.setting.kinds, e] at hspec
  have hspec : h.kinds.get? x.kind = some spec := hspec
  have hc : h.collectable q = false := by
    rw [Heap.collectable, hx, Option.bind_some, hspec, Option.any_some, hu]
    rfl
  rw [e, hc]
  show (x.promoted level false).generation = .two
  simp only [Object.promoted, Bool.false_eq_true, false_and, if_false]
  exact hp q x spec hx hspec hu

/-- The same objects sift the same way. -/
theorem Sifted.congr {g : Heap} (hs : Sifted h tracer level g) (hf : g.Formed) (hf' : h'.Formed)
    (hset : SameSetting g h') (hl : h'.lookup = g.lookup) : Sifted h tracer level h' where
  setting := hs.setting.trans hset
  absent q hx := by rw [hl]; exact hs.absent q hx
  freed q hg := by rw [hl]; exact hs.freed q hg
  survived q x hx hg := by
    rw [hl, yieldsYounger_congr hf hf' hset.kinds hl]
    exact hs.survived q x hx hg

/-- The objects that move are those whose generation a collection
changes. -/
theorem Marked.moves_iff_changed (hm : Marked h tracer level m) (hs : Sifted h tracer level h')
    (q : ObjRef) : (∃ x, m.heap.Moves level q x) ↔ ∃ x y, h.lookup q = some x ∧
      h'.lookup q = some y ∧ y.generation ≠ x.generation := by
  simp only [hm.moves_iff]
  constructor
  · intro hx
    obtain ⟨x, hx, hg, hne⟩ := hx
    obtain ⟨b, hy, _⟩ := hs.survived q x hx hg
    exact ⟨x, _, hx, hy, hne⟩
  · intro hx
    obtain ⟨x, y, hx, hy, hne⟩ := hx
    obtain ⟨x', hx', hg, e⟩ := hs.before hy
    rw [hx] at hx'
    cases hx'
    rw [e] at hne
    exact ⟨x, hx, hg, hne⟩

/-! ## The report, and the counters -/

/-- Recording a collection changes counters only. -/
theorem recorded_collection (h : Heap) (metrics : Metrics) (level : Generation) :
    SameSetting h ({ h with metrics := metrics }.countCollection level) ∧
    ({ h with metrics := metrics }.countCollection level).store = h.store ∧
    ({ h with metrics := metrics }.countCollection level).queues = h.queues := by
  cases level <;> exact ⟨⟨rfl, rfl, rfl, .refl _⟩, rfl, rfl⟩

theorem lookup_of_store (hstore : h'.store = h.store) : h'.lookup = h.lookup := by
  funext q
  rw [Heap.lookup, Heap.lookup, hstore]

theorem Filed.of_store (hq : h.Filed) (hkinds : h'.kinds = h.kinds)
    (hqueues : h'.queues = h.queues) (hstore : h'.store = h.store) : h'.Filed := by
  refine hq.congr hkinds hqueues (fun i t ht => ?_) fun i s hs => ⟨s, ?_⟩
  · rw [hstore] at ht
    exact ⟨t, ht, rfl, rfl, rfl, rfl⟩
  · rw [hstore]
    exact hs

theorem Marked.hasSmall_eq (hm : Marked h tracer level m) (i : SegmentIndex) :
    m.heap.hasSmall i = h.hasSmall i :=
  hasSmall_of_mapSegments (f := Segment.clearMarks) (fun _ => rfl) hm.same i

theorem Marked.full (hm : Marked h tracer level m) (hfull : h.Full) : m.heap.Full :=
  full_of_mapSegments (f := Segment.clearMarks) (fun _ => ⟨rfl, rfl⟩) hm.same hfull

/-- The segments given back are the small ones that are left without an
object. -/
theorem Refiled.counts_released {g : Heap} {n : Nat} (hq : Refiled g h' n) (hf : g.Formed)
    (hsmall : ∀ i, g.hasSmall i = h.hasSmall i) :
    Counts (fun i => h.hasSmall i = true ∧ ∀ p : ObjRef, p.segment = i → h'.lookup p = none) n := by
  refine ⟨_, (Store.nodup_indices _).filter _, fun i => ?_, hq.released⟩
  rw [List.mem_filter, givesBack_iff hf, hsmall, hq.lookup]
  refine ⟨And.right, fun hi => ⟨?_, hi⟩⟩
  have hs := hi.1
  rw [← hsmall, hasSmall] at hs
  obtain ⟨s, hs, _⟩ := (Option.any_eq_true _ _).mp hs
  exact Store.mem_indices.mpr ⟨s, hs⟩

/-- A marked heap that is swept, and its old-to-new set made anew. -/
def renewed (m : Marking) (tracer : Tracer σ) (level : Generation) (log : σ) : Heap :=
  let swept := m.heap.sweep tracer level log
  swept.heap.renewOldToNew tracer level swept.aged

/-- **Making the queues anew** comes last. No segment has changed size by
then, and no big one is without its object. -/
theorem Marked.refiled (hw : h.WellFormed) (hm : Marked h tracer level m) (log : σ) :
    let g := renewed m tracer level log
    g.Formed ∧ g.Full ∧ (∀ i, g.hasSmall i = h.hasSmall i) ∧
      Refiled g g.rebuildQueues.1 g.rebuildQueues.2 := by
  intro g
  have hs := (sweep_eq hm.formed tracer level log).1
  have hr : Reckoned _ tracer level _ g := renewOldToNew_reckoned hs.formed tracer level _
  have hfull : g.Full :=
    full_of_mapSegments (f := Segment.clearOldToNew) (fun _ => ⟨rfl, rfl⟩) hr.same
      (hs.full (hm.full hw.full))
  have hsize : g.queues.size = g.kinds.size := by
    rw [hr.same.queues, hs.queues, queues_of_mapSegments hm.same, hr.same.setting.kinds,
      hs.setting.kinds, hm.setting.kinds]
    exact hw.size
  refine ⟨hr.formed, hfull, fun i => ?_, rebuildQueues_filed hr.formed hsize hfull⟩
  exact (hasSmall_of_mapSegments (f := Segment.clearOldToNew) (fun _ => rfl) hr.same i).trans
    ((hs.hasSmall_eq i).trans (hm.hasSmall_eq i))

/-- **The part after marking.** -/
theorem reclaim_collected (hw : h.WellFormed) (hm : Marked h tracer level m) (log : σ) :
    Collected h tracer level (reclaim m tracer level log).1.1 (reclaim m tracer level log).2 := by
  obtain ⟨_, _, hsmall, hq⟩ := hm.refiled hw log
  simp only [renewed] at hsmall hq
  simp only [reclaim]
  -- The phases in turn: sweep, renew the old-to-new sets, rebuild the queues,
  -- record. Each leaves what the next one starts from.
  obtain ⟨hs, hall⟩ := sweep_eq hm.formed tracer level log
  generalize m.heap.sweep tracer level log = swept at hs hall hsmall hq
  have haged : ∀ q, q ∈ swept.aged ↔ ∃ x, m.heap.Moves level q x ∧ x.generation = .one := by
    intro q
    rw [hall.aged]
    exact mem_aged hm.formed
  have hr := renewOldToNew_reckoned hs.formed tracer level swept.aged
  have hsift := hm.sifted hs hr haged
  generalize swept.heap.renewOldToNew tracer level swept.aged = renewed at hr hsift hsmall hq
  have hsize := counts_oldToNew hr.formed
  generalize renewed.rebuildQueues = filed at hq
  obtain ⟨hset, hstore, hqueues⟩ := recorded_collection filed.1 (filed.1.metrics.recordCollection
    { level, marked := m.counted, freed := swept.freed, freedChunks := swept.freedChunks
      promoted := swept.promoted, released := filed.2, oldToNew := renewed.oldToNewSize }) level
  have hl := (lookup_of_store hstore).trans hq.lookup
  have hf := hq.formed.congr hstore hset.kinds
  have hsift' := hsift.congr hr.formed hf (hq.setting.trans hset) hl
  refine {
    toSifted := hsift'
    wellFormed := ⟨hf, hq.filed.of_store hset.kinds hqueues hstore, hsift'.permanent hw.permanent⟩
    level_eq := rfl
    marked := hm.counted
    swept := ⟨_, nodup_dead hm.formed level, fun p => ?_, ?_, ?_⟩
    promoted := ⟨_, nodup_moved hm.formed level, fun p => ?_, ?_⟩
    released := ?_
    oldToNew := hsize.congr fun p => ?_ }
  · exact (mem_dead hm.formed).trans (hm.doomed_iff p)
  · exact hall.freed.trans (Nat.zero_add _)
  · refine (hall.freedChunks.trans (Nat.zero_add _)).trans
      ((total_deadChunks hm.formed level).trans ?_)
    refine congrArg Word.total (List.map_congr_left fun p _ => ?_)
    rw [chunksAt, chunksAt, hm.lookup]
  · exact (mem_moved hm.formed).trans (hm.moves_iff_changed hsift' p)
  · exact hall.promoted.trans (Nat.zero_add _)
  · refine (hq.counts_released hr.formed hsmall).congr fun i => ?_
    rw [lookup_of_store hstore]
  · rw [hl]

end Reclaim

/-! ## The whole collection -/

/-- The fault of a collection that met a reference that names nothing. -/
def StrayFault (h : Heap) (tracer : Tracer σ) (level : Generation) (f : Fault) : Prop :=
  h.config.checkRefs = true ∧ ∃ p, f = .strayReference p ∧ h.Met tracer level p ∧ p ≠ .null ∧
    h.lookup p = none

/-- **A collection returns**, unless references are to be checked and it
met one that names nothing. -/
theorem collect_ends (hw : h.WellFormed) (tracer : Tracer σ) (level : Generation) (log : σ) :
    Ends (collect tracer level log h) (fun r h' => Collected h tracer level r.1 h')
      (fun _ _ => False) (h.StrayFault tracer level) := by
  have hm := marked hw.toFormed tracer level
  simp only [collect]
  generalize h.mark tracer level = m at hm
  rw [hm.setting.config]
  by_cases hcheck : h.config.checkRefs = true
  · rw [if_pos hcheck]
    cases hstray : m.stray with
    | none => exact reclaim_collected hw hm log
    | some p => exact ⟨hcheck, p, rfl, hm.stray p hstray⟩
  · rw [if_neg hcheck]
    exact reclaim_collected hw hm log

/-! ## Allocations that may collect -/

/-- The heap with other totals. -/
def withMetrics (h : Heap) (metrics : Metrics) : Heap := { h with metrics }

theorem WellFormed.withMetrics (hw : h.WellFormed) (metrics : Metrics) :
    (h.withMetrics metrics).WellFormed :=
  ⟨hw.toFormed.congr rfl rfl, hw.toFiled.of_store rfl rfl rfl, hw.permanent⟩

/-- What a request comes to is a matter of the setting. -/
theorem request_congr (hs : SameSetting h h') (tag : TypeTag) (length : Nat) :
    h'.request tag length = h.request tag length := by
  have hc : h'.requestedChunks = h.requestedChunks := by
    funext spec length
    rw [requestedChunks, requestedChunks, hs.layout, maxBigChunks, maxBigChunks, Store.chunkBytes,
      Store.chunkBytes, hs.geometry.chunkBits]
  rw [request, request, hs.layout, hs.kinds, hc]

/-- An attempt ends as the operation did. -/
theorem of_attempt {α : Type} {act : HeapM α} {r : Except HeapError α}
    (he : attempt act h = .ok r h') :
    (∃ a, r = .ok a ∧ act h = .ok a h') ∨ ∃ e, r = .error e ∧ act h = .error (.refused e) h' := by
  unfold attempt at he
  cases ha : act h with
  | ok a h₁ =>
    rw [ha] at he
    cases he
    exact Or.inl ⟨a, rfl, rfl⟩
  | error e h₁ =>
    rw [ha] at he
    cases e with
    | refused e =>
      cases he
      exact Or.inr ⟨e, rfl, rfl⟩
    | fault f => cases he

/-- The ways in which an allocation with a retry goes: with one try, or, if
that was refused as exhausted, with a second one after a full collection.
The retry is counted before the collection and its outcome at the end. -/
inductive Tries (h : Heap) (tracer : Tracer σ) (tag : TypeTag) (length : Nat) (log : σ) :
    Except HeapError ObjRef × σ → Heap → Prop where
  | once {r : Except HeapError ObjRef} {h' : Heap} : attempt (alloc tag length) h = .ok r h' →
      (∀ e, r = .error e → e.isExhausted = false) → Tries h tracer tag length log (r, log) h'
  | twice {e : HeapError} {report : CollectionReport} {log' : σ} {r : Except HeapError ObjRef}
      {h₁ h₂ : Heap} : alloc tag length h = .error (.refused e) h → e.isExhausted = true →
      collect tracer .two log (h.withMetrics h.metrics.recordRetry) = .ok (report, log') h₁ →
      attempt (alloc tag length) h₁ = .ok r h₂ →
      Tries h tracer tag length log (r, log') (h₂.withMetrics (h₂.metrics.recordRetried r.isOk))

theorem tries_of_allocRetrying (hw : h.WellFormed) {tag : TypeTag} {length : Nat} {log : σ}
    {r : Except HeapError ObjRef × σ} (he : allocRetrying tracer tag length log h = .ok r h') :
    Tries h tracer tag length log r h' := by
  obtain ⟨tried, h₀, htry, hrest⟩ := bind_eq_ok he
  rcases of_attempt htry with ⟨obj, rfl, _⟩ | ⟨e, rfl, ha⟩
  · cases hrest
    exact .once htry nofun
  · obtain rfl : h₀ = h := ((alloc_ends hw tag length).of_refused ha).1
    by_cases hex : e.isExhausted = true
    · obtain ⟨_, _, hmod, hrest⟩ := bind_eq_ok ((congrFun (if_pos hex) _).symm.trans hrest)
      cases hmod
      obtain ⟨_, _, hcollect, hrest⟩ := bind_eq_ok hrest
      obtain ⟨_, _, hagain, hrest⟩ := bind_eq_ok hrest
      obtain ⟨_, _, hmod, hrest⟩ := bind_eq_ok hrest
      cases hmod
      cases hrest
      exact .twice ha hex hcollect hagain
    · cases (congrFun (if_neg hex) _).symm.trans hrest
      refine .once htry fun e' he' => ?_
      cases he'
      exact Bool.eq_false_iff.mpr hex

/-- How an attempt to allocate ended. -/
def Tried (h : Heap) (tag : TypeTag) (length : Nat) (r : Except HeapError ObjRef) (h' : Heap) :
    Prop :=
  match r with
  | .ok obj => Allocated h tag length obj h'
  | .error e => AllocRefused h tag length e h'

theorem tried_ends (hw : h.WellFormed) (tag : TypeTag) (length : Nat) :
    Ends (attempt (alloc tag length) h) (h.Tried tag length) (fun _ _ => False)
      (h.AllocFault tag length) := by
  have ha := alloc_ends hw tag length
  unfold attempt
  cases hr : alloc tag length h with
  | ok obj h' =>
    rw [hr] at ha
    exact ha
  | error e h' =>
    rw [hr] at ha
    cases e <;> exact ha

/-- How an attempt to allocate ended that was made after a full
collection. -/
def TriedAgain (h : Heap) (tracer : Tracer σ) (tag : TypeTag) (length : Nat)
    (r : Except HeapError ObjRef) (h' : Heap) : Prop :=
  ∃ before report h₁ h₂ after, Collected (h.withMetrics before) tracer .two report h₁ ∧
    Tried h₁ tag length r h₂ ∧ h' = h₂.withMetrics after

/-- **The second try** comes after a collection that meets no stray
reference, and then ends as any allocation. -/
theorem allocAgain_ends (hw : h.WellFormed) (tracer : Tracer σ) (tag : TypeTag) (length : Nat)
    (log : σ) :
    Ends (allocAgain tracer tag length log h) (fun r h' => TriedAgain h tracer tag length r.1 h')
      (fun _ _ => False) (fun f => (∃ metrics, (h.withMetrics metrics).StrayFault tracer .two f) ∨
        h.AllocFault tag length f) := by
  unfold allocAgain
  refine Ends.modify_bind ?_
  refine Ends.bind ((collect_ends (hw.withMetrics _) tracer .two log).mono (fun _ _ hc => hc)
    (fun _ _ hn => hn.elim) fun f hf => Or.inl ⟨_, hf⟩) fun r h₁ hc => ?_
  refine Ends.bind ((tried_ends hc.wellFormed tag length).mono (fun _ _ ht => ht)
    (fun _ _ hn => hn.elim) fun f hf => Or.inr ?_) fun tried h₂ ht => ?_
  · exact hf.imp hc.setting.geometry.oversized fun e =>
      (request_congr hc.setting tag length).symm.trans e
  · exact ⟨_, r.1, h₁, h₂, _, hc, ht, rfl⟩

/-- **An allocation that collects if there is no room.** -/
theorem allocRetrying_ends (hw : h.WellFormed) (tracer : Tracer σ) (tag : TypeTag) (length : Nat)
    (log : σ) :
    Ends (allocRetrying tracer tag length log h)
      (fun r h' => Tried h tag length r.1 h' ∨ TriedAgain h tracer tag length r.1 h')
      (fun _ _ => False) (fun f => (∃ metrics, (h.withMetrics metrics).StrayFault tracer .two f) ∨
        h.AllocFault tag length f) := by
  unfold allocRetrying
  refine Ends.bind ((tried_ends hw tag length).mono (fun _ _ ht => ht) (fun _ _ hn => hn.elim)
    fun f hf => Or.inr hf) fun tried h₁ ht => ?_
  cases tried with
  | ok obj => exact Or.inl ht
  | error e =>
    have hsame : h₁ = h := ht.1
    subst hsame
    cases he : e.isExhausted with
    | false =>
      simp only [he, Bool.false_eq_true, if_false]
      exact Or.inl ht
    | true =>
      simp only [he, if_true]
      exact (allocAgain_ends hw tracer tag length log).imp fun _ _ ht => Or.inr ht

end Heap

end SegmentedHeap
