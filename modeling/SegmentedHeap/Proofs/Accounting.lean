/-
SegmentedHeap.Proofs.Accounting — the books of a heap balance.

A heap counts what it allocates, what is freed one by one and what its
collections free, on paths that have nothing to do with the sets of slots
that its occupancy is summed up from. In a run the two agree: everything
ever allocated is there, or was freed in one of the two ways. The totals
of collections are those of the reports that they gave, the collections
inside an allocation with a retry included.

* `Metrics.Tallies` — what the totals have to do with each other.
* `retryReports` — the reports that no caller sees.
* `Recorded` — the heaps of a run, with the reports of its collections.
* `Settles` — what one collection does to the occupancy.
* `books_balance` — **the books of a run balance**.
-/
import SegmentedHeap.Proofs.Counters
import SegmentedHeap.Proofs.Occupancy

namespace SegmentedHeap

/-! ## The totals -/

/-- A sum over reports, with one more report. -/
theorem total_concat (f : CollectionReport → Nat) (reports : List CollectionReport)
    (r : CollectionReport) :
    Word.total ((reports ++ [r]).map f) = Word.total (reports.map f) + f r := by
  rw [List.map_append, Word.total_append]
  rfl

/-- The totals of a heap of `live` objects, whose collections gave these
reports. -/
structure Metrics.Tallies (m : Metrics) (reports : List CollectionReport) (live : Nat) :
    Prop where
  objects : m.allocated.count = live + m.freed + m.explicitFrees
  counts : m.single.count + m.small.count + m.big.count = m.allocated.count
  bytes : m.single.bytes + m.small.bytes + m.big.bytes = m.allocated.bytes
  collections : ∀ g, m.collections.get g = (reports.filter (·.level = g)).length
  freed : m.freed = Word.total (reports.map (·.freed))
  promoted : m.promoted = Word.total (reports.map (·.promoted))
  released : m.released = Word.total (reports.map (·.released))

namespace Metrics.Tallies

variable {m : Metrics} {reports : List CollectionReport} {live : Nat}

theorem start : Metrics.Tallies {} [] 0 :=
  ⟨rfl, rfl, rfl, fun g => ByGeneration.get_replicate 0 g, rfl, rfl, rfl⟩

theorem recordAllocation (h : m.Tallies reports live) (bytes : Nat) (sizeClass : SizeClass) :
    (m.recordAllocation bytes sizeClass).Tallies reports (live + 1) := by
  have hobjects := h.objects
  have hcounts := h.counts
  have hbytes := h.bytes
  cases sizeClass <;>
    refine ⟨?_, ?_, ?_, h.collections, h.freed, h.promoted, h.released⟩ <;>
    simp only [Metrics.recordAllocation, Tally.add] <;> omega

theorem recordFree (h : m.Tallies reports (live + 1)) : m.recordFree.Tallies reports live := by
  refine ⟨?_, h.counts, h.bytes, h.collections, h.freed, h.promoted, h.released⟩
  have hobjects := h.objects
  simp only [Metrics.recordFree]
  omega

theorem recordCollection {r : CollectionReport} (h : m.Tallies reports (live + r.freed)) :
    (m.recordCollection r).Tallies (reports ++ [r]) live := by
  refine ⟨?_, h.counts, h.bytes, fun g => ?_, ?_, ?_, ?_⟩
  · have hobjects := h.objects
    simp only [Metrics.recordCollection]
    omega
  · simp only [Metrics.recordCollection, ByGeneration.get_modify, h.collections,
      List.filter_append, List.length_append]
    by_cases hg : r.level = g
    · simp [hg]
    · simp [hg]
  all_goals simp only [Metrics.recordCollection, h.freed, h.promoted, h.released, total_concat]

/-- Retries have a tally of their own. -/
theorem recordRetry (h : m.Tallies reports live) : m.recordRetry.Tallies reports live :=
  ⟨h.objects, h.counts, h.bytes, h.collections, h.freed, h.promoted, h.released⟩

theorem recordRetried (h : m.Tallies reports live) (success : Bool) :
    (m.recordRetried success).Tallies reports live :=
  ⟨h.objects, h.counts, h.bytes, h.collections, h.freed, h.promoted, h.released⟩

end Metrics.Tallies

/-- The chunks of all objects. -/
def Occupancy.totalChunks (s : Occupancy) : Nat := s.chunks.total + s.uncollectedChunks

namespace Heap

variable {σ : Type} {h h' : Heap} {p : ObjRef} {x : Object} {tracer : Tracer σ}
  {level : Generation} {reports : List CollectionReport}

/-! ## The number of objects -/

theorem totalObjects_eq_zero (hf : h.Formed) (hn : ∀ p, ¬ h.isAllocated p = true) :
    h.occupancy.totalObjects = 0 :=
  (counts_all hf).unique
    ⟨[], List.nodup_nil, fun p => iff_of_false List.not_mem_nil (hn p), rfl⟩

/-- Objects that are there before and after are as many. -/
theorem totalObjects_congr (hf : h.Formed) (hf' : h'.Formed)
    (hiff : ∀ p, h'.isAllocated p = true ↔ h.isAllocated p = true) :
    h'.occupancy.totalObjects = h.occupancy.totalObjects :=
  (counts_all hf').unique ((counts_all hf).congr fun p => (hiff p).symm)

/-- A heap with one object more than another. -/
theorem totalObjects_succ (hf : h.Formed) (hf' : h'.Formed) (hp : ¬ h.isAllocated p = true)
    (hiff : ∀ q, h'.isAllocated q = true ↔ h.isAllocated q = true ∨ q = p) :
    h'.occupancy.totalObjects = h.occupancy.totalObjects + 1 := by
  have hsum := (totals_one_iff.mpr (counts_all hf)).or (totals_singleton p fun _ => 1)
    fun q hq e => hp (e ▸ hq)
  exact (counts_all hf').unique ((totals_one_iff.mp hsum).congr fun q => (hiff q).symm)

theorem Allocated.totalObjects {tag : TypeTag} {length : Nat} (hw : h.WellFormed)
    (ha : Allocated h tag length p h') :
    h'.occupancy.totalObjects = h.occupancy.totalObjects + 1 := by
  obtain ⟨_, x, _, _, _, _, hx⟩ := ha.object
  refine totalObjects_succ hw.toFormed ha.wellFormed.toFormed
    (Bool.eq_false_iff.mp (hw.not_isAllocated_iff_lookup.mpr ha.fresh)) fun q => ?_
  rw [ha.wellFormed.isAllocated_iff_lookup, hw.isAllocated_iff_lookup]
  by_cases e : q = p
  · exact iff_of_true ⟨_, e ▸ hx⟩ (Or.inr e)
  · rw [ha.others q e]
    exact (or_iff_left e).symm

theorem Changed.totalObjects (hw : h.WellFormed) (hx : h.lookup p = some x)
    (hc : Changed h p none h') : h.occupancy.totalObjects = h'.occupancy.totalObjects + 1 := by
  refine totalObjects_succ hc.formed hw.toFormed
    (Bool.eq_false_iff.mp (hc.formed.not_isAllocated_iff_lookup.mpr hc.lookup_self)) fun q => ?_
  rw [hw.isAllocated_iff_lookup, hc.formed.isAllocated_iff_lookup]
  by_cases e : q = p
  · exact iff_of_true ⟨x, e ▸ hx⟩ (Or.inr e)
  · rw [hc.lookup_other e]
    exact (or_iff_left e).symm

/-! ## One collection -/

/-- A collectable object in the scope of a collection. -/
def InScope (h : Heap) (level : Generation) (p : ObjRef) : Prop :=
  h.isAllocated p = true ∧ h.isUncollected p = .ok false ∧
    ∃ g, h.generationOf p = .ok g ∧ g ≤ level

/-- What a collection does to the occupancy, by its report. -/
structure Settles (h : Heap) (level : Generation) (r : CollectionReport) (h' : Heap) : Prop where
  scope : Counts (h.InScope level) (r.marked + r.freed)
  objects : h'.occupancy.totalObjects + r.freed = h.occupancy.totalObjects
  chunks : h'.occupancy.totalChunks + r.freedChunks = h.occupancy.totalChunks

/-- What is kept and collectable is in scope. -/
theorem Kept.inScope (hf : h.Formed) (hk : h.Kept tracer level p) (hc : h.collectable p = true) :
    h.InScope level p := by
  obtain ⟨x, spec, hx, hspec, hor⟩ := hk.eligible
  obtain ⟨ha, hu⟩ := hf.collectable_iff.mp hc
  refine ⟨ha, hu, x.generation, generationOf_of_lookup hx, ?_⟩
  rw [isUncollected_of_lookup hx hspec] at hu
  exact hor.resolve_left (by rw [Except.ok.inj hu]; exact Bool.false_ne_true)

/-- What is there before a collection is there after it, or is garbage. -/
theorem Collected.isAllocated_or_garbage_iff {r : CollectionReport} (hw : h.WellFormed)
    (hc : Collected h tracer level r h') (q : ObjRef) :
    h'.isAllocated q = true ∨ h.IsGarbage tracer level q ↔ h.isAllocated q = true := by
  constructor
  · intro hq
    rcases hq with hq | hq
    · exact (hc.exactly hw).makes q hq
    · exact (hw.toFormed.isGarbage_iff.mp hq).1
  · intro hq
    by_cases hg : h.IsGarbage tracer level q
    · exact Or.inr hg
    · refine Or.inl (Bool.not_eq_false _ ▸ fun hn => hg ?_)
      exact (hc.isAllocated_iff hw.toFormed hq).mp hn

theorem Collected.not_garbage {r : CollectionReport} (hc : Collected h tracer level r h')
    {q : ObjRef} (hq : h'.isAllocated q = true) : ¬ h.IsGarbage tracer level q := by
  intro hg
  obtain ⟨y, hy⟩ := hc.wellFormed.toFormed.isAllocated_iff_lookup.mp hq
  rw [hc.freed q hg] at hy
  cases hy

/-- What is in scope is marked, or is garbage. -/
theorem Formed.marked_or_garbage_iff (hf : h.Formed) (q : ObjRef) :
    (h.Kept tracer level q ∧ h.collectable q = true) ∨ h.IsGarbage tracer level q ↔
      h.InScope level q := by
  constructor
  · intro hq
    rcases hq with ⟨hk, hcol⟩ | hg
    · exact hk.inScope hf hcol
    · obtain ⟨ha, hu, hgen, _⟩ := hf.isGarbage_iff.mp hg
      exact ⟨ha, hu, hgen⟩
  · intro hq
    obtain ⟨ha, hu, hgen⟩ := hq
    by_cases hk : h.Kept tracer level q
    · exact Or.inl ⟨hk, hf.collectable_iff.mpr ⟨ha, hu⟩⟩
    · exact Or.inr (hf.isGarbage_iff.mpr ⟨ha, hu, hgen, hk⟩)

/-- **A collection marks or frees what is in its scope**, and what it frees
is missing afterwards. -/
theorem Collected.settles {r : CollectionReport} (hw : h.WellFormed)
    (hc : Collected h tracer level r h') : h.Settles level r h' := by
  have hf := hw.toFormed
  have hf' := hc.wellFormed.toFormed
  obtain ⟨dead, hnodup, hmem, hfreed, hchunks⟩ := hc.swept
  have hcount : Counts (h.IsGarbage tracer level) r.freed := ⟨dead, hnodup, hmem, hfreed⟩
  have hvolume : Totals (h.IsGarbage tracer level) h.chunksAt r.freedChunks :=
    ⟨dead, hnodup, hmem, hchunks⟩
  have halloc := hc.isAllocated_or_garbage_iff hw
  have hapart : ∀ q, h'.isAllocated q = true → ¬ h.IsGarbage tracer level q :=
    fun _ => hc.not_garbage
  refine ⟨?_, ?_, ?_⟩
  · have hsum := (totals_one_iff.mpr hc.marked).or (totals_one_iff.mpr hcount)
      fun q hq hg => hg.2.1 hq.1
    exact (totals_one_iff.mp hsum).congr hf.marked_or_garbage_iff
  · have hsum := (totals_one_iff.mpr (counts_all hf')).or (totals_one_iff.mpr hcount) hapart
    exact ((totals_one_iff.mp hsum).congr halloc).unique (counts_all hf)
  · have hsum := ((totals_allChunks hf').congr (fun _ => Iff.rfl) (d := h.chunksAt)
      fun q hq => ?_).or hvolume hapart
    · exact (hsum.congr halloc fun _ _ => rfl).unique (totals_allChunks hf)
    · -- a survivor has the chunks that it had
      obtain ⟨y, hy⟩ := hf'.isAllocated_iff_lookup.mp hq
      obtain ⟨x, hx, _, e⟩ := hc.before hy
      rw [chunksAt, chunksAt, hx, hy, e]
      rfl

/-! ## Runs -/

/-- The reports of the collections inside an allocation with a retry: there
is one if the first try found no room. -/
def retryReports (tracer : Tracer σ) (tag : TypeTag) (length : Nat) (log : σ) (h : Heap) :
    List CollectionReport :=
  match alloc tag length h with
  | .error (.refused e) h₁ =>
    if e.isExhausted then
      match collect tracer .two log (h₁.withMetrics h₁.metrics.recordRetry) with
      | .ok (report, _) _ => [report]
      | .error _ _ => []
    else []
  | _ => []

/-- The heaps of the runs of a program, each with the reports of the
collections that came before. -/
inductive Recorded : Heap → List CollectionReport → Prop where
  | create {config : Config} {layout : ObjectLayout} {system : System} {h : Heap} :
      create config layout system = .ok h → Recorded h []
  | alloc {h h' : Heap} {reports : List CollectionReport} (tag : TypeTag) (length : Nat) :
      Recorded h reports → Leaves (alloc tag length) h h' → Recorded h' reports
  | allocRetrying {σ : Type} {h h' : Heap} {reports : List CollectionReport}
      {r : Except HeapError ObjRef × σ} (tracer : Tracer σ) (tag : TypeTag) (length : Nat)
      (log : σ) : Recorded h reports → allocRetrying tracer tag length log h = .ok r h' →
      Recorded h' (reports ++ retryReports tracer tag length log h)
  | free {h h' : Heap} {reports : List CollectionReport} (obj : ObjRef) :
      Recorded h reports → Leaves (free obj) h h' → Recorded h' reports
  | setBytes {h h' : Heap} {reports : List CollectionReport} (obj : ObjRef) (start : Nat)
      (bytes : List UInt8) : Recorded h reports → Leaves (setBytes obj start bytes) h h' →
      Recorded h' reports
  | register {h h' : Heap} {reports : List CollectionReport} (source target : ObjRef) :
      Recorded h reports → Leaves (register source target) h h' → Recorded h' reports
  | writeRef {h h' : Heap} {reports : List CollectionReport} (source : ObjRef) (field : Nat)
      (target : ObjRef) : Recorded h reports → Leaves (writeRef source field target) h h' →
      Recorded h' reports
  | collect {σ : Type} {h h' : Heap} {reports : List CollectionReport}
      {r : CollectionReport × σ} (tracer : Tracer σ) (level : Generation) (log : σ) :
      Recorded h reports → collect tracer level log h = .ok r h' →
      Recorded h' (reports ++ [r.1])

/-- The same runs. -/
theorem Recorded.reachable (hr : Recorded h reports) : h.Reachable := by
  induction hr with
  | create hc => exact .create hc
  | alloc tag length _ hl ih => exact .alloc tag length ih hl
  | allocRetrying tracer tag length log _ he ih =>
    exact .allocRetrying tracer tag length log ih (Or.inl ⟨_, he⟩)
  | free obj _ hl ih => exact .free obj ih hl
  | setBytes obj start bytes _ hl ih => exact .setBytes obj start bytes ih hl
  | register source target _ hl ih => exact .register source target ih hl
  | writeRef source field target _ hl ih => exact .writeRef source field target ih hl
  | collect tracer level log _ he ih => exact .collect tracer level log ih (Or.inl ⟨_, he⟩)

theorem Reachable.recorded (hr : h.Reachable) : ∃ reports, Recorded h reports := by
  induction hr with
  | create hc => exact ⟨_, .create hc⟩
  | alloc tag length _ hl ih => exact ih.imp fun _ hr => .alloc tag length hr hl
  | allocRetrying tracer tag length log hr hl ih =>
    rcases hl with ⟨_, he⟩ | ⟨_, he⟩
    · obtain ⟨_, hr⟩ := ih
      exact ⟨_, .allocRetrying tracer tag length log hr he⟩
    · exact ((allocRetrying_ends hr.wellFormed tracer tag length log).of_refused he).elim
  | free obj _ hl ih => exact ih.imp fun _ hr => .free obj hr hl
  | setBytes obj start bytes _ hl ih => exact ih.imp fun _ hr => .setBytes obj start bytes hr hl
  | register source target _ hl ih => exact ih.imp fun _ hr => .register source target hr hl
  | writeRef source field target _ hl ih =>
    exact ih.imp fun _ hr => .writeRef source field target hr hl
  | collect tracer level log hr hl ih =>
    rcases hl with ⟨_, he⟩ | ⟨_, he⟩
    · obtain ⟨_, hr⟩ := ih
      exact ⟨_, .collect tracer level log hr he⟩
    · exact ((collect_ends hr.wellFormed tracer level log).of_refused he).elim

/-- The books of a heap, given its reports. -/
def Balanced (h : Heap) (reports : List CollectionReport) : Prop :=
  h.metrics.Tallies reports h.occupancy.totalObjects

/-- An operation that counts nothing, and after which the same objects are
there. -/
theorem balanced_uncounted (hb : h.Balanced reports) (hw : h.WellFormed) (hs : Steady h h')
    (hc : h'.counters = h.counters) (hsame : SameObjects h h') : h'.Balanced reports := by
  have hm : h'.metrics = h.metrics := congrArg Counters.metrics hc
  have hf' := hs.wellFormed.toFormed
  rw [Balanced, hm, totalObjects_congr hw.toFormed hf' (hsame.isAllocated_iff hw.toFormed hf')]
  exact hb

theorem balanced_alloc {tag : TypeTag} {length : Nat} (hb : h.Balanced reports)
    (hw : h.WellFormed) (hl : Leaves (alloc tag length) h h') : h'.Balanced reports := by
  rcases hl with ⟨obj, he⟩ | ⟨e, he⟩
  · have ha := (alloc_ends hw tag length).of_ok he
    obtain ⟨bytes, sizeClass, hc⟩ := (alloc_counters tag length h).of_ok he
    have hm : h'.metrics = h.metrics.recordAllocation bytes sizeClass :=
      congrArg Counters.metrics hc
    rw [Balanced, hm, ha.totalObjects hw]
    exact Metrics.Tallies.recordAllocation hb bytes sizeClass
  · rw [((alloc_ends hw tag length).of_refused he).1]
    exact hb

theorem balanced_collect {r : CollectionReport × σ} {log : σ} (hb : h.Balanced reports)
    (hw : h.WellFormed) (he : collect tracer level log h = .ok r h') :
    h'.Balanced (reports ++ [r.1]) := by
  have hs := ((collect_ends hw tracer level log).of_ok he).settles hw
  have hm : h'.metrics = h.metrics.recordCollection r.1 :=
    congrArg Counters.metrics ((collect_counters hw.toFormed tracer level log).of_ok he)
  rw [Balanced, hm]
  refine Metrics.Tallies.recordCollection ?_
  rw [hs.objects]
  exact hb

theorem balanced_attempt {tag : TypeTag} {length : Nat} {r : Except HeapError ObjRef}
    (hb : h.Balanced reports) (hw : h.WellFormed)
    (he : attempt (alloc tag length) h = .ok r h') : h'.Balanced reports := by
  rcases of_attempt he with ⟨a, _, ha⟩ | ⟨e, _, ha⟩
  · exact balanced_alloc hb hw (Or.inl ⟨a, ha⟩)
  · exact balanced_alloc hb hw (Or.inr ⟨e, ha⟩)

/-- One try gives no report. -/
theorem retryReports_of_once {tag : TypeTag} {length : Nat} {r : Except HeapError ObjRef}
    (log : σ) (htry : attempt (alloc tag length) h = .ok r h')
    (hkept : ∀ e, r = .error e → e.isExhausted = false) :
    retryReports tracer tag length log h = [] := by
  rcases of_attempt htry with ⟨_, _, ha⟩ | ⟨e, hr, ha⟩
  · rw [retryReports, ha]
  · simp only [retryReports, ha, hkept e hr, Bool.false_eq_true, if_false]

/-- A second try counts its retry, the collection, an allocation if there
is room now, and how the retry went. -/
theorem balanced_allocRetrying {tag : TypeTag} {length : Nat} {log : σ}
    {r : Except HeapError ObjRef × σ} (hb : h.Balanced reports) (hw : h.WellFormed)
    (he : allocRetrying tracer tag length log h = .ok r h') :
    h'.Balanced (reports ++ retryReports tracer tag length log h) := by
  cases tries_of_allocRetrying hw he with
  | once htry hkept =>
    rw [retryReports_of_once log htry hkept, List.append_nil]
    exact balanced_attempt hb hw htry
  | @twice e report log' r h₁ h₂ ha hex hcollect htry =>
    have hone : retryReports tracer tag length log h = [report] := by
      simp only [retryReports, ha, hex, if_true, hcollect]
    have hw₀ := hw.withMetrics h.metrics.recordRetry
    have hb₀ : (h.withMetrics h.metrics.recordRetry).Balanced reports :=
      Metrics.Tallies.recordRetry hb
    have hw₁ := ((collect_ends hw₀ tracer .two log).of_ok hcollect).wellFormed
    have hb₂ := balanced_attempt (balanced_collect hb₀ hw₀ hcollect) hw₁ htry
    rw [hone]
    exact Metrics.Tallies.recordRetried hb₂ r.isOk

theorem balanced_free {obj : ObjRef} (hb : h.Balanced reports) (hw : h.WellFormed)
    (hl : Leaves (free obj) h h') : h'.Balanced reports := by
  rcases hl with ⟨_, he⟩ | ⟨e, he⟩
  · obtain ⟨_, hc, x, hx⟩ := (free_ends hw obj).of_ok he
    have hm : h'.metrics = h.metrics.recordFree :=
      congrArg Counters.metrics ((free_counters obj h).of_ok he)
    rw [Balanced, hm]
    refine Metrics.Tallies.recordFree ?_
    rw [← hc.totalObjects hw hx]
    exact hb
  · rw [(free_ends hw obj).of_refused he]
    exact hb

theorem balanced_create {config : Config} {layout : ObjectLayout} {system : System}
    (hc : create config layout system = .ok h) : h.Balanced [] := by
  obtain ⟨hw, hempty, _⟩ := wellFormed_create hc
  have hzero := totalObjects_eq_zero hw.toFormed fun p =>
    Bool.eq_false_iff.mp (hw.not_isAllocated_iff_lookup.mpr (hempty p))
  rw [Balanced, hzero]
  obtain ⟨_, _, _, _, _, rfl⟩ := create_eq_ok hc
  exact .start

/-! ## Stores -/

section Stores

variable {source target : ObjRef} {field start : Nat} {bytes : List UInt8}

theorem sameObjects_setBytes (hw : h.WellFormed) (hl : Leaves (setBytes p start bytes) h h') :
    SameObjects h h' := by
  rcases (setBytes_ends hw p start bytes).of_leaves hl with ⟨_, x, hx, _, _, hc, _⟩ | ⟨_, hn⟩
  · exact hc.sameObjects hx rfl
  · exact hn.elim

theorem sameObjects_register (hw : h.WellFormed) (hl : Leaves (register source target) h h') :
    SameObjects h h' := by
  rcases (register_ends hw source target).of_leaves hl with ⟨_, hd⟩ | ⟨_, hn⟩
  · exact hd.sameObjects
  · exact hn.elim

theorem sameObjects_writeRef (hw : h.WellFormed)
    (hl : Leaves (writeRef source field target) h h') : SameObjects h h' := by
  rcases (writeRef_ends hw source field target).of_leaves hl with ⟨_, hd⟩ | ⟨_, hn⟩
  · exact hd.sameObjects
  · rw [hn.1]
    exact ⟨.refl _, fun _ => rfl⟩

end Stores

/-- The books of a run balance. -/
theorem Recorded.balanced (hr : Recorded h reports) : h.Balanced reports := by
  induction hr with
  | create hc => exact balanced_create hc
  | alloc tag length hr hl ih => exact balanced_alloc ih hr.reachable.wellFormed hl
  | allocRetrying tracer tag length log hr he ih =>
    exact balanced_allocRetrying ih hr.reachable.wellFormed he
  | free obj hr hl ih => exact balanced_free ih hr.reachable.wellFormed hl
  | setBytes obj start bytes hr hl ih =>
    have hw := hr.reachable.wellFormed
    exact balanced_uncounted ih hw (steady_setBytes hw hl)
      ((uncounted_setBytes obj start bytes _).leaves hl) (sameObjects_setBytes hw hl)
  | register source target hr hl ih =>
    have hw := hr.reachable.wellFormed
    exact balanced_uncounted ih hw (steady_register hw hl)
      ((uncounted_register source target _).leaves hl) (sameObjects_register hw hl)
  | writeRef source field target hr hl ih =>
    have hw := hr.reachable.wellFormed
    exact balanced_uncounted ih hw (steady_writeRef hw hl)
      ((uncounted_writeRef source field target _).leaves hl) (sameObjects_writeRef hw hl)
  | collect tracer level log hr he ih => exact balanced_collect ih hr.reachable.wellFormed he

/-! ## All books -/

/-- `n` is the sum of the chunks of the objects with a property. -/
def SumsChunks (h : Heap) (P : ObjRef → Prop) (n : Nat) : Prop :=
  ∃ chunks : ObjRef → Nat, (∀ p, P p → h.chunksOf p = .ok (chunks p)) ∧ Totals P chunks n

theorem Formed.sumsChunks (hf : h.Formed) {P : ObjRef → Prop} {n : Nat}
    (halloc : ∀ p, P p → h.isAllocated p = true) (hn : Totals P h.chunksAt n) :
    h.SumsChunks P n := by
  refine ⟨h.chunksAt, fun p hp => ?_, hn⟩
  obtain ⟨x, hx⟩ := hf.isAllocated_iff_lookup.mp (halloc p hp)
  rw [chunksOf_of_lookup hx, chunksAt, hx]
  rfl

/-- The totals agree with each other, with the reports and with the
occupancy, and the occupancy with the objects that are there. -/
structure Audited (h : Heap) (reports : List CollectionReport) : Prop where
  tallies : h.metrics.Tallies reports h.occupancy.totalObjects
  collected : ∀ g, Counts (h.Aged g) (h.occupancy.objects.get g) ∧
    h.SumsChunks (h.Aged g) (h.occupancy.chunks.get g)
  uncollected : Counts h.Fixed h.occupancy.uncollected ∧
    h.SumsChunks h.Fixed h.occupancy.uncollectedChunks

theorem Recorded.audited (hr : Recorded h reports) : h.Audited reports := by
  have hf := hr.reachable.wellFormed.toFormed
  refine ⟨hr.balanced, fun g => ?_, ?_⟩
  · obtain ⟨hcount, hchunks⟩ := totals_objects hf g
    exact ⟨hcount, hf.sumsChunks (fun _ hp => hp.1) hchunks⟩
  · obtain ⟨hcount, hchunks⟩ := totals_uncollected hf
    exact ⟨hcount, hf.sumsChunks (fun _ hp => hp.1) hchunks⟩

/-- **The collection inside an allocation with a retry** settles what it
marks and frees, as it finds the objects that were there before. -/
theorem settles_of_retryReports {tag : TypeTag} {length : Nat} {log : σ}
    {report : CollectionReport} (hw : h.WellFormed)
    (hreport : report ∈ retryReports tracer tag length log h) : ∃ log' h₁,
      collect tracer .two log (h.withMetrics h.metrics.recordRetry) = .ok (report, log') h₁ ∧
      h.Settles .two report h₁ := by
  unfold retryReports at hreport
  cases ha : alloc tag length h with
  | ok _ _ => simp [ha] at hreport
  | error f h₀ =>
    cases f with
    | fault _ => simp [ha] at hreport
    | refused e =>
      obtain rfl : h₀ = h := ((alloc_ends hw tag length).of_refused ha).1
      by_cases hex : e.isExhausted = true
      · simp only [ha, hex, if_true] at hreport
        cases hc : collect tracer .two log (h₀.withMetrics h₀.metrics.recordRetry) with
        | error _ _ => simp [hc] at hreport
        | ok r h₁ =>
          rw [hc] at hreport
          obtain rfl := List.mem_singleton.mp hreport
          have hw₀ := hw.withMetrics h₀.metrics.recordRetry
          have hsettles := ((collect_ends hw₀ tracer .two log).of_ok hc).settles hw₀
          exact ⟨r.2, h₁, rfl, hsettles.scope, hsettles.objects, hsettles.chunks⟩
      · simp [ha, hex] at hreport

/-- **The books balance** wherever a run has come to, and a collection that
is made there settles what it marks and frees. So does the one that an
allocation with a retry makes, which comes to a heap that the second try
starts from. -/
theorem books_balance (hr : Recorded h reports) : h.Audited reports ∧
    (∀ (τ : Type) (tracer : Tracer τ) (level : Generation) (log : τ)
      (r : CollectionReport × τ) (h' : Heap), collect tracer level log h = .ok r h' →
      h.Settles level r.1 h') ∧
    ∀ (τ : Type) (tracer : Tracer τ) (tag : TypeTag) (length : Nat) (log : τ),
      ∀ report ∈ retryReports tracer tag length log h, ∃ log' h₁,
        collect tracer .two log (h.withMetrics h.metrics.recordRetry) = .ok (report, log') h₁ ∧
        h.Settles .two report h₁ := by
  have hw := hr.reachable.wellFormed
  refine ⟨hr.audited, fun τ tracer level log r h' he => ?_, fun τ tracer tag length log report =>
    settles_of_retryReports hw⟩
  exact ((collect_ends hw tracer level log).of_ok he).settles hw

/-- Two vectors fill the only segment. One is freed and its slot used again;
another is only to be had by the collection of an allocation with a retry,
which frees the one that nothing refers to and promotes the other. A
collection of the young then frees the last one. -/
theorem books_balance_retry : ∃ (h h₁ h' h'' : Heap) (root obj : ObjRef)
    (tracer : Tracer Unit) (retried young : CollectionReport),
      Recorded h [] ∧ h.occupancy.totalObjects = 2 ∧ h.metrics.explicitFrees = 1 ∧
      allocRetrying tracer Model.ModelType.intVec.tag 4 () h = .ok (.ok obj, ()) h' ∧
      retryReports tracer Model.ModelType.intVec.tag 4 () h = [retried] ∧
      h.Settles .two retried h₁ ∧ retried.freed = 1 ∧ retried.promoted = 1 ∧
      h'.generationOf root = .ok .two ∧ h'.isAllocated obj = true ∧
      collect tracer .zero () h' = .ok (young, ()) h'' ∧ h'.Settles .zero young h'' ∧
      young.freed = 1 ∧ h''.Audited [retried, young] ∧ h''.occupancy.totalObjects = 1 ∧
      h''.metrics.allocated.count = 4 ∧ h''.metrics.freed = 2 := by
  let tag := Model.ModelType.intVec.tag
  let root : ObjRef := .ofSlot 0 0
  let obj : ObjRef := .ofSlot 0 4
  let tracer : Tracer Unit := { roots := [root], refs := fun _ => [] }
  let full := after (alloc tag 4) (after (alloc tag 4) tightHeap)
  let h := after (alloc tag 4) (after (free obj) full)
  let h' := after (allocRetrying tracer tag 4 ()) h
  let h'' := after (collect tracer .zero ()) h'
  have hretry : allocRetrying tracer tag 4 () h = .ok (.ok obj, ()) h' := by
    have hsome : (returned (allocRetrying tracer tag 4 ()) h).map (·.1.toOption) =
        some (some obj) := by decide +kernel
    obtain ⟨⟨r, _⟩, hr, ho⟩ := Option.map_eq_some_iff.mp hsome
    obtain rfl : r = .ok obj := eq_ok_of_toOption ho
    exact eq_ok_of_returned hr
  have hcollect : collect tracer .zero () h' = .ok (⟨.zero, 0, 1, 4, 0, 0, 0⟩, ()) h'' :=
    eq_ok_of_returned (by decide +kernel)
  have hr : Recorded h [] := .alloc _ _ (.free obj (.alloc _ _ (.alloc _ _
    (.create create_tightHeap) (leaves_after (by decide +kernel)))
    (leaves_after (by decide +kernel))) (leaves_after (by decide +kernel)))
    (leaves_after (by decide +kernel))
  have hstate : h.occupancy.totalObjects = 2 ∧ h.metrics.explicitFrees = 1 ∧
      retryReports tracer tag 4 () h = [⟨.two, 1, 1, 4, 1, 0, 0⟩] ∧
      h'.generationOf root = .ok .two ∧ h'.isAllocated obj = true ∧
      h''.occupancy.totalObjects = 1 ∧ h''.metrics.allocated.count = 4 ∧
      h''.metrics.freed = 2 := by
    decide +kernel
  obtain ⟨htwo, hfrees, hreports, hroot, hobj, hone, hcount, hfreed⟩ := hstate
  have hr' := hr.allocRetrying tracer tag 4 () hretry
  rw [hreports] at hr'
  obtain ⟨_, h₁, _, hsettles⟩ := (books_balance hr).2.2 Unit tracer tag 4 () _
    (hreports ▸ List.mem_singleton_self _)
  exact ⟨h, h₁, h', h'', root, obj, tracer, _, _, hr, htwo, hfrees, hretry, hreports, hsettles,
    rfl, rfl, hroot, hobj, hcollect, (books_balance hr').2.1 Unit tracer .zero () _ _ hcollect,
    rfl, (books_balance (hr'.collect tracer .zero () hcollect)).1, hone, hcount, hfreed⟩

end Heap

end SegmentedHeap
