/-
SegmentedHeap.Proofs.Exactness — a collection frees the garbage, no more
and no less.

What a collection keeps is a least set, `Kept`: it holds the objects in
scope, and the uncollected ones, that a root, an old member of the
old-to-new set, or a member yields. Everything else in scope goes, unless
it is of a kind that is never collected. At level two the set is what the
roots lead to, so that no cycle keeps itself alive.

* `kept_two_iff_live` — the set at level two.
* `Collected.freed_iff`, `Collected.generationOf_eq` — what goes, and
  where the others move to.
* `collect_exact` — **both, and the report that agrees**.
-/
import SegmentedHeap.Proofs.Survival

namespace SegmentedHeap

namespace Heap

variable {σ : Type} {h h' : Heap} {tracer : Tracer σ} {level : Generation} {p : ObjRef} {x : Object}

/-- What a full collection keeps is what the roots lead to. -/
theorem kept_two_iff_live (hf : h.Formed) : h.Kept tracer .two p ↔ h.Live tracer p := by
  have halloc : ∀ q, h.Eligible .two q → h.isAllocated q = true := by
    intro q he
    obtain ⟨x, _, hx, _⟩ := he
    exact hf.isAllocated_iff_lookup.mpr ⟨x, hx⟩
  constructor
  · intro hk
    induction hk with
    | root hr he => exact .root hr (halloc _ he)
    | remembered hq _ _ => exact absurd rfl hq.1
    | step _ hp he ih => exact .step ih hp (halloc _ he)
  · intro hl
    obtain ⟨x, hx⟩ := hf.isAllocated_iff_lookup.mp hl.isAllocated
    exact hl.kept hf (fun hn => absurd rfl hn) hx (by cases x.generation <;> decide)

theorem Formed.collectable_iff (hf : h.Formed) :
    h.collectable p = true ↔ h.isAllocated p = true ∧ h.isUncollected p = .ok false := by
  rw [hf.isAllocated_iff_lookup]
  cases hx : h.lookup p with
  | none =>
    rw [collectable, hx]
    simp
  | some x =>
    obtain ⟨spec, hspec⟩ := hf.spec_of_lookup hx
    rw [collectable, hx, Option.bind_some, hspec, isUncollected_of_lookup hx hspec]
    cases hu : spec.uncollected <;> simp [hu]

/-- The objects that a collection is to free, by what a heap answers. -/
theorem Formed.isGarbage_iff (hf : h.Formed) : h.IsGarbage tracer level p ↔
    h.isAllocated p = true ∧ h.isUncollected p = .ok false ∧
      (∃ g, h.generationOf p = .ok g ∧ g ≤ level) ∧ ¬ h.Kept tracer level p := by
  rw [IsGarbage, hf.collectable_iff]
  constructor
  · intro hg
    obtain ⟨⟨ha, hu⟩, hk, x, hx, hle⟩ := hg
    exact ⟨ha, hu, ⟨_, generationOf_of_lookup hx, hle⟩, hk⟩
  · intro hg
    obtain ⟨ha, hu, ⟨g, hgen, hle⟩, hk⟩ := hg
    obtain ⟨x, hx⟩ := hf.isAllocated_iff_lookup.mp ha
    rw [generationOf_of_lookup hx] at hgen
    cases hgen
    exact ⟨⟨ha, hu⟩, hk, x, hx, hle⟩

/-- Where the survivors of a collection in scope move to. -/
def movesTo (level g : Generation) : Generation :=
  if g ≤ level then (if level < .two ∧ g = .zero then .one else .two) else g

/-- A promotion in these terms. What is never collected is of generation
two already. -/
theorem generation_promoted {collected : Bool} (hc : collected = false → x.generation = .two) :
    (x.promoted level collected).generation = movesTo level x.generation := by
  rw [Object.promoted, movesTo]
  cases collected with
  | true => cases level <;> cases x.generation <;> rfl
  | false =>
    rw [hc rfl]
    cases level <;> rfl

theorem WellFormed.generation_of_not_collectable (hw : h.WellFormed) (hx : h.lookup p = some x)
    (hc : h.collectable p = false) : x.generation = .two := by
  obtain ⟨spec, hspec⟩ := hw.spec_of_lookup hx
  refine hw.permanent p x spec hx hspec ?_
  rw [collectable, hx, Option.bind_some, hspec, Option.any_some, Bool.not_eq_false'] at hc
  exact hc

/-- Which objects a collection frees, and where the others move to. -/
structure CollectsExactly (h : Heap) (tracer : Tracer σ) (level : Generation) (h' : Heap) :
    Prop where
  /-- The freed objects are the collectable ones in scope that are not kept. -/
  frees : ∀ p, h.isAllocated p = true → (h'.isAllocated p = false ↔
    h.isUncollected p = .ok false ∧ (∃ g, h.generationOf p = .ok g ∧ g ≤ level) ∧
      ¬ h.Kept tracer level p)
  /-- At level two these are the ones that the roots do not lead to. -/
  full : level = .two → ∀ p, h.isAllocated p = true → (h'.isAllocated p = false ↔
    h.isUncollected p = .ok false ∧ ¬ h.Live tracer p)
  makes : ∀ p, h'.isAllocated p = true → h.isAllocated p = true
  moves : ∀ p g, h'.isAllocated p = true → h.generationOf p = .ok g →
    h'.generationOf p = .ok (movesTo level g)
  empties : ∀ p g, h'.isAllocated p = true → h'.generationOf p = .ok g →
    g ≠ .zero ∧ (level = .two → g = .two)

/-- What the numbers of a report count. -/
structure ReportAgrees (h : Heap) (tracer : Tracer σ) (level : Generation)
    (report : CollectionReport) (h' : Heap) : Prop where
  level_eq : report.level = level
  marked : Counts (fun p => h.Kept tracer level p ∧ h.isUncollected p = .ok false) report.marked
  swept : ∃ (freed : List ObjRef) (chunks : ObjRef → Nat), freed.Nodup ∧
    (∀ p, p ∈ freed ↔ h.isAllocated p = true ∧ h'.isAllocated p = false) ∧
    (∀ p ∈ freed, h.chunksOf p = .ok (chunks p)) ∧
    report.freed = freed.length ∧ report.freedChunks = Word.total (freed.map chunks)
  promoted : Counts (fun p => h'.isAllocated p = true ∧ h'.generationOf p ≠ h.generationOf p)
    report.promoted
  released : Counts (fun i => h.hasSmall i = true ∧ ∀ p : ObjRef, p.segment = i →
    h'.isAllocated p = false) report.released
  oldToNew : Counts (fun p => h'.inOldToNew p = .ok true) report.oldToNew

section Collected

variable {report : CollectionReport}

theorem Collected.isAllocated_iff (hf : h.Formed) (hc : Collected h tracer level report h')
    (ha : h.isAllocated p = true) :
    h'.isAllocated p = false ↔ h.IsGarbage tracer level p := by
  rw [hc.wellFormed.not_isAllocated_iff_lookup]
  obtain ⟨x, hx⟩ := hf.isAllocated_iff_lookup.mp ha
  refine ⟨fun hnone => Classical.byContradiction fun hg => ?_, hc.freed p⟩
  obtain ⟨b, hy, _⟩ := hc.survived p x hx hg
  rw [hnone] at hy
  cases hy

/-- A survivor, before and after. -/
theorem Collected.survivor (hw : h.WellFormed) (hc : Collected h tracer level report h')
    (ha : h'.isAllocated p = true) : ∃ x, h.lookup p = some x ∧
      h'.generationOf p = .ok (movesTo level x.generation) := by
  obtain ⟨y, hy⟩ := hc.wellFormed.isAllocated_iff_lookup.mp ha
  obtain ⟨x, hx, _, e⟩ := hc.before hy
  refine ⟨x, hx, ?_⟩
  rw [generationOf_of_lookup hy, e]
  exact congrArg Except.ok (generation_promoted fun hn => hw.generation_of_not_collectable hx hn)

theorem movesTo_ne_zero (level g : Generation) :
    movesTo level g ≠ .zero ∧ (level = .two → movesTo level g = .two) := by
  cases level <;> cases g <;> decide

theorem Collected.exactly (hw : h.WellFormed) (hc : Collected h tracer level report h') :
    CollectsExactly h tracer level h' := by
  have hf := hw.toFormed
  refine ⟨fun p ha => ?_, fun hl p ha => ?_, fun p ha => ?_, fun p g ha hg => ?_,
    fun p g ha hg => ?_⟩
  · rw [hc.isAllocated_iff hf ha, hf.isGarbage_iff, and_iff_right ha]
  · obtain ⟨x, hx⟩ := hf.isAllocated_iff_lookup.mp ha
    have hscope : ∃ g, h.generationOf p = .ok g ∧ g ≤ level :=
      ⟨_, generationOf_of_lookup hx, by rw [hl]; cases x.generation <;> decide⟩
    rw [hc.isAllocated_iff hf ha, hf.isGarbage_iff, and_iff_right ha, and_iff_right hscope, hl,
      kept_two_iff_live hf]
  · obtain ⟨x, hx, _⟩ := hc.survivor hw ha
    exact hf.isAllocated_iff_lookup.mpr ⟨x, hx⟩
  · obtain ⟨x, hx, hy⟩ := hc.survivor hw ha
    rw [generationOf_of_lookup hx] at hg
    rw [hy, Except.ok.inj hg]
  · obtain ⟨x, _, hy⟩ := hc.survivor hw ha
    rw [hy] at hg
    rw [← Except.ok.inj hg]
    exact movesTo_ne_zero level x.generation

theorem Collected.agrees (hw : h.WellFormed) (hc : Collected h tracer level report h') :
    ReportAgrees h tracer level report h' := by
  have hf := hw.toFormed
  have hf' := hc.wellFormed.toFormed
  refine ⟨hc.level_eq, hc.marked.congr fun p => ?_, ?_, hc.promoted.congr fun p => ?_,
    hc.released.congr fun i => ?_, hc.oldToNew.congr fun p => hf'.inOldToNew_iff.symm⟩
  · rw [hf.collectable_iff]
    refine ⟨fun hp => ⟨hp.1, hp.2.2⟩, fun hp => ⟨hp.1, ?_, hp.2⟩⟩
    obtain ⟨x, _, hx, _⟩ := hp.1.eligible
    exact hf.isAllocated_iff_lookup.mpr ⟨x, hx⟩
  · obtain ⟨dead, hn, hmem, hfreed, hchunks⟩ := hc.swept
    have halloc : ∀ p, h.IsGarbage tracer level p → h.isAllocated p = true := fun p hp =>
      (hf.isGarbage_iff.mp hp).1
    refine ⟨dead, h.chunksAt, hn, fun p => ?_, fun p hp => ?_, hfreed, hchunks⟩
    · rw [hmem]
      exact ⟨fun hp => ⟨halloc p hp, (hc.isAllocated_iff hf (halloc p hp)).mpr hp⟩,
        fun hp => (hc.isAllocated_iff hf hp.1).mp hp.2⟩
    · obtain ⟨x, hx⟩ := hf.isAllocated_iff_lookup.mp (halloc p ((hmem p).mp hp))
      rw [chunksOf_of_lookup hx, chunksAt, hx]
      rfl
  · rw [hf'.isAllocated_iff_lookup]
    constructor
    · intro hp
      obtain ⟨x, y, hx, hy, hne⟩ := hp
      refine ⟨⟨y, hy⟩, ?_⟩
      rw [generationOf_of_lookup hx, generationOf_of_lookup hy]
      exact fun e => hne (Except.ok.inj e)
    · intro hp
      obtain ⟨⟨y, hy⟩, hne⟩ := hp
      obtain ⟨x, hx, _⟩ := hc.before hy
      rw [generationOf_of_lookup hx, generationOf_of_lookup hy] at hne
      exact ⟨x, y, hx, hy, fun e => hne (congrArg Except.ok e)⟩
  · simp only [hf'.not_isAllocated_iff_lookup]

end Collected

/-- **A collection frees exactly its garbage**, moves the survivors in
scope on and no others, and reports what it did. -/
theorem collect_exact (hr : h.Reachable) (tracer : Tracer σ) (level : Generation) (log : σ) :
    Ends (collect tracer level log h)
      (fun r h' => CollectsExactly h tracer level h' ∧ ReportAgrees h tracer level r.1 h')
      (fun _ _ => False) (h.StrayFault tracer level) :=
  (collect_ends hr.wellFormed tracer level log).imp fun _ _ hc =>
    ⟨hc.exactly hr.wellFormed, hc.agrees hr.wellFormed⟩

/-- A collection of the young looks at the old pair of the family only
since it is remembered. It marks and promotes the pair that this one
holds, and frees the other. -/
theorem collect_exact_family : ∃ (h' : Heap) (report : CollectionReport),
    family.Reachable ∧ collect (pairsFrom []) .zero () family = .ok (report, ()) h' ∧
      report.marked = 1 ∧ report.promoted = 1 ∧ report.freed = 1 ∧ report.oldToNew = 1 ∧
      CollectsExactly family (pairsFrom []) .zero h' ∧
      ReportAgrees family (pairsFrom []) .zero report h' ∧
      (∀ p, family.isAllocated p = true ∧ h'.isAllocated p = false ↔ p = orphan) ∧
      h'.generationOf child = .ok .one ∧ h'.generationOf holder = .ok .two := by
  let h' := after (collect (pairsFrom []) .zero ()) family
  have he : collect (pairsFrom []) .zero () family = .ok (⟨.zero, 1, 1, 1, 1, 0, 1⟩, ()) h' :=
    eq_ok_of_returned (by decide +kernel)
  obtain ⟨hexact, hreport⟩ := (collect_exact reachable_family (pairsFrom []) .zero ()).of_ok he
  have hstate : family.objects = [holder, child, orphan] ∧ h'.isAllocated holder = true ∧
      h'.isAllocated child = true ∧ h'.isAllocated orphan = false ∧
      h'.generationOf child = .ok .one ∧ h'.generationOf holder = .ok .two := by
    decide +kernel
  obtain ⟨hall, hholder, hchild, horphan, hone, htwo⟩ := hstate
  refine ⟨h', _, reachable_family, he, rfl, rfl, rfl, rfl, hexact, hreport, fun p => ?_, hone, htwo⟩
  rw [← mem_objects reachable_family.wellFormed.toFormed, hall]
  constructor
  · intro hp
    simp only [List.mem_cons, List.not_mem_nil, or_false] at hp
    rcases hp with ⟨rfl | rfl | rfl, hgone⟩
    · simp [hholder] at hgone
    · simp [hchild] at hgone
    · rfl
  · rintro rfl
    exact ⟨by simp, horphan⟩

end Heap

end SegmentedHeap
