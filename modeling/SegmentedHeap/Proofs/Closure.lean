/-
SegmentedHeap.Proofs.Closure — heaps in which no reference dangles.

A heap is closed for a tracer if every reference that an object yields is
null or names an object, and the old-to-new set is complete. This is said
of all objects, since a collection of the young leaves old objects behind
that nothing leads to, and these still yield references. Such an object
is out of scope, so that what it yields in scope is remembered and kept.
At level two the uncollected objects are all that is left behind; they
have to be roots, or yield nothing.

* `Closed`, `Anchored` — the invariant, and what it asks of roots.
* `Closed.sifted` — **collections** keep a heap closed.
* `Closed.written`, `Closed.overwritten`, `Closed.allocated` — so do the
  other steps.
* `Closed.collect_ends` — a collection of a closed heap meets no stray
  reference.
-/
import SegmentedHeap.Proofs.Completeness

namespace SegmentedHeap

namespace Heap

variable {σ : Type} {h h' : Heap} {tracer : Tracer σ} {level : Generation} {p q : ObjRef}
  {x y : Object}

/-- The reference is null, or names an allocated object. -/
def Proper (h : Heap) (p : ObjRef) : Prop := p = .null ∨ h.isAllocated p = true

instance (h : Heap) (p : ObjRef) : Decidable (h.Proper p) :=
  inferInstanceAs (Decidable (p = .null ∨ h.isAllocated p = true))

theorem Formed.proper_iff (hf : h.Formed) :
    h.Proper p ↔ p = .null ∨ ∃ x, h.lookup p = some x := by
  rw [Proper, hf.isAllocated_iff_lookup]

theorem Proper.mono (hf : h.Formed) (hf' : h'.Formed) (hp : h.Proper p)
    (hl : ∀ x, h.lookup p = some x → ∃ y, h'.lookup p = some y) : h'.Proper p := by
  refine hf'.proper_iff.mpr ((hf.proper_iff.mp hp).imp_right fun hx => ?_)
  obtain ⟨x, hx⟩ := hx
  exact hl x hx

/-- No object yields a reference that dangles, and none that yields a
younger object is missing from the old-to-new set. -/
structure Closed (h : Heap) (tracer : Tracer σ) : Prop where
  wellFormed : h.WellFormed
  complete : h.BarrierComplete tracer
  yields : ∀ p q, q ∈ h.refsOf tracer p → h.Proper q

/-- Every uncollected object that yields a reference is a root, and no
root dangles. -/
structure Anchored (h : Heap) (tracer : Tracer σ) : Prop where
  proper : ∀ p ∈ tracer.roots, h.Proper p
  uncollected : ∀ p x spec, h.lookup p = some x → h.kinds.get? x.kind = some spec →
    spec.uncollected = true → p ∈ tracer.roots ∨ h.refsOf tracer p = []

/-! ## Collections -/

/-- Everything that marking of a closed heap meets is proper. -/
theorem Closed.proper_of_met (hc : h.Closed tracer) (ha : h.Anchored tracer)
    (hm : h.Met tracer level p) : h.Proper p := by
  rcases hm with hr | ⟨q, _, hp⟩ | ⟨q, _, hp⟩
  · exact ha.proper p hr
  · exact hc.yields q p hp
  · exact hc.yields q p hp

theorem Closed.no_stray (hc : h.Closed tracer) (ha : h.Anchored tracer) (f : Fault) :
    ¬ h.StrayFault tracer level f := by
  intro hf
  obtain ⟨_, p, _, hm, hne, hnone⟩ := hf
  rcases hc.wellFormed.proper_iff.mp (hc.proper_of_met ha hm) with e | ⟨x, hx⟩
  · exact hne e
  · rw [hnone] at hx
    cases hx

/-- What a survivor yields in scope is kept. -/
theorem Closed.kept_of_yield (hc : h.Closed tracer) (ha : h.Anchored tracer)
    (hx : h.lookup p = some x) (hg : ¬ h.IsGarbage tracer level p) (hq : q ∈ h.refsOf tracer p)
    (hy : h.lookup q = some y) (hle : y.generation ≤ level) : h.Kept tracer level q := by
  have hf := hc.wellFormed.toFormed
  have he := hf.eligible_of_le hy hle
  by_cases hscope : x.generation ≤ level
  · refine .step ?_ hq he
    by_cases hcol : h.collectable p = true
    · exact Classical.byContradiction fun hk => hg ⟨hcol, hk, x, hx, hscope⟩
    · -- a holder that is never collected is a root
      obtain ⟨spec, hspec⟩ := hf.spec_of_lookup hx
      have hu : spec.uncollected = true := by
        rw [collectable, hx, Option.bind_some, hspec, Option.any_some, Bool.not_eq_true,
          Bool.not_eq_false'] at hcol
        exact hcol
      rcases ha.uncollected p x spec hx hspec hu with hr | hnil
      · exact .root hr ⟨x, spec, hx, hspec, Or.inl hu⟩
      · rw [hnil] at hq
        cases hq
  · have hlt : y.generation < x.generation := by
      rw [Generation.lt_iff]
      rw [Generation.le_iff] at hle hscope
      omega
    have hne : level ≠ .two := by
      rintro rfl
      exact hscope (by cases x.generation <;> decide)
    have hr := hf.barrierComplete_iff.mp hc.complete p x hx ⟨x, hx, q, hq, y, hy, hlt⟩
    exact .remembered ⟨hne, x, hx, hr, hscope⟩ hq he

/-- **A collection of a closed heap** leaves a closed heap. -/
theorem Closed.sifted (hc : h.Closed tracer) (ha : h.Anchored tracer) (hw' : h'.WellFormed)
    (hs : Sifted h tracer level h') : h'.Closed tracer := by
  have hf := hc.wellFormed.toFormed
  refine ⟨hw', (hs.barrierExact hc.wellFormed hw'.toFormed hc.complete).complete,
    fun p q hq => ?_⟩
  cases hz : h'.lookup p with
  | none =>
    rw [hw'.refsOf_of_none hz] at hq
    cases hq
  | some z =>
    obtain ⟨x, hx, hg, _⟩ := hs.before hz
    rw [hs.refsOf hf hw'.toFormed hx hg] at hq
    refine (hc.yields p q hq).mono hf hw'.toFormed fun y hy => ?_
    have hstay : ¬ h.IsGarbage tracer level q := by
      intro hgarbage
      obtain ⟨_, hk, y', hy', hle⟩ := hgarbage
      exact hk (hc.kept_of_yield ha hx hg hq hy' hle)
    obtain ⟨b, hy', _⟩ := hs.survived q y hy hstay
    exact ⟨_, hy'⟩

/-- A proper root is proper after a collection. -/
theorem Closed.proper_root (hc : h.Closed tracer) (hf' : h'.Formed)
    (hs : Sifted h tracer level h') (hr : p ∈ tracer.roots) (hp : h.Proper p) : h'.Proper p := by
  have hf := hc.wellFormed.toFormed
  refine hp.mono hf hf' fun x hx => ?_
  have hlive : h.Protected tracer level p :=
    Or.inl (.root hr (hf.isAllocated_iff_lookup.mpr ⟨x, hx⟩))
  obtain ⟨b, hy, _⟩ := hs.survived p x hx (hlive.not_garbage hf fun _ => hc.complete)
  exact ⟨_, hy⟩

theorem Sifted.kind_before {z : Object} (hs : Sifted h tracer level h')
    (hz : h'.lookup p = some z) :
    ∃ x, h.lookup p = some x ∧ x.kind = z.kind := by
  obtain ⟨x, hx, _, e⟩ := hs.before hz
  exact ⟨x, hx, by rw [e]; rfl⟩

/-! ## Stores and allocations -/

/-- **A proper reference is stored.** -/
theorem Closed.written {source target : ObjRef} {field : Nat} (hfield : tracer.Fieldwise)
    (hc : h.Closed tracer) (ht : h.Proper target) (hw : Written h source field target h') :
    h'.Closed tracer := by
  have hf := hc.wellFormed.toFormed
  have hf' := hw.wellFormed.toFormed
  obtain ⟨x, b, hx, hroom, hy, _⟩ := hw.holder
  have hproper : ∀ r, h.Proper r → h'.Proper r := fun r hr => hr.mono hf hf' fun z hz => by
    by_cases e : r = source
    · exact ⟨_, e ▸ hy⟩
    · exact ⟨z, (hw.others r e).trans hz⟩
  have hadds : h.AddsOnly tracer source target h' := fun r hr _ _ _ _ _ _ =>
    hw.mem_refsOf hf hfield hr
  refine ⟨hw.wellFormed, hw.barrierComplete hf hadds hc.complete, fun p q hq => hproper q ?_⟩
  by_cases e : p = source
  · rcases hw.mem_refsOf hf hfield (e ▸ hq) with rfl | hold
    · exact ht
    · exact hc.yields source q hold
  · rw [refsOf_congr hf hf' hw.setting.kinds (hw.others p e)] at hq
    exact hc.yields p q hq

/-- **Bytes are stored that no reference that is yielded lies in.** -/
theorem Closed.overwritten (hc : h.Closed tracer) (hw' : h'.WellFormed) (hx : h.lookup p = some x)
    (hd : Changed h p (some y) h') (hg : y.generation = x.generation)
    (hr : y.remembered = x.remembered) (hsame : h'.refsOf tracer p = h.refsOf tracer p) :
    h'.Closed tracer := by
  have hf := hc.wellFormed.toFormed
  have hrefs : ∀ r, h'.refsOf tracer r = h.refsOf tracer r := fun r => by
    by_cases e : r = p
    · rw [e, hsame]
    · exact refsOf_congr hf hw'.toFormed hd.setting.kinds (hd.lookup_other e)
  -- each object is there as before, but for what tracing does not see
  have hback : ∀ r z, h'.lookup r = some z → ∃ w, h.lookup r = some w ∧
      w.generation = z.generation ∧ w.remembered = z.remembered := by
    intro r z hz
    by_cases e : r = p
    · rw [e, hd.lookup_self] at hz
      cases hz
      exact ⟨x, e ▸ hx, hg.symm, hr.symm⟩
    · rw [hd.lookup_other e] at hz
      exact ⟨z, hz, rfl, rfl⟩
  refine ⟨hw', hw'.barrierComplete_iff.mpr fun r z hz hyields => ?_, fun r q hq => ?_⟩
  · obtain ⟨w, hw, hgw, hrw⟩ := hback r z hz
    obtain ⟨z', hz', q, hq, v, hv, hlt⟩ := hyields
    rw [hz] at hz'
    cases hz'
    obtain ⟨u, hu, hgu, _⟩ := hback q v hv
    rw [← hrw]
    refine hf.barrierComplete_iff.mp hc.complete r w hw ⟨w, hw, q, ?_, u, hu, ?_⟩
    · rw [← hrefs]
      exact hq
    · rw [hgw, hgu]
      exact hlt
  · rw [hrefs] at hq
    refine (hc.yields r q hq).mono hf hw'.toFormed fun w hw => ?_
    by_cases e : q = p
    · exact ⟨y, e ▸ hd.lookup_self⟩
    · exact ⟨w, (hd.lookup_other e).trans hw⟩

/-- **A new object comes**, which yields proper references, and to objects
of generation two only. -/
theorem Closed.allocated {obj : ObjRef} {tag : TypeTag} {length : Nat} (hc : h.Closed tracer)
    (ha : Allocated h tag length obj h')
    (hold : ∀ q ∈ h'.refsOf tracer obj, ∃ y, h.lookup q = some y ∧ y.generation = .two) :
    h'.Closed tracer := by
  have hf := hc.wellFormed.toFormed
  have hf' := ha.wellFormed.toFormed
  obtain ⟨_, _, _, _, _, _, hobj⟩ := ha.object
  have hnew : ∀ p, obj ∉ h.refsOf tracer p := by
    intro p hp
    rcases hf.proper_iff.mp (hc.yields p obj hp) with e | ⟨x, hx⟩
    · exact hf'.ne_null_of_lookup hobj e
    · rw [ha.fresh] at hx
      cases hx
  -- the new object takes the place of none
  have hstay : ∀ q y, h.lookup q = some y → h'.lookup q = some y := by
    intro q y hy
    rw [ha.others q, hy]
    rintro rfl
    rw [ha.fresh] at hy
    cases hy
  refine ⟨ha.wellFormed, ha.barrierComplete hf hc.complete hnew fun _ hyounger => ?_,
    fun p q hq => ?_⟩
  · obtain ⟨z, _, q, hq, y, hy, hlt⟩ := hf'.holdsYounger_iff.mp hyounger
    obtain ⟨y', hy', htwo⟩ := hold q hq
    rw [hstay q y' hy'] at hy
    cases hy
    rw [htwo, Generation.lt_iff] at hlt
    exact absurd hlt (by cases z.generation <;> decide)
  · by_cases e : p = obj
    · rw [e] at hq
      obtain ⟨y, hy, _⟩ := hold q hq
      exact hf'.proper_iff.mpr (Or.inr ⟨y, hstay q y hy⟩)
    · rw [refsOf_congr hf hf' ha.setting.kinds (ha.others p e)] at hq
      exact (hc.yields p q hq).mono hf hf' fun y hy => ⟨y, hstay q y hy⟩

/-- Totals are not traced. -/
theorem Closed.withMetrics (hc : h.Closed tracer) (metrics : Metrics) :
    (h.withMetrics metrics).Closed tracer :=
  ⟨hc.wellFormed.withMetrics metrics, hc.complete, hc.yields⟩

/-- **A collection of a closed heap returns**, and leaves a closed heap. -/
theorem Closed.collect_ends (hc : h.Closed tracer) (ha : h.Anchored tracer) (level : Generation)
    (log : σ) :
    Ends (collect tracer level log h)
      (fun r h' => Collected h tracer level r.1 h' ∧ h'.Closed tracer ∧
        ∀ p ∈ tracer.roots, h'.Proper p)
      (fun _ _ => False) (fun _ => False) :=
  (Heap.collect_ends hc.wellFormed tracer level log).mono
    (fun _ _ hd => ⟨hd, hc.sifted ha hd.wellFormed hd.toSifted,
      fun p hp => hc.proper_root hd.wellFormed.toFormed hd.toSifted hp (ha.proper p hp)⟩)
    (fun _ _ hn => hn) fun f hf => hc.no_stray ha f hf

end Heap

end SegmentedHeap
