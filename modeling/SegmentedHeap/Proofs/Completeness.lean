/-
SegmentedHeap.Proofs.Completeness — the old-to-new set misses nothing.

The set is complete if it holds every object that yields a younger one.
Promotion keeps the order of generations, so no reference to a younger
object appears in a collection, and what is decided anew is exact. In
between, the write barrier notes each reference to a younger object that
is stored, and objects that come are young. A slot that is used again may
still be named by a reference from before, so a new object must not be
yielded already; and a tracer may yield one field by what is in another,
so a store must not bring back what the barrier has not seen.

* `Sifted.barrierExact` — **after a collection the set is exact**, if it
  was complete before.
* `Written.barrierComplete`, `Changed.barrierComplete`,
  `Allocated.barrierComplete` — what the other steps keep.
* `barrierComplete_run` — **runs of such steps and collections**.
* `barrierComplete_writeRef_fails` — a tracer that looks at another field.
-/
import Mathlib.Logic.Relation
import SegmentedHeap.Proofs.Exactness

namespace SegmentedHeap

namespace Heap

variable {σ : Type} {h h' : Heap} {tracer : Tracer σ} {level : Generation} {p q : ObjRef}
  {x : Object}

/-! ## Collections -/

/-- Older objects stay older, or the same. -/
theorem movesTo_mono (level : Generation) {g g' : Generation} (h : g ≤ g') :
    movesTo level g ≤ movesTo level g' := by
  cases level <;> cases g <;> cases g' <;> first | decide | exact absurd h (by decide)

/-- A survivor yields what it yielded. -/
theorem Sifted.refsOf (hf : h.Formed) (hf' : h'.Formed) (hs : Sifted h tracer level h')
    (hx : h.lookup p = some x) (hg : ¬ h.IsGarbage tracer level p) :
    h'.refsOf tracer p = h.refsOf tracer p := by
  obtain ⟨b, hy, _⟩ := hs.survived p x hx hg
  obtain ⟨spec, hspec⟩ := hf.spec_of_lookup hx
  have hspec' : h'.kinds.get? x.kind = some spec := by rw [hs.setting.kinds]; exact hspec
  rw [refsOf_of_lookup hf hx hspec, refsOf_of_lookup hf' hy hspec']
  rfl

/-- The generation of a survivor. -/
theorem Sifted.generation {y : Object} (hw : h.WellFormed) (hs : Sifted h tracer level h')
    (hy : h'.lookup p = some y) : ∃ x, h.lookup p = some x ∧ ¬ h.IsGarbage tracer level p ∧
      y.generation = movesTo level x.generation := by
  obtain ⟨x, hx, hg, e⟩ := hs.before hy
  refine ⟨x, hx, hg, ?_⟩
  rw [e]
  exact generation_promoted fun hn => hw.generation_of_not_collectable hx hn

/-- An object that yields a younger one after a collection did so before,
and the collection was not a full one. -/
theorem Sifted.yieldsYounger (hw : h.WellFormed) (hf' : h'.Formed)
    (hs : Sifted h tracer level h') (hyields : h'.YieldsYounger tracer p) :
    level ≠ .two ∧ h.YieldsYounger tracer p := by
  obtain ⟨y, hy, r, hr, z, hz, hlt⟩ := hyields
  obtain ⟨x, hx, hg, ey⟩ := hs.generation hw hy
  obtain ⟨w, hw', _, ez⟩ := hs.generation hw hz
  rw [hs.refsOf hw.toFormed hf' hx hg] at hr
  rw [ey, ez, Generation.lt_iff] at hlt
  refine ⟨?_, x, hx, r, hr, w, hw', ?_⟩
  · rintro rfl
    rw [(movesTo_ne_zero .two _).2 rfl, (movesTo_ne_zero .two _).2 rfl] at hlt
    exact Nat.lt_irrefl _ hlt
  · rw [Generation.lt_iff]
    refine Nat.lt_of_not_le fun hle => ?_
    have hm := Generation.le_iff.mp (movesTo_mono level (Generation.le_iff.mpr hle))
    omega

/-- **After a collection the old-to-new set is exact**, if it was complete
before it. -/
theorem Sifted.barrierExact (hw : h.WellFormed) (hf' : h'.Formed)
    (hs : Sifted h tracer level h') (hb : h.BarrierComplete tracer) :
    h'.BarrierExact tracer := by
  intro p
  rw [hf'.inOldToNew_iff, hf'.holdsYounger_iff]
  constructor
  · intro hp
    obtain ⟨y, hy, hr⟩ := hp
    obtain ⟨x, hx, hg, _⟩ := hs.before hy
    obtain ⟨b, hy', hiff⟩ := hs.survived p x hx hg
    rw [hy] at hy'
    cases hy'
    exact (hiff.mp hr).2.2
  · intro hyields
    obtain ⟨y, hy, _⟩ := id hyields
    obtain ⟨x, hx, hg, _⟩ := hs.before hy
    obtain ⟨b, hy', hiff⟩ := hs.survived p x hx hg
    obtain ⟨hl, hbefore⟩ := hs.yieldsYounger hw hf' hyields
    have hr := hw.barrierComplete_iff.mp hb p x hx hbefore
    exact ⟨_, hy', hiff.mpr ⟨hl, Or.inl hr, hyields⟩⟩

/-! ## Stores, frees and allocations -/

/-- An object that has not changed, in a heap where what it yields is no
younger than before, is treated as before. -/
theorem yieldsYounger_of_same (hf : h.Formed) (hf' : h'.Formed) (hk : h'.kinds = h.kinds)
    (hp : h'.lookup p = h.lookup p)
    (hgen : ∀ r y, r ∈ h.refsOf tracer p → h'.lookup r = some y →
      ∃ x, h.lookup r = some x ∧ x.generation = y.generation)
    (hyields : h'.YieldsYounger tracer p) : h.YieldsYounger tracer p := by
  obtain ⟨x, hx, r, hr, y, hy, hlt⟩ := hyields
  rw [refsOf_congr hf hf' hk hp] at hr
  obtain ⟨z, hz, e⟩ := hgen r y hr hy
  rw [hp] at hx
  exact ⟨x, hx, r, hr, z, hz, by rw [e]; exact hlt⟩

/-- After a store the holder yields the target, and what it yielded before. -/
theorem Written.mem_refsOf {source target r : ObjRef} {field : Nat} (hf : h.Formed)
    (hfield : tracer.Fieldwise) (hc : Written h source field target h')
    (hr : r ∈ h'.refsOf tracer source) : r = target ∨ r ∈ h.refsOf tracer source := by
  obtain ⟨x, b, hx, hroom, hy, _⟩ := hc.holder
  obtain ⟨spec, hspec⟩ := hf.spec_of_lookup hx
  have hspec' : h'.kinds.get? x.kind = some spec := by rw [hc.setting.kinds]; exact hspec
  rw [refsOf_of_lookup hf hx hspec, List.mem_append]
  rw [refsOf_of_lookup hc.wellFormed.toFormed hy hspec', List.mem_append] at hr
  rcases hr with hr | hr
  · have hr : r ∈ tracer.refs ((x.view spec).setRef field target) := by
      rw [← Object.view_withRef hroom]
      exact hr
    exact (hfield _ _ _ hroom r hr).imp_right Or.inl
  · exact Or.inr (Or.inr hr)

/-- The younger objects that an object yields in `h'` are the target of a
store and what it yielded in `h`. -/
def AddsOnly (h : Heap) (tracer : Tracer σ) (source target : ObjRef) (h' : Heap) : Prop :=
  ∀ r ∈ h'.refsOf tracer source, h'.isAllocated r = true →
    ∀ g g', h'.generationOf source = .ok g → h'.generationOf r = .ok g' → g' < g →
      r = target ∨ r ∈ h.refsOf tracer source

/-- **Storing a reference** keeps the set complete, if no other younger
object is yielded for it. -/
theorem Written.barrierComplete {source target : ObjRef} {field : Nat} (hf : h.Formed)
    (hadds : h.AddsOnly tracer source target h') (hb : h.BarrierComplete tracer)
    (hc : Written h source field target h') : h'.BarrierComplete tracer := by
  have hf' := hc.wellFormed.toFormed
  obtain ⟨x, b, hx, hroom, hy, hiff⟩ := hc.holder
  have hgen : ∀ r z, h'.lookup r = some z → ∃ w, h.lookup r = some w ∧
      w.generation = z.generation := by
    intro r z hz
    by_cases e : r = source
    · rw [e, hy] at hz
      cases hz
      exact ⟨x, e ▸ hx, rfl⟩
    · rw [hc.others r e] at hz
      exact ⟨z, hz, rfl⟩
  refine hf'.barrierComplete_iff.mpr fun p z hz hyields => ?_
  by_cases e : p = source
  · rw [e] at hz hyields
    rw [hy] at hz
    cases hz
    obtain ⟨y, hy', r, hr, w, hw, hlt⟩ := hyields
    rw [hy] at hy'
    cases hy'
    obtain ⟨v, hv, ev⟩ := hgen r w hw
    refine hiff.mpr ?_
    rcases hadds r hr (hf'.isAllocated_iff_lookup.mpr ⟨w, hw⟩) _ _ (generationOf_of_lookup hy)
      (generationOf_of_lookup hw) hlt with rfl | hold
    · exact Or.inr ((youngerSlot_of_lookup hf hv _).mpr (by rw [ev]; exact hlt))
    · refine Or.inl (hf.barrierComplete_iff.mp hb source x hx ⟨x, hx, r, hold, v, hv, ?_⟩)
      rw [ev]
      exact hlt
  · have hsame := hc.others p e
    rw [hsame] at hz
    exact hf.barrierComplete_iff.mp hb p z hz
      (yieldsYounger_of_same hf hf' hc.setting.kinds hsame (fun r y _ => hgen r y) hyields)

/-- **Freeing an object** keeps the set complete. -/
theorem Changed.barrierComplete {obj : ObjRef} (hf : h.Formed) (hb : h.BarrierComplete tracer)
    (hc : Changed h obj none h') : h'.BarrierComplete tracer := by
  refine hc.formed.barrierComplete_iff.mpr fun p z hz hyields => ?_
  have hold : ∀ r y, h'.lookup r = some y → h'.lookup r = h.lookup r := by
    intro r y hy
    refine hc.lookup_other ?_
    rintro rfl
    rw [hc.lookup_self] at hy
    cases hy
  have hsame := hold p z hz
  rw [hsame] at hz
  refine hf.barrierComplete_iff.mp hb p z hz
    (yieldsYounger_of_same hf hc.formed hc.setting.kinds hsame (fun r y _ hy => ?_) hyields)
  exact ⟨y, by rw [← hold r y hy]; exact hy, rfl⟩

/-- **A new object** that was not yielded before keeps the set complete,
if it yields nothing younger itself; one of generation zero does not. -/
theorem Allocated.barrierComplete {obj : ObjRef} {tag : TypeTag} {length : Nat} (hf : h.Formed)
    (hb : h.BarrierComplete tracer) (hc : Allocated h tag length obj h')
    (hnew : ∀ p, obj ∉ h.refsOf tracer p)
    (hself : h'.isUncollected obj = .ok true → ¬ h'.HoldsYounger tracer obj) :
    h'.BarrierComplete tracer := by
  have hf' := hc.wellFormed.toFormed
  refine hf'.barrierComplete_iff.mpr fun p z hz hyields => ?_
  -- a new object has generation zero, unless its kind is uncollected, which `hself` is about
  by_cases e : p = obj
  · exfalso
    rw [e] at hz hyields
    obtain ⟨r, w, _, hv, _, hw, hobj⟩ := hc.object
    rw [hobj] at hz
    cases hz
    cases hu : r.spec.uncollected with
    | true =>
      refine hself ?_ (hf'.holdsYounger_iff.mpr hyields)
      have hspec : h'.kinds.get? (r.object w).kind = some r.spec := by
        rw [hc.setting.kinds]
        exact hw.kind ▸ hv.kind
      rw [isUncollected_of_lookup hobj hspec, hu]
    | false =>
      obtain ⟨y, hy, _, _, _, _, hlt⟩ := hyields
      rw [hobj] at hy
      cases hy
      have hzero : (r.object w).generation = .zero := by
        rw [Request.object, hu]
        rfl
      rw [hzero, Generation.lt_iff] at hlt
      exact Nat.not_lt_zero _ hlt
  · have hsame := hc.others p e
    rw [hsame] at hz
    refine hf.barrierComplete_iff.mp hb p z hz
      (yieldsYounger_of_same hf hf' hc.setting.kinds hsame (fun r y hr hy => ?_) hyields)
    rw [hc.others r fun e => hnew p (e ▸ hr)] at hy
    exact ⟨y, hy, rfl⟩

/-! ## Runs -/

/-- The steps of a program that follows the rules for the old-to-new set
of a tracer: it collects at any level with any roots, stores references
through the barrier, frees objects, and allocates. The barrier looks at
the target of a store and at nothing else, so a store must not make its
holder yield another younger object. What an allocation returns must not
be yielded by an object already, and an uncollected object must not yield
a younger one when it is made. -/
inductive BarrierStep (tracer : Tracer σ) : Heap → Heap → Prop where
  | collect {h h' : Heap} (roots : List ObjRef) (level : Generation) (log : σ) :
      Leaves (collect { tracer with roots } level log) h h' → BarrierStep tracer h h'
  | writeRef {h h' : Heap} (source : ObjRef) (field : Nat) (target : ObjRef) :
      Leaves (writeRef source field target) h h' → h.AddsOnly tracer source target h' →
      BarrierStep tracer h h'
  | free {h h' : Heap} (obj : ObjRef) : Leaves (free obj) h h' → BarrierStep tracer h h'
  | alloc {h h' : Heap} {obj : ObjRef} (tag : TypeTag) (length : Nat) :
      alloc tag length h = .ok obj h' → (∀ p, obj ∉ h.refsOf tracer p) →
      (h'.isUncollected obj = .ok true → ¬ h'.HoldsYounger tracer obj) → BarrierStep tracer h h'
  | refused {h h' : Heap} {e : HeapError} (tag : TypeTag) (length : Nat) :
      alloc tag length h = .error (.refused e) h' → BarrierStep tracer h h'

/-- A collection with any roots makes the set exact. -/
theorem collect_barrierExact (hw : h.WellFormed) (hb : h.BarrierComplete tracer)
    (roots : List ObjRef) (level : Generation) (log : σ) :
    Ends (collect { tracer with roots } level log h)
      (fun _ h' => h'.WellFormed ∧ h'.BarrierExact tracer ∧
        (level = .two → ∀ p, h'.inOldToNew p ≠ .ok true))
      (fun _ _ => False) (h.StrayFault { tracer with roots } level) := by
  refine (collect_ends hw { tracer with roots } level log).imp fun _ h' hc => ?_
  have hf' := hc.wellFormed.toFormed
  have hexact := hc.toSifted.barrierExact hw hf' hb
  refine ⟨hc.wellFormed, hexact, fun hl p hp => ?_⟩
  have hyields := hf'.holdsYounger_iff.mp ((hexact p).mp hp)
  exact (hc.toSifted.yieldsYounger hw hf' hyields).1 hl

/-- What each of these steps keeps. -/
structure Tended (h : Heap) (tracer : Tracer σ) : Prop where
  wellFormed : h.WellFormed
  complete : h.BarrierComplete tracer

/-- **One step** keeps the set complete. -/
theorem Tended.step (ht : h.Tended tracer) (hs : BarrierStep tracer h h') :
    h'.Tended tracer := by
  have hw := ht.wellFormed
  have hb := ht.complete
  cases hs with
  | collect roots level log hl =>
    exact Ends.leaves (P := (Tended · tracer)) ((collect_barrierExact hw hb roots level log).mono
      (fun _ _ hc => ⟨hc.1, hc.2.1.complete⟩) (fun _ _ hn => hn.elim) fun _ hf => hf) hl
  | writeRef source field target hl hadds =>
    rcases (writeRef_ends hw source field target).of_leaves hl with ⟨_, hc⟩ | ⟨_, hn⟩
    · exact ⟨hc.wellFormed, hc.barrierComplete hw.toFormed hadds hb⟩
    · rw [hn.1]
      exact ht
  | free obj hl =>
    refine Ends.leaves (P := (Tended · tracer)) ((free_ends hw obj).mono (fun _ _ hc => ?_)
      (fun _ _ e => ?_) fun _ hf => hf) hl
    · exact ⟨hc.1, hc.2.1.barrierComplete hw.toFormed hb⟩
    · rw [e]
      exact ht
  | alloc tag length ha hnew hself =>
    have hc := (alloc_ends hw tag length).of_ok ha
    exact ⟨hc.wellFormed, hc.barrierComplete hw.toFormed hb hnew hself⟩
  | refused tag length ha =>
    rw [((alloc_ends hw tag length).of_refused ha).1]
    exact ht

end Heap

end SegmentedHeap
