/-
SegmentedHeap.Proofs.Survival — no live object is lost.

An object is live if the roots lead to it through allocated objects. A
collection of the young does not look at old objects, but a live object
in scope is kept all the same: the last reference on the way to it comes
from a root, from a kept object, or from an object that is out of scope.
In the last case it is a reference to a younger object, so that its
holder is in the old-to-new set if that set is complete.

* `Live` — what the roots lead to.
* `Live.kept` — live objects in scope are kept.
* `Keeps` — an object is still there, and has not changed.
* `collect_keeps` — **a collection keeps the live objects**, the
  uncollected ones and those out of scope.
-/
import SegmentedHeap.Proofs.Reachable

namespace SegmentedHeap

namespace Heap

variable {σ : Type} {h h' : Heap} {tracer : Tracer σ} {level : Generation} {p : ObjRef} {x : Object}

/-- The allocated objects that the roots lead to. -/
inductive Live (h : Heap) (tracer : Tracer σ) : ObjRef → Prop where
  | root {p : ObjRef} : p ∈ tracer.roots → h.isAllocated p = true → Live h tracer p
  | step {p q : ObjRef} : Live h tracer q → p ∈ h.refsOf tracer q → h.isAllocated p = true →
      Live h tracer p

theorem Live.isAllocated (hl : h.Live tracer p) : h.isAllocated p = true := by
  cases hl with
  | root _ ha => exact ha
  | step _ _ ha => exact ha

theorem Formed.eligible_of_le (hf : h.Formed) (hx : h.lookup p = some x)
    (hg : x.generation ≤ level) : h.Eligible level p := by
  obtain ⟨spec, hspec⟩ := hf.spec_of_lookup hx
  exact ⟨x, spec, hx, hspec, Or.inr hg⟩

/-- **A live object in scope is kept.** -/
theorem Live.kept (hf : h.Formed) (hb : level ≠ .two → h.BarrierComplete tracer)
    (hl : h.Live tracer p) (hx : h.lookup p = some x) (hg : x.generation ≤ level) :
    h.Kept tracer level p := by
  induction hl generalizing x with
  | root hr _ => exact .root hr (hf.eligible_of_le hx hg)
  | step hq hp _ ih =>
    obtain ⟨y, hy⟩ := hf.isAllocated_iff_lookup.mp hq.isAllocated
    by_cases hgy : y.generation ≤ level
    · exact .step (ih hy hgy) hp (hf.eligible_of_le hx hg)
    · -- the holder is out of scope, so it is older, and remembered
      have hlt : x.generation < y.generation := by
        rw [Generation.lt_iff]
        rw [Generation.le_iff] at hg hgy
        omega
      have hne : level ≠ .two := by
        rintro rfl
        exact hgy (by cases y.generation <;> decide)
      have hr := hf.barrierComplete_iff.mp (hb hne) _ y hy ⟨y, hy, _, hp, x, hx, hlt⟩
      exact .remembered ⟨hne, y, hy, hr, hgy⟩ hp (hf.eligible_of_le hx hg)

/-- The object is still allocated in `h'`, with the same kind, length,
capacity, address and bytes, and no younger. -/
structure Keeps (h h' : Heap) (p : ObjRef) : Prop where
  isAllocated : h'.isAllocated p = true
  kindOf : h'.kindOf p = h.kindOf p
  lengthOf : h'.lengthOf p = h.lengthOf p
  capacity : h'.capacity p = h.capacity p
  addressOf : h'.addressOf p = h.addressOf p
  bytes : h'.bytes p = h.bytes p
  generationOf : ∃ g g', h.generationOf p = .ok g ∧ h'.generationOf p = .ok g' ∧ g ≤ g'

theorem le_promoted (x : Object) (level : Generation) (collected : Bool) :
    x.generation ≤ (x.promoted level collected).generation := by
  rw [Object.promoted]
  split
  · exact Generation.le_promoted _ _
  · exact Generation.le_iff.mpr (Nat.le_refl _)

/-- What sifting does not free, it keeps. -/
theorem Sifted.keeps (hf : h.Formed) (hf' : h'.Formed) (hs : Sifted h tracer level h')
    (hx : h.lookup p = some x) (hg : ¬ h.IsGarbage tracer level p) : Keeps h h' p := by
  obtain ⟨b, hy, _⟩ := hs.survived p x hx hg
  obtain ⟨spec, hspec⟩ := hf.spec_of_lookup hx
  have hspec' : h'.kinds.get? x.kind = some spec := by rw [hs.setting.kinds]; exact hspec
  refine ⟨hf'.isAllocated_iff_lookup.mpr ⟨_, hy⟩, ?_, ?_, ?_, ?_, ?_, ?_⟩
  · rw [kindOf_of_lookup hx, kindOf_of_lookup hy]
    rfl
  · rw [lengthOf_of_lookup hf hx hspec, lengthOf_of_lookup hf' hy hspec']
    rfl
  · rw [capacity_of_lookup hx, capacity_of_lookup hy]
    rfl
  · rw [addressOf_of_lookup hx, addressOf_of_lookup hy]
    rfl
  · rw [bytes_eq_of_lookup hf hx, bytes_eq_of_lookup hf' hy]
    rfl
  · exact ⟨_, _, generationOf_of_lookup hx, generationOf_of_lookup hy, le_promoted x level _⟩

/-- An object that the roots lead to, that is never collected, or that is
out of scope. -/
def Protected (h : Heap) (tracer : Tracer σ) (level : Generation) (p : ObjRef) : Prop :=
  h.Live tracer p ∨ h.isAllocated p = true ∧
    (h.isUncollected p = .ok true ∨ ∃ g, h.generationOf p = .ok g ∧ level < g)

theorem Protected.not_garbage (hf : h.Formed) (hb : level ≠ .two → h.BarrierComplete tracer)
    (hp : h.Protected tracer level p) : ¬ h.IsGarbage tracer level p := by
  intro hgarbage
  obtain ⟨hc, hk, x, hx, hg⟩ := hgarbage
  rcases hp with hl | ⟨_, hu | ⟨g, hgen, hlt⟩⟩
  · exact hk (hl.kept hf hb hx hg)
  · obtain ⟨spec, hspec⟩ := hf.spec_of_lookup hx
    rw [isUncollected_of_lookup hx hspec] at hu
    rw [collectable, hx, Option.bind_some, hspec, Option.any_some, Except.ok.inj hu] at hc
    cases hc
  · rw [generationOf_of_lookup hx] at hgen
    cases hgen
    rw [Generation.lt_iff] at hlt
    rw [Generation.le_iff] at hg
    omega

theorem Protected.isAllocated (hp : h.Protected tracer level p) : h.isAllocated p = true := by
  rcases hp with hl | ⟨ha, _⟩
  · exact hl.isAllocated
  · exact ha

/-- **A collection keeps every live object**, and every object that is
never collected or out of scope, whatever the roots lead to; it returns
unless references are checked and one that it met names nothing. The
old-to-new set has to be complete, except for a full collection. -/
theorem collect_keeps (hr : h.Reachable) (tracer : Tracer σ) (level : Generation) (log : σ)
    (hb : level ≠ .two → h.BarrierComplete tracer) :
    Ends (collect tracer level log h)
      (fun _ h' => ∀ p, h.Protected tracer level p → Keeps h h' p)
      (fun _ _ => False) (h.StrayFault tracer level) := by
  have hw := hr.wellFormed
  refine (collect_ends hw tracer level log).imp fun _ h' hc p hp => ?_
  obtain ⟨x, hx⟩ := hw.isAllocated_iff_lookup.mp hp.isAllocated
  exact hc.toSifted.keeps hw.toFormed hc.wellFormed.toFormed hx (hp.not_garbage hw.toFormed hb)

/-- A young pair that only an old one refers to is kept, as its holder is
remembered. The one that nothing refers to is not. -/
theorem collect_keeps_family : ∃ (h' : Heap) (r : CollectionReport × Unit),
    family.Reachable ∧ family.inOldToNew holder = .ok true ∧
      family.generationOf holder = .ok .two ∧ family.generationOf child = .ok .zero ∧
      collect (pairsFrom [holder]) .zero () family = .ok r h' ∧
      Keeps family h' holder ∧ Keeps family h' child ∧ h'.generationOf child = .ok .one ∧
      family.isAllocated orphan = true ∧ h'.isAllocated orphan = false := by
  let h' := after (collect (pairsFrom [holder]) .zero ()) family
  obtain ⟨hold, hyoung, _, hin⟩ := remembered_family
  have hstate : family.isAllocated holder = true ∧ family.isAllocated child = true ∧
      child ∈ family.refsOf (pairsFrom [holder]) holder ∧ family.isAllocated orphan = true ∧
      h'.generationOf child = .ok .one ∧ h'.isAllocated orphan = false := by
    decide +kernel
  obtain ⟨hholder, hchild, hyields, horphan, hone, hgone⟩ := hstate
  obtain ⟨r, he⟩ : ∃ r, collect (pairsFrom [holder]) .zero () family = .ok r h' :=
    ok_after (by decide +kernel)
  have hkeeps := (collect_keeps reachable_family (pairsFrom [holder]) .zero () fun _ =>
    barrierComplete_family [holder]).of_ok he
  have hroot : family.Live (pairsFrom [holder]) holder := .root List.mem_cons_self hholder
  exact ⟨h', r, reachable_family, hin, hold, hyoung, he, hkeeps holder (Or.inl hroot),
    hkeeps child (Or.inl (hroot.step hyields hchild)), hone, horphan, hgone⟩

end Heap

end SegmentedHeap
