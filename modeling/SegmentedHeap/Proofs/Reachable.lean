/-
SegmentedHeap.Proofs.Reachable — the heaps that a program can come to.

A program builds a heap and then calls its operations in any order, with
any arguments: it allocates and frees, stores references and bytes,
registers references, and collects with any tracer. A refused operation
leaves a heap as well; a fault ends the run. Bytes may be stored anywhere
in an object, so an object can hold any reference at all.

* `Reachable` — the heaps of such runs.
* `steady_alloc`, … — what each operation leaves is well formed, and set
  up as before.
* `Reachable.wellFormed` — **the heaps of a run are well formed**.
* `smallHeap`, `nursery`, `family` — small heaps of such runs.
-/
import SegmentedHeap.Model.Layout
import SegmentedHeap.Proofs.Collection
import SegmentedHeap.Proofs.Writing

namespace SegmentedHeap

namespace Heap

/-- The heaps of the runs of a program. -/
inductive Reachable : Heap → Prop where
  | create {config : Config} {layout : ObjectLayout} {system : System} {h : Heap} :
      create config layout system = .ok h → Reachable h
  | alloc {h h' : Heap} (tag : TypeTag) (length : Nat) :
      Reachable h → Leaves (alloc tag length) h h' → Reachable h'
  | allocRetrying {σ : Type} {h h' : Heap} (tracer : Tracer σ) (tag : TypeTag) (length : Nat)
      (log : σ) : Reachable h → Leaves (allocRetrying tracer tag length log) h h' → Reachable h'
  | free {h h' : Heap} (obj : ObjRef) : Reachable h → Leaves (free obj) h h' → Reachable h'
  | setBytes {h h' : Heap} (obj : ObjRef) (start : Nat) (bytes : List UInt8) :
      Reachable h → Leaves (setBytes obj start bytes) h h' → Reachable h'
  | register {h h' : Heap} (source target : ObjRef) :
      Reachable h → Leaves (register source target) h h' → Reachable h'
  | writeRef {h h' : Heap} (source : ObjRef) (field : Nat) (target : ObjRef) :
      Reachable h → Leaves (writeRef source field target) h h' → Reachable h'
  | collect {σ : Type} {h h' : Heap} (tracer : Tracer σ) (level : Generation) (log : σ) :
      Reachable h → Leaves (collect tracer level log) h h' → Reachable h'

/-! ## What each operation keeps -/

/-- What is left is well formed, and set up as before. -/
structure Steady (h h' : Heap) : Prop where
  wellFormed : h'.WellFormed
  setting : SameSetting h h'

theorem Steady.refl {h : Heap} (hw : h.WellFormed) : Steady h h := ⟨hw, .refl h⟩

section

variable {h h' : Heap} (hw : h.WellFormed)

include hw

theorem Tried.steady {tag : TypeTag} {length : Nat} {r : Except HeapError ObjRef}
    (ht : Tried h tag length r h') : Steady h h' := by
  cases r with
  | ok obj =>
    have ha : Allocated h tag length obj h' := ht
    exact ⟨ha.wellFormed, ha.setting⟩
  | error e =>
    obtain ⟨rfl, _⟩ := ht
    exact .refl hw

omit hw in
theorem TriedAgain.steady {σ : Type} {tracer : Tracer σ} {tag : TypeTag} {length : Nat}
    {r : Except HeapError ObjRef} (ht : TriedAgain h tracer tag length r h') : Steady h h' := by
  obtain ⟨_, _, h₁, h₂, _, hc, ht, rfl⟩ := ht
  have hs := ht.steady hc.wellFormed
  have hsetting := hc.setting.trans hs.setting
  exact ⟨hs.wellFormed.withMetrics _, hsetting.config, hsetting.layout, hsetting.kinds,
    hsetting.geometry⟩

theorem steady_alloc {tag : TypeTag} {length : Nat} (hl : Leaves (alloc tag length) h h') :
    Steady h h' := by
  rcases (alloc_ends hw tag length).of_leaves hl with ⟨_, ha⟩ | ⟨_, hn⟩
  · exact ⟨ha.wellFormed, ha.setting⟩
  · rw [hn.1]
    exact .refl hw

theorem steady_allocRetrying {σ : Type} {tracer : Tracer σ} {tag : TypeTag} {length : Nat}
    {log : σ} (hl : Leaves (allocRetrying tracer tag length log) h h') : Steady h h' := by
  rcases (allocRetrying_ends hw tracer tag length log).of_leaves hl with ⟨_, ht | ht⟩ | ⟨_, hn⟩
  · exact ht.steady hw
  · exact ht.steady
  · exact hn.elim

theorem steady_free {obj : ObjRef} (hl : Leaves (free obj) h h') : Steady h h' := by
  rcases (free_ends hw obj).of_leaves hl with ⟨_, hf, hc, _⟩ | ⟨_, e⟩
  · exact ⟨hf, hc.setting⟩
  · rw [e]
    exact .refl hw

theorem steady_setBytes {obj : ObjRef} {start : Nat} {bytes : List UInt8}
    (hl : Leaves (setBytes obj start bytes) h h') : Steady h h' := by
  rcases (setBytes_ends hw obj start bytes).of_leaves hl with ⟨_, _, _, _, hf, hc, _⟩ | ⟨_, hn⟩
  · exact ⟨hf, hc.setting⟩
  · exact hn.elim

theorem steady_register {source target : ObjRef} (hl : Leaves (register source target) h h') :
    Steady h h' := by
  rcases (register_ends hw source target).of_leaves hl with ⟨_, hr⟩ | ⟨_, hn⟩
  · exact ⟨hr.wellFormed, hr.setting⟩
  · exact hn.elim

theorem steady_writeRef {source target : ObjRef} {field : Nat}
    (hl : Leaves (writeRef source field target) h h') : Steady h h' := by
  rcases (writeRef_ends hw source field target).of_leaves hl with ⟨_, hc⟩ | ⟨_, hn⟩
  · exact ⟨hc.wellFormed, hc.setting⟩
  · rw [hn.1]
    exact .refl hw

theorem steady_collect {σ : Type} {tracer : Tracer σ} {level : Generation} {log : σ}
    (hl : Leaves (collect tracer level log) h h') : Steady h h' := by
  rcases (collect_ends hw tracer level log).of_leaves hl with ⟨_, hc⟩ | ⟨_, hn⟩
  · exact ⟨hc.wellFormed, hc.setting⟩
  · exact hn.elim

end

/-- **Every heap of a run is well formed**, and set up as its
configuration says. -/
theorem Reachable.invariant {h : Heap} (hr : Reachable h) : h.WellFormed ∧ h.Configured := by
  have keep : ∀ {h h' : Heap}, Steady h h' → h.WellFormed ∧ h.Configured →
      h'.WellFormed ∧ h'.Configured := fun hs hc => ⟨hs.wellFormed, hc.2.congr hs.setting⟩
  induction hr with
  | create hc => exact ⟨(wellFormed_create hc).1, configured_create hc⟩
  | alloc tag length _ hl ih => exact keep (steady_alloc ih.1 hl) ih
  | allocRetrying tracer tag length log _ hl ih => exact keep (steady_allocRetrying ih.1 hl) ih
  | free obj _ hl ih => exact keep (steady_free ih.1 hl) ih
  | setBytes obj start bytes _ hl ih => exact keep (steady_setBytes ih.1 hl) ih
  | register source target _ hl ih => exact keep (steady_register ih.1 hl) ih
  | writeRef source field target _ hl ih => exact keep (steady_writeRef ih.1 hl) ih
  | collect tracer level log _ hl ih => exact keep (steady_collect ih.1 hl) ih

theorem Reachable.wellFormed {h : Heap} (hr : Reachable h) : h.WellFormed := hr.invariant.1

theorem Reachable.configured {h : Heap} (hr : Reachable h) : h.Configured := hr.invariant.2

/-! ## A few pairs -/

/-- Segments as small as the kinds of the model allow. -/
def smallConfig : Config where
  chunkBytes := 8
  segmentChunks := 8
  segmentsPerBlock := 1
  dataAlignment := 8

/-- A new heap for the objects of the model. -/
def smallHeap : Heap :=
  (create smallConfig (Model.layout 8) .standard).toOption.get (by decide +kernel)

theorem create_smallHeap : create smallConfig (Model.layout 8) .standard = .ok smallHeap :=
  eq_ok_of_toOption (Option.some_get _).symm

theorem reachable_smallHeap : Reachable smallHeap := .create create_smallHeap

/-- A new heap for them with no more than one segment. -/
def tightHeap : Heap :=
  (create { smallConfig with maxSegments := 1 } (Model.layout 8) .standard).toOption.get
    (by decide +kernel)

theorem create_tightHeap :
    create { smallConfig with maxSegments := 1 } (Model.layout 8) .standard = .ok tightHeap :=
  eq_ok_of_toOption (Option.some_get _).symm

theorem reachable_tightHeap : Reachable tightHeap := .create create_tightHeap

/-- Makes a pair. -/
abbrev allocPair : HeapM ObjRef := alloc Model.ModelType.pair.tag 0

/-- The roots, and both halves of each pair. -/
def pairsFrom (roots : List ObjRef) : Tracer Unit := { roots, refs := fun v => v.refs 2 }

/-- The first three pairs of a heap. The halves of a new pair are zero,
and refer to the first one. -/
def holder : ObjRef := ⟨0⟩
@[inherit_doc holder] def child : ObjRef := ⟨1⟩
@[inherit_doc holder] def orphan : ObjRef := ⟨2⟩

/-- An old pair, and two young ones that nothing refers to. -/
def nursery : Heap :=
  after allocPair (after allocPair
    (after (collect (pairsFrom [holder]) .two ()) (after allocPair smallHeap)))

/-- The old pair refers to one of the young ones. -/
def family : Heap := after (writeRef holder 0 child) nursery

theorem reachable_nursery : nursery.Reachable :=
  .alloc _ _ (.alloc _ _ (.collect (pairsFrom [holder]) .two () (.alloc _ _ reachable_smallHeap
    (leaves_after (by decide +kernel))) (leaves_after (by decide +kernel)))
    (leaves_after (by decide +kernel))) (leaves_after (by decide +kernel))

theorem reachable_family : family.Reachable :=
  .writeRef holder 0 child reachable_nursery (leaves_after (by decide +kernel))

/-- The young pair of the family is kept by what is noted of its holder. -/
theorem remembered_family : family.generationOf holder = .ok .two ∧
    family.generationOf child = .ok .zero ∧ family.readRef holder 0 = .ok child ∧
    family.inOldToNew holder = .ok true := by
  decide +kernel

theorem barrierComplete_family (roots : List ObjRef) :
    family.BarrierComplete (pairsFrom roots) := by
  have hnone : family.missesNothing (pairsFrom []) = true := by decide +kernel
  exact reachable_family.wellFormed.toFormed.missesNothing_iff.mp hnone

end Heap

end SegmentedHeap
