/-
SegmentedHeap.Proofs.Transparency — what names no object is passed over.

A tracer may yield any reference at all: into a segment that is not
reserved, to a free slot, into the middle of an object. Marking goes on
from objects only, and so does everything after it: an object that is
looked at again when the old-to-new set is made anew was marked or out of
scope, so it is still there, and of what it yields then only objects that
are younger count. So a collection comes to the same as if the tracer
yielded references to objects only. If references are checked, a collection
stops at the first that names nothing, and if there is none it is the same
collection again.

The guarded collection is part of the statement: no step of a collection
lacks anything that it relies on, whatever the tracer yields.

* `Tracer.within` — the tracer that yields objects of a heap only.
* `Stray` — a reference that a collection meets and that names nothing.
* `Completes`, `Rejects` — the two ways in which a collection ends.
* `collect_transparent` — **the collections of any tracer**, with
  references checked or not.
-/
import SegmentedHeap.Proofs.Books
import SegmentedHeap.Proofs.Checking

namespace SegmentedHeap

/-- The tracer that yields those references only that name objects of the
heap. -/
def Tracer.within {σ : Type} (h : Heap) (tracer : Tracer σ) : Tracer σ where
  roots := tracer.roots.filter h.isAllocated
  refs := fun v => (tracer.refs v).filter h.isAllocated
  tied := fun p => (tracer.tied p).filter h.isAllocated
  freed := tracer.freed

namespace Heap

variable {σ : Type} {h : Heap} {tracer : Tracer σ} {level : Generation} {p q : ObjRef}

/-! ## Tracers of objects only -/

theorem mem_refsOf_within (h g : Heap) :
    p ∈ g.refsOf (tracer.within h) q ↔ p ∈ g.refsOf tracer q ∧ h.isAllocated p = true := by
  unfold refsOf
  cases g.view? q with
  | none => simp
  | some v =>
    show p ∈ (tracer.refs v).filter h.isAllocated ++ (tracer.tied q).filter h.isAllocated ↔ _
    rw [← List.filter_append, List.mem_filter]

/-- The same objects are left. -/
theorem alike_within (h : Heap) (tracer : Tracer σ) : h.Alike tracer (tracer.within h) where
  roots p hp := by
    show _ ↔ p ∈ tracer.roots.filter h.isAllocated
    rw [List.mem_filter, and_iff_left hp]
  yields q p hp := by rw [mem_refsOf_within, and_iff_left hp]

/-! ## How a collection ends -/

/-- A reference that marking meets, and that is neither null nor names an
object. -/
def Stray (h : Heap) (tracer : Tracer σ) (level : Generation) (p : ObjRef) : Prop :=
  h.Met tracer level p ∧ p ≠ .null ∧ h.isAllocated p = false

/-- A collection returns, and finds at each of its steps what it relies
on. -/
structure Completes (h : Heap) (tracer : Tracer σ) (level : Generation)
    (report : CollectionReport) (calls : List FreedCall) (h' : Heap) : Prop where
  collects : h.Collects tracer level report calls h'
  guarded : ∀ log,
    guardedCollect tracer level log h = .ok ((report, tracer.told calls log), h')

/-- A collection stops at a reference, and finds until then what it relies
on. -/
structure Rejects (h : Heap) (tracer : Tracer σ) (level : Generation) (p : ObjRef) : Prop where
  collect : ∀ log, ∃ h', collect tracer level log h = .error (.fault (.strayReference p)) h'
  guarded : ∀ log, guardedCollect tracer level log h = .error (.strayReference p)

theorem Sound.checking (hs : h.Sound) (on : Bool) : (h.checking on).Sound :=
  ⟨hs.wellFormed.checking on, hs.accounted⟩

theorem Sound.completes {report : CollectionReport} {calls : List FreedCall} {h' : Heap}
    (hs : h.Sound) (hc : h.Collects tracer level report calls h') :
    h.Completes tracer level report calls h' := by
  refine ⟨hc, fun log => ?_⟩
  rw [guardedCollect_eq hs.wellFormed hs.accounted, hc log]

/-- A collection that has met a stray reference stops at it. -/
theorem Sound.rejects (hs : h.Sound) (hc : h.config.checkRefs = true)
    (hp : (h.mark tracer level).stray = some p) : h.Rejects tracer level p := by
  have hrun : ∀ log, Heap.collect tracer level log h =
      .error (.fault (.strayReference p)) (h.mark tracer level).heap := fun log => by
    simp only [Heap.collect, (marked hs.wellFormed.toFormed tracer level).setting.config, hc, hp,
      if_true]
  refine ⟨fun log => ⟨_, hrun log⟩, fun log => ?_⟩
  rw [guardedCollect_eq hs.wellFormed hs.accounted, hrun log]

/-- Marking notes a stray reference if it meets one. -/
theorem Marked.noted {m : Marking} (hf : h.Formed) (hm : Marked h tracer level m) :
    (∀ p, m.stray = some p → h.Stray tracer level p) ∧
      (m.stray = none → ∀ p, ¬ h.Stray tracer level p) := by
  constructor
  · intro p hp
    obtain ⟨hmet, hne, hx⟩ := hm.stray p hp
    exact ⟨hmet, hne, hf.not_isAllocated_iff_lookup.mpr hx⟩
  · rintro hnone p ⟨hmet, hne, hp⟩
    rcases hm.clean hnone p hmet with e | hx
    · exact hne e
    · rw [hf.isAllocated_iff_lookup.mpr hx] at hp
      cases hp

/-! ## Checked and unchecked -/

/-- **References that name nothing are passed over, and looking for them
changes nothing else.** Without checks a collection with any tracer comes
to the same as one with the tracer that yields objects only, and neither
lacks anything. With checks it stops at a stray reference if it meets one;
otherwise it comes to the same as without. -/
theorem collect_transparent (hr : h.Reachable) (tracer : Tracer σ) (level : Generation) :
    ∃ report calls h',
      (h.checking false).Completes tracer level report calls h' ∧
      (h.checking false).Completes (tracer.within h) level report calls h' ∧
      ((∃ p, h.Stray tracer level p) → ∃ p, h.Stray tracer level p ∧
        (h.checking true).Rejects tracer level p) ∧
      ((∀ p, ¬ h.Stray tracer level p) → (h.checking true).Completes tracer level report
        (calls.map (FreedCall.checking true)) (h'.checking true)) := by
  have hs := hr.sound
  have hoff := hs.checking false
  have hon := hs.checking true
  have hf := hs.wellFormed.toFormed
  obtain ⟨hstray, hclean⟩ := (marked hf tracer level).noted hf
  -- a stray reference is noted whether it is looked for or not
  have hmark : ∀ on, ((h.checking on).mark tracer level).stray = (h.mark tracer level).stray :=
    fun on => by
      rw [mark_checking]
      rfl
  have hany := collects_of_unchecked hoff.wellFormed.toFormed tracer level rfl
  have hwithin := (alike_within (h.checking false) tracer).collects hoff.wellFormed.toFormed rfl
    level
  refine ⟨_, _, _, hoff.completes hany, hoff.completes hwithin, ?_, ?_⟩
  · rintro ⟨p, hp⟩
    cases hnoted : (h.mark tracer level).stray with
    | none => exact absurd hp (hclean hnoted p)
    | some q => exact ⟨q, hstray q hnoted, hon.rejects rfl ((hmark true).trans hnoted)⟩
  · intro hn
    have hnone : (h.mark tracer level).stray = none :=
      Option.eq_none_iff_forall_ne_some.mpr fun p hp => hn p (hstray p hp)
    have hall := collects_of_clean hon.wellFormed.toFormed tracer level
      fun _ => (hmark true).trans hnone
    have hsame : (h.checking true).mark tracer level =
        ((h.checking false).mark tracer level).checking true := by
      rw [mark_checking, mark_checking]
      rfl
    rw [hsame, settle_checking] at hall
    refine hon.completes ?_
    rw [← freedCalls_checking]
    exact hall

/-- A new cell takes the first two chunks of its segment. Its tracer yields
the middle of the cell, a free slot, a slot of no segment and null, as
roots and as its references: of the roots only the cell is left, and with
checks the collection stops. -/
theorem collect_transparent_cell : ∃ (h : Heap) (tracer : Tracer (List ObjRef)),
    h.Reachable ∧ tracer.roots.length = 5 ∧ (tracer.within h).roots = [.ofSlot 0 0] ∧
    ∃ report calls h',
      (h.checking false).Completes tracer .one report calls h' ∧
      (h.checking false).Completes (tracer.within h) .one report calls h' ∧
      ∃ p, h.Stray tracer .one p ∧ (h.checking true).Rejects tracer .one p := by
  let h := after (alloc Model.ModelType.cell.tag 0) smallHeap
  let garbage : List ObjRef := [.ofSlot 0 1, .ofSlot 0 2, .ofSlot 7 0, .null]
  let tracer : Tracer (List ObjRef) :=
    { roots := garbage ++ [.ofSlot 0 0], refs := fun _ => garbage
      freed := fun _ obj log => obj :: log }
  have hr : h.Reachable := .alloc _ _ reachable_smallHeap (leaves_after (by decide +kernel))
  have hfree : h.isAllocated (.ofSlot 0 1) = false := by decide +kernel
  have hstray : h.Stray tracer .one (.ofSlot 0 1) :=
    ⟨Or.inl (by simp [tracer, garbage]), by decide, hfree⟩
  obtain ⟨report, calls, h', hoff, hwithin, hreject, _⟩ := collect_transparent hr tracer .one
  refine ⟨h, tracer, hr, rfl, ?_, report, calls, h', hoff, hwithin, hreject ⟨_, hstray⟩⟩
  show (garbage ++ [ObjRef.ofSlot 0 0]).filter h.isAllocated = [.ofSlot 0 0]
  decide +kernel

end Heap

end SegmentedHeap
