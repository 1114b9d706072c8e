/-
SegmentedHeap.Proofs.Draining — marking asks each object once.

The loop of marking takes objects off the front of a queue that grows
while it runs. It asks for the references of each, and whatever the
answer is, it ends: an object enters the queue in the very step that sets
its mark, so that none enters it twice, and the slots of the table bound
what is still to come. Nothing is assumed of the answers; they may name
objects again and again, lead round in circles, or name nothing at all.

* `Marking.Drains` — a run of the loop, with the objects that it asks.
* `exists_drains` — the loop ends.
* `Drains.holds`, `Drains.scansOnce` — what is marked by then.
* `Drains.drain_eq` — marking in a bounded number of passes is this run.
* `marking_scans_once` — **each marked object is asked once**, and the
  collectable ones are counted.
-/
import SegmentedHeap.Proofs.Collection
import SegmentedHeap.Proofs.Occupancy

namespace SegmentedHeap

namespace Marking

/-- A run of the loop over the reached objects from position `next` on.
The answer of a pass may depend on the pass and on all of the heap; the
row of objects `asked` has one for each pass. -/
inductive Drains (level : Generation) (answer : Nat → Marking → ObjRef → List ObjRef) :
    (next : Nat) → Marking → (asked : List ObjRef) → Marking → Prop where
  | done {next : Nat} {m : Marking} : m.reached[next]? = none → Drains level answer next m [] m
  | pass {next : Nat} {m m' : Marking} {obj : ObjRef} {asked : List ObjRef} :
      m.reached[next]? = some obj →
      Drains level answer (next + 1) (m.visitAll level (answer next m obj)) asked m' →
      Drains level answer next m (obj :: asked) m'

section Drains

variable {σ : Type} {h : Heap} {tracer : Tracer σ} {level : Generation} {visited : List ObjRef}
  {answer : Nat → Marking → ObjRef → List ObjRef} {next : Nat} {m m' : Marking}
  {asked : List ObjRef}

/-- **The loop ends.** A pass leaves one slot less for those to come. -/
theorem exists_drains (hf : h.Formed) (answer : Nat → Marking → ObjRef → List ObjRef)
    (slots next : Nat) (hslots : h.slotCount ≤ next + slots) (hm : Holds h level visited m) :
    ∃ asked m', Drains level answer next m asked m' := by
  induction slots generalizing m visited next with
  | zero => exact ⟨[], m, .done (Array.getElem?_eq_none (Nat.le_trans hm.size_le hslots))⟩
  | succ slots ih =>
    cases hnext : m.reached[next]? with
    | none => exact ⟨[], m, .done hnext⟩
    | some obj =>
      obtain ⟨asked, m', hd⟩ :=
        ih (next + 1) (by omega) (hm.visitAll hf (answer next m obj))
      exact ⟨obj :: asked, m', .pass hnext hd⟩

/-- The invariant of marking holds at the end of the loop, and the objects
asked are those reached, in their order. -/
theorem Drains.holds (hf : h.Formed) (hd : Drains level answer next m asked m')
    (hm : Holds h level visited m) : (∃ all, Holds h level all m') ∧
      m'.reached.toList = m.reached.toList.take next ++ asked := by
  induction hd generalizing visited with
  | @done next m hnone =>
    have hle : m.reached.toList.length ≤ next := Array.getElem?_eq_none_iff.mp hnone
    rw [List.take_of_length_le hle, List.append_nil]
    exact ⟨⟨visited, hm⟩, rfl⟩
  | @pass next m m' obj asked hnext _ ih =>
    obtain ⟨hall, hreached⟩ := ih (hm.visitAll hf (answer next m obj))
    rw [take_reached_visitAll hnext, List.append_assoc, List.singleton_append] at hreached
    exact ⟨hall, hreached⟩

/-- With more passes than the loop makes, marking does what the loop does. -/
theorem Drains.drain_eq
    (hd : Drains level (fun _ m obj => m.heap.refsOf tracer obj) next m asked m') {passes : Nat}
    (hlt : asked.length < passes) : m.drain tracer level passes next = m' := by
  induction hd generalizing passes with
  | done hnone =>
    cases passes with
    | zero => exact absurd hlt (Nat.not_lt_zero _)
    | succ passes => rw [drain, hnone]
  | pass hnext _ ih =>
    cases passes with
    | zero => exact absurd hlt (Nat.not_lt_zero _)
    | succ passes =>
      rw [drain, hnext]
      exact ih (Nat.lt_of_succ_lt_succ hlt)

end Drains

/-- What is marked of a heap after a loop that asked these objects. -/
structure ScansOnce (h : Heap) (asked : List ObjRef) (m : Marking) : Prop where
  /-- What entered the queue was asked, in the same order. -/
  queued : m.reached.toList = asked
  nodup : asked.Nodup
  marked : ∀ p, m.heap.IsMarked p ↔ p ∈ asked
  allocated : ∀ p ∈ asked, h.isAllocated p = true
  /-- There are as many passes as marked objects, and not more than objects. -/
  passes : Counts m.heap.IsMarked asked.length
  bounded : ∃ n, Counts (fun p => h.isAllocated p = true) n ∧ asked.length ≤ n
  counted : Counts (fun p => m.heap.IsMarked p ∧ h.isUncollected p = .ok false) m.counted

/-- **The marked objects after the loop** are those asked, each once. -/
theorem Drains.scansOnce {h : Heap} {level : Generation} {visited asked : List ObjRef}
    {answer : Nat → Marking → ObjRef → List ObjRef} {m m' : Marking} (hf : h.Formed)
    (hd : Drains level answer 0 m asked m') (hm : Holds h level visited m) :
    ScansOnce h asked m' := by
  obtain ⟨⟨all, hm'⟩, hreached⟩ := hd.holds hf hm
  rw [List.take_zero, List.nil_append] at hreached
  have hnodup : asked.Nodup := hreached ▸ hm'.nodup
  have hmarked : ∀ p, m'.heap.IsMarked p ↔ p ∈ asked := hreached ▸ hm'.marks
  have hallocated : ∀ p ∈ asked, h.isAllocated p = true := fun p hp => by
    obtain ⟨x, _, hx, _⟩ := ((hm'.reached p).mp (hreached ▸ hp)).2
    exact hf.isAllocated_iff_lookup.mpr ⟨x, hx⟩
  obtain ⟨objs, hobjs, hmem, hlength⟩ := Heap.counts_all hf
  refine ⟨hreached, hnodup, hmarked, hallocated, ⟨asked, hnodup, fun p => (hmarked p).symm, rfl⟩,
    ⟨_, ⟨objs, hobjs, hmem, rfl⟩, ?_⟩, asked.filter h.collectable, hnodup.filter _, fun p => ?_, ?_⟩
  · exact hnodup.length_le_of_subset fun p hp => (hmem p).mpr (hallocated p hp)
  · rw [List.mem_filter, hf.collectable_iff]
    exact ⟨fun hp => ⟨(hmarked p).mpr hp.1, hp.2.2⟩,
      fun hp => ⟨(hmarked p).mp hp.1, hallocated p ((hmarked p).mp hp.1), hp.2⟩⟩
  · rw [← hreached]
    exact hm'.counted

end Marking

/-! ## Marking a heap -/

namespace Heap

open Marking

variable {h : Heap}

/-- Marking as the loop finds it: all marks were cleared, and then these
references were visited. -/
def begun (h : Heap) (level : Generation) (met : List ObjRef) : Marking :=
  ({ heap := h.clearMarks } : Marking).visitAll level met

theorem begun_holds (hf : h.Formed) (level : Generation) (met : List ObjRef) :
    Holds h level met (h.begun level met) := by
  have hm := (holds_start hf level).visitAll hf met
  rw [List.nil_append] at hm
  exact hm

/-- Marking with a tracer is a run of the loop on what the tracer says. -/
theorem mark_drains {σ : Type} (hf : h.Formed) (tracer : Tracer σ) (level : Generation) :
    ∃ asked, Drains level (fun _ m obj => m.heap.refsOf tracer obj) 0 (h.greyed tracer level) asked
      (h.mark tracer level) := by
  obtain ⟨old, _, hm⟩ := greyed_holds hf tracer level
  obtain ⟨asked, m', hd⟩ := exists_drains hf (fun _ m obj => m.heap.refsOf tracer obj)
    h.slotCount 0 (Nat.le_add_left _ _) hm
  have hm' := hd.scansOnce hf hm
  have hlt : asked.length < h.slotCount + 1 := Nat.lt_succ_of_le <|
    length_le_slotCount hm'.nodup fun p hp =>
      hf.isAllocated_iff_lookup.mp (hm'.allocated p hp)
  rw [mark_eq_drain, hd.drain_eq hlt]
  exact ⟨asked, hd⟩

/-- A collection reports the count of marking, if it looks for no stray
references. -/
theorem marked_collect {σ : Type} (hc : h.config.checkRefs = false) (hf : h.Formed)
    (tracer : Tracer σ) (level : Generation) (log : σ) : ∃ r h',
      collect tracer level log h = .ok r h' ∧ r.1.marked = (h.mark tracer level).counted := by
  have hc' : (h.mark tracer level).heap.config.checkRefs = false := by
    rw [(marked hf tracer level).setting.config]
    exact hc
  refine ⟨(reclaim (h.mark tracer level) tracer level log).1,
    (reclaim (h.mark tracer level) tracer level log).2, ?_, rfl⟩
  unfold collect
  simp only [hc', Bool.false_eq_true, if_false]

/-- **Marking ends, and asks each object once.** Whatever references were
met before the loop, and whatever it is answered, the loop ends; the
objects that it asks are the marked ones, each once. So does marking with
any tracer, and a collection reports how many of them are collectable. -/
theorem marking_scans_once (hf : h.Formed) (level : Generation) :
    (∀ met answer, (∃ asked m, Drains level answer 0 (h.begun level met) asked m) ∧
      ∀ asked m, Drains level answer 0 (h.begun level met) asked m → ScansOnce h asked m) ∧
    ∀ {σ : Type} (tracer : Tracer σ),
      (∃ asked, Drains level (fun _ m obj => m.heap.refsOf tracer obj) 0 (h.greyed tracer level)
        asked (h.mark tracer level) ∧ ScansOnce h asked (h.mark tracer level)) ∧
      (h.config.checkRefs = false → ∀ log, ∃ r h', collect tracer level log h = .ok r h' ∧
        r.1.marked = (h.mark tracer level).counted) := by
  refine ⟨fun met answer => ⟨?_, fun asked m hd => ?_⟩, fun tracer => ⟨?_, fun hc log => ?_⟩⟩
  · exact exists_drains hf answer h.slotCount 0 (Nat.le_add_left _ _) (begun_holds hf level met)
  · exact hd.scansOnce hf (begun_holds hf level met)
  · obtain ⟨old, _, hm⟩ := greyed_holds hf tracer level
    obtain ⟨asked, hd⟩ := mark_drains hf tracer level
    exact ⟨asked, hd, hd.scansOnce hf hm⟩
  · exact marked_collect hc hf tracer level log

/-- The roots name the young pair of the family twice, beside a reference
to nothing and a null. Each of the two pairs of the family refers to the
other. Two passes are made, and two objects counted; the third pair is
not asked. -/
theorem marking_scans_once_family : ∃ (stray : ObjRef) (tracer : Tracer Unit),
    family.Formed ∧ family.config.checkRefs = false ∧ family.isAllocated stray = false ∧
      family.isAllocated orphan = true ∧ family.readRef holder 0 = .ok child ∧
      family.readRef child 0 = .ok holder ∧ tracer.roots = [child, stray, .null, child] ∧
      Drains .two (fun _ m obj => m.heap.refsOf tracer obj) 0 (family.greyed tracer .two)
        [child, holder] (family.mark tracer .two) ∧
      ∃ r h', collect tracer .two () family = .ok r h' ∧ r.1.marked = 2 := by
  let stray : ObjRef := .ofSlot 0 3
  let tracer := pairsFrom [child, stray, .null, child]
  have hf := reachable_family.wellFormed.toFormed
  have hstate : family.config.checkRefs = false ∧ family.isAllocated stray = false ∧
      family.isAllocated orphan = true ∧ family.readRef holder 0 = .ok child ∧
      family.readRef child 0 = .ok holder ∧
      (family.mark tracer .two).reached.toList = [child, holder] ∧
      (family.mark tracer .two).counted = 2 := by
    decide +kernel
  obtain ⟨hunchecked, hstray, horphan, hread, hback, hreached, hcounted⟩ := hstate
  obtain ⟨⟨asked, hd, honce⟩, hcollect⟩ := (marking_scans_once hf .two).2 tracer
  obtain rfl : asked = [child, holder] := honce.queued.symm.trans hreached
  obtain ⟨r, h', hrun, hmarked⟩ := hcollect hunchecked ()
  exact ⟨stray, tracer, hf, hunchecked, hstray, horphan, hread, hback, rfl, hd, r, h', hrun,
    hmarked.trans hcounted⟩

end Heap

end SegmentedHeap
