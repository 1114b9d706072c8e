/-
SegmentedHeap.Proofs.Checking — what looking for stray references changes.

Whether references are checked is one field of the configuration, and a
collection reads it once, when it has marked. So all parts of a collection
commute with setting that field: marking notes the stray reference either
way, and nothing after it looks at the field at all.

* `Heap.checking` — the heap with the field set.
* `mark_checking`, `freedCalls_checking` — marking and sweeping commute
  with setting it.
* `settle_checking` — **so do the parts after marking**.
-/
import SegmentedHeap.Proofs.Confluence

namespace SegmentedHeap

/-- The heap with references checked or not. One of the two is the heap
itself. -/
def Heap.checking (h : Heap) (on : Bool) : Heap :=
  { h with config := { h.config with checkRefs := on } }

def Marking.checking (m : Marking) (on : Bool) : Marking :=
  { m with heap := m.heap.checking on }

/-- A call, seen in a heap with references checked or not. -/
def FreedCall.checking (on : Bool) (call : FreedCall) : FreedCall := (call.1.checking on, call.2)

/-- A sweep, with what it wrote down. -/
def Sweeping.checking (s : Sweeping (List FreedCall)) (on : Bool) : Sweeping (List FreedCall) :=
  { s with heap := s.heap.checking on, log := s.log.map (FreedCall.checking on) }

namespace Heap

variable {σ : Type} {h : Heap} (on : Bool)

theorem WellFormed.checking (hw : h.WellFormed) : (h.checking on).WellFormed :=
  ⟨hw.toFormed.congr rfl rfl, hw.toFiled.of_store rfl rfl rfl, hw.permanent⟩

end Heap

/-! ## Marking -/

namespace Marking

variable {σ : Type} (on : Bool) (tracer : Tracer σ) (level : Generation)

theorem visit_checking (m : Marking) (p : ObjRef) :
    (m.checking on).visit level p = (m.visit level p).checking on := by
  have hobj : (m.checking on).heap.object? p = m.heap.object? p := rfl
  unfold visit
  rw [hobj]
  split
  · rfl
  · split
    · rfl
    · split <;> rfl

theorem visitAll_checking (m : Marking) (objs : List ObjRef) :
    (m.checking on).visitAll level objs = (m.visitAll level objs).checking on := by
  show objs.foldl (visit level) (m.checking on) = (objs.foldl (visit level) m).checking on
  exact List.foldl_hom (Marking.checking · on) (visit_checking on level)

theorem scan_checking (m : Marking) (p : ObjRef) :
    (m.checking on).scan tracer level p = (m.scan tracer level p).checking on :=
  visitAll_checking on level m _

theorem scanAll_checking (m : Marking) (objs : List ObjRef) :
    objs.foldl (scan tracer level) (m.checking on) =
      (objs.foldl (scan tracer level) m).checking on :=
  List.foldl_hom (Marking.checking · on) (scan_checking on tracer level)

theorem drain_checking (passes next : Nat) (m : Marking) :
    (m.checking on).drain tracer level passes next =
      (m.drain tracer level passes next).checking on := by
  induction passes generalizing next m with
  | zero => rfl
  | succ passes ih =>
    have hreached : (m.checking on).reached = m.reached := rfl
    unfold drain
    rw [hreached]
    split
    · rfl
    · rw [scan_checking, ih]

end Marking

namespace Heap

variable {σ : Type} (on : Bool) (tracer : Tracer σ) (level : Generation)

open Marking in
/-- **Marking** notes stray references whether they are checked or not. -/
theorem mark_checking (h : Heap) :
    (h.checking on).mark tracer level = (h.mark tracer level).checking on := by
  let start : Marking := { heap := h.clearMarks }
  let passes := h.clearMarks.slotCount + 1
  by_cases hl : level = .two
  · simp only [mark, if_pos hl]
    show ((start.checking on).visitAll level tracer.roots).drain tracer level passes 0 =
      ((start.visitAll level tracer.roots).drain tracer level passes 0).checking on
    rw [visitAll_checking, drain_checking]
  · simp only [mark, if_neg hl]
    show (List.foldl (scan tracer level) ((start.checking on).visitAll level tracer.roots)
        (((start.checking on).visitAll level tracer.roots).heap.remembered level)).drain
          tracer level passes 0 = _
    rw [visitAll_checking]
    show (List.foldl (scan tracer level) ((start.visitAll level tracer.roots).checking on)
        ((start.visitAll level tracer.roots).heap.remembered level)).drain tracer level passes 0 = _
    rw [scanAll_checking, drain_checking]

/-! ## Sweeping -/

theorem discard_checking (h : Heap) (p : ObjRef) :
    (h.checking on).discard p = (h.discard p).checking on := by
  have hseg : (h.checking on).store.segment? p.segment = h.store.segment? p.segment := rfl
  have hfill : (h.checking on).config.debugFill = h.config.debugFill := rfl
  unfold discard
  rw [hseg, hfill]
  cases h.store.segment? p.segment with
  | none => rfl
  | some s =>
    simp only
    cases h.config.debugFill <;> cases s.isBig <;> rfl

theorem discards_checking (h : Heap) (objs : List ObjRef) :
    objs.foldl discard (h.checking on) = (objs.foldl discard h).checking on :=
  List.foldl_hom (Heap.checking · on) (discard_checking on)

end Heap

namespace Sweeping

variable (on : Bool) (level : Generation)

open Tracer (recorder)

/-- A row of calls is written down, each with the heap that it sees. -/
theorem recorded_checking (h : Heap) (dead : List ObjRef) (calls : List FreedCall) :
    dead.foldl (fun calls obj => recorder.freed (h.checking on) obj calls)
        (calls.map (FreedCall.checking on)) =
      (dead.foldl (fun calls obj => recorder.freed h obj calls) calls).map
        (FreedCall.checking on) := by
  refine List.foldl_hom (List.map (FreedCall.checking on)) fun calls obj => ?_
  show calls.map _ ++ [(h.checking on, obj)] = (calls ++ [(h, obj)]).map _
  rw [List.map_append]
  rfl

theorem segment_checking (s : Sweeping (List FreedCall)) (i : SegmentIndex) :
    (s.checking on).segment recorder level i = (s.segment recorder level i).checking on := by
  have hseg : (s.checking on).heap.store.segment? i = s.heap.store.segment? i := rfl
  have hkinds : (s.checking on).heap.kinds = s.heap.kinds := rfl
  unfold segment
  rw [hseg, hkinds]
  cases s.heap.store.segment? i with
  | none => rfl
  | some t =>
    simp only
    cases s.heap.kinds.get? t.kind with
    | none => rfl
    | some kind =>
      simp only
      cases kind.uncollected with
      | true => rfl
      | false =>
        simp only [Bool.false_eq_true, if_false]
        cases kind.finalize with
        | true =>
          simp only [if_true, checking, Heap.discards_checking, recorded_checking]
          rfl
        | false =>
          simp only [Bool.false_eq_true, if_false, checking, Heap.discards_checking]
          rfl

end Sweeping

namespace Heap

variable {σ : Type} (on : Bool) (tracer : Tracer σ) (level : Generation)

/-- **Sweeping** does not look at the field. -/
theorem recordedSweep_checking (h : Heap) :
    (h.checking on).recordedSweep level = (h.recordedSweep level).checking on := by
  show h.store.indices.foldl (Sweeping.segment Tracer.recorder level)
    (Sweeping.checking { heap := h, log := [] } on) = _
  exact List.foldl_hom (Sweeping.checking · on) (Sweeping.segment_checking on level)

theorem freedCalls_checking (h : Heap) :
    (h.checking on).freedCalls level = (h.freedCalls level).map (FreedCall.checking on) := by
  rw [freedCalls, recordedSweep_checking]
  rfl

/-! ## The old-to-new set -/

theorem reconsider_checking (h : Heap) (p : ObjRef) :
    reconsider tracer (h.checking on) p = (reconsider tracer h p).checking on := by
  have hobj : (h.checking on).object? p = h.object? p := rfl
  have hrefs : (h.checking on).refsOf tracer p = h.refsOf tracer p := rfl
  have hyoung : (h.checking on).isYounger = h.isYounger := rfl
  unfold reconsider
  rw [hobj, hrefs, hyoung]
  split
  · rfl
  · split <;> rfl

theorem renewOldToNew_checking (h : Heap) (aged : List ObjRef) :
    (h.checking on).renewOldToNew tracer level aged =
      (h.renewOldToNew tracer level aged).checking on := by
  have hold : (h.checking on).oldToNew = h.oldToNew := rfl
  unfold renewOldToNew
  rw [hold]
  split
  · rfl
  · exact List.foldl_hom (Heap.checking · on) (reconsider_checking on tracer)

/-! ## The queues -/

/-- A heap and a number, the heap with references checked or not. -/
def filedChecking (a : Heap × Nat) : Heap × Nat := (a.1.checking on, a.2)

theorem fileSegment_checking (a : Heap × Nat) (i : SegmentIndex) :
    fileSegment (filedChecking on a) i = filedChecking on (fileSegment a i) := by
  have hseg : (a.1.checking on).store.segment? i = a.1.store.segment? i := rfl
  simp only [fileSegment, filedChecking]
  rw [hseg]
  split
  · rfl
  · split
    · rfl
    · split
      · rfl
      · split <;> rfl

theorem rebuildQueues_checking (h : Heap) :
    (h.checking on).rebuildQueues = filedChecking on h.rebuildQueues := by
  show h.store.indices.foldl fileSegment
    (filedChecking on ({ h with queues := h.queues.map fun _ => [] }, 0)) = _
  exact List.foldl_hom (filedChecking on) (fileSegment_checking on)

/-! ## The whole collection -/

theorem countCollection_checking (h : Heap) :
    (h.checking on).countCollection level = (h.countCollection level).checking on := by
  cases level <;> rfl

/-- **After marking** a collection does not look at the field. -/
theorem settle_checking (m : Marking) :
    settle (m.checking on) tracer level =
      ((settle m tracer level).1, (settle m tracer level).2.checking on) := by
  have hsweep : (m.checking on).heap.recordedSweep level =
      (m.heap.recordedSweep level).checking on := recordedSweep_checking on level m.heap
  have hcounted : (m.checking on).counted = m.counted := rfl
  simp only [settle, hsweep, hcounted, Sweeping.checking, renewOldToNew_checking,
    rebuildQueues_checking, filedChecking]
  generalize m.heap.recordedSweep level = swept
  generalize swept.heap.renewOldToNew tracer level swept.aged = renewed
  generalize renewed.rebuildQueues = filed
  have hsize : (renewed.checking on).oldToNewSize = renewed.oldToNewSize := rfl
  rw [hsize]
  generalize ({
    level, marked := m.counted, freed := swept.freed, freedChunks := swept.freedChunks
    promoted := swept.promoted, released := filed.2
    oldToNew := renewed.oldToNewSize } : CollectionReport) = report
  exact congrArg (Prod.mk report) (countCollection_checking on level
    (filed.1.withMetrics (filed.1.metrics.recordCollection report)))

end Heap

end SegmentedHeap
