/-
SegmentedHeap.Proofs.Callbacks — what a tracer is told while a heap is swept.

Sweeping calls a tracer for each object of a finalized kind that is about
to go, and does nothing else with its log. So the calls can be listed by a
tracer that knows no references and only writes down what it is told, and
any other log is what the calls of that list make of it.

* `Tracer.told` — the log after a list of calls.
* `freedCalls` — the calls that sweeping makes.
* `sweep_told` — **sweeping with a log** is sweeping, and then the calls.
-/
import SegmentedHeap.Heap.Sweep

namespace SegmentedHeap

/-- A call about an object that is to be swept, seen in a heap that still
holds it. -/
abbrev FreedCall := Heap × ObjRef

namespace Tracer

variable {σ : Type}

/-- The log after these calls. -/
def told (tracer : Tracer σ) (calls : List FreedCall) (log : σ) : σ :=
  calls.foldl (fun log call => tracer.freed call.1 call.2 log) log

/-- A tracer that knows no references and writes down each call. -/
def recorder : Tracer (List FreedCall) where
  roots := []
  refs := fun _ => []
  freed := fun h obj calls => calls ++ [(h, obj)]

theorem told_append (tracer : Tracer σ) (calls more : List FreedCall) (log : σ) :
    tracer.told (calls ++ more) log = tracer.told more (tracer.told calls log) :=
  List.foldl_append

/-- Telling a tracer of a row of objects is what the recorder writes
down. -/
theorem told_row (tracer : Tracer σ) (h : Heap) (dead : List ObjRef) (calls : List FreedCall)
    (log : σ) :
    tracer.told (dead.foldl (fun calls obj => recorder.freed h obj calls) calls) log =
      dead.foldl (fun log obj => tracer.freed h obj log) (tracer.told calls log) := by
  induction dead generalizing calls with
  | nil => rfl
  | cons obj dead ih =>
    rw [List.foldl_cons, List.foldl_cons, ih]
    show dead.foldl _ (tracer.told (calls ++ [(h, obj)]) log) = _
    rw [told_append]
    rfl

end Tracer

namespace Sweeping

variable {σ : Type}

/-- A sweep that wrote down its calls, told to a tracer instead. -/
def retold (tracer : Tracer σ) (log : σ) (s : Sweeping (List FreedCall)) : Sweeping σ where
  heap := s.heap
  freed := s.freed
  freedChunks := s.freedChunks
  promoted := s.promoted
  aged := s.aged
  log := tracer.told s.log log

/-- **One segment** is swept the same, whoever is told. -/
theorem segment_retold (tracer : Tracer σ) (level : Generation) (log : σ)
    (s : Sweeping (List FreedCall)) (i : SegmentIndex) :
    (s.retold tracer log).segment tracer level i =
      (s.segment Tracer.recorder level i).retold tracer log := by
  have hheap : (s.retold tracer log).heap = s.heap := rfl
  unfold segment
  rw [hheap]
  cases hs : s.heap.store.segment? i with
  | none => rfl
  | some segment =>
    cases hk : s.heap.kinds.get? segment.kind with
    | none => simp only [hk]
    | some kind =>
      simp only [hk]
      cases hu : kind.uncollected with
      | true => rfl
      | false =>
        cases hz : kind.finalize with
        | true =>
          simp only [Bool.false_eq_true, if_false, if_true, retold, Tracer.told_row]
        | false => rfl

theorem segments_retold (tracer : Tracer σ) (level : Generation) (log : σ)
    (l : List SegmentIndex) (s : Sweeping (List FreedCall)) :
    l.foldl (segment tracer level) (s.retold tracer log) =
      (l.foldl (segment Tracer.recorder level) s).retold tracer log := by
  induction l generalizing s with
  | nil => rfl
  | cons i l ih => rw [List.foldl_cons, List.foldl_cons, segment_retold, ih]

end Sweeping

namespace Heap

variable {σ : Type}

/-- What sweeping leaves, with the calls that it makes. -/
def recordedSweep (h : Heap) (level : Generation) : Sweeping (List FreedCall) :=
  h.sweep Tracer.recorder level []

/-- The calls that sweeping makes. -/
def freedCalls (h : Heap) (level : Generation) : List FreedCall := (h.recordedSweep level).log

/-- **Sweeping with a log** is sweeping, and then the calls. -/
theorem sweep_told (h : Heap) (tracer : Tracer σ) (level : Generation) (log : σ) :
    h.sweep tracer level log = (h.recordedSweep level).retold tracer log :=
  Sweeping.segments_retold tracer level log h.store.indices { heap := h, log := [] }

end Heap

end SegmentedHeap
