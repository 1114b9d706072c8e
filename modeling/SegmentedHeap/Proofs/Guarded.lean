/-
SegmentedHeap.Proofs.Guarded — a collection that takes nothing for
granted.

A collection relies on a good deal: that the segment it goes back to is
still reserved and of a kind in the table, that a slot it gives back holds
an object, that a counter is not less than what is taken from it, that a
tracer is shown objects only. The operations of a heap pass over a step
that lacks what it relies on. The guarded ones below take the same steps,
but ask first, and what is missing is a fault; marking stops at the first
stray reference where these are looked for, and is at fault if there is
anything left to scan when its passes are used up.

On a heap whose books are kept there is never anything missing: the
guarded collection comes to the same as the other one, in its result or in
its fault.

* `guardedVisit`, `guardedDiscard`, `guardedFile`, … — the steps.
* `Marking.checked` — marking as it is left when stray references are
  looked for.
* `guardedMark_eq` — **marking** faults at the first stray reference, and
  at nothing else.

What comes after marking is in `SegmentedHeap.Proofs.Upkeep`.
-/
import SegmentedHeap.Proofs.Collection
import SegmentedHeap.Proofs.Stock

namespace SegmentedHeap

/-- A fault unless a condition holds. -/
def require (c : Bool) (f : Fault) : Except Fault Unit := if c then .ok () else .error f

theorem require_of {c : Bool} {f : Fault} (h : c = true) : require c f = .ok () := by
  rw [require, if_pos h]

/-- `release` for an index in the table, of a segment that is counted. -/
def Store.guardedRelease (s : Store) (i : SegmentIndex) : Except Fault Store := do
  require (i < s.segments.size) .outOfBounds
  match s.segment? i with
  | none => return s
  | some t =>
    require (0 < s.reserved) .overflow
    require (!t.isBig || (0 < s.big && t.ownBytes ≤ s.bigBytes)) .overflow
    return s.release i

/-- `vacate` for a slot that holds an object, and has a place in the table
of lengths if there is one. -/
def Segment.guardedVacate (s : Segment) (o : Offset) : Except Fault Segment := do
  require (s.lengths.all (o.val < ·.size)) .outOfBounds
  s.releaseSlot o

namespace Heap

variable {σ : Type}

/-! ## The guarded steps -/

/-- A visit; a stray reference is a fault if references are checked, and
any reserved segment has to be of a kind in the table. -/
def guardedVisit (level : Generation) (m : Marking) (obj : ObjRef) : Except Fault Marking := do
  if obj.isNull then return m
  require (!m.heap.config.checkRefs || m.heap.isAllocated obj) (.strayReference obj)
  require ((m.heap.store.segment? obj.segment).all fun s => (m.heap.kinds.get? s.kind).isSome)
    .outOfBounds
  return m.visit level obj

/-- Visits what an object yields; the tracer is asked of objects only. -/
def guardedScan (tracer : Tracer σ) (level : Generation) (m : Marking) (obj : ObjRef) :
    Except Fault Marking := do
  require (m.heap.isAllocated obj) .unallocated
  (m.heap.refsOf tracer obj).foldlM (guardedVisit level) m

/-- Scans the reached objects, all of them. -/
def guardedDrain (tracer : Tracer σ) (level : Generation) :
    (passes next : Nat) → Marking → Except Fault Marking
  | 0, next, m => do
    require (m.reached.size ≤ next) .endless
    return m
  | passes + 1, next, m =>
    match m.reached[next]? with
    | none => .ok m
    | some obj => do guardedDrain tracer level passes (next + 1) (← guardedScan tracer level m obj)

def guardedMark (h : Heap) (tracer : Tracer σ) (level : Generation) : Except Fault Marking := do
  let rooted ← tracer.roots.foldlM (guardedVisit level) { heap := h.clearMarks }
  let grey ← if level = .two then pure rooted
    else (rooted.heap.remembered level).foldlM (guardedScan tracer level) rooted
  guardedDrain tracer level (h.slotCount + 1) 0 grey

/-- Discards an object, which has to be there. -/
def guardedDiscard (h : Heap) (obj : ObjRef) : Except Fault Heap := do
  let segment ← h.segment obj
  let _ ← segment.guardedVacate obj.offset
  if segment.isBig then
    let _ ← h.store.guardedRelease obj.segment
  return h.discard obj

/-- Sweeps a segment, which has to be reserved. -/
def guardedSegment (tracer : Tracer σ) (level : Generation) (s : Sweeping σ) (i : SegmentIndex) :
    Except Fault (Sweeping σ) := do
  let segment ← s.heap.store.segment i
  let kind ← s.heap.kinds.get segment.kind
  if !kind.uncollected then
    let _ ← (slotsOf i (segment.dying level).members).foldlM guardedDiscard s.heap
  return s.segment tracer level i

def guardedSweep (h : Heap) (tracer : Tracer σ) (level : Generation) (log : σ) :
    Except Fault (Sweeping σ) :=
  h.store.indices.foldlM (guardedSegment tracer level) { heap := h, log }

/-- Decides for an object; the generations of the objects that it yields
are asked for, and of no others. -/
def guardedReconsider (tracer : Tracer σ) (h : Heap) (obj : ObjRef) : Except Fault Heap := do
  if h.isAllocated obj then
    let _ ← h.generationOf obj
    let _ ← ((h.refsOf tracer obj).filter h.isAllocated).mapM h.generationOf
  return reconsider tracer h obj

def guardedRenew (h : Heap) (tracer : Tracer σ) (level : Generation) (aged : List ObjRef) :
    Except Fault Heap :=
  if level = .two then .ok h.clearOldToNew
  else (h.oldToNew ++ aged).foldlM (guardedReconsider tracer) h

/-- Files a segment, which has to be reserved; one with a free slot is of
a kind that has a queue. -/
def guardedFile (a : Heap × Nat) (i : SegmentIndex) : Except Fault (Heap × Nat) := do
  let segment ← a.1.store.segment i
  if !segment.isBig then
    if segment.isEmpty then
      let _ ← a.1.store.guardedRelease i
    else
      require (segment.kind < a.1.queues.size) .outOfBounds
  return fileSegment a i

def guardedRebuild (h : Heap) : Except Fault (Heap × Nat) :=
  h.store.indices.foldlM guardedFile ({ h with queues := h.queues.map fun _ => [] }, 0)

/-- The parts after marking. -/
def guardedReclaim (m : Marking) (tracer : Tracer σ) (level : Generation) (log : σ) :
    Except Fault ((CollectionReport × σ) × Heap) := do
  let swept ← m.heap.guardedSweep tracer level log
  let renewed ← swept.heap.guardedRenew tracer level swept.aged
  let (filed, released) ← renewed.guardedRebuild
  let report : CollectionReport := {
    level, marked := m.counted, freed := swept.freed, freedChunks := swept.freedChunks
    promoted := swept.promoted, released, oldToNew := renewed.oldToNewSize }
  let counted := { filed with metrics := filed.metrics.recordCollection report }
  return ((report, swept.log), counted.countCollection level)

/-- A collection each of whose steps asks for what it relies on. -/
def guardedCollect (tracer : Tracer σ) (level : Generation) (log : σ) (h : Heap) :
    Except Fault ((CollectionReport × σ) × Heap) := do
  guardedReclaim (← h.guardedMark tracer level) tracer level log

end Heap

/-! ## Marking -/

namespace Marking

variable {m m' m'' : Marking}

/-- Marking that goes no further once it has met a stray reference, if
references are checked. -/
def checked (m : Marking) : Except Fault Marking :=
  match if m.heap.config.checkRefs then m.stray else none with
  | some p => .error (.strayReference p)
  | none => .ok m

/-- Marking that has gone on; a stray reference that was met is not
forgotten. -/
structure Extends (m m' : Marking) : Prop where
  config : m'.heap.config = m.heap.config
  stray : ∀ p, m.stray = some p → m'.stray = some p

theorem Extends.refl (m : Marking) : Extends m m := ⟨rfl, fun _ hp => hp⟩

theorem Extends.trans (h : Extends m m') (k : Extends m' m'') : Extends m m'' :=
  ⟨k.config.trans h.config, fun p hp => k.stray p (h.stray p hp)⟩

theorem extends_visit (level : Generation) (m : Marking) (p : ObjRef) :
    Extends m (m.visit level p) := by
  unfold visit
  split
  · exact .refl m
  · split
    · refine ⟨rfl, fun q hq => ?_⟩
      show (m.stray <|> some p) = some q
      rw [hq]
      rfl
    · split
      · exact ⟨rfl, fun _ hq => hq⟩
      · exact .refl m

/-- A row of steps goes on if each of them does. -/
theorem extends_foldl {step : Marking → ObjRef → Marking} (hstep : ∀ m p, Extends m (step m p))
    (m : Marking) (objs : List ObjRef) : Extends m (objs.foldl step m) := by
  induction objs generalizing m with
  | nil => exact .refl m
  | cons p objs ih => exact (hstep m p).trans (ih _)

theorem extends_visitAll (level : Generation) (m : Marking) (objs : List ObjRef) :
    Extends m (m.visitAll level objs) :=
  extends_foldl (extends_visit level) m objs

theorem extends_drain {σ : Type} (tracer : Tracer σ) (level : Generation) (passes next : Nat)
    (m : Marking) : Extends m (m.drain tracer level passes next) := by
  induction passes generalizing m next with
  | zero => exact .refl m
  | succ passes ih =>
    unfold drain
    split
    · exact .refl m
    · exact (extends_visitAll level m _).trans (ih _ _)

theorem checked_of_clean (hc : m.heap.config.checkRefs = true → m.stray = none) :
    m.checked = .ok m := by
  unfold checked
  cases hcheck : m.heap.config.checkRefs with
  | false => rfl
  | true => rw [if_pos rfl, hc hcheck]

theorem checked_of_stray {p : ObjRef} (hc : m.heap.config.checkRefs = true)
    (hs : m.stray = some p) : m.checked = .error (.strayReference p) := by
  rw [checked, hc, if_pos rfl, hs]

/-- What goes on from a marking that has met no stray reference goes on
from any: one that has met it stays where it is. -/
theorem Extends.checked_bind {act : Marking → Except Fault Marking} (he : Extends m m')
    (ha : (m.heap.config.checkRefs = true → m.stray = none) → act m = m'.checked) :
    (m.checked >>= act) = m'.checked := by
  by_cases hc : m.heap.config.checkRefs = true → m.stray = none
  · rw [checked_of_clean hc]
    exact ha hc
  · obtain ⟨hcheck, hs⟩ := Classical.not_imp.mp hc
    obtain ⟨p, hp⟩ := Option.ne_none_iff_exists'.mp hs
    rw [checked_of_stray hcheck hp, checked_of_stray (he.config ▸ hcheck) (he.stray p hp)]
    rfl

/-- A row of steps stops at the first stray reference if each step does. -/
theorem checked_foldlM (Inv : Marking → Prop) {act : Marking → ObjRef → Except Fault Marking}
    {step : Marking → ObjRef → Marking} {objs : List ObjRef}
    (hstep : ∀ m, Inv m → ∀ p ∈ objs,
      (m.checked >>= fun m => act m p) = (step m p).checked ∧ Inv (step m p)) (hm : Inv m) :
    (m.checked >>= fun m => objs.foldlM act m) = (objs.foldl step m).checked := by
  induction objs generalizing m with
  | nil =>
    show (m.checked >>= pure) = m.checked
    rw [bind_pure]
  | cons p objs ih =>
    obtain ⟨hone, hm'⟩ := hstep m hm p List.mem_cons_self
    simp only [List.foldlM_cons]
    rw [← bind_assoc, hone]
    exact ih (fun m hm q hq => hstep m hm q (List.mem_cons_of_mem p hq)) hm'

end Marking

namespace Heap

section Marking

variable {σ : Type} {h : Heap} {tracer : Tracer σ} {level : Generation} {visited : List ObjRef}
  {m : Marking} {p : ObjRef}

open SegmentedHeap.Marking

/-- Every reserved segment is of a kind in the table. -/
theorem Formed.all_isSome (hf : h.Formed) (i : SegmentIndex) :
    ((h.store.segment? i).all fun s => (h.kinds.get? s.kind).isSome) = true := by
  cases hs : h.store.segment? i with
  | none => rfl
  | some s =>
    obtain ⟨spec, hspec, _⟩ := hf.typed i s hs
    rw [Option.all_some, hspec]
    rfl

/-- **One visit** faults if it meets a stray reference. -/
theorem guardedVisit_eq (hf : m.heap.Formed)
    (hc : m.heap.config.checkRefs = true → m.stray = none) (p : ObjRef) :
    guardedVisit level m p = (m.visit level p).checked := by
  by_cases hnull : p.isNull = true
  · rw [guardedVisit, if_pos hnull, visit, if_pos hnull, checked_of_clean hc]
    rfl
  · rw [guardedVisit, if_neg hnull, require_of (hf.all_isSome _)]
    cases hx : m.heap.lookup p with
    | none =>
      have hconfig := (extends_visit level m p).config
      have hstray : (m.visit level p).stray = (m.stray <|> some p) := by
        rw [visit, if_neg hnull, hf.object?_of_none hx]
      rw [hf.not_isAllocated_iff_lookup.mpr hx, Bool.or_false]
      cases hcheck : m.heap.config.checkRefs with
      | false =>
        rw [checked_of_clean fun hn => by rw [hconfig, hcheck] at hn; cases hn]
        rfl
      | true =>
        rw [hc hcheck] at hstray
        rw [checked_of_stray (hconfig ▸ hcheck) hstray]
        rfl
    | some x =>
      have hvisit : (m.visit level p).checked = .ok (m.visit level p) := by
        refine checked_of_clean fun hcheck => ?_
        rw [(extends_visit level m p).config] at hcheck
        obtain ⟨spec, hspec⟩ := hf.spec_of_lookup hx
        obtain ⟨s, _, _, _, hobj⟩ := object?_of_lookup hf hx hspec
        rw [visit, if_neg hnull, hobj]
        simp only
        split <;> exact hc hcheck
      rw [hvisit, hf.isAllocated_iff_lookup.mpr ⟨x, hx⟩, Bool.or_true]
      rfl

/-- **A row of visits.** -/
theorem guardedVisits_eq (hf : h.Formed) (hm : Holds h level visited m) (objs : List ObjRef) :
    (m.checked >>= fun m => objs.foldlM (guardedVisit level) m) =
      (m.visitAll level objs).checked := by
  refine checked_foldlM (fun m => ∃ visited, Holds h level visited m) (fun m hm p _ => ?_) ⟨_, hm⟩
  obtain ⟨visited, hm⟩ := hm
  exact ⟨(extends_visit level m p).checked_bind fun hc => guardedVisit_eq hm.formed hc p, _,
    hm.visit hf p⟩

/-- **An object is scanned.** -/
theorem guardedScan_eq (hf : h.Formed) (hm : Holds h level visited m)
    (ha : h.isAllocated p = true) :
    (m.checked >>= fun m => guardedScan tracer level m p) = (m.scan tracer level p).checked := by
  refine (extends_visitAll level m _).checked_bind fun hc => ?_
  have ha' : m.heap.isAllocated p = true := by
    rw [hm.formed.isAllocated_iff_lookup, hm.lookup, ← hf.isAllocated_iff_lookup]
    exact ha
  have hrow := guardedVisits_eq hf hm (m.heap.refsOf tracer p)
  rw [checked_of_clean hc] at hrow
  rw [guardedScan, require_of ha']
  exact hrow

/-- **A row of objects is scanned.** -/
theorem guardedScans_eq (tracer : Tracer σ) (hf : h.Formed) (hm : Holds h level visited m)
    (objs : List ObjRef) (ha : ∀ p ∈ objs, h.isAllocated p = true) :
    (m.checked >>= fun m => objs.foldlM (guardedScan tracer level) m) =
      (objs.foldl (Marking.scan tracer level) m).checked := by
  refine checked_foldlM (fun m => ∃ visited, Holds h level visited m) (fun m hm p hp => ?_) ⟨_, hm⟩
  obtain ⟨visited, hm⟩ := hm
  exact ⟨guardedScan_eq hf hm (ha p hp), _, hm.scan hf p⟩

/-- **The row of reached objects is scanned to its end.** There are passes
enough, since it holds each object once. -/
theorem guardedDrain_eq (hf : h.Formed) (hm : Holds h level visited m) (passes next : Nat)
    (hpasses : h.slotCount < passes + next) :
    (m.checked >>= guardedDrain tracer level passes next) =
      (m.drain tracer level passes next).checked := by
  induction passes generalizing m visited next with
  | zero =>
    refine (Extends.refl m).checked_bind fun hc => ?_
    have hsize := hm.size_le
    rw [guardedDrain, require_of (decide_eq_true (by omega)), checked_of_clean hc]
    rfl
  | succ passes ih =>
    refine (extends_drain tracer level (passes + 1) next m).checked_bind fun hc => ?_
    rw [guardedDrain, drain]
    cases hnext : m.reached[next]? with
    | none => rw [checked_of_clean hc]
    | some p =>
      have hp : p ∈ m.reached.toList := by
        obtain ⟨hlt, e⟩ := Array.getElem?_eq_some_iff.mp hnext
        rw [← e, ← Array.getElem_toList]
        exact List.getElem_mem hlt
      obtain ⟨x, _, hx, _⟩ := ((hm.reached p).mp hp).2
      have hone : (m.checked >>= fun m => guardedScan tracer level m p) =
          (m.scan tracer level p).checked :=
        guardedScan_eq hf hm (hf.isAllocated_iff_lookup.mpr ⟨x, hx⟩)
      rw [checked_of_clean hc] at hone
      have hscan : Holds h level (visited ++ h.refsOf tracer p) (m.scan tracer level p) :=
        hm.scan hf p
      -- the rest starts from a scan that stopped nowhere, or has stopped already
      have hrest := ih hscan (next + 1) (by omega)
      rw [← hone] at hrest
      exact hrest

/-- **Marking** faults at the first stray reference that it meets, if
references are checked, and at nothing else. -/
theorem guardedMark_eq (hf : h.Formed) (tracer : Tracer σ) (level : Generation) :
    h.guardedMark tracer level = (h.mark tracer level).checked := by
  have hstart := holds_start hf level
  have hclean : ({ heap := h.clearMarks } : Marking).checked = .ok { heap := h.clearMarks } :=
    checked_of_clean fun _ => rfl
  have hroots := guardedVisits_eq hf hstart tracer.roots
  rw [hclean] at hroots
  have hrooted := hstart.visitAll hf tracer.roots
  rw [List.nil_append] at hrooted
  have hslots : h.clearMarks.slotCount = h.slotCount := congrArg (64 * ·) Array.size_map
  rw [guardedMark, mark, hslots]
  generalize ({ heap := h.clearMarks } : Marking).visitAll level tracer.roots = rooted
    at hroots hrooted
  rw [show tracer.roots.foldlM (guardedVisit level) { heap := h.clearMarks } = rooted.checked
    from hroots]
  by_cases hl : level = .two
  · simp only [if_pos hl, pure_bind]
    exact guardedDrain_eq hf hrooted _ _ (Nat.lt_succ_self _)
  · simp only [if_neg hl]
    have hold : ∀ p ∈ rooted.heap.remembered level, h.isAllocated p = true := fun p hp => by
      obtain ⟨_, x, hx, _⟩ := (mem_remembered hrooted.formed hl).mp hp
      rw [hrooted.lookup] at hx
      exact hf.isAllocated_iff_lookup.mpr ⟨x, hx⟩
    have hgrey : (rooted.checked >>= fun m =>
        (m.heap.remembered level).foldlM (guardedScan tracer level) m) =
          ((rooted.heap.remembered level).foldl (Marking.scan tracer level) rooted).checked := by
      refine (extends_foldl (fun m p => extends_visitAll level m _) rooted _).checked_bind
        fun hc => ?_
      have hscans := guardedScans_eq tracer hf hrooted _ hold
      rw [checked_of_clean hc] at hscans
      exact hscans
    rw [← bind_assoc, hgrey]
    exact guardedDrain_eq hf (hrooted.scanAll hf _) _ _ (Nat.lt_succ_self _)

end Marking

end Heap

end SegmentedHeap
