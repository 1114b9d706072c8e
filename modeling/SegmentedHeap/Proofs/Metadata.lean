/-
SegmentedHeap.Proofs.Metadata — what is kept beside the objects dies with
them.

Nothing that a heap knows of an object is in its data: its generation, its
mark, whether it is remembered and its length are in the sets and the
table of its segment, under its offset. Different operations change them,
and a slot is used again for other objects. `Ledger` runs a program with a
record of the length for which each reference was last handed out. In
every heap of such a run the sets hold slots of objects only, the three
generations share the objects out, and each stored length is that of the
record or, where there is no object, zero. So a slot that is handed out
tells nothing of an object that it held before.

* `Pristine`, `pristine_of_hands` — what is known of a new object.
* `Ledger`, `Ledger.stored` — runs with their record.
* `Segment.Tidy`, `tidy_of_wellFormed` — the sets of one segment.
* `metadata_of_ledger` — **no metadata outlives its object**.
-/
import Mathlib.Logic.Function.Basic
import SegmentedHeap.Proofs.Addresses
import SegmentedHeap.Proofs.Books

namespace SegmentedHeap

namespace Heap

variable {h h' h₁ h₂ : Heap} {obj p : ObjRef} {length : Nat}

/-! ## What is handed out -/

/-- An object that an allocation with a retry hands out is one of its first
try, or of another try after a collection. -/
theorem made_of_allocRetrying {σ : Type} {tracer : Tracer σ} {tag : TypeTag} {log log' : σ}
    (hw : h.WellFormed) (he : allocRetrying tracer tag length log h = .ok (.ok obj, log') h') :
    alloc tag length h = .ok obj h' ∨
    ∃ before result h₁ h₂ after, collect tracer .two log (h.withMetrics before) = .ok result h₁ ∧
      alloc tag length h₁ = .ok obj h₂ ∧ h' = h₂.withMetrics after := by
  cases tries_of_allocRetrying hw he with
  | once htry _ =>
    rcases of_attempt htry with ⟨_, e, ha⟩ | ⟨_, e, _⟩
    · cases e
      exact Or.inl ha
    · cases e
  | twice _ _ hc htry =>
    rcases of_attempt htry with ⟨_, e, ha⟩ | ⟨_, e, _⟩
    · cases e
      exact Or.inr ⟨_, _, _, _, _, hc, ha, rfl⟩
    · cases e

/-- An allocation of that length handed out the reference. -/
inductive Hands : Heap → Nat → ObjRef → Heap → Prop where
  | alloc {h h' : Heap} {obj : ObjRef} {length : Nat} (tag : TypeTag) :
      alloc tag length h = .ok obj h' → Hands h length obj h'
  | allocRetrying {σ : Type} {h h' : Heap} {obj : ObjRef} {length : Nat} {log' : σ}
      (tracer : Tracer σ) (tag : TypeTag) (log : σ) :
      allocRetrying tracer tag length log h = .ok (.ok obj, log') h' → Hands h length obj h'

theorem Hands.step (hm : Hands h length obj h') : Step h (some obj) h' := by
  cases hm with
  | alloc tag he => exact .alloc tag length he
  | allocRetrying tracer tag log he => exact .allocRetrying (r := .ok obj) tracer tag length log he

/-- Of the object that a reference names nothing is known but that it is
new: it is of the generation that its kind starts in, neither marked nor
remembered, and of that length. -/
def Pristine (h : Heap) (obj : ObjRef) (length : Nat) : Prop :=
  ∃ s spec, h.store.segment? obj.segment = some s ∧ h.kinds.get? s.kind = some spec ∧
    obj.offset ∈ s.allocated ∧ ¬ obj.offset ∈ s.marked ∧ ¬ obj.offset ∈ s.oldToNew ∧
    s.generation obj.offset = (if spec.uncollected then .two else .zero) ∧
    s.length? obj.offset = if spec.storesLength then some length else none

/-- The marks of a store are marks of the heap. -/
def MarksOf (h : Heap) (s : Store) : Prop :=
  ∀ i t, s.segment? i = some t → ∀ o ∈ t.marked,
    ∃ u, h.store.segment? i = some u ∧ o ∈ u.marked

theorem lasting_marksOf (h : Heap) : Lasting h.MarksOf where
  modify {s i f} hs hf j t ht o ho := by
    obtain ⟨u, hu, ⟨e, rfl⟩ | rfl⟩ := Store.exists_of_modifySegment ht
    · rw [(hf u (e ▸ hu)).marked] at ho
      exact hs j u hu o ho
    · exact hs j t hu o ho
  memory _ hs := hs

/-- An allocation marks nothing. -/
theorem marksOf_alloc (hw : h.WellFormed) {tag : TypeTag} (he : alloc tag length h = .ok obj h') :
    h.MarksOf h'.store := by
  have hends := (lasting_marksOf h).alloc hw (fun i t ht o ho => ⟨t, ht, ho⟩)
    (fun i t s' hr hmarks _ => fun j u hu o ho => ?_) tag length
  · exact hends.of_ok he
  · rw [hr.segment?] at hu
    split at hu
    · cases hu
      rw [hmarks] at ho
      exact absurd ho (OffsetSet.not_mem_empty o)
    · exact ⟨u, hu, ho⟩

theorem pristine_of_alloc (hw : h.WellFormed) {tag : TypeTag}
    (he : alloc tag length h = .ok obj h') : Pristine h' obj length := by
  obtain ⟨_, hset, hfresh, ⟨r, x, hr, _, _, hx, hobj⟩, _⟩ := (alloc_ends hw tag length).of_ok he
  obtain ⟨ha, hstored, _⟩ := checks_of_request hr
  obtain ⟨s, hs, ho, hsame⟩ := lookup_eq_some.mp hobj
  have hkind : s.kind = r.kind := (congrArg Object.kind hsame).symm.trans hx.kind
  have hremembered : s.inOldToNew obj.offset = false :=
    (congrArg Object.remembered hsame).symm.trans hx.remembered
  have hlength : s.length? obj.offset = r.stored := (congrArg Object.stored hsame).symm
  refine ⟨s, r.spec, hs, ?_, ho, fun hm => ?_, OffsetSet.contains_eq_false_iff.mp hremembered,
    (congrArg Object.generation hsame).symm, hlength.trans (storedLength_eq hstored).1⟩
  · rw [hset.kinds, hkind]
    exact ha.entry
  · obtain ⟨u, hu, hm⟩ := marksOf_alloc hw he _ s hs _ hm
    rw [lookup_of_segment? hu,
      Segment.object?_of_mem ((hw.store.segment_wf _ u hu).marked_allocated _ hm)] at hfresh
    cases hfresh

/-- **A slot that is handed out tells nothing of an object that it held
before.** -/
theorem pristine_of_hands (hw : h.WellFormed) (hm : Hands h length obj h') :
    Pristine h' obj length := by
  cases hm with
  | alloc tag he => exact pristine_of_alloc hw he
  | allocRetrying tracer tag log he =>
    rcases made_of_allocRetrying hw he with ha | ⟨before, _, h₁, h₂, _, hc, ha, rfl⟩
    · exact pristine_of_alloc hw ha
    · have hcollected := (collect_ends (hw.withMetrics before) tracer .two log).of_ok hc
      exact (pristine_of_alloc hcollected.wellFormed ha : Pristine h₂ obj length)

/-! ## Runs with a record -/

/-- The heaps of the runs of a program, each with the length for which each
reference was last handed out. -/
inductive Ledger : Heap → (ObjRef → Nat) → Prop where
  | create {config : Config} {layout : ObjectLayout} {system : System} {h : Heap}
      (asked : ObjRef → Nat) : create config layout system = .ok h → Ledger h asked
  | hands {h h' : Heap} {asked : ObjRef → Nat} {length : Nat} {obj : ObjRef} :
      Ledger h asked → Hands h length obj h' → Ledger h' (Function.update asked obj length)
  | step {h h' : Heap} {asked : ObjRef → Nat} :
      Ledger h asked → Step h none h' → Ledger h' asked

variable {asked : ObjRef → Nat}

theorem Ledger.reachable (hl : Ledger h asked) : h.Reachable := by
  induction hl with
  | create asked hc => exact .create hc
  | hands _ hm ih => exact hm.step.reachable ih
  | step _ hs ih => exact hs.reachable ih

/-- Every heap that a program can come to is one of a run with a record. -/
theorem Reachable.exists_ledger (hr : h.Reachable) : ∃ asked, Ledger h asked := by
  induction hr with
  | create hc => exact ⟨fun _ => 0, .create _ hc⟩
  | alloc tag length _ hl ih =>
    obtain ⟨asked, ih⟩ := ih
    rcases hl with ⟨obj, he⟩ | ⟨e, he⟩
    · exact ⟨_, .hands ih (.alloc tag he)⟩
    · exact ⟨asked, .step ih (.refused tag length he)⟩
  | allocRetrying tracer tag length log hr hl ih =>
    obtain ⟨asked, ih⟩ := ih
    rcases hl with ⟨⟨r, log'⟩, he⟩ | ⟨e, he⟩
    · cases r with
      | ok obj => exact ⟨_, .hands ih (.allocRetrying tracer tag log he)⟩
      | error e => exact ⟨asked, .step ih (.allocRetrying tracer tag length log he)⟩
    · exact ((allocRetrying_ends hr.wellFormed tracer tag length log).of_refused he).elim
  | free obj _ hl ih => exact ih.imp fun _ ih => .step ih (.free obj hl)
  | setBytes obj start bytes _ hl ih =>
    exact ih.imp fun _ ih => .step ih (.setBytes obj start bytes hl)
  | register source target _ hl ih =>
    exact ih.imp fun _ ih => .step ih (.register source target hl)
  | writeRef source field target _ hl ih =>
    exact ih.imp fun _ ih => .step ih (.writeRef source field target hl)
  | collect tracer level log _ hl ih =>
    exact ih.imp fun _ ih => .step ih (.collect tracer level log hl)

/-- **The stored length of an object is the one that it was allocated
with.** -/
theorem Ledger.stored (hl : Ledger h asked) :
    ∀ p x n, h.lookup p = some x → x.stored = some n → n = asked p := by
  induction hl with
  | create asked hc =>
    intro p x n hx _
    rw [(wellFormed_create hc).2.1 p] at hx
    cases hx
  | @hands h h' asked length obj hl hm ih =>
    intro p y n hy hn
    have hw := hl.reachable.wellFormed
    by_cases e : p = obj
    · obtain ⟨s, spec, hs, _, _, _, _, _, hlength⟩ := pristine_of_hands hw hm
      obtain ⟨t, ht, _, rfl⟩ := lookup_eq_some.mp hy
      rw [e, hs] at ht
      cases ht
      have hn : s.length? obj.offset = some n := e ▸ hn
      rw [hlength] at hn
      split at hn
      · rw [e, Function.update_self]
        exact (Option.some.inj hn).symm
      · cases hn
    · obtain ⟨x, hx, hmake⟩ := hm.step.sameMake hw hy fun ho => e (Option.some.inj ho).symm
      rw [Function.update_of_ne e]
      exact ih p x n hx (hmake.stored.symm.trans hn)
  | step hl hs ih =>
    intro p y n hy hn
    obtain ⟨x, hx, hmake⟩ := hs.sameMake hl.reachable.wellFormed hy nofun
    exact ih p x n hx (hmake.stored.symm.trans hn)

end Heap

/-! ## The sets of a segment -/

namespace Segment

/-- What the sets and the table of a segment hold, whose objects have the
lengths `asked` and are never collected if `permanent`: of each object
what there is to know, and of the other slots nothing. -/
structure Tidy (s : Segment) (asked : Offset → Nat) (permanent : Bool) : Prop where
  free_slots : ∀ o ∈ s.free, o ∈ s.slots
  gen1_allocated : ∀ o ∈ s.gen1, o ∈ s.allocated
  gen2_allocated : ∀ o ∈ s.gen2, o ∈ s.allocated
  marked_allocated : ∀ o ∈ s.marked, o ∈ s.allocated
  oldToNew_allocated : ∀ o ∈ s.oldToNew, o ∈ s.allocated
  disjoint : ∀ o ∈ s.gen1, ¬ o ∈ s.gen2
  /-- Each object is in one generation. -/
  partition : ∀ o ∈ s.allocated, ∃! g, o ∈ s.inGeneration g
  mem_inGeneration : ∀ g o, o ∈ s.inGeneration g ↔ o ∈ s.allocated ∧ s.generation o = g
  mem_inScope : ∀ level o, o ∈ s.inScope level ↔ o ∈ s.allocated ∧ s.generation o ≤ level
  oldToNew_old : ∀ o ∈ s.oldToNew, s.generation o = .one ∨ s.generation o = .two
  permanent_old : permanent = true → ∀ o ∈ s.allocated, s.generation o = .two
  length_free : ∀ o ∈ s.free, s.storedLength o.val = .ok (s.lengths.map fun _ => 0)
  length_allocated : ∀ o ∈ s.allocated,
    s.storedLength o.val = .ok (s.lengths.map fun _ => asked o)

variable {s : Segment} {o : Offset}

theorem WellFormed.existsUnique_inGeneration (hs : s.WellFormed) (ho : o ∈ s.allocated) :
    ∃! g, o ∈ s.inGeneration g := by
  refine ⟨s.generation o, (mem_inGeneration hs.disjoint).mpr ⟨ho, rfl⟩, fun g hg => ?_⟩
  exact ((mem_inGeneration hs.disjoint).mp hg).2.symm

theorem WellFormed.old_of_remembered (hs : s.WellFormed) (ho : o ∈ s.oldToNew) :
    s.generation o = .one ∨ s.generation o = .two := by
  have hne := hs.oldToNew_old o ho
  cases hg : s.generation o with
  | zero => exact absurd hg hne
  | one => exact Or.inl rfl
  | two => exact Or.inr rfl

/-- What the table of lengths says of a slot, if there is a table. -/
theorem WellFormed.storedLength_eq (hs : s.WellFormed) (ho : o ∈ s.slots) {n : Nat}
    (hn : ∀ m, s.length? o = some m → m = n) :
    s.storedLength o.val = .ok (s.lengths.map fun _ => n) := by
  unfold storedLength
  cases hl : s.lengths with
  | none => rfl
  | some lengths =>
    have hlt := hs.stored_slots lengths hl o ho
    have hget : lengths[o.val]? = some lengths[o.val] := Array.getElem?_eq_getElem hlt
    have hm : lengths[o.val] = n := hn _ (by rw [length?, hl]; exact hget)
    simp only [hget, hm]
    rfl

end Segment

namespace Heap

variable {h : Heap} {asked : ObjRef → Nat} {i : SegmentIndex} {s : Segment}

/-- Whether the objects of a kind are never collected. -/
def isPermanent (h : Heap) (kind : KindId) : Bool := (h.kinds.get? kind).any (·.uncollected)

theorem Ledger.tidy (hl : Ledger h asked) (hs : h.store.segment? i = some s) :
    s.Tidy (fun o => asked (.ofSlot i o)) (h.isPermanent s.kind) := by
  have hw := hl.reachable.wellFormed
  have hwf := hw.store.segment_wf i s hs
  have hi := Nat.le_of_lt (hw.store.index_lt hs)
  have hlookup : ∀ o ∈ s.allocated, h.lookup (.ofSlot i o) =
      some (s.objectAt h.store.memory h.store.chunkBytes o) := fun o ho => by
    rw [lookup_of_segment? ((ObjRef.segment_ofSlot hi o).symm ▸ hs), ObjRef.offset_ofSlot hi o,
      Segment.object?_of_mem ho]
  exact {
    free_slots := hwf.free_slots
    gen1_allocated := hwf.gen1_allocated
    gen2_allocated := hwf.gen2_allocated
    marked_allocated := hwf.marked_allocated
    oldToNew_allocated := hwf.oldToNew_allocated
    disjoint := hwf.disjoint
    partition := fun o ho => hwf.existsUnique_inGeneration ho
    mem_inGeneration := fun g o => Segment.mem_inGeneration hwf.disjoint
    mem_inScope := fun level o => Segment.mem_inScope
    oldToNew_old := fun o ho => hwf.old_of_remembered ho
    permanent_old := fun hp o ho => by
      obtain ⟨spec, hspec, hu⟩ := (Option.any_eq_true _ _).mp hp
      exact hw.permanent _ _ spec (hlookup o ho) hspec hu
    length_free := fun o ho => hwf.storedLength_eq (hwf.free_slots o ho) fun m hm => by
      obtain ⟨lengths, hlengths, hget⟩ := Option.bind_eq_some_iff.mp hm
      rw [hwf.stored_free lengths hlengths o ho] at hget
      exact (Option.some.inj hget).symm
    length_allocated := fun o ho => hwf.storedLength_eq (Segment.mem_allocated.mp ho).1
      fun m hm => hl.stored _ _ m (hlookup o ho) hm }

/-- **No metadata outlives its object**: in every heap of a run the sets
and the table of each segment are about its objects alone, and what is
handed out next starts with nothing known of it. -/
theorem metadata_of_ledger (hl : Ledger h asked) :
    (∀ i s, h.store.segment? i = some s →
      s.Tidy (fun o => asked (.ofSlot i o)) (h.isPermanent s.kind)) ∧
    ∀ length obj h', Hands h length obj h' → Pristine h' obj length :=
  ⟨fun _ _ => hl.tidy, fun _ _ _ => pristine_of_hands hl.reachable.wellFormed⟩

/-- A vector of four integers is made and freed, and one of three gets its
slot. -/
theorem metadata_of_ledger_reuse : ∃ (h₁ h₂ h₃ : Heap) (asked : ObjRef → Nat) (s : Segment),
    h₁.lengthOf ⟨0⟩ = .ok (some 4) ∧ Ledger h₂ asked ∧ h₂.isAllocated ⟨0⟩ = false ∧
    h₂.store.segment? 0 = some s ∧
    s.Tidy (fun o => asked (.ofSlot 0 o)) (h₂.isPermanent s.kind) ∧
    Pristine h₃ ⟨0⟩ 3 ∧ h₃.lengthOf ⟨0⟩ = .ok (some 3) := by
  have hrun : returned (alloc Model.ModelType.intVec.tag 4) smallHeap = some ⟨0⟩ ∧
      returned (free ⟨0⟩) (after (alloc Model.ModelType.intVec.tag 4) smallHeap) = some () ∧
      returned (alloc Model.ModelType.intVec.tag 3) (after (free ⟨0⟩)
        (after (alloc Model.ModelType.intVec.tag 4) smallHeap)) = some ⟨0⟩ := by
    decide +kernel
  have hlengths : (after (alloc Model.ModelType.intVec.tag 4) smallHeap).lengthOf ⟨0⟩ =
        .ok (some 4) ∧
      (after (alloc Model.ModelType.intVec.tag 3) (after (free ⟨0⟩)
        (after (alloc Model.ModelType.intVec.tag 4) smallHeap))).lengthOf ⟨0⟩ = .ok (some 3) := by
    decide +kernel
  have hfreed : (after (free ⟨0⟩)
        (after (alloc Model.ModelType.intVec.tag 4) smallHeap)).isAllocated ⟨0⟩ = false ∧
      ((after (free ⟨0⟩)
        (after (alloc Model.ModelType.intVec.tag 4) smallHeap)).store.segment? 0).isSome := by
    decide +kernel
  obtain ⟨hmade, hfree, hagain⟩ := hrun
  have hl : Ledger _ _ := .step (.hands (.create (fun _ => 0) create_smallHeap)
    (.alloc _ (eq_ok_of_returned hmade))) (.free ⟨0⟩ (Or.inl ⟨_, eq_ok_of_returned hfree⟩))
  obtain ⟨s, hs⟩ := Option.isSome_iff_exists.mp hfreed.2
  have hmain := metadata_of_ledger hl
  exact ⟨_, _, _, _, s, hlengths.1, hl, hfreed.1, hs, hmain.1 0 s hs,
    hmain.2 3 ⟨0⟩ _ (.alloc _ (eq_ok_of_returned hagain)), hlengths.2⟩

end Heap

end SegmentedHeap
