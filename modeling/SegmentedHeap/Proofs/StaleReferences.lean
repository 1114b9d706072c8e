/-
SegmentedHeap.Proofs.StaleReferences — references that outlive their
objects.

Any word may be handed in as a reference: one of a slot that is free
again, or that another object has, of a segment that was released, or of
none that there ever was. Freeing, and reading and storing in a field,
look at the object that they are done to before anything else, so they
are refused where it is gone, and nothing is changed. A store looks at
its target as well, to compare the generations, but only when the bytes
are stored, and it takes for granted that the segment of the target is
reserved.

* `Atomic` — a call returns, or is refused and changes nothing.
* `register_answerable`, `register_unreserved` — the barrier, by the segment
  of the target.
* `writeRef_atomic`, `writeRef_faults` — a store, by the same.
* `stale_references_atomic` — **calls that are handed any references** are
  atomic, but for a store whose target lies in no reserved segment: this
  one meets a fault, with the bytes stored.
* `writeRef_stale_fault` — it does so with a reference to an object that
  was freed.
-/
import SegmentedHeap.Proofs.Fields

namespace SegmentedHeap.Heap

variable {h h' : Heap} {source target : ObjRef} {x : Object} {field : Nat}

/-- A call returns, or it is refused and changes nothing. -/
def Atomic {α : Type} (act : HeapM α) (h : Heap) : Prop :=
  (∃ a h', act h = .ok a h') ∨ ∃ e, act h = .error (.refused e) h

theorem atomic_of_ends {α : Type} {act : HeapM α} {ok : α → Heap → Prop}
    (he : Ends (act h) ok (fun _ h' => h' = h) fun _ => False) : Atomic act h := by
  cases hr : act h with
  | ok a h' => exact Or.inl ⟨a, h', hr⟩
  | error e h' =>
    rw [hr] at he
    cases e with
    | refused e =>
      cases (show h' = h from he)
      exact Or.inr ⟨e, hr⟩
    | fault f => exact absurd he id

/-- The target is null, so that it is asked nothing, or its segment can tell
of which generation its slot is. -/
def Answerable (h : Heap) (target : ObjRef) : Prop :=
  target = .null ∨ ∃ s, h.store.segment? target.segment = some s

theorem not_answerable_iff :
    ¬ h.Answerable target ↔ target ≠ .null ∧ h.store.segment? target.segment = none := by
  rw [Answerable, not_or, ← Option.isSome_iff_exists, Option.not_isSome_iff_eq_none]

/-! ## The barrier -/

/-- A target that can be asked for its generation is registered or not; a
source that is allocated can always be asked. -/
theorem register_answerable (hx : h.lookup source = some x) (hs : source ≠ .null)
    (ht : h.Answerable target) : ∃ h', register source target h = .ok () h' := by
  rcases ht with rfl | ⟨t, hseg⟩
  · exact ⟨h, register_null h source⟩
  · rcases generationOf_cases h target with ⟨_, _, hg⟩ | ⟨hnone, _⟩
    · by_cases hnull : target = .null
      · subst hnull
        exact ⟨h, register_null h source⟩
      · exact ⟨_, register_of_generations hs hnull hg (generationOf_of_lookup hx)⟩
    · rw [hseg] at hnone
      cases hnone

theorem register_unreserved (hs : source ≠ .null) (ht : ¬ h.Answerable target) :
    register source target h = .error (.fault (.unreserved target.segment)) h := by
  obtain ⟨hnull, hnone⟩ := not_answerable_iff.mp ht
  have hnull : (source.isNull || target.isNull) = false := by
    rw [Bool.eq_false_iff, ne_eq, Bool.or_eq_true, ObjRef.isNull_iff, ObjRef.isNull_iff]
    exact not_or.mpr ⟨hs, hnull⟩
  have hask : ask (·.generationOf target) h = .error (.fault (.unreserved target.segment)) h := by
    rcases generationOf_cases h target with ⟨t, hseg, _⟩ | ⟨_, hfault⟩
    · rw [hnone] at hseg
      cases hseg
    · rw [ask, hfault]
  rw [register, hnull]
  exact bind_of_error hask

/-! ## Stores -/

/-- A store that is not refused is that of an object's field. -/
theorem writeRef_of_readRef (hf : h.Formed) {r : ObjRef} (hread : h.readRef source field = .ok r)
    (target : ObjRef) : ∃ x, h.lookup source = some x ∧
      writeRef source field target h =
        register source target (h.putRef x.address field target) := by
  obtain ⟨x, hx, hroom⟩ := lookup_of_readRef hf hread
  exact ⟨x, hx, writeRef_eq_register hf hx hroom target⟩

/-- The bytes of an object do not tell whether there is one. -/
theorem lookup_putRef (hx : h.lookup source = some x) (address : Address) (field : Nat)
    (target : ObjRef) : ∃ y, (h.putRef address field target).lookup source = some y := by
  rw [putRef, lookup_setMemory, hx]
  exact ⟨_, rfl⟩

theorem writeRef_atomic (hw : h.WellFormed) (ht : h.Answerable target) :
    Atomic (writeRef source field target) h := by
  have hf := hw.toFormed
  cases hread : h.readRef source field with
  | error e => exact Or.inr ⟨e, (writeRef_denied hw source field target).mpr ⟨rfl, hread⟩⟩
  | ok r =>
    obtain ⟨x, hx, hrun⟩ := writeRef_of_readRef hf hread target
    obtain ⟨y, hy⟩ := lookup_putRef hx x.address field target
    obtain ⟨h', he⟩ := register_answerable hy (hf.ne_null_of_lookup hx) ht
    exact Or.inl ⟨(), h', hrun.trans he⟩

/-- A store for which the target's segment is asked in vain has stored the
bytes by then. -/
theorem writeRef_faults (hf : h.Formed) {r : ObjRef} (hread : h.readRef source field = .ok r)
    (ht : ¬ h.Answerable target) : ∃ address, h.addressOf source = .ok address ∧
      writeRef source field target h =
        .error (.fault (.unreserved target.segment)) (h.putRef address field target) := by
  obtain ⟨x, hx, hrun⟩ := writeRef_of_readRef hf hread target
  exact ⟨_, addressOf_of_lookup hx,
    hrun.trans (register_unreserved (hf.ne_null_of_lookup hx) ht)⟩

/-- **Calls that are handed any references**, in every heap of a run. A
free is atomic. A read yields what is in the field, or says that there is no
such object or no such field. A store is atomic where the target is null or
points into a reserved segment, whatever is in its slot; where it does not,
a store that is not refused meets a fault, and leaves the bytes behind. -/
theorem stale_references_atomic (hr : h.Reachable) (source target : ObjRef) (field : Nat) :
    Atomic (free source) h ∧
    (h.isAllocated source = false → h.readRef source field = .error (.dangling source)) ∧
    (h.isAllocated source = true → (∃ r, h.readRef source field = .ok r) ∨
      ∃ n, h.capacity source = .ok n ∧
        h.readRef source field = .error (.fieldOutOfRange source field n)) ∧
    (h.Answerable target → Atomic (writeRef source field target) h) ∧
    (¬ h.Answerable target →
      (∀ r, h.readRef source field = .ok r → ∃ address, h.addressOf source = .ok address ∧
        writeRef source field target h =
          .error (.fault (.unreserved target.segment)) (h.putRef address field target)) ∧
      ∀ e, h.readRef source field = .error e →
        writeRef source field target h = .error (.refused e) h) := by
  have hw := hr.wellFormed
  have hf := hw.toFormed
  refine ⟨atomic_of_ends (free_ends hw source), fun ha => ?_, fun ha => ?_, writeRef_atomic hw,
    fun ht => ⟨fun r hread => writeRef_faults hf hread ht, fun e hread => ?_⟩⟩
  · exact hf.readRef_of_none (hf.not_isAllocated_iff_lookup.mp ha) field
  · obtain ⟨x, hx⟩ := hf.isAllocated_iff_lookup.mp ha
    by_cases hlt : field < x.bytes.length / refBytes
    · exact Or.inl ((exists_readRef_iff hf hx).mpr hlt)
    · exact Or.inr ⟨_, capacity_of_lookup hx, readRef_out_of_range hf hx (Nat.not_lt.mp hlt)⟩
  · exact (writeRef_denied hw source field target).mpr ⟨rfl, hread⟩

/-- A heap with a pair, and with a reference to a long vector that was
freed. -/
def staleHeap : Heap :=
  after (free ⟨64⟩) (after (alloc Model.ModelType.vector.tag 1000)
    (after (alloc Model.ModelType.pair.tag 0) smallHeap))

theorem reachable_staleHeap : Reachable staleHeap := by
  have hrun : returnsFrom (alloc Model.ModelType.pair.tag 0) smallHeap = true ∧
      returnsFrom (alloc Model.ModelType.vector.tag 1000)
        (after (alloc Model.ModelType.pair.tag 0) smallHeap) = true ∧
      returnsFrom (free ⟨64⟩) (after (alloc Model.ModelType.vector.tag 1000)
        (after (alloc Model.ModelType.pair.tag 0) smallHeap)) = true := by
    decide +kernel
  obtain ⟨hpair, hvector, hfree⟩ := hrun
  exact .free _ (.alloc _ _ (.alloc _ _ reachable_smallHeap (leaves_after hpair))
    (leaves_after hvector)) (leaves_after hfree)

/-- The vector is not freed twice, nothing is stored in it, and the pair
refers to an empty slot of its own segment. -/
theorem stale_references_atomic_staleHeap :
    staleHeap.isAllocated ⟨64⟩ = false ∧ staleHeap.isAllocated ⟨1⟩ = false ∧
    Atomic (free ⟨64⟩) staleHeap ∧
    writeRef ⟨64⟩ 0 ⟨64⟩ staleHeap = .error (.refused (.dangling ⟨64⟩)) staleHeap ∧
    Atomic (writeRef ⟨0⟩ 0 ⟨1⟩) staleHeap := by
  have hfacts : staleHeap.isAllocated ⟨64⟩ = false ∧ staleHeap.isAllocated ⟨1⟩ = false ∧
      staleHeap.store.segment? (ObjRef.segment ⟨64⟩) = none ∧
      (staleHeap.store.segment? (ObjRef.segment ⟨1⟩)).isSome = true := by
    decide +kernel
  obtain ⟨hvector, hslot, hnone, hsome⟩ := hfacts
  have hgone : ¬ staleHeap.Answerable ⟨64⟩ := not_answerable_iff.mpr ⟨by decide, hnone⟩
  obtain ⟨hfree, hread, _, _, hstore⟩ := stale_references_atomic reachable_staleHeap ⟨64⟩ ⟨64⟩ 0
  obtain ⟨_, _, _, hslotStore, _⟩ := stale_references_atomic reachable_staleHeap ⟨0⟩ ⟨1⟩ 0
  exact ⟨hvector, hslot, hfree, (hstore hgone).2 _ (hread hvector),
    hslotStore (Or.inr (Option.isSome_iff_exists.mp hsome))⟩

/-- The reference to the vector is stored in the pair, and then a fault is
met: the segment of the vector went with it. -/
theorem writeRef_stale_fault : staleHeap.Reachable ∧
    ∃ h', writeRef ⟨0⟩ 0 ⟨64⟩ staleHeap = .error (.fault (.unreserved 1)) h' ∧
      staleHeap.bytes ⟨0⟩ = .ok [0, 0, 0, 0, 0, 0, 0, 0] ∧
      h'.bytes ⟨0⟩ = .ok [64, 0, 0, 0, 0, 0, 0, 0] := by
  have hfacts : met (writeRef ⟨0⟩ 0 ⟨64⟩) staleHeap = some (.unreserved 1) ∧
      staleHeap.bytes ⟨0⟩ = .ok [0, 0, 0, 0, 0, 0, 0, 0] ∧
      (after (writeRef ⟨0⟩ 0 ⟨64⟩) staleHeap).bytes ⟨0⟩ = .ok [64, 0, 0, 0, 0, 0, 0, 0] := by
    decide +kernel
  obtain ⟨hmet, hbefore, hafter⟩ := hfacts
  obtain ⟨h', he⟩ := error_of_met hmet
  rw [after, he] at hafter
  exact ⟨reachable_staleHeap, h', he, hbefore, hafter⟩

end SegmentedHeap.Heap
