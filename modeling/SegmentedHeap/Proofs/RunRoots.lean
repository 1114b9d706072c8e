/-
SegmentedHeap.Proofs.RunRoots — the roots that a random run leaves.

A run puts its root slots on top of the root stack, and each step changes
only what is in them: the constructors leave the stack as it was, links
store in the heap, and slots are filled at positions from the first slot
on. A run that returns drops its slots in the end. One that is refused on
the way does not: all of them stay on the stack, above what was there at
the entry, which is untouched. Neither the source nor the mutator matters
for this.

* `Refilled` — root stacks that differ in the slots only.
* `turns_step` — **one step**.
* `Leftover` — the stack with the slots on top.
* `run_roots` — **the stack after a run**, on both exits.
* `run_roots_refused` — a run that leaves its slot on the stack.
-/
import SegmentedHeap.Proofs.RandomRuns
import SegmentedHeap.Proofs.RootStacks

namespace SegmentedHeap

namespace Workload

open Mutator

variable {σ α β : Type} {source : Random.Source σ} {settings : Settings} {base : Nat}
  {R : Array ObjRef → Array ObjRef → Prop} {act : MutatorM α}

/-! ## Operations of a run -/

/-- The root stack of the mutator. -/
def State.stack (s : State σ) : Array ObjRef := s.mutator.stack

theorem turns_onMutator (ha : Turns Mutator.stack R act) :
    Turns State.stack R (onMutator act : RunM σ α) := by
  intro s
  have hstack : (after (onMutator act) s).stack = (after act s.mutator).stack := by
    unfold after
    rw [onMutator_eq]
    cases act s.mutator <;> rfl
  rw [hstack]
  exact ha s.mutator

theorem turns_draw (choice : σ → α × σ) : Turns State.stack Eq (draw choice : RunM σ α) :=
  fun _ => rfl

theorem turns_record (f : Statistics → Statistics) :
    Turns State.stack Eq (record f : RunM σ Unit) := turns_modify fun _ => rfl

theorem turns_observe : Turns State.stack Eq (observe : RunM σ Unit) :=
  .get_bind fun _ => turns_record _

theorem turns_below (source : Random.Source σ) (n : Nat) :
    Turns State.stack Eq (below source n) := by
  unfold below
  split
  · exact (turns_throw _).bind fun _ => turns_draw _
  · exact turns_draw _

theorem turns_pick : Turns State.stack Eq (pick source settings base) :=
  .bind (.bind (turns_below source _) fun _ => turns_pure _) fun _ =>
    turns_onMutator (still_ask _)

theorem turns_intVecLength : Turns State.stack Eq (intVecLength source settings) := by
  have hrest : Turns State.stack Eq (do
      if ← draw (source.oneIn settings.bigEvery) then return settings.bigLength
      else below source 20 : RunM σ Nat) :=
    (turns_draw _).bind fun big => by
      split
      · exact turns_pure _
      · exact turns_below source 20
  unfold intVecLength
  split
  · exact (turns_throw _).bind fun _ => hrest
  · exact hrest

/-- An object is made without a trace on the stack. -/
theorem turns_create : Turns State.stack Eq (create source settings base) := by
  unfold create
  refine (turns_draw _).bind fun choice => ?_
  split
  · refine turns_intVecLength.bind fun length => ?_
    split
    · exact (turns_throw _).bind fun _ => turns_onMutator (still_intVec _)
    · exact turns_onMutator (still_intVec _)
  · exact turns_pick.bind fun _ => turns_pick.bind fun _ => turns_onMutator (still_pair _ _)
  · exact turns_pick.bind fun _ => turns_pick.bind fun _ => turns_onMutator (still_pair _ _)
  · exact turns_pick.bind fun _ => (turns_draw _).bind fun _ => turns_onMutator (still_cell _ _)
  · exact (turns_below _ _).bind fun _ => turns_onMutator (still_vector _)
  · exact (turns_below _ _).bind fun _ => turns_onMutator (still_symbol _)

theorem turns_link : Turns State.stack Eq (link source settings base) := by
  unfold link
  refine turns_pick.bind fun target => turns_pick.bind fun value =>
    (turns_onMutator (still_ask _)).bind fun tag => ?_
  split
  · refine (turns_draw _).bind fun first => ?_
    split <;> exact turns_onMutator (still_onHeap _)
  · exact turns_onMutator (still_onHeap _)
  · exact turns_onMutator (still_onHeap _)
  · refine (turns_onMutator (still_ask _)).bind fun length => ?_
    split
    · exact (turns_below _ _).bind fun _ => turns_onMutator (still_vectorSet _ _ _)
    · exact turns_pure _
  · exact turns_pure _

/-! ## Steps -/

/-- Two stacks of one size that differ from position `base` on only. -/
def Refilled (base : Nat) (s t : Array ObjRef) : Prop :=
  t.size = s.size ∧ t.toList.take base = s.toList.take base

instance : IsPreorder (Array ObjRef) (Refilled base) where
  refl _ := ⟨rfl, rfl⟩
  trans _ _ _ h h' := ⟨h'.1.trans h.1, h'.2.trans h.2⟩

/-- A root is replaced in a slot. -/
theorem turns_setRoot (i : Nat) (obj : ObjRef) :
    Turns Mutator.stack (Refilled base) (setRoot (base + i) obj) := by
  have hset : Turns Mutator.stack (Refilled base)
      (modify fun m => { m with stack := m.stack.setIfInBounds (base + i) obj } : MutatorM Unit) :=
    turns_modify fun m => ⟨Array.size_setIfInBounds, by
      rw [Array.toList_setIfInBounds, List.take_set_of_le (Nat.le_add_right _ _)]⟩
  refine .get_bind fun m => ?_
  split
  · exact (turns_throw _).bind fun _ => hset
  · exact hset

/-- Slots are picked from the first one on. -/
theorem turns_pickSlot_bind {f : Nat → RunM σ β} [IsPreorder _ R]
    (hf : ∀ i, Turns State.stack R (f (base + i))) :
    Turns State.stack R (pickSlot source settings base >>= f) := by
  have hslot : pickSlot source settings base >>= f =
      below source settings.live >>= fun i => f (base + i) := by
    simp [pickSlot]
  rw [hslot]
  exact (turns_below _ _).of_eq.bind hf

theorem turns_allocate :
    Turns State.stack (Refilled base) (allocate source settings base) :=
  turns_pickSlot_bind fun i => turns_create.of_eq.bind fun obj =>
    turns_onMutator (turns_setRoot i obj)

/-- **A step changes no root but those in the slots**, on every exit. -/
theorem turns_step (number : Nat) :
    Turns State.stack (Refilled base) (step source settings base number) := by
  have hchoice : Turns State.stack (Refilled base) (do
      let choice ← draw (source.below32 10)
      if choice ≤ 5 then
        allocate source settings base
        record (·.addAllocations 1)
      else if choice ≤ 8 then
        link source settings base
        record (·.addMutations 1)
      else
        let slot ← pickSlot source settings base
        let nil := (← get).mutator.nil
        onMutator (setRoot slot nil) : RunM σ Unit) := by
    refine (turns_draw _).of_eq.bind fun choice => ?_
    split
    · exact turns_allocate.bind fun _ => (turns_record _).of_eq
    · split
      · exact (turns_link.bind fun _ => turns_record _).of_eq
      · exact turns_pickSlot_bind fun i => .get_bind fun _ => turns_onMutator (turns_setRoot i _)
  unfold step
  refine (turns_record _).of_eq.bind fun _ => ?_
  split
  · exact turns_observe.of_eq.bind fun _ => hchoice
  · exact hchoice

/-! ## Runs -/

/-- So many slots are on top of what was there at the entry. -/
def Leftover (entry : Array ObjRef) (live : Nat) (t : Array ObjRef) : Prop :=
  ∃ slots : Array ObjRef, slots.size = live ∧ t = entry ++ slots

theorem leftover_of_refilled {entry slots t : Array ObjRef}
    (ht : Refilled entry.size (entry ++ slots) t) : Leftover entry slots.size t := by
  obtain ⟨hsize, htake⟩ := ht
  rw [Array.toList_append, List.take_left' Array.length_toList] at htake
  refine ⟨(t.toList.drop entry.size).toArray, ?_, Array.toList_inj.mp ?_⟩
  · rw [List.size_toArray, List.length_drop, Array.length_toList, hsize, Array.size_append,
      Nat.add_sub_cancel_left]
  · rw [Array.toList_append, List.toList_toArray, ← htake, List.take_append_drop]

/-- All steps of a run, wherever they break off, leave the slots on the
stack. -/
theorem mutate_leftover (s : State σ) :
    Ends (mutate source settings s.stack.size s)
      (fun _ s' => Leftover s.stack settings.live s'.stack)
      (fun _ s' => Leftover s.stack settings.live s'.stack) fun _ => True := by
  have hpush : onMutator (pushRoots (List.replicate settings.live s.mutator.nil)) s =
      .ok () { s with mutator :=
        s.mutator.pushed (List.replicate settings.live s.mutator.nil) } := by
    rw [onMutator_eq, pushRoots_eq]
  have hslots : ∀ t, Refilled s.stack.size
      (s.stack ++ (List.replicate settings.live s.mutator.nil).toArray) t →
      Leftover s.stack settings.live t := fun t ht => by
    have hleft := leftover_of_refilled ht
    rw [List.size_toArray, List.length_replicate] at hleft
    exact hleft
  refine Ends.get_bind (Ends.bind_of_eq hpush ?_)
  rw [forM_eq_range]
  exact ((turns_forM (fun number => turns_step number) _).ends _).mono (fun _ _ h => hslots _ h)
    (fun _ _ h => hslots _ h) fun _ h => h

/-- The end of a run drops the slots. -/
theorem settle_drops {entry : Array ObjRef} {live : Nat} {s : State σ}
    (hs : Leftover entry live s.stack) :
    Ends (settle entry.size s) (fun _ s' => s'.stack = entry)
      (fun _ s' => Leftover entry live s'.stack) fun _ => True := by
  have hsame : ∀ {s₁ s₂ : State σ}, Leftover entry live s₁.stack → s₁.stack = s₂.stack →
      Leftover entry live s₂.stack := fun h e => e ▸ h
  refine Ends.bind (((turns_onMutator (still_collect .two)).ends s).mono
    (fun _ _ e => hsame hs e) (fun _ _ e => hsame hs e) fun _ h => h) fun _ s₁ h₁ => ?_
  refine Ends.bind ((turns_observe.ends s₁).mono (fun _ _ e => hsame h₁ e) (fun _ _ e => hsame h₁ e)
    fun _ h => h) fun _ s₂ h₂ => Ends.get_bind ?_
  refine Ends.bind (((turns_record _).ends s₂).mono (fun _ _ e => hsame h₂ e)
    (fun _ _ e => hsame h₂ e) fun _ h => h) fun _ s₃ h₃ => ?_
  obtain ⟨slots, _, hstack⟩ := h₃
  have hdrop : onMutator (truncateRoots entry.size) s₃ =
      .ok () { s₃ with mutator := s₃.mutator.truncate entry.size } := by
    rw [onMutator_eq]
    rfl
  refine Ends.of_eq hdrop ?_
  show s₃.stack.shrink entry.size = entry
  rw [hstack]
  simp

/-- **The root stack after a run.** One that returns leaves the stack as it
was. One that is refused, at whatever step, leaves all its slots on top of
it, as many as it has been asked to keep. -/
theorem run_roots (source : Random.Source σ) (settings : Settings) (s : State σ) :
    Ends (run source settings s) (fun _ s' => s'.mutator.stack = s.mutator.stack)
      (fun _ s' => ∃ slots : Array ObjRef, slots.size = settings.live ∧
        s'.mutator.stack = s.mutator.stack ++ slots) fun _ => True := by
  refine Ends.get_bind (Ends.bind (mutate_leftover s) fun _ s₁ hs₁ => ?_)
  exact Ends.bind (settle_drops hs₁) fun _ s₂ hs₂ => Ends.get_bind hs₂

/-- A mutator over one segment, which its nil takes. -/
def crampedMutator : Mutator :=
  (Mutator.create { Heap.smallConfig with maxSegments := 1 } .standard).toOption.get
    (by decide +kernel)

theorem reached_crampedMutator : crampedMutator.Reached :=
  have hc : Mutator.create { Heap.smallConfig with maxSegments := 1 } .standard =
      .ok crampedMutator := eq_ok_of_toOption (Option.some_get _).symm
  .create hc

/-- The first object of a run finds no room there. The stack was empty at
the entry, and the one slot of the run is a root afterwards. -/
theorem run_roots_refused : crampedMutator.Reached ∧ Random.Source.chacha.InRange ∧
    crampedMutator.stack.size = 0 ∧ ∃ (e : HeapError) (s' : State Random.ChaCha),
      run .chacha { seed := 7, steps := 3, live := 1, bigLength := 10, bigEvery := 1 }
        { mutator := crampedMutator, source := .ofSeed 7 } = .error (.refused e) s' ∧
      e.isExhausted = true ∧ s'.mutator.stack.size = 1 := by
  have hrun : (refusal (run .chacha
        { seed := 7, steps := 3, live := 1, bigLength := 10, bigEvery := 1 })
      { mutator := crampedMutator, source := .ofSeed 7 }).map (fun r =>
        (r.1.isExhausted, r.2.mutator.stack.size)) = some (true, 1) := by
    decide +kernel
  obtain ⟨⟨e, s'⟩, hrefused, hfacts⟩ := Option.map_eq_some_iff.mp hrun
  rw [Prod.mk.injEq] at hfacts
  exact ⟨reached_crampedMutator, Random.chacha_inRange, by decide +kernel, e, s',
    error_of_refusal hrefused, hfacts⟩

end Workload

end SegmentedHeap
