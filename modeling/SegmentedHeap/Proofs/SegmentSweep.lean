/-
SegmentedHeap.Proofs.SegmentSweep — what a collection makes of one
segment.

After marking, a collection changes each segment on its own. `swept` is
what sweeping leaves of a segment, nothing if it was big and its object
dead; `filed` is what the making of the queues leaves of it, nothing if
it was small and has no object left. Both are described by what they
leave of one slot.

* `vacateAll`, `promote` — a row of slots is given back, or promoted.
* `mem_allocated_swept`, `generation_swept` — which objects are left, and
  of which generation.
-/
import SegmentedHeap.Heap.Sweep
import SegmentedHeap.Proofs.Segment

namespace SegmentedHeap.Segment

/-! ## Giving back a row of slots -/

/-- The segment with each of these slots given back. -/
def vacateAll (s : Segment) (dead : List Offset) : Segment := dead.foldl vacate s

section VacateAll

variable {s : Segment} {dead : List Offset} {p : Offset}

/-- Slots outside of a row, one slot at a time. -/
theorem not_mem_cons_and {o : Offset} {a : Prop} :
    ¬ p ∈ o :: dead ∧ a ↔ ¬ p ∈ dead ∧ o ≠ p ∧ a := by
  rw [List.mem_cons, not_or]
  constructor
  · rintro ⟨⟨hne, hd⟩, ha⟩
    exact ⟨hd, Ne.symm hne, ha⟩
  · rintro ⟨hd, hne, ha⟩
    exact ⟨⟨Ne.symm hne, hd⟩, ha⟩

theorem sameShape_vacateAll (s : Segment) (dead : List Offset) :
    SameShape s (s.vacateAll dead) := by
  induction dead generalizing s with
  | nil => exact .refl s
  | cons o dead ih => exact (sameShape_vacate s o).trans (ih (s.vacate o))

/-- A set that each slot leaves as it is given back, all the slots leave. -/
theorem mem_of_vacateAll {f : Segment → OffsetSet}
    (hf : ∀ s o, p ∈ f (s.vacate o) ↔ ¬ o = p ∧ p ∈ f s) :
    p ∈ f (s.vacateAll dead) ↔ ¬ p ∈ dead ∧ p ∈ f s := by
  induction dead generalizing s with
  | nil => simp [vacateAll]
  | cons o dead ih =>
    show p ∈ f ((s.vacate o).vacateAll dead) ↔ _
    rw [ih, hf, not_mem_cons_and]

/-- What another slot's return leaves of a slot, that of a row leaves of a
slot outside of it. -/
theorem eq_of_vacateAll {α : Type} {f : Segment → α}
    (hf : ∀ s o, ¬ o = p → f (s.vacate o) = f s) (h : ¬ p ∈ dead) :
    f (s.vacateAll dead) = f s := by
  induction dead generalizing s with
  | nil => rfl
  | cons o dead ih =>
    obtain ⟨hne, hd⟩ := not_or.mp (fun e => h (List.mem_cons.mpr e))
    show f ((s.vacate o).vacateAll dead) = _
    rw [ih hd, hf s o (Ne.symm hne)]

theorem mem_allocated_vacateAll :
    p ∈ (s.vacateAll dead).allocated ↔ ¬ p ∈ dead ∧ p ∈ s.allocated :=
  mem_of_vacateAll fun _ _ => mem_allocated_vacate

theorem mem_oldToNew_vacateAll :
    p ∈ (s.vacateAll dead).oldToNew ↔ ¬ p ∈ dead ∧ p ∈ s.oldToNew :=
  mem_of_vacateAll fun _ _ => OffsetSet.mem_erase

theorem mem_marked_vacateAll :
    p ∈ (s.vacateAll dead).marked ↔ ¬ p ∈ dead ∧ p ∈ s.marked :=
  mem_of_vacateAll fun _ _ => OffsetSet.mem_erase

theorem generation_vacateAll (h : ¬ p ∈ dead) :
    (s.vacateAll dead).generation p = s.generation p :=
  eq_of_vacateAll (f := (·.generation p)) (fun _ _ => generation_vacate) h

theorem length?_vacateAll (h : ¬ p ∈ dead) : (s.vacateAll dead).length? p = s.length? p :=
  eq_of_vacateAll (f := (·.length? p)) (fun _ _ => length?_vacate) h

end VacateAll

/-! ## Promotion -/

section Promote

variable {s : Segment} {level : Generation} {slots : List Offset}

theorem promote_cons (s : Segment) (level : Generation) (o : Offset) (slots : List Offset) :
    s.promote level (o :: slots) =
      (s.setGeneration o ((s.generation o).promoted level)).promote level slots := rfl

theorem sameShape_promote (s : Segment) (level : Generation) (slots : List Offset) :
    SameShape s (s.promote level slots) := by
  induction slots generalizing s with
  | nil => exact .refl s
  | cons o slots ih =>
    rw [promote_cons]
    exact (sameShape_setGeneration s o _).trans (ih _)

/-- What does not depend on generations is left by promotions. -/
theorem eq_of_promote {α : Type} {f : Segment → α}
    (hf : ∀ s o g, f (s.setGeneration o g) = f s) (s : Segment) (level : Generation)
    (slots : List Offset) : f (s.promote level slots) = f s := by
  induction slots generalizing s with
  | nil => rfl
  | cons o slots ih => rw [promote_cons, ih, hf]

theorem allocated_promote (s : Segment) (level : Generation) (slots : List Offset) :
    (s.promote level slots).allocated = s.allocated :=
  eq_of_promote allocated_setGeneration s level slots

theorem oldToNew_promote (s : Segment) (level : Generation) (slots : List Offset) :
    (s.promote level slots).oldToNew = s.oldToNew :=
  eq_of_promote oldToNew_setGeneration s level slots

theorem marked_promote (s : Segment) (level : Generation) (slots : List Offset) :
    (s.promote level slots).marked = s.marked :=
  eq_of_promote marked_setGeneration s level slots

theorem free_promote (s : Segment) (level : Generation) (slots : List Offset) :
    (s.promote level slots).free = s.free :=
  eq_of_promote free_setGeneration s level slots

theorem lengths_promote (s : Segment) (level : Generation) (slots : List Offset) :
    (s.promote level slots).lengths = s.lengths :=
  eq_of_promote lengths_setGeneration s level slots

/-- Each of the slots is promoted once, and no other. -/
theorem generation_promote (hn : slots.Nodup) (p : Offset) :
    (p ∈ slots → (s.promote level slots).generation p = (s.generation p).promoted level) ∧
      (p ∉ slots → (s.promote level slots).generation p = s.generation p) := by
  induction slots generalizing s with
  | nil => exact ⟨fun hp => absurd hp List.not_mem_nil, fun _ => rfl⟩
  | cons o slots ih =>
    obtain ⟨ho, hn⟩ := List.nodup_cons.mp hn
    obtain ⟨hmem, hnot⟩ := ih (s := s.setGeneration o ((s.generation o).promoted level)) hn
    rw [promote_cons, List.mem_cons]
    by_cases e : o = p
    · subst e
      simp [hnot ho, generation_setGeneration]
    · simp only [generation_setGeneration, if_neg e] at hmem hnot
      exact ⟨fun hp => hmem (hp.resolve_left (Ne.symm e)), fun hp => hnot fun h => hp (Or.inr h)⟩

theorem promoted_ne_zero (g level : Generation) : g.promoted level ≠ .zero := by
  cases g <;> cases level <;> decide

theorem WellFormed.promote (h : s.WellFormed) (hs : ∀ o ∈ slots, o ∈ s.allocated) :
    (s.promote level slots).WellFormed := by
  induction slots generalizing s with
  | nil => exact h
  | cons o slots ih =>
    rw [promote_cons]
    apply ih
    · exact h.setGeneration (hs o List.mem_cons_self) fun _ => promoted_ne_zero _ _
    · intro p hp
      rw [allocated_setGeneration]
      exact hs p (List.mem_cons_of_mem o hp)

end Promote

/-! ## Sweeping -/

/-- The objects that a collection at a level releases. -/
def dying (s : Segment) (level : Generation) : OffsetSet := s.inScope level \ s.marked

theorem mem_dying {s : Segment} {level : Generation} {o : Offset} :
    o ∈ s.dying level ↔ o ∈ s.allocated ∧ s.generation o ≤ level ∧ ¬ o ∈ s.marked := by
  rw [dying, OffsetSet.mem_sdiff, mem_inScope, and_assoc]

/-- The survivors that a collection at a level promotes. -/
def promotable (s : Segment) (level : Generation) : List Offset :=
  s.moved level (s.inScope level ∩ s.marked).members

theorem mem_promotable {s : Segment} {level : Generation} {o : Offset} :
    o ∈ s.promotable level ↔
      (o ∈ s.allocated ∧ s.generation o ≤ level ∧ o ∈ s.marked) ∧
        (s.generation o).promoted level ≠ s.generation o := by
  simp only [promotable, moved, List.mem_filter, OffsetSet.mem_members, OffsetSet.mem_inter,
    mem_inScope, and_assoc, bne_iff_ne]

theorem nodup_members (t : OffsetSet) : t.members.Nodup :=
  (List.nodup_finRange 64).filter _

theorem nodup_promotable (s : Segment) (level : Generation) : (s.promotable level).Nodup :=
  (nodup_members _).filter _

/-- What sweeping leaves of the segment, if its kind is collected. -/
def swept (s : Segment) (level : Generation) : Option Segment :=
  if s.isBig && !(s.dying level).isEmpty then none
  else some ((s.vacateAll (s.dying level).members).promote level (s.promotable level))

section Swept

variable {s t : Segment} {level : Generation}

theorem swept_eq_some (h : s.swept level = some t) :
    t = (s.vacateAll (s.dying level).members).promote level (s.promotable level) := by
  unfold swept at h
  split at h
  · cases h
  · exact (Option.some.inj h).symm

/-- Only a big segment whose object dies is given up. -/
theorem swept_eq_none (h : s.swept level = none) :
    s.isBig = true ∧ ∃ o, o ∈ s.dying level := by
  unfold swept at h
  split at h
  · next hc =>
    simp only [Bool.and_eq_true, Bool.not_eq_true', Bool.eq_false_iff] at hc
    refine ⟨hc.1, Classical.byContradiction fun hn => hc.2 ?_⟩
    exact OffsetSet.isEmpty_iff.mpr fun o ho => hn ⟨o, ho⟩
  · cases h

/-- A big segment that is left is left with its object. -/
theorem free_swept_of_big (h : s.swept level = some t) (hb : s.isBig = true) : t.free = s.free := by
  have hnone : (s.dying level).members = [] := by
    unfold swept at h
    split at h
    · cases h
    · next hc =>
      have he : (s.dying level).isEmpty = true := by simpa [hb] using hc
      refine List.eq_nil_iff_forall_not_mem.mpr fun o ho => ?_
      exact OffsetSet.isEmpty_iff.mp he o (OffsetSet.mem_members.mp ho)
  rw [swept_eq_some h, free_promote, hnone]
  rfl

theorem sameShape_swept (h : s.swept level = some t) : SameShape s t := by
  rw [swept_eq_some h]
  exact (sameShape_vacateAll s _).trans (sameShape_promote _ level _)

theorem mem_allocated_swept (h : s.swept level = some t) {o : Offset} :
    o ∈ t.allocated ↔ o ∈ s.allocated ∧ ¬ o ∈ s.dying level := by
  rw [swept_eq_some h, allocated_promote, mem_allocated_vacateAll, OffsetSet.mem_members]
  exact And.comm

theorem mem_oldToNew_swept (h : s.swept level = some t) {o : Offset} :
    o ∈ t.oldToNew ↔ o ∈ s.oldToNew ∧ ¬ o ∈ s.dying level := by
  rw [swept_eq_some h, oldToNew_promote, mem_oldToNew_vacateAll, OffsetSet.mem_members]
  exact And.comm

theorem length?_swept (h : s.swept level = some t) {o : Offset} (ho : ¬ o ∈ s.dying level) :
    t.length? o = s.length? o := by
  rw [swept_eq_some h]
  simp only [length?, lengths_promote]
  exact length?_vacateAll (fun hm => ho (OffsetSet.mem_members.mp hm))

/-- A survivor in scope is promoted, whether that changes its generation
or not; one out of scope keeps its generation. -/
theorem generation_swept (h : s.swept level = some t) {o : Offset} (ho : o ∈ t.allocated) :
    t.generation o =
      if s.generation o ≤ level then (s.generation o).promoted level else s.generation o := by
  obtain ⟨ha, hd⟩ := (mem_allocated_swept h).mp ho
  have hv : (s.vacateAll (s.dying level).members).generation o = s.generation o :=
    generation_vacateAll (fun hm => hd (OffsetSet.mem_members.mp hm))
  have hpromote : (o ∈ s.promotable level → t.generation o = (s.generation o).promoted level) ∧
      (o ∉ s.promotable level → t.generation o = s.generation o) := by
    rw [swept_eq_some h, ← hv]
    exact generation_promote (nodup_promotable s level) o
  obtain ⟨hmem, hnot⟩ := hpromote
  by_cases hg : s.generation o ≤ level
  · have hm : o ∈ s.marked := Classical.byContradiction fun hn => hd (mem_dying.mpr ⟨ha, hg, hn⟩)
    rw [if_pos hg]
    by_cases hp : o ∈ s.promotable level
    · exact hmem hp
    · rw [hnot hp]
      refine (Classical.byContradiction fun hne => hp ?_)
      exact mem_promotable.mpr ⟨⟨ha, hg, hm⟩, Ne.symm hne⟩
  · rw [if_neg hg, hnot fun hp => hg (mem_promotable.mp hp).1.2.1]

end Swept

/-! ## Queueing -/

/-- What the making of the queues leaves of the segment. -/
def filed (s : Segment) : Option Segment :=
  if s.isBig then some (s.setQueued false)
  else if s.isEmpty then none
  else some (s.setQueued s.hasFree)

/-- Only a small segment without objects is given up. -/
theorem filed_eq_none {s : Segment} : s.filed = none ↔ s.isBig = false ∧ s.isEmpty = true := by
  unfold filed
  cases s.isBig <;> cases s.isEmpty <;> simp

theorem filed_eq_some {s t : Segment} (h : s.filed = some t) : ∃ b, t = s.setQueued b := by
  unfold filed at h
  split at h
  · exact ⟨false, (Option.some.inj h).symm⟩
  · split at h
    · cases h
    · exact ⟨s.hasFree, (Option.some.inj h).symm⟩

/-- A filed segment waits in a queue exactly if it is small and has a
free slot. -/
theorem queued_filed {s t : Segment} (h : s.filed = some t) :
    t.queued = true ↔ t.isBig = false ∧ t.hasFree = true := by
  unfold filed at h
  split at h
  · next hb =>
    cases h
    show false = true ↔ s.isBig = false ∧ s.hasFree = true
    simp [hb]
  · next hb =>
    split at h
    · cases h
    · cases h
      show s.hasFree = true ↔ s.isBig = false ∧ s.hasFree = true
      simp [hb]

end SegmentedHeap.Segment
