/-
SegmentedHeap.Proofs.Segment — what the sets of a segment say about its
slots, and that every change to a segment keeps it so.

`WellFormed` is the invariant: what is recorded of a slot (generation,
mark, membership in the old-to-new set, stored length) is recorded of
slots that hold an object only, and no slot is of two generations.
`SameShape` says that a segment is still cut into the same slots of the
same kind at the same place. Each operation of `Segment` has one lemma
for either, and one for each set that it changes; after that no proof
outside this module looks at the sets.
-/
import SegmentedHeap.Segment

namespace SegmentedHeap.Segment

/-! ## The invariant -/

/-- Nothing is recorded of a slot that holds no object, and a slot that
holds one has a place in the table of lengths, if there is such a table. -/
structure WellFormed (s : Segment) : Prop where
  free_slots : ∀ o, o ∈ s.free → o ∈ s.slots
  gen1_allocated : ∀ o, o ∈ s.gen1 → o ∈ s.allocated
  gen2_allocated : ∀ o, o ∈ s.gen2 → o ∈ s.allocated
  marked_allocated : ∀ o, o ∈ s.marked → o ∈ s.allocated
  oldToNew_allocated : ∀ o, o ∈ s.oldToNew → o ∈ s.allocated
  disjoint : s.Disjoint
  oldToNew_old : ∀ o, o ∈ s.oldToNew → s.generation o ≠ .zero
  stored_slots : ∀ lengths, s.lengths = some lengths → ∀ o, o ∈ s.slots → o.val < lengths.size
  stored_free : ∀ lengths, s.lengths = some lengths → ∀ o, o ∈ s.free → lengths[o.val]? = some 0

/-- `t` is cut like `s`, at the same place and for the same kind. -/
structure SameShape (s t : Segment) : Prop where
  kind : t.kind = s.kind
  chunks : t.chunks = s.chunks
  backing : t.backing = s.backing
  slots : t.slots = s.slots
  lengths : t.lengths.map Array.size = s.lengths.map Array.size

namespace SameShape

theorem refl (s : Segment) : SameShape s s := ⟨rfl, rfl, rfl, rfl, rfl⟩

theorem trans {s t u : Segment} (h : SameShape s t) (k : SameShape t u) : SameShape s u :=
  ⟨k.kind.trans h.kind, k.chunks.trans h.chunks, k.backing.trans h.backing,
    k.slots.trans h.slots, k.lengths.trans h.lengths⟩

theorem symm {s t : Segment} (h : SameShape s t) : SameShape t s :=
  ⟨h.kind.symm, h.chunks.symm, h.backing.symm, h.slots.symm, h.lengths.symm⟩

theorem isBig {s t : Segment} (h : SameShape s t) : t.isBig = s.isBig := by
  simp only [Segment.isBig, h.backing]

theorem base {s t : Segment} (h : SameShape s t) : t.base = s.base := by
  simp only [Segment.base, h.backing]

end SameShape

/-! ## Generations -/

theorem generation_congr {s t : Segment} {o : Offset} (h1 : o ∈ t.gen1 ↔ o ∈ s.gen1)
    (h2 : o ∈ t.gen2 ↔ o ∈ s.gen2) : t.generation o = s.generation o := by
  have e1 : t.gen1.contains o = s.gen1.contains o := Bool.eq_iff_iff.mpr h1
  have e2 : t.gen2.contains o = s.gen2.contains o := Bool.eq_iff_iff.mpr h2
  simp only [generation, e1, e2]

/-- A slot without an object is of generation zero. -/
theorem WellFormed.generation_of_not_allocated {s : Segment} (h : s.WellFormed) {o : Offset}
    (ho : ¬ o ∈ s.allocated) : s.generation o = .zero := by
  have h1 : s.gen1.contains o = false := by
    rw [OffsetSet.contains_eq_false_iff]
    exact fun hm => ho (h.gen1_allocated o hm)
  have h2 : s.gen2.contains o = false := by
    rw [OffsetSet.contains_eq_false_iff]
    exact fun hm => ho (h.gen2_allocated o hm)
  simp [generation, h1, h2]

@[simp] theorem isMarked_iff {s : Segment} {o : Offset} : s.isMarked o = true ↔ o ∈ s.marked :=
  Iff.rfl

@[simp] theorem inOldToNew_iff {s : Segment} {o : Offset} :
    s.inOldToNew o = true ↔ o ∈ s.oldToNew := Iff.rfl

/-! ## Marks, the old-to-new set and the queue flag -/

theorem sameShape_mark (s : Segment) (o : Offset) : SameShape s (s.mark o) :=
  ⟨rfl, rfl, rfl, rfl, rfl⟩

theorem sameShape_clearMarks (s : Segment) : SameShape s s.clearMarks :=
  ⟨rfl, rfl, rfl, rfl, rfl⟩

theorem sameShape_addOldToNew (s : Segment) (o : Offset) : SameShape s (s.addOldToNew o) :=
  ⟨rfl, rfl, rfl, rfl, rfl⟩

theorem sameShape_removeOldToNew (s : Segment) (o : Offset) :
    SameShape s (s.removeOldToNew o) := ⟨rfl, rfl, rfl, rfl, rfl⟩

theorem sameShape_clearOldToNew (s : Segment) : SameShape s s.clearOldToNew :=
  ⟨rfl, rfl, rfl, rfl, rfl⟩

theorem sameShape_setQueued (s : Segment) (b : Bool) : SameShape s (s.setQueued b) :=
  ⟨rfl, rfl, rfl, rfl, rfl⟩

theorem WellFormed.mark {s : Segment} (h : s.WellFormed) {o : Offset} (ho : o ∈ s.allocated) :
    (s.mark o).WellFormed := { h with
  marked_allocated := fun p hp => by
    rcases OffsetSet.mem_insert.mp hp with rfl | hp
    · exact ho
    · exact h.marked_allocated p hp }

theorem WellFormed.clearMarks {s : Segment} (h : s.WellFormed) : s.clearMarks.WellFormed := { h with
  marked_allocated := fun p hp => absurd hp (OffsetSet.not_mem_empty p) }

/-- Only an object that has left generation zero may join the old-to-new
set. -/
theorem WellFormed.addOldToNew {s : Segment} (h : s.WellFormed) {o : Offset}
    (ho : s.generation o ≠ .zero) : (s.addOldToNew o).WellFormed := { h with
  oldToNew_allocated := fun p hp => by
    rcases OffsetSet.mem_insert.mp hp with rfl | hp
    · exact Classical.byContradiction fun hn => ho (h.generation_of_not_allocated hn)
    · exact h.oldToNew_allocated p hp
  oldToNew_old := fun p hp => by
    rcases OffsetSet.mem_insert.mp hp with rfl | hp
    · exact ho
    · exact h.oldToNew_old p hp }

theorem WellFormed.removeOldToNew {s : Segment} (h : s.WellFormed) (o : Offset) :
    (s.removeOldToNew o).WellFormed := { h with
  oldToNew_allocated := fun p hp => h.oldToNew_allocated p (OffsetSet.mem_erase.mp hp).2
  oldToNew_old := fun p hp => h.oldToNew_old p (OffsetSet.mem_erase.mp hp).2 }

theorem WellFormed.clearOldToNew {s : Segment} (h : s.WellFormed) :
    s.clearOldToNew.WellFormed := { h with
  oldToNew_allocated := fun p hp => absurd hp (OffsetSet.not_mem_empty p)
  oldToNew_old := fun p hp => absurd hp (OffsetSet.not_mem_empty p) }

theorem WellFormed.setQueued {s : Segment} (h : s.WellFormed) (b : Bool) :
    (s.setQueued b).WellFormed := { h with }

@[simp] theorem allocated_setQueued (s : Segment) (b : Bool) :
    (s.setQueued b).allocated = s.allocated := rfl

/-! ## Taking a slot -/

/-- The segment with a free slot handed out. -/
def claimed (s : Segment) (o : Offset) : Segment := { s with free := s.free.erase o }

theorem takeSlot_of_first? {s : Segment} {o : Offset} (h : s.free.first? = some o) :
    s.takeSlot = (some o, s.claimed o) := by
  simp [takeSlot, claimed, h]

/-- A segment with a free slot hands one out. -/
theorem first?_of_hasFree {s : Segment} (h : s.hasFree = true) : ∃ o, s.free.first? = some o := by
  cases hf : s.free.first? with
  | some o => exact ⟨o, rfl⟩
  | none =>
    rw [OffsetSet.first?_eq_none_iff] at hf
    simp [hasFree, OffsetSet.isEmpty, hf] at h

theorem hasFree_iff {s : Segment} : s.hasFree = true ↔ ∃ o, o ∈ s.free := by
  constructor
  · intro h
    obtain ⟨o, ho⟩ := first?_of_hasFree h
    exact ⟨o, OffsetSet.mem_of_first? ho⟩
  · rintro ⟨o, ho⟩
    cases h : s.hasFree with
    | true => rfl
    | false =>
      simp only [hasFree, Bool.not_eq_false'] at h
      exact absurd ho (OffsetSet.isEmpty_iff.mp h o)

/-- No slot is left of one. -/
theorem hasFree_claimed_of_single {s : Segment} {o : Offset} (h : s.free = {o}) :
    (s.claimed o).hasFree = false := by
  refine Bool.eq_false_iff.mpr fun hn => ?_
  obtain ⟨p, hp⟩ := hasFree_iff.mp hn
  obtain ⟨hne, hp⟩ := OffsetSet.mem_erase.mp hp
  rw [h] at hp
  exact hne (OffsetSet.mem_singleton.mp hp)

theorem isEmpty_iff {s : Segment} (h : s.WellFormed) :
    s.isEmpty = true ↔ ∀ o, ¬ o ∈ s.allocated := by
  simp only [isEmpty, beq_iff_eq]
  constructor
  · intro e o ho
    rw [mem_allocated, e] at ho
    exact ho.2 ho.1
  · intro hn
    ext o
    refine ⟨h.free_slots o, fun hs => ?_⟩
    exact Classical.byContradiction fun hf => hn o (mem_allocated.mpr ⟨hs, hf⟩)

theorem sameShape_claimed (s : Segment) (o : Offset) : SameShape s (s.claimed o) :=
  ⟨rfl, rfl, rfl, rfl, rfl⟩

theorem mem_allocated_claimed {s : Segment} {o p : Offset} (ho : o ∈ s.slots) :
    p ∈ (s.claimed o).allocated ↔ o = p ∨ p ∈ s.allocated := by
  simp only [mem_allocated, claimed, OffsetSet.mem_erase, not_and]
  constructor
  · rintro ⟨hs, hf⟩
    by_cases e : o = p
    · exact Or.inl e
    · exact Or.inr ⟨hs, hf e⟩
  · rintro (rfl | ⟨hs, hf⟩)
    · exact ⟨ho, fun e => absurd rfl e⟩
    · exact ⟨hs, fun _ => hf⟩

theorem WellFormed.claimed {s : Segment} (h : s.WellFormed) {o : Offset} (ho : o ∈ s.free) :
    (s.claimed o).WellFormed := by
  have grow : ∀ p, p ∈ s.allocated → p ∈ (s.claimed o).allocated := fun p hp =>
    (mem_allocated_claimed (h.free_slots o ho)).mpr (Or.inr hp)
  exact {
    free_slots := fun p hp => h.free_slots p (OffsetSet.mem_erase.mp hp).2
    gen1_allocated := fun p hp => grow p (h.gen1_allocated p hp)
    gen2_allocated := fun p hp => grow p (h.gen2_allocated p hp)
    marked_allocated := fun p hp => grow p (h.marked_allocated p hp)
    oldToNew_allocated := fun p hp => grow p (h.oldToNew_allocated p hp)
    disjoint := h.disjoint
    oldToNew_old := h.oldToNew_old
    stored_slots := h.stored_slots
    stored_free := fun lengths hl p hp => h.stored_free lengths hl p (OffsetSet.mem_erase.mp hp).2 }

/-! ## Changing a generation -/

theorem sameShape_setGeneration (s : Segment) (o : Offset) (g : Generation) :
    SameShape s (s.setGeneration o g) := by
  cases g <;> exact ⟨rfl, rfl, rfl, rfl, rfl⟩

@[simp] theorem free_setGeneration (s : Segment) (o : Offset) (g : Generation) :
    (s.setGeneration o g).free = s.free := by
  cases g <;> rfl

@[simp] theorem marked_setGeneration (s : Segment) (o : Offset) (g : Generation) :
    (s.setGeneration o g).marked = s.marked := by
  cases g <;> rfl

@[simp] theorem oldToNew_setGeneration (s : Segment) (o : Offset) (g : Generation) :
    (s.setGeneration o g).oldToNew = s.oldToNew := by
  cases g <;> rfl

@[simp] theorem lengths_setGeneration (s : Segment) (o : Offset) (g : Generation) :
    (s.setGeneration o g).lengths = s.lengths := by
  cases g <;> rfl

theorem allocated_setGeneration (s : Segment) (o : Offset) (g : Generation) :
    (s.setGeneration o g).allocated = s.allocated := by
  simp only [allocated, free_setGeneration, (sameShape_setGeneration s o g).slots]

/-- An allocated object may be given any generation, but a member of the
old-to-new set not generation zero. -/
theorem WellFormed.setGeneration {s : Segment} (h : s.WellFormed) {o : Offset} {g : Generation}
    (ho : o ∈ s.allocated) (hg : o ∈ s.oldToNew → g ≠ .zero) :
    (s.setGeneration o g).WellFormed := by
  have hshape := sameShape_setGeneration s o g
  have hgens : ∀ p, (p ∈ (s.setGeneration o g).gen1 ∨ p ∈ (s.setGeneration o g).gen2) →
      p ∈ s.allocated := by
    intro p hp
    cases g <;> simp only [Segment.setGeneration, OffsetSet.mem_insert, OffsetSet.mem_erase] at hp
    all_goals
      rcases hp with hp | hp
      all_goals grind [h.gen1_allocated, h.gen2_allocated]
  refine {
    free_slots := by simpa only [free_setGeneration, hshape.slots] using h.free_slots
    gen1_allocated := fun p hp => by
      rw [allocated_setGeneration]; exact hgens p (Or.inl hp)
    gen2_allocated := fun p hp => by
      rw [allocated_setGeneration]; exact hgens p (Or.inr hp)
    marked_allocated := by
      simpa only [allocated_setGeneration, marked_setGeneration] using h.marked_allocated
    oldToNew_allocated := by
      simpa only [allocated_setGeneration, oldToNew_setGeneration] using h.oldToNew_allocated
    disjoint := ?_
    oldToNew_old := ?_
    stored_slots := by
      simpa only [lengths_setGeneration, hshape.slots] using h.stored_slots
    stored_free := by
      simpa only [lengths_setGeneration, free_setGeneration] using h.stored_free }
  · intro p hp
    have := h.disjoint p
    cases g <;> simp only [Segment.setGeneration, OffsetSet.mem_insert, OffsetSet.mem_erase]
      at hp ⊢ <;> grind
  · intro p hp
    rw [oldToNew_setGeneration] at hp
    rw [generation_setGeneration]
    split
    · next e => subst e; exact hg hp
    · exact h.oldToNew_old p hp

/-! ## Giving a slot back -/

theorem sameShape_vacate (s : Segment) (o : Offset) : SameShape s (s.vacate o) := by
  refine ⟨rfl, rfl, rfl, rfl, ?_⟩
  cases h : s.lengths <;> simp [vacate, h]

theorem mem_allocated_vacate {s : Segment} {o p : Offset} :
    p ∈ (s.vacate o).allocated ↔ ¬ o = p ∧ p ∈ s.allocated := by
  simp only [mem_allocated, vacate, OffsetSet.mem_insert, not_or]
  constructor
  · rintro ⟨hs, hne, hf⟩
    exact ⟨hne, hs, hf⟩
  · rintro ⟨hne, hs, hf⟩
    exact ⟨hs, hne, hf⟩

theorem generation_vacate {s : Segment} {o p : Offset} (h : ¬ o = p) :
    (s.vacate o).generation p = s.generation p := by
  apply generation_congr
  · simp [vacate, h]
  · simp [vacate, h]

theorem length?_vacate {s : Segment} {o p : Offset} (h : ¬ o = p) :
    (s.vacate o).length? p = s.length? p := by
  have hv : o.val ≠ p.val := fun e => h (Fin.ext e)
  cases hl : s.lengths <;> simp [vacate, length?, hl, hv]

theorem WellFormed.vacate {s : Segment} (h : s.WellFormed) {o : Offset} (ho : o ∈ s.slots) :
    (s.vacate o).WellFormed := by
  have keep : ∀ {t : OffsetSet} {p : Offset}, (∀ p, p ∈ t → p ∈ s.allocated) →
      p ∈ t.erase o → p ∈ (s.vacate o).allocated := by
    intro t p ht hp
    obtain ⟨hne, hp⟩ := OffsetSet.mem_erase.mp hp
    exact mem_allocated_vacate.mpr ⟨hne, ht p hp⟩
  refine {
    free_slots := ?_
    gen1_allocated := fun p hp => keep h.gen1_allocated hp
    gen2_allocated := fun p hp => keep h.gen2_allocated hp
    marked_allocated := fun p hp => keep h.marked_allocated hp
    oldToNew_allocated := fun p hp => keep h.oldToNew_allocated hp
    disjoint := ?_
    oldToNew_old := ?_
    stored_slots := ?_
    stored_free := ?_ }
  · intro p hp
    rcases OffsetSet.mem_insert.mp hp with rfl | hp
    · exact ho
    · exact h.free_slots p hp
  · intro p h1 h2
    exact h.disjoint p (OffsetSet.mem_erase.mp h1).2 (OffsetSet.mem_erase.mp h2).2
  · intro p hp
    obtain ⟨hne, hp⟩ := OffsetSet.mem_erase.mp hp
    rw [generation_vacate hne]
    exact h.oldToNew_old p hp
  · intro lengths hl p hp
    obtain ⟨old, hold, rfl⟩ := Option.map_eq_some_iff.mp hl
    rw [Array.size_setIfInBounds]
    exact h.stored_slots old hold p hp
  · intro lengths hl p hp
    obtain ⟨old, hold, rfl⟩ := Option.map_eq_some_iff.mp hl
    have hlt := h.stored_slots old hold
    by_cases e : o = p
    · subst e
      simp [hlt o ho]
    · have hv : o.val ≠ p.val := fun hv => e (Fin.ext hv)
      have hp : p ∈ s.free := (OffsetSet.mem_insert.mp hp).resolve_left e
      simp [hv, h.stored_free old hold p hp]

/-! ## Storing a length -/

/-- The segment with a length stored for a slot, if it stores any. -/
def withLength (s : Segment) (o : Offset) (n : Nat) : Segment :=
  { s with lengths := s.lengths.map (·.setIfInBounds o.val n) }

theorem WellFormed.setLength_eq {s : Segment} (h : s.WellFormed) {o : Offset} (ho : o ∈ s.slots)
    (n : Nat) : s.setLength o.val n = .ok (s.withLength o n) := by
  unfold setLength withLength
  split
  · next hl =>
    rw [hl, Option.map_none, ← hl]
  · next lengths hl => simp [hl, h.stored_slots lengths hl o ho]

theorem sameShape_withLength (s : Segment) (o : Offset) (n : Nat) :
    SameShape s (s.withLength o n) := by
  refine ⟨rfl, rfl, rfl, rfl, ?_⟩
  cases h : s.lengths <;> simp [withLength, h]

theorem length?_withLength {s : Segment} (h : s.WellFormed) {o : Offset} (ho : o ∈ s.slots)
    (n : Nat) (p : Offset) :
    (s.withLength o n).length? p = if o = p then s.lengths.map fun _ => n else s.length? p := by
  cases hl : s.lengths with
  | none => simp [withLength, length?, hl]
  | some lengths =>
    have hlt := h.stored_slots lengths hl o ho
    by_cases e : o = p
    · subst e
      simp [withLength, length?, hl, hlt]
    · have hv : o.val ≠ p.val := fun hv => e (Fin.ext hv)
      simp [withLength, length?, hl, e, hv]

theorem WellFormed.withLength {s : Segment} (h : s.WellFormed) {o : Offset}
    (ho : o ∈ s.allocated) (n : Nat) : (s.withLength o n).WellFormed := { h with
  stored_slots := by
    intro lengths hl p hp
    obtain ⟨old, hold, rfl⟩ := Option.map_eq_some_iff.mp hl
    rw [Array.size_setIfInBounds]
    exact h.stored_slots old hold p hp
  stored_free := by
    intro lengths hl p hp
    obtain ⟨old, hold, rfl⟩ := Option.map_eq_some_iff.mp hl
    have hv : o.val ≠ p.val := fun hv => (mem_allocated.mp ho).2 (Fin.ext hv ▸ hp)
    rw [Array.getElem?_setIfInBounds_ne hv]
    exact h.stored_free old hold p hp }

end SegmentedHeap.Segment
