/-
SegmentedHeap.Proofs.Occupancy — the occupancy counts the objects.

The occupancy of a heap is summed up segment by segment from the sets of
slots. Each of its numbers is a sum over the objects of the heap: those
that are collected of one generation, or those that are not, counted or
with their chunks.

* `foldl_countSegment` — a number of the occupancy, summed over the table.
* `totals_objects`, `totals_uncollected` — the sums over objects.
* `counts_all`, `totals_allChunks` — all objects, and their chunks.
-/
import SegmentedHeap.Proofs.Exactness

namespace SegmentedHeap

namespace Heap

variable {h : Heap} {p : ObjRef} {g : Generation}

/-! ## Sums over the table -/

/-- A number to which each segment adds its part, for all segments. -/
theorem foldl_countSegment (field : Occupancy → Nat) (part : Segment → Nat)
    (hpart : ∀ s t, field (h.countSegment s t) = field s + part t)
    (l : List (SegmentIndex × Segment)) (s : Occupancy) :
    field (l.foldl (fun s (_, t) => h.countSegment s t) s) =
      field s + Word.total (l.map fun e => part e.2) := by
  induction l generalizing s with
  | nil => rfl
  | cons e l ih => rw [List.foldl_cons, ih, hpart, List.map_cons, Word.total_cons, Nat.add_assoc]

/-- Whether the objects of a segment are collected. -/
def collects (h : Heap) (s : Segment) : Bool := !(h.kinds.get? s.kind).any (·.uncollected)

/-- The objects of a segment that are collected and of a generation. -/
def agedSlots (h : Heap) (g : Generation) (s : Segment) : List Offset :=
  if h.collects s then (s.inGeneration g).members else []

/-- The objects of a segment that are not collected. -/
def fixedSlots (h : Heap) (s : Segment) : List Offset :=
  if h.collects s then [] else s.allocated.members

theorem countSegment_objects (s : Occupancy) (t : Segment) (g : Generation) :
    (h.countSegment s t).objects.get g = s.objects.get g + (h.agedSlots g t).length ∧
    (h.countSegment s t).chunks.get g = s.chunks.get g + (h.agedSlots g t).length * t.chunks := by
  unfold countSegment agedSlots collects
  cases (h.kinds.get? t.kind).any (·.uncollected) with
  | true => simp
  | false =>
    simp only [Bool.false_eq_true, if_false, Bool.not_false, if_true, Generation.all,
      List.foldl_cons, List.foldl_nil, ByGeneration.get_modify, OffsetSet.size_eq_length_members]
    cases g <;> simp

theorem countSegment_uncollected (s : Occupancy) (t : Segment) :
    (h.countSegment s t).uncollected = s.uncollected + (h.fixedSlots t).length ∧
    (h.countSegment s t).uncollectedChunks =
      s.uncollectedChunks + (h.fixedSlots t).length * t.chunks := by
  unfold countSegment fixedSlots collects
  cases (h.kinds.get? t.kind).any (·.uncollected) with
  | true => simp [OffsetSet.size_eq_length_members]
  | false => simp [Generation.all]

/-! ## Sums over objects -/

/-- What the segments add up to is a sum over their slots. -/
theorem totals_slots (hf : h.Formed) {f : Segment → List Offset} (hn : ∀ s, (f s).Nodup)
    {c : ObjRef → Nat} {k : Segment → Nat}
    (hc : ∀ p s, h.store.segment? p.segment = some s → p.offset ∈ f s → c p = k s) :
    Totals (fun p => ∃ s, h.store.segment? p.segment = some s ∧ p.offset ∈ f s) c
      (Word.total (h.store.entries.map fun e => (f e.2).length * k e.2)) := by
  refine ⟨h.slots f, nodup_slots hf hn, fun p => mem_slots hf, total_map_flatMap fun e he => ?_⟩
  obtain ⟨i, s⟩ := e
  have hs := Store.mem_entries.mp he
  have hconst : ∀ p ∈ slotsOf i (f s), c p = k s := by
    intro p hp
    obtain ⟨rfl, ho⟩ := (mem_slotsOf (Nat.le_of_lt (hf.store.index_lt hs))).mp hp
    exact hc p s hs ho
  rw [List.map_congr_left hconst, List.map_const', Word.total_replicate, slotsOf, List.length_map]

/-- A collectable object of a generation. -/
def Aged (h : Heap) (g : Generation) (p : ObjRef) : Prop :=
  h.isAllocated p = true ∧ h.isUncollected p = .ok false ∧ h.generationOf p = .ok g

/-- An object that is not collected. -/
def Fixed (h : Heap) (p : ObjRef) : Prop :=
  h.isAllocated p = true ∧ h.isUncollected p = .ok true

/-- What an object's segment says of it. -/
theorem Formed.of_segment (hf : h.Formed) {s : Segment} (hs : h.store.segment? p.segment = some s)
    (ho : p.offset ∈ s.allocated) : h.isAllocated p = true ∧
      h.isUncollected p = .ok (!h.collects s) ∧ h.generationOf p = .ok (s.generation p.offset) ∧
      h.chunksAt p = s.chunks := by
  have hx := lookup_eq_some.mpr ⟨s, hs, ho, rfl⟩
  obtain ⟨spec, hspec⟩ := hf.spec_of_lookup hx
  have hspec' : h.kinds.get? s.kind = some spec := hspec
  refine ⟨hf.isAllocated_iff_lookup.mpr ⟨_, hx⟩, ?_, generationOf_of_lookup hx, ?_⟩
  · rw [isUncollected_of_lookup hx hspec, collects, hspec', Option.any_some, Bool.not_not]
  · rw [chunksAt, hx]
    rfl

theorem Formed.segment_of_isAllocated (hf : h.Formed) (ha : h.isAllocated p = true) :
    ∃ s, h.store.segment? p.segment = some s ∧ p.offset ∈ s.allocated := by
  obtain ⟨x, hx⟩ := hf.isAllocated_iff_lookup.mp ha
  obtain ⟨s, hs, ho, _⟩ := lookup_eq_some.mp hx
  exact ⟨s, hs, ho⟩

theorem mem_agedSlots (hf : h.Formed) :
    (∃ s, h.store.segment? p.segment = some s ∧ p.offset ∈ h.agedSlots g s) ↔ h.Aged g p := by
  constructor
  · intro hp
    obtain ⟨s, hs, ho⟩ := hp
    unfold agedSlots at ho
    split at ho
    · next hc =>
      rw [OffsetSet.mem_members,
        Segment.mem_inGeneration (hf.store.segment_wf _ s hs).disjoint] at ho
      obtain ⟨ha, hu, hg, _⟩ := hf.of_segment hs ho.1
      exact ⟨ha, by rw [hu, hc]; rfl, by rw [hg, ho.2]⟩
    · cases ho
  · intro hp
    obtain ⟨ha, hu, hg⟩ := hp
    obtain ⟨s, hs, ho⟩ := hf.segment_of_isAllocated ha
    obtain ⟨_, hu', hg', _⟩ := hf.of_segment hs ho
    have hc : h.collects s = true := by simpa [hu'] using hu
    refine ⟨s, hs, ?_⟩
    rw [agedSlots, if_pos hc, OffsetSet.mem_members,
      Segment.mem_inGeneration (hf.store.segment_wf _ s hs).disjoint]
    exact ⟨ho, Except.ok.inj (hg'.symm.trans hg)⟩

theorem mem_fixedSlots (hf : h.Formed) :
    (∃ s, h.store.segment? p.segment = some s ∧ p.offset ∈ h.fixedSlots s) ↔ h.Fixed p := by
  constructor
  · intro hp
    obtain ⟨s, hs, ho⟩ := hp
    unfold fixedSlots at ho
    split at ho
    · cases ho
    · next hc =>
      obtain ⟨ha, hu, _⟩ := hf.of_segment hs (OffsetSet.mem_members.mp ho)
      exact ⟨ha, by rw [hu, Bool.eq_false_iff.mpr hc]; rfl⟩
  · intro hp
    obtain ⟨ha, hu⟩ := hp
    obtain ⟨s, hs, ho⟩ := hf.segment_of_isAllocated ha
    obtain ⟨_, hu', _⟩ := hf.of_segment hs ho
    have hc : ¬ h.collects s = true := by simpa [hu'] using hu
    refine ⟨s, hs, ?_⟩
    rw [fixedSlots, if_neg hc]
    exact OffsetSet.mem_members.mpr ho

theorem nodup_agedSlots (h : Heap) (g : Generation) (s : Segment) : (h.agedSlots g s).Nodup := by
  unfold agedSlots
  split
  · exact Segment.nodup_members _
  · exact List.nodup_nil

theorem nodup_fixedSlots (h : Heap) (s : Segment) : (h.fixedSlots s).Nodup := by
  unfold fixedSlots
  split
  · exact List.nodup_nil
  · exact Segment.nodup_members _

/-- The occupancy before any segment is counted. -/
def unoccupied (h : Heap) : Occupancy where
  totalBytes := h.store.totalBytes
  bigSegments := h.store.big
  smallSegments := h.store.reserved - h.store.big

/-- Two numbers to which each segment adds some of its slots, and their
chunks. -/
theorem totals_tier (hf : h.Formed) {f : Segment → List Offset} {P : ObjRef → Prop}
    (count volume : Occupancy → Nat) (hn : ∀ s, (f s).Nodup)
    (hmem : ∀ p, (∃ s, h.store.segment? p.segment = some s ∧ p.offset ∈ f s) ↔ P p)
    (halloc : ∀ p, P p → h.isAllocated p = true)
    (hpart : ∀ s t, count (h.countSegment s t) = count s + (f t).length ∧
      volume (h.countSegment s t) = volume s + (f t).length * t.chunks)
    (hzero : count h.unoccupied = 0 ∧ volume h.unoccupied = 0) :
    Counts P (count h.occupancy) ∧ Totals P h.chunksAt (volume h.occupancy) := by
  constructor
  · have hfold := foldl_countSegment (h := h) count (fun t => (f t).length * 1)
      (fun s t => by rw [Nat.mul_one]; exact (hpart s t).1) h.store.entries h.unoccupied
    rw [hzero.1, Nat.zero_add] at hfold
    rw [← totals_one_iff]
    refine Totals.congr ?_ hmem fun _ _ => rfl
    exact hfold ▸ totals_slots hf hn (k := fun _ => 1) fun _ _ _ _ => rfl
  · have hfold := foldl_countSegment (h := h) volume (fun t => (f t).length * t.chunks)
      (fun s t => (hpart s t).2) h.store.entries h.unoccupied
    rw [hzero.2, Nat.zero_add] at hfold
    refine Totals.congr ?_ hmem fun _ _ => rfl
    refine hfold ▸ totals_slots hf hn (k := Segment.chunks) fun p s hs ho => ?_
    obtain ⟨t, ht, ho'⟩ := hf.segment_of_isAllocated (halloc p ((hmem p).mp ⟨s, hs, ho⟩))
    rw [hs] at ht
    cases ht
    exact (hf.of_segment hs ho').2.2.2

/-- **The collectable objects of a generation**, and their chunks. -/
theorem totals_objects (hf : h.Formed) (g : Generation) :
    Counts (h.Aged g) (h.occupancy.objects.get g) ∧
    Totals (h.Aged g) h.chunksAt (h.occupancy.chunks.get g) :=
  totals_tier hf (fun s => s.objects.get g) (fun s => s.chunks.get g)
    (nodup_agedSlots h g) (fun _ => mem_agedSlots hf) (fun _ ha => ha.1)
    (fun s t => countSegment_objects s t g)
    ⟨ByGeneration.get_replicate 0 g, ByGeneration.get_replicate 0 g⟩

/-- **The objects that are not collected**, and their chunks. -/
theorem totals_uncollected (hf : h.Formed) :
    Counts h.Fixed h.occupancy.uncollected ∧
    Totals h.Fixed h.chunksAt h.occupancy.uncollectedChunks :=
  totals_tier hf Occupancy.uncollected Occupancy.uncollectedChunks
    (nodup_fixedSlots h) (fun _ => mem_fixedSlots hf) (fun _ ha => ha.1)
    (fun s t => countSegment_uncollected s t) ⟨rfl, rfl⟩

/-! ## All objects -/

theorem Formed.aged_or_fixed (hf : h.Formed) :
    (((h.Aged .zero p ∨ h.Aged .one p) ∨ h.Aged .two p) ∨ h.Fixed p) ↔ h.isAllocated p = true := by
  constructor
  · rintro (((hp | hp) | hp) | hp) <;> exact hp.1
  · intro ha
    obtain ⟨x, hx⟩ := hf.isAllocated_iff_lookup.mp ha
    obtain ⟨spec, hspec⟩ := hf.spec_of_lookup hx
    have hu := isUncollected_of_lookup hx hspec
    have hg := generationOf_of_lookup hx
    cases hc : spec.uncollected with
    | true => exact Or.inr ⟨ha, hc ▸ hu⟩
    | false =>
      rw [hc] at hu
      cases hgen : x.generation with
      | zero => exact Or.inl (Or.inl (Or.inl ⟨ha, hu, hgen ▸ hg⟩))
      | one => exact Or.inl (Or.inl (Or.inr ⟨ha, hu, hgen ▸ hg⟩))
      | two => exact Or.inl (Or.inr ⟨ha, hu, hgen ▸ hg⟩)

/-- An object is of one generation, and collected or not. -/
theorem Aged.disjoint {g' : Generation} (hp : h.Aged g p) : g ≠ g' → ¬ h.Aged g' p := by
  intro hne hp'
  exact hne (Except.ok.inj (hp.2.2.symm.trans hp'.2.2))

theorem Aged.not_fixed (hp : h.Aged g p) : ¬ h.Fixed p := by
  intro hp'
  have := hp.2.1.symm.trans hp'.2
  cases this

/-- A sum over all objects is made up of four. -/
theorem totals_all (hf : h.Formed) {c : ObjRef → Nat} {n : Generation → Nat} {m : Nat}
    (hn : ∀ g, Totals (h.Aged g) c (n g)) (hm : Totals h.Fixed c m) :
    Totals (fun p => h.isAllocated p = true) c (n .zero + n .one + n .two + m) := by
  have hyoung := (hn .zero).or (hn .one) fun p hp => hp.disjoint (by decide)
  have haged := hyoung.or (hn .two) fun p hp => by
    rcases hp with hp | hp <;> exact hp.disjoint (by decide)
  refine (haged.or hm fun p hp => ?_).congr (fun p => hf.aged_or_fixed) fun _ _ => rfl
  rcases hp with (hp | hp) | hp <;> exact hp.not_fixed

/-- **All objects are counted.** -/
theorem counts_all (hf : h.Formed) :
    Counts (fun p => h.isAllocated p = true) h.occupancy.totalObjects :=
  totals_one_iff.mp (totals_all hf (fun g => totals_one_iff.mpr (totals_objects hf g).1)
    (totals_one_iff.mpr (totals_uncollected hf).1))

/-- The chunks of all objects. -/
theorem totals_allChunks (hf : h.Formed) : Totals (fun p => h.isAllocated p = true) h.chunksAt
    (h.occupancy.chunks.total + h.occupancy.uncollectedChunks) :=
  totals_all hf (fun g => (totals_objects hf g).2) (totals_uncollected hf).2

end Heap

end SegmentedHeap
