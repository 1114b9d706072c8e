/-
SegmentedHeap.Proofs.Counting — what a collection reports is a count.

A number of the report counts the objects, or the segments, with some
property: `Counts`. Behind each number stands a row that was gone
through; `Counts` asks that the row names everything with the property,
and nothing twice. No two segments have a reference in common, so a row
of rows, one for each segment, repeats nothing.

* `Counts.unique` — a property has one count.
* `Totals`, `Totals.or` — sums over all things with a property.
* `mem_slots`, `nodup_slots` — some slots of every segment.
* `mem_objects`, `Formed.missesNothing_iff` — the objects, and a look at each
  of them for what the old-to-new set should hold.
* `mem_slotsAt`, `nodup_slotsAt` — the rows of sweeping.
* `counts_oldToNew` — the size of the old-to-new set.
-/
import Mathlib.Data.List.Nodup
import Mathlib.Data.List.Perm.Subperm
import SegmentedHeap.Proofs.Remembering
import SegmentedHeap.Proofs.Sweeping

namespace SegmentedHeap

/-- `n` is the number of things with the property. -/
def Counts {α : Type} (P : α → Prop) (n : Nat) : Prop :=
  ∃ l : List α, l.Nodup ∧ (∀ a, a ∈ l ↔ P a) ∧ n = l.length

theorem Counts.unique {α : Type} {P : α → Prop} {n m : Nat} (hn : Counts P n) (hm : Counts P m) :
    n = m := by
  obtain ⟨l, hl, hmem, rfl⟩ := hn
  obtain ⟨k, hk, hmem', rfl⟩ := hm
  refine List.Perm.length_eq ((List.perm_ext_iff_of_nodup hl hk).mpr fun a => ?_)
  rw [hmem, hmem']

theorem Counts.congr {α : Type} {P Q : α → Prop} {n : Nat} (hn : Counts P n)
    (h : ∀ a, P a ↔ Q a) : Counts Q n := by
  obtain ⟨l, hl, hmem, rfl⟩ := hn
  exact ⟨l, hl, fun a => (hmem a).trans (h a), rfl⟩

/-- `n` is the sum of a number over the things with the property. -/
def Totals {α : Type} (P : α → Prop) (c : α → Nat) (n : Nat) : Prop :=
  ∃ l : List α, l.Nodup ∧ (∀ a, a ∈ l ↔ P a) ∧ n = Word.total (l.map c)

section Totals

variable {α : Type} {P Q : α → Prop} {c d : α → Nat} {n m : Nat}

theorem Word.total_perm {ns ms : List Nat} (h : ns.Perm ms) : Word.total ns = Word.total ms := by
  induction h with
  | nil => rfl
  | cons n _ ih => rw [Word.total_cons, Word.total_cons, ih]
  | swap n m l => simp only [Word.total_cons]; omega
  | trans _ _ ih ih' => exact ih.trans ih'

theorem Totals.unique (hn : Totals P c n) (hm : Totals P c m) : n = m := by
  obtain ⟨l, hl, hmem, rfl⟩ := hn
  obtain ⟨k, hk, hmem', rfl⟩ := hm
  refine Word.total_perm (List.Perm.map c ((List.perm_ext_iff_of_nodup hl hk).mpr fun a => ?_))
  rw [hmem, hmem']

theorem Totals.congr (hn : Totals P c n) (h : ∀ a, P a ↔ Q a) (hc : ∀ a, P a → d a = c a) :
    Totals Q d n := by
  obtain ⟨l, hl, hmem, rfl⟩ := hn
  refine ⟨l, hl, fun a => (hmem a).trans (h a), ?_⟩
  rw [List.map_congr_left fun a ha => hc a ((hmem a).mp ha)]

/-- The things with one of two properties, if none has both. -/
theorem Totals.or (hn : Totals P c n) (hm : Totals Q c m) (hd : ∀ a, P a → ¬ Q a) :
    Totals (fun a => P a ∨ Q a) c (n + m) := by
  obtain ⟨l, hl, hmem, rfl⟩ := hn
  obtain ⟨k, hk, hmem', rfl⟩ := hm
  refine ⟨l ++ k, List.nodup_append.mpr ⟨hl, hk, fun a ha b hb e => ?_⟩, fun a => ?_, ?_⟩
  · exact hd a ((hmem a).mp ha) (e ▸ (hmem' b).mp hb)
  · rw [List.mem_append, hmem, hmem']
  · rw [List.map_append, Word.total_append]

theorem Word.total_map_le {l : List α} (h : ∀ a ∈ l, c a ≤ d a) :
    Word.total (l.map c) ≤ Word.total (l.map d) := by
  induction l with
  | nil => exact Nat.le_refl _
  | cons a l ih =>
    exact Nat.add_le_add (h a List.mem_cons_self) (ih fun b hb => h b (List.mem_cons_of_mem a hb))

theorem Word.total_le_of_sublist {ns ms : List Nat} (h : ns.Sublist ms) :
    Word.total ns ≤ Word.total ms := by
  induction h with
  | slnil => exact Nat.le_refl _
  | cons n _ ih => exact Nat.le_trans ih (Nat.le_add_left _ _)
  | cons_cons n _ ih => exact Nat.add_le_add_left ih n

/-- A smaller number of fewer things. -/
theorem Totals.le (hn : Totals P c n) (hm : Totals Q d m) (h : ∀ a, P a → Q a)
    (hle : ∀ a, P a → c a ≤ d a) : n ≤ m := by
  obtain ⟨l, hl, hmem, rfl⟩ := hn
  obtain ⟨k, _, hmem', rfl⟩ := hm
  obtain ⟨l', hperm, hsub⟩ := List.subperm_of_subset hl fun a ha =>
    (hmem' a).mpr (h a ((hmem a).mp ha))
  calc Word.total (l.map c) ≤ Word.total (l.map d) :=
        Word.total_map_le fun a ha => hle a ((hmem a).mp ha)
    _ = Word.total (l'.map d) := Word.total_perm (hperm.symm.map d)
    _ ≤ Word.total (k.map d) := Word.total_le_of_sublist (hsub.map d)

theorem totals_singleton (a : α) (c : α → Nat) : Totals (· = a) c (c a) :=
  ⟨[a], List.nodup_singleton a, fun _ => List.mem_singleton, rfl⟩

/-- A count is a sum of ones. -/
theorem totals_one_iff : Totals P (fun _ => 1) n ↔ Counts P n := by
  have hone : ∀ l : List α, Word.total (l.map fun _ => 1) = l.length := fun l => by
    rw [List.map_const', Word.total_replicate, Nat.mul_one]
  constructor
  · intro hn
    obtain ⟨l, hl, hmem, rfl⟩ := hn
    exact ⟨l, hl, hmem, hone l⟩
  · intro hn
    obtain ⟨l, hl, hmem, rfl⟩ := hn
    exact ⟨l, hl, hmem, (hone l).symm⟩

end Totals

/-- Rows for different indexes have nothing in common. -/
theorem nodup_flatMap_segments {l : List SegmentIndex} (hl : l.Nodup)
    {f : SegmentIndex → List ObjRef} (hf : ∀ i ∈ l, (f i).Nodup)
    (hseg : ∀ i ∈ l, ∀ p ∈ f i, p.segment = i) : (l.flatMap f).Nodup := by
  refine List.nodup_flatMap.mpr ⟨hf, ?_⟩
  refine List.Pairwise.imp_of_mem ?_ hl
  intro i j hi hj hne p hp hp'
  exact hne ((hseg i hi p hp).symm.trans (hseg j hj p hp'))

namespace Heap

variable {h : Heap} {level : Generation}

/-! ## Rows of slots -/

theorem mem_slotsOf {i : SegmentIndex} (hi : i ≤ maxSegments) {os : List Offset} {p : ObjRef} :
    p ∈ slotsOf i os ↔ p.segment = i ∧ p.offset ∈ os := by
  rw [slotsOf, List.mem_map]
  constructor
  · intro hp
    obtain ⟨o, ho, rfl⟩ := hp
    rw [ObjRef.segment_ofSlot hi, ObjRef.offset_ofSlot hi]
    exact ⟨rfl, ho⟩
  · intro hp
    exact ⟨p.offset, hp.2, by rw [← hp.1, ObjRef.ofSlot_segment_offset]⟩

theorem nodup_slotsOf {i : SegmentIndex} (hi : i ≤ maxSegments) {os : List Offset}
    (hos : os.Nodup) : (slotsOf i os).Nodup := by
  refine List.Pairwise.map _ (fun a b hne e => hne ?_) hos
  rw [← ObjRef.offset_ofSlot hi a, ← ObjRef.offset_ofSlot hi b, e]

theorem collected?_eq_some {i : SegmentIndex} {s : Segment} :
    h.collected? i = some s ↔ h.store.segment? i = some s ∧
      (h.kinds.get? s.kind).any (!·.uncollected) = true := by
  rw [collected?, Option.filter_eq_some_iff]

theorem Formed.index_le (hf : h.Formed) {i : SegmentIndex} (hi : i ∈ h.store.indices) :
    i ≤ maxSegments := by
  obtain ⟨s, hs⟩ := Store.mem_indices.mp hi
  exact Nat.le_of_lt (hf.store.index_lt hs)

theorem mem_slotsAt_index (hf : h.Formed) {f : Segment → List Offset} {i : SegmentIndex}
    (hi : i ∈ h.store.indices) {p : ObjRef} :
    p ∈ h.slotsAt f i ↔ p.segment = i ∧ ∃ s, h.collected? i = some s ∧ p.offset ∈ f s := by
  rw [slotsAt]
  cases hc : h.collected? i with
  | none =>
    refine ⟨fun hp => absurd hp List.not_mem_nil, fun hp => ?_⟩
    obtain ⟨_, _, hn, _⟩ := hp
    cases hn
  | some s =>
    refine (mem_slotsOf (hf.index_le hi)).trans (and_congr_right fun _ => ?_)
    simp

/-- What the rows of all segments hold. -/
theorem mem_slotsAt (hf : h.Formed) {f : Segment → List Offset} {p : ObjRef} :
    p ∈ h.store.indices.flatMap (h.slotsAt f) ↔
      ∃ s, h.collected? p.segment = some s ∧ p.offset ∈ f s := by
  rw [List.mem_flatMap]
  constructor
  · intro hp
    obtain ⟨i, hi, hp⟩ := hp
    obtain ⟨rfl, hs⟩ := (mem_slotsAt_index hf hi).mp hp
    exact hs
  · intro hp
    obtain ⟨s, hs, ho⟩ := hp
    have hi := Store.mem_indices.mpr ⟨s, (collected?_eq_some.mp hs).1⟩
    exact ⟨p.segment, hi, (mem_slotsAt_index hf hi).mpr ⟨rfl, s, hs, ho⟩⟩

theorem nodup_slotsAt (hf : h.Formed) {f : Segment → List Offset} (hn : ∀ s, (f s).Nodup) :
    (h.store.indices.flatMap (h.slotsAt f)).Nodup := by
  refine nodup_flatMap_segments (Store.nodup_indices _) (fun i hi => ?_) fun i hi p hp =>
    ((mem_slotsAt_index hf hi).mp hp).1
  rw [slotsAt]
  cases h.collected? i with
  | none => exact List.nodup_nil
  | some s => exact nodup_slotsOf (hf.index_le hi) (hn s)

/-! ## What sweeping counts -/

theorem nodup_dead (hf : h.Formed) (level : Generation) :
    (h.store.indices.flatMap (h.deadAt level)).Nodup :=
  nodup_slotsAt hf fun s => Segment.nodup_members (s.dying level)

theorem nodup_moved (hf : h.Formed) (level : Generation) :
    (h.store.indices.flatMap (h.movedAt level)).Nodup :=
  nodup_slotsAt hf fun s => s.nodup_promotable level

theorem mem_dead (hf : h.Formed) {p : ObjRef} :
    p ∈ h.store.indices.flatMap (h.deadAt level) ↔ h.Doomed level p := by
  refine (mem_slotsAt hf).trans ?_
  simp only [collected?_eq_some, OffsetSet.mem_members]
  constructor
  · intro hp
    obtain ⟨s, ⟨hs, hc⟩, ho⟩ := hp
    exact (doomed_iff hs).mpr ⟨hc, ho⟩
  · intro hd
    obtain ⟨_, _, x, hx, _⟩ := id hd
    obtain ⟨s, hs, _⟩ := lookup_eq_some.mp hx
    obtain ⟨hc, ho⟩ := (doomed_iff hs).mp hd
    exact ⟨s, ⟨hs, hc⟩, ho⟩

/-- An object that a collection promotes. -/
def Moves (h : Heap) (level : Generation) (p : ObjRef) (x : Object) : Prop :=
  h.lookup p = some x ∧ h.collectable p = true ∧ h.IsMarked p ∧ x.generation ≤ level ∧
    x.generation.promoted level ≠ x.generation

theorem moves_iff {p : ObjRef} {s : Segment} (hs : h.store.segment? p.segment = some s) :
    (∃ x, h.Moves level p x) ↔ (h.kinds.get? s.kind).any (!·.uncollected) = true ∧
      p.offset ∈ s.promotable level := by
  rw [Segment.mem_promotable]
  constructor
  · intro hm
    obtain ⟨x, hx, hc, ⟨t, ht, hmk⟩, hg, hne⟩ := hm
    obtain ⟨u, hu, ho, rfl⟩ := lookup_eq_some.mp hx
    rw [hs] at ht hu
    cases ht
    cases hu
    rw [collectable_of_segment? hs ho] at hc
    exact ⟨hc, ⟨ho, hg, hmk⟩, hne⟩
  · intro hm
    obtain ⟨hc, ⟨ho, hg, hmk⟩, hne⟩ := hm
    refine ⟨_, lookup_eq_some.mpr ⟨s, hs, ho, rfl⟩, ?_, ⟨s, hs, hmk⟩, hg, hne⟩
    rw [collectable_of_segment? hs ho]
    exact hc

theorem mem_moved (hf : h.Formed) {p : ObjRef} :
    p ∈ h.store.indices.flatMap (h.movedAt level) ↔ ∃ x, h.Moves level p x := by
  refine (mem_slotsAt hf).trans ?_
  simp only [collected?_eq_some]
  constructor
  · intro hp
    obtain ⟨s, ⟨hs, hc⟩, ho⟩ := hp
    exact (moves_iff hs).mpr ⟨hc, ho⟩
  · intro hm
    obtain ⟨x, hx, _⟩ := id hm
    obtain ⟨s, hs, _⟩ := lookup_eq_some.mp hx
    obtain ⟨hc, ho⟩ := (moves_iff hs).mp hm
    exact ⟨s, ⟨hs, hc⟩, ho⟩

theorem mem_aged (hf : h.Formed) {p : ObjRef} :
    p ∈ h.store.indices.flatMap (h.agedAt level) ↔
      ∃ x, h.Moves level p x ∧ x.generation = .one := by
  refine (mem_slotsAt hf).trans ?_
  simp only [collected?_eq_some, List.mem_filter, beq_iff_eq]
  constructor
  · intro hp
    obtain ⟨s, ⟨hs, hc⟩, ho, hone⟩ := hp
    obtain ⟨x, hm⟩ := (moves_iff hs).mpr ⟨hc, ho⟩
    obtain ⟨t, ht, _, rfl⟩ := lookup_eq_some.mp hm.1
    rw [hs] at ht
    cases ht
    exact ⟨_, hm, hone⟩
  · intro hm
    obtain ⟨x, hm, hone⟩ := hm
    obtain ⟨s, hs, _, rfl⟩ := lookup_eq_some.mp hm.1
    obtain ⟨hc, ho⟩ := (moves_iff hs).mp ⟨_, hm⟩
    exact ⟨s, ⟨hs, hc⟩, ho, hone⟩

/-- The chunks of the object that a reference names. -/
def chunksAt (h : Heap) (p : ObjRef) : Nat := (h.lookup p).elim 0 Object.chunks

theorem total_map_flatMap {α β : Type} {f : α → List β} {c : β → Nat} {g : α → Nat} {l : List α}
    (hg : ∀ a ∈ l, g a = Word.total ((f a).map c)) :
    Word.total (l.map g) = Word.total ((l.flatMap f).map c) := by
  induction l with
  | nil => rfl
  | cons a l ih =>
    rw [List.map_cons, Word.total_cons, List.flatMap_cons, List.map_append, Word.total_append,
      hg a List.mem_cons_self, ih fun b hb => hg b (List.mem_cons_of_mem a hb)]

/-- The chunks that sweeping counts are those of the objects it frees. -/
theorem total_deadChunks (hf : h.Formed) (level : Generation) :
    Word.total (h.store.indices.map (h.deadChunksAt level)) =
      Word.total ((h.store.indices.flatMap (h.deadAt level)).map h.chunksAt) := by
  refine total_map_flatMap fun i hi => ?_
  rw [deadChunksAt, deadAt, slotsAt]
  cases hc : h.collected? i with
  | none => rfl
  | some s =>
    have hs := (collected?_eq_some.mp hc).1
    have hchunks : ∀ p ∈ slotsOf i (s.dying level).members, h.chunksAt p = s.chunks := by
      intro p hp
      obtain ⟨rfl, ho⟩ := (mem_slotsOf (hf.index_le hi)).mp hp
      have ho := (Segment.mem_dying.mp (OffsetSet.mem_members.mp ho)).1
      rw [chunksAt, lookup_of_segment? hs, Segment.object?_of_mem ho]
      rfl
    show _ = Word.total ((slotsOf i (s.dying level).members).map h.chunksAt)
    rw [List.map_congr_left hchunks, List.map_const', Word.total_replicate, slotsOf,
      List.length_map]
    rfl

/-! ## Slots of every segment -/

/-- The references to some slots of every segment. -/
def slots (h : Heap) (f : Segment → List Offset) : List ObjRef :=
  h.store.entries.flatMap fun (i, s) => slotsOf i (f s)

theorem mem_slots (hf : h.Formed) {f : Segment → List Offset} {p : ObjRef} :
    p ∈ h.slots f ↔ ∃ s, h.store.segment? p.segment = some s ∧ p.offset ∈ f s := by
  simp only [slots, List.mem_flatMap, Prod.exists, Store.mem_entries]
  constructor
  · intro hp
    obtain ⟨i, s, hs, hp⟩ := hp
    obtain ⟨rfl, ho⟩ := (mem_slotsOf (Nat.le_of_lt (hf.store.index_lt hs))).mp hp
    exact ⟨s, hs, ho⟩
  · intro hp
    obtain ⟨s, hs, ho⟩ := hp
    exact ⟨p.segment, s, hs, (mem_slotsOf (Nat.le_of_lt (hf.store.index_lt hs))).mpr ⟨rfl, ho⟩⟩

/-- No two entries of the table are of one index. -/
theorem entries_pairwise (s : Store) : s.entries.Pairwise fun e f => e.1 ≠ f.1 := by
  refine List.pairwise_filterMap.mpr (List.Pairwise.imp ?_ List.nodup_range)
  intro i j hne e he f hf
  obtain ⟨t, _, rfl⟩ := Option.map_eq_some_iff.mp he
  obtain ⟨u, _, rfl⟩ := Option.map_eq_some_iff.mp hf
  exact hne

theorem nodup_slots (hf : h.Formed) {f : Segment → List Offset} (hn : ∀ s, (f s).Nodup) :
    (h.slots f).Nodup := by
  have hle : ∀ e ∈ h.store.entries, e.1 ≤ maxSegments := fun e he =>
    Nat.le_of_lt (hf.store.index_lt (Store.mem_entries.mp he))
  refine List.nodup_flatMap.mpr ⟨fun e he => nodup_slotsOf (hle e he) (hn e.2), ?_⟩
  refine List.Pairwise.imp_of_mem ?_ (entries_pairwise h.store)
  intro e f he hf' hne p hp hp'
  exact hne (((mem_slotsOf (hle e he)).mp hp).1.symm.trans ((mem_slotsOf (hle f hf')).mp hp').1)

/-- The references to all objects. -/
def objects (h : Heap) : List ObjRef := h.slots (·.allocated.members)

theorem mem_objects (hf : h.Formed) {p : ObjRef} :
    p ∈ h.objects ↔ h.isAllocated p = true := by
  rw [objects, mem_slots hf, hf.isAllocated_iff_lookup]
  constructor
  · rintro ⟨s, hs, ho⟩
    exact ⟨_, lookup_eq_some.mpr ⟨s, hs, OffsetSet.mem_members.mp ho, rfl⟩⟩
  · rintro ⟨x, hx⟩
    obtain ⟨s, hs, ho, _⟩ := lookup_eq_some.mp hx
    exact ⟨s, hs, OffsetSet.mem_members.mpr ho⟩

/-- Whether the old-to-new set is complete, by a look at each object. -/
def missesNothing {σ : Type} (h : Heap) (tracer : Tracer σ) : Bool :=
  h.objects.all fun p =>
    (h.lookup p).all fun x => x.remembered || !(h.refsOf tracer p).any (h.isYounger x.generation)

theorem Formed.missesNothing_iff {σ : Type} {tracer : Tracer σ} (hf : h.Formed) :
    h.missesNothing tracer = true ↔ h.BarrierComplete tracer := by
  rw [hf.barrierComplete_iff, missesNothing, List.all_eq_true]
  constructor
  · intro hall p x hx hy
    have hp := hall p ((mem_objects hf).mpr (hf.isAllocated_iff_lookup.mpr ⟨x, hx⟩))
    rw [hx, Option.all_some, (yieldsYounger_iff hf hx).mp hy, Bool.not_true, Bool.or_false] at hp
    exact hp
  · intro hb p hp
    obtain ⟨x, hx⟩ := hf.isAllocated_iff_lookup.mp ((mem_objects hf).mp hp)
    rw [hx, Option.all_some, Bool.or_eq_true, Bool.not_eq_true']
    by_cases hy : h.YieldsYounger tracer p
    · exact Or.inl (hb p x hx hy)
    · exact Or.inr (Bool.eq_false_iff.mpr fun hn => hy ((yieldsYounger_iff hf hx).mpr hn))

/-- The size of the old-to-new set is the number of its members. -/
theorem counts_oldToNew (hf : h.Formed) :
    Counts (fun p => ∃ x, h.lookup p = some x ∧ x.remembered = true) h.oldToNewSize := by
  refine ⟨h.oldToNew, nodup_slots (f := (·.oldToNew.members)) hf
    (fun s => Segment.nodup_members _), fun p => mem_oldToNew hf, ?_⟩
  rw [oldToNewSize, oldToNew, List.length_flatMap]
  refine congrArg List.sum (List.map_congr_left fun e _ => ?_)
  obtain ⟨i, s⟩ := e
  show s.oldToNew.size = (s.oldToNew.members.map (ObjRef.ofSlot i)).length
  rw [OffsetSet.size_eq_length_members, List.length_map]

end Heap

end SegmentedHeap
