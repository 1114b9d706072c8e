/-
SegmentedHeap.Proofs.Store — the table of segments and the memory under
it, as every operation on the store leaves them.

`Store.WellFormed` is the invariant. The vacant list holds exactly the
vacant entries of the table, and the table never grows past the limit on
segments, so that every index can be encoded. Each segment lies in an
area of its own: areas of pool blocks start at multiples of an area's
length and end inside the block, no area is used twice or is spare while
it is used, and a big segment has its region to itself, of a length that
holds its object. That is what keeps the bytes of objects apart.

* `WellFormed.modifySegment` — a segment is changed and keeps its shape.
* `WellFormed.release` — a segment is taken back.
* `install_eq` — a segment is entered at an index that was free.
-/
import SegmentedHeap.Proofs.Outcome
import SegmentedHeap.Proofs.Segment
import SegmentedHeap.Store

namespace SegmentedHeap

/-! ## Areas -/

namespace Backing

/-- Where the data starts. -/
def base : Backing → Address
  | .pooled area => area
  | .dedicated block => block.base

/-- Whether this is a block of its own. -/
def isDedicated : Backing → Bool
  | .pooled _ => false
  | .dedicated _ => true

/-- The two start apart, in different regions if one is a whole region. -/
def Apart (b c : Backing) : Prop :=
  b.base ≠ c.base ∧ (b.isDedicated = true ∨ c.isDedicated = true → b.base.region ≠ c.base.region)

theorem Apart.symm {b c : Backing} (h : Apart b c) : Apart c b :=
  ⟨Ne.symm h.1, fun hd => Ne.symm (h.2 hd.symm)⟩

theorem apart_of_region {b c : Backing} (h : b.base.region ≠ c.base.region) : Apart b c :=
  ⟨fun e => h (congrArg Address.region e), fun _ => h⟩

/-- In one region they start at different offsets. -/
theorem Apart.offset_ne {b c : Backing} (h : Apart b c) (hr : b.base.region = c.base.region) :
    b.base.offset ≠ c.base.offset := by
  intro ho
  apply h.1
  cases hb : b.base
  cases hc : c.base
  rw [hb, hc] at hr ho
  exact congr (congrArg Address.mk hr) ho

end Backing

namespace Segment

theorem base_eq (s : Segment) : s.base = s.backing.base := by
  unfold base Backing.base
  cases s.backing <;> rfl

theorem isBig_eq (s : Segment) : s.isBig = s.backing.isDedicated := by
  unfold isBig Backing.isDedicated
  cases s.backing <;> rfl

end Segment

namespace Store

/-- Bytes of a small segment. -/
def areaBytes (s : Store) : Nat := s.segmentChunks * s.chunkBytes

/-- The data lies in memory that was obtained, an area of a pool block at
a multiple of an area's length. -/
def Placed (s : Store) (b : Backing) : Prop :=
  b.base.region < s.memory.regions.size ∧ (b.isDedicated = false → b.base.offset % s.areaBytes = 0)

/-- The area lies inside a pool block. -/
def Pooled (s : Store) (a : Address) : Prop :=
  ∃ b ∈ s.blocks, b.region = a.region ∧ a.offset + s.areaBytes ≤ b.size

/-- There is a block under the data: a pool block that an area is cut
from, or one that is no pool block and has so many bytes. -/
def Backed (s : Store) (chunks : Nat) : Backing → Prop
  | .pooled area => s.Pooled area
  | .dedicated block => (∀ b ∈ s.blocks, b.region ≠ block.region) ∧
      chunks * s.chunkBytes ≤ block.size ∧ block.size ≤ Word.maxSize

/-- What every operation on the store keeps. -/
structure WellFormed (s : Store) : Prop where
  chunks_le : s.segmentChunks ≤ 64
  chunks_pow : Word.isPowerOfTwo s.segmentChunks = true
  limit_le : s.maxSegments ≤ SegmentedHeap.maxSegments
  mem_vacant : ∀ i, i ∈ s.vacant ↔ i < s.segments.size ∧ s.segment? i = none
  vacant_nodup : s.vacant.Nodup
  size_eq : s.segments.size = s.reserved + s.vacant.length
  size_le : s.segments.size ≤ s.maxSegments
  segment_wf : ∀ i t, s.segment? i = some t → t.WellFormed
  placed : ∀ i t, s.segment? i = some t → s.Placed t.backing
  apart : ∀ i j t u, s.segment? i = some t → s.segment? j = some u → i ≠ j →
    t.backing.Apart u.backing
  spare_placed : ∀ a, a ∈ s.spare → s.Placed (.pooled a)
  spare_nodup : s.spare.Nodup
  spare_apart : ∀ a, a ∈ s.spare → ∀ i t, s.segment? i = some t →
    (Backing.pooled a).Apart t.backing
  block_size : ∀ b, b ∈ s.blocks → b.size = s.areaBytes * s.segmentsPerBlock ∧
    b.size ≤ Word.maxSize
  block_placed : ∀ b, b ∈ s.blocks → b.region < s.memory.regions.size
  block_nodup : (s.blocks.map Block.region).Nodup
  backed : ∀ i t, s.segment? i = some t → s.Backed t.chunks t.backing
  spare_pooled : ∀ a, a ∈ s.spare → s.Pooled a
  totalBytes_lt : s.totalBytes < Word.limit

/-- The parameters that are fixed when the store is made. -/
structure SameGeometry (s t : Store) : Prop where
  chunkBits : t.chunkBits = s.chunkBits
  segmentChunks : t.segmentChunks = s.segmentChunks
  segmentsPerBlock : t.segmentsPerBlock = s.segmentsPerBlock
  maxSegments : t.maxSegments = s.maxSegments
  system : t.system = s.system

namespace SameGeometry

theorem refl (s : Store) : SameGeometry s s := ⟨rfl, rfl, rfl, rfl, rfl⟩

theorem trans {s t u : Store} (h : SameGeometry s t) (k : SameGeometry t u) : SameGeometry s u :=
  ⟨k.chunkBits.trans h.chunkBits, k.segmentChunks.trans h.segmentChunks,
    k.segmentsPerBlock.trans h.segmentsPerBlock, k.maxSegments.trans h.maxSegments,
    k.system.trans h.system⟩

theorem chunkBytes {s t : Store} (h : SameGeometry s t) : t.chunkBytes = s.chunkBytes := by
  simp only [Store.chunkBytes, h.chunkBits]

theorem areaBytes {s t : Store} (h : SameGeometry s t) : t.areaBytes = s.areaBytes := by
  simp only [Store.areaBytes, h.segmentChunks, h.chunkBytes]

end SameGeometry

/-- Regions may be added, as far as placement goes. -/
theorem Placed.mono {s t : Store} {b : Backing} (hb : s.Placed b) (h : SameGeometry s t)
    (hle : s.memory.regions.size ≤ t.memory.regions.size) : t.Placed b :=
  ⟨Nat.lt_of_lt_of_le hb.1 hle, fun hd => by rw [h.areaBytes]; exact hb.2 hd⟩

/-- Only the geometry and the pool blocks matter. -/
theorem Backed.congr {s t : Store} {chunks : Nat} {b : Backing} (hb : s.Backed chunks b)
    (h : SameGeometry s t) (hblocks : t.blocks = s.blocks) : t.Backed chunks b := by
  cases b with
  | pooled a =>
    obtain ⟨c, hc, hr, hle⟩ := hb
    exact ⟨c, hblocks ▸ hc, hr, by rw [h.areaBytes]; exact hle⟩
  | dedicated d =>
    obtain ⟨hne, hle, hmax⟩ := hb
    refine ⟨fun c hc => hne c (hblocks ▸ hc), ?_, hmax⟩
    rw [h.chunkBytes]
    exact hle

/-! ## The table -/

theorem lt_size_of_segment? {s : Store} {i : SegmentIndex} {t : Segment}
    (h : s.segment? i = some t) : i < s.segments.size := by
  apply Classical.byContradiction
  intro hn
  rw [segment?, Array.getElem?_eq_none (Nat.le_of_not_lt hn)] at h
  cases h

/-- Every index in the table can be encoded. -/
theorem WellFormed.index_lt {s : Store} (h : s.WellFormed) {i : SegmentIndex} {t : Segment}
    (hi : s.segment? i = some t) : i < SegmentedHeap.maxSegments :=
  Nat.lt_of_lt_of_le (lt_size_of_segment? hi) (Nat.le_trans h.size_le h.limit_le)

theorem mem_indices {s : Store} {i : SegmentIndex} :
    i ∈ s.indices ↔ ∃ t, s.segment? i = some t := by
  simp only [indices, List.mem_filter, List.mem_range, Option.isSome_iff_exists]
  exact ⟨And.right, fun ⟨t, ht⟩ => ⟨lt_size_of_segment? ht, t, ht⟩⟩

theorem segment?_of_not_mem_indices {s : Store} {i : SegmentIndex} (hi : ¬ i ∈ s.indices) :
    s.segment? i = none := by
  cases hs : s.segment? i with
  | none => rfl
  | some t => exact absurd (mem_indices.mpr ⟨t, hs⟩) hi

theorem nodup_indices (s : Store) : s.indices.Nodup := List.nodup_range.filter _

theorem mem_entries {s : Store} {i : SegmentIndex} {t : Segment} :
    (i, t) ∈ s.entries ↔ s.segment? i = some t := by
  simp only [entries, List.mem_filterMap, List.mem_range, Option.map_eq_some_iff, Prod.mk.injEq]
  constructor
  · rintro ⟨j, _, u, hu, rfl, rfl⟩
    exact hu
  · intro h
    exact ⟨i, lt_size_of_segment? h, t, h, rfl, rfl⟩

/-- Only what a change makes of the segment at the index matters. -/
theorem modifySegment_congr {s : Store} {i : SegmentIndex} {f g : Segment → Segment}
    (h : ∀ t, s.segment? i = some t → f t = g t) : s.modifySegment i f = s.modifySegment i g := by
  have e : s.segments.modify i (Option.map f) = s.segments.modify i (Option.map g) := by
    apply Array.ext_getElem?
    intro j
    rw [Array.getElem?_modify, Array.getElem?_modify]
    split
    · next e =>
      subst e
      cases hj : s.segments[i]? with
      | none => rfl
      | some x =>
        cases x with
        | none => rfl
        | some t => rw [Option.map_some, Option.map_some, Option.map_some, Option.map_some,
            h t (by rw [segment?, hj]; rfl)]
    · rfl
  rw [modifySegment, modifySegment, e]

/-- The segment that was there, changed, and the others. -/
theorem segment?_modifySegment_of {s : Store} {i : SegmentIndex} {t : Segment}
    (ht : s.segment? i = some t) (f : Segment → Segment) (j : SegmentIndex) :
    (s.modifySegment i f).segment? j = if i = j then some (f t) else s.segment? j := by
  rw [segment?_modifySegment]
  split
  · next e => rw [← e, ht, Option.map_some]
  · rfl

/-- Every segment after a change was there before it. -/
theorem exists_of_modifySegment {s : Store} {i j : SegmentIndex} {f : Segment → Segment}
    {t' : Segment} (ht' : (s.modifySegment i f).segment? j = some t') :
    ∃ t, s.segment? j = some t ∧ (i = j ∧ t' = f t ∨ t' = t) := by
  rw [segment?_modifySegment] at ht'
  split at ht'
  · next e =>
    obtain ⟨t, ht, rfl⟩ := Option.map_eq_some_iff.mp ht'
    exact ⟨t, ht, Or.inl ⟨e, rfl⟩⟩
  · exact ⟨t', ht', Or.inr rfl⟩

theorem segments_size_modifySegment (s : Store) (i : SegmentIndex) (f : Segment → Segment) :
    (s.modifySegment i f).segments.size = s.segments.size := by
  simp [modifySegment]

theorem sameGeometry_modifySegment (s : Store) (i : SegmentIndex) (f : Segment → Segment) :
    SameGeometry s (s.modifySegment i f) := ⟨rfl, rfl, rfl, rfl, rfl⟩

/-- The segments may be others that lie where they lay. -/
theorem WellFormed.reshaped {s : Store} (h : s.WellFormed) {g : Array (Option Segment)}
    (hsize : g.size = s.segments.size)
    (hnone : ∀ j, ({ s with segments := g } : Store).segment? j = none ↔ s.segment? j = none)
    (hback : ∀ j u, ({ s with segments := g } : Store).segment? j = some u →
      u.WellFormed ∧ ∃ t, s.segment? j = some t ∧ u.backing = t.backing ∧ u.chunks = t.chunks) :
    ({ s with segments := g } : Store).WellFormed := by
  refine { h with
    mem_vacant := fun j => by rw [hsize, hnone]; exact h.mem_vacant j
    size_eq := by rw [hsize]; exact h.size_eq
    size_le := by rw [hsize]; exact h.size_le
    segment_wf := fun j u hu => (hback j u hu).1
    placed := ?_
    apart := ?_
    spare_apart := ?_
    backed := ?_ }
  · intro j u hu
    obtain ⟨_, t, ht, e, _⟩ := hback j u hu
    rw [e]
    exact h.placed j t ht
  · intro j k u v hu hv hne
    obtain ⟨_, t, ht, et, _⟩ := hback j u hu
    obtain ⟨_, w, hw, ew, _⟩ := hback k v hv
    rw [et, ew]
    exact h.apart j k t w ht hw hne
  · intro a ha j u hu
    obtain ⟨_, t, ht, e, _⟩ := hback j u hu
    rw [e]
    exact h.spare_apart a ha j t ht
  · intro j u hu
    obtain ⟨_, t, ht, e, ec⟩ := hback j u hu
    rw [e, ec]
    exact h.backed j t ht

/-- A segment may be changed in any way that keeps its shape. -/
theorem WellFormed.modifySegment {s : Store} (h : s.WellFormed) {i : SegmentIndex}
    {f : Segment → Segment}
    (hf : ∀ t, s.segment? i = some t → Segment.SameShape t (f t) ∧ (f t).WellFormed) :
    (s.modifySegment i f).WellFormed := by
  refine h.reshaped (segments_size_modifySegment s i f) (fun j => ?_) fun j u hu => ?_
  · show (s.modifySegment i f).segment? j = none ↔ _
    rw [segment?_modifySegment]
    split
    · exact Option.map_eq_none_iff
    · exact Iff.rfl
  · obtain ⟨t, ht, ⟨rfl, rfl⟩ | rfl⟩ := exists_of_modifySegment hu
    · exact ⟨(hf t ht).2, t, ht, (hf t ht).1.backing, (hf t ht).1.chunks⟩
    · exact ⟨h.segment_wf j u ht, u, ht, rfl, rfl⟩

/-- Memory may be changed as long as no region is lost. -/
theorem WellFormed.setMemory {s : Store} (h : s.WellFormed) {m : Memory}
    (hm : m.regions.size = s.memory.regions.size) : ({ s with memory := m } : Store).WellFormed :=
  { h with
    placed := fun i t ht => ⟨hm ▸ (h.placed i t ht).1, (h.placed i t ht).2⟩
    spare_placed := fun a ha => ⟨hm ▸ (h.spare_placed a ha).1, (h.spare_placed a ha).2⟩
    block_placed := fun b hb => hm ▸ h.block_placed b hb }

/-! ## Taking a segment back -/

theorem segment?_setIfInBounds (s : Store) (i j : SegmentIndex) (x : Option Segment) :
    (({ s with segments := s.segments.setIfInBounds i x } : Store).segment? j) =
      if i = j ∧ i < s.segments.size then x else s.segment? j := by
  simp only [segment?, Array.getElem?_setIfInBounds]
  by_cases e : i = j
  · subst e
    by_cases h : i < s.segments.size
    · simp [h]
    · simp [h]
  · simp [e]

/-- What a release does to a reserved segment's entry and the lists. -/
theorem release_eq {s : Store} {i : SegmentIndex} {t : Segment} (h : s.segment? i = some t) :
    s.release i =
      let s' : Store := { s with
        segments := s.segments.setIfInBounds i none
        reserved := s.reserved - 1
        vacant := i :: s.vacant }
      match t.backing with
      | .pooled area => { s' with spare := area :: s.spare }
      | .dedicated block => { s' with
          big := s.big - 1
          bigBytes := s.bigBytes - block.size
          memory := s.memory.release block.region } := by
  cases hb : t.backing with
  | pooled area => simp only [release, h, hb]
  | dedicated block => simp only [release, h, hb]

theorem release_of_none {s : Store} {i : SegmentIndex} (h : s.segment? i = none) :
    s.release i = s := by
  simp only [release, h]

theorem segment?_release (s : Store) (i j : SegmentIndex) :
    (s.release i).segment? j = if i = j then none else s.segment? j := by
  cases h : s.segment? i with
  | none =>
    rw [release_of_none h]
    split
    · next e => rw [← e, h]
    · rfl
  | some t =>
    have hset := segment?_setIfInBounds s i j none
    simp only [lt_size_of_segment? h, and_true] at hset
    rw [release_eq h, ← hset]
    cases t.backing <;> rfl

/-- The segments after a release are the others of before. -/
theorem segment?_release_eq_some {s : Store} {i j : SegmentIndex} {t : Segment} :
    (s.release i).segment? j = some t ↔ i ≠ j ∧ s.segment? j = some t := by
  rw [segment?_release]
  by_cases e : i = j
  · simp [e]
  · simp [e]

theorem sameGeometry_release (s : Store) (i : SegmentIndex) : SameGeometry s (s.release i) := by
  cases h : s.segment? i with
  | none => rw [release_of_none h]; exact .refl s
  | some t =>
    rw [release_eq h]
    cases t.backing <;> exact ⟨rfl, rfl, rfl, rfl, rfl⟩

theorem blocks_release (s : Store) (i : SegmentIndex) : (s.release i).blocks = s.blocks := by
  cases h : s.segment? i with
  | none => rw [release_of_none h]
  | some t =>
    rw [release_eq h]
    cases t.backing <;> rfl

theorem regions_size_release (s : Store) (i : SegmentIndex) :
    (s.release i).memory.regions.size = s.memory.regions.size := by
  cases h : s.segment? i with
  | none => rw [release_of_none h]
  | some t =>
    rw [release_eq h]
    cases t.backing
    · rfl
    · exact Array.size_modify

theorem segments_size_release (s : Store) (i : SegmentIndex) :
    (s.release i).segments.size = s.segments.size := by
  cases h : s.segment? i with
  | none => rw [release_of_none h]
  | some t =>
    rw [release_eq h]
    cases t.backing <;> exact Array.size_setIfInBounds

theorem vacant_release {s : Store} {i : SegmentIndex} {t : Segment} (h : s.segment? i = some t) :
    (s.release i).vacant = i :: s.vacant ∧ (s.release i).reserved = s.reserved - 1 := by
  rw [release_eq h]
  cases t.backing <;> exact ⟨rfl, rfl⟩

/-- The area of a small segment becomes spare; nothing else does. -/
theorem mem_spare_release {s : Store} {i : SegmentIndex} {t : Segment}
    (h : s.segment? i = some t) (a : Address) :
    a ∈ (s.release i).spare ↔ t.backing = .pooled a ∨ a ∈ s.spare := by
  rw [release_eq h]
  cases t.backing with
  | pooled b =>
    rw [Backing.pooled.injEq]
    constructor
    · intro ha
      rcases List.mem_cons.mp ha with rfl | ha
      · exact Or.inl rfl
      · exact Or.inr ha
    · rintro (rfl | ha)
      · exact List.mem_cons_self
      · exact List.mem_cons_of_mem b ha
  | dedicated b =>
    constructor
    · exact Or.inr
    · rintro (e | ha)
      · cases e
      · exact ha

/-- There is at least one reserved segment where one can be taken back. -/
theorem WellFormed.reserved_pos {s : Store} (h : s.WellFormed) {i : SegmentIndex} {t : Segment}
    (hi : s.segment? i = some t) : 0 < s.reserved := by
  have hv : i ∉ s.vacant := fun hm => by
    rw [((h.mem_vacant i).mp hm).2] at hi
    cases hi
  have hle : (i :: s.vacant).length ≤ (List.range s.segments.size).length := by
    apply List.Nodup.length_le_of_subset (List.nodup_cons.mpr ⟨hv, h.vacant_nodup⟩)
    intro j hj
    rcases List.mem_cons.mp hj with rfl | hj
    · exact List.mem_range.mpr (lt_size_of_segment? hi)
    · exact List.mem_range.mpr ((h.mem_vacant j).mp hj).1
  rw [List.length_cons, List.length_range, h.size_eq] at hle
  omega

theorem nodup_spare_release {s : Store} (h : s.WellFormed) (i : SegmentIndex) :
    (s.release i).spare.Nodup := by
  cases hi : s.segment? i with
  | none => rw [release_of_none hi]; exact h.spare_nodup
  | some t =>
    rw [release_eq hi]
    cases hb : t.backing with
    | dedicated b => exact h.spare_nodup
    | pooled a =>
      refine List.nodup_cons.mpr ⟨fun ha => ?_, h.spare_nodup⟩
      exact (h.spare_apart a ha i t hi).1 (by rw [hb])

/-- The entry of the segment joins the vacant ones, each of them once. -/
theorem mem_vacant_release {s : Store} (h : s.WellFormed) {i : SegmentIndex} {t : Segment}
    (hi : s.segment? i = some t) (j : SegmentIndex) :
    j ∈ (s.release i).vacant ↔
      j < (s.release i).segments.size ∧ (s.release i).segment? j = none := by
  rw [(vacant_release hi).1, List.mem_cons, h.mem_vacant, segments_size_release, segment?_release]
  by_cases e : i = j
  · subst e
    simp [lt_size_of_segment? hi]
  · simp [e, Ne.symm e]

theorem nodup_vacant_release {s : Store} (h : s.WellFormed) {i : SegmentIndex} {t : Segment}
    (hi : s.segment? i = some t) : (s.release i).vacant.Nodup := by
  rw [(vacant_release hi).1]
  refine List.nodup_cons.mpr ⟨fun hm => ?_, h.vacant_nodup⟩
  rw [((h.mem_vacant i).mp hm).2] at hi
  cases hi

/-- Nothing is obtained from the system. -/
theorem totalBytes_release_le (s : Store) (i : SegmentIndex) :
    (s.release i).totalBytes ≤ s.totalBytes := by
  cases hi : s.segment? i with
  | none => exact Nat.le_of_eq (congrArg totalBytes (release_of_none hi))
  | some t =>
    rw [totalBytes, totalBytes, blocks_release, release_eq hi]
    refine Nat.add_le_add_left ?_ _
    cases t.backing with
    | pooled area => exact Nat.le_refl _
    | dedicated block => exact Nat.sub_le _ _

theorem WellFormed.release {s : Store} (h : s.WellFormed) (i : SegmentIndex) :
    (s.release i).WellFormed := by
  cases hi : s.segment? i with
  | none => rw [release_of_none hi]; exact h
  | some t =>
    have hgeo := sameGeometry_release s i
    have hblocks := blocks_release s i
    obtain ⟨hvac, hres⟩ := vacant_release hi
    -- what is left was there before, at another index
    have old : ∀ j u, (s.release i).segment? j = some u → i ≠ j ∧ s.segment? j = some u :=
      fun j u => segment?_release_eq_some.mp
    have placed : ∀ b, s.Placed b → (s.release i).Placed b := fun b hb =>
      hb.mono hgeo (Nat.le_of_eq (regions_size_release s i).symm)
    have backed : ∀ n b, s.Backed n b → (s.release i).Backed n b := fun n b hb =>
      hb.congr hgeo hblocks
    refine {
      chunks_le := by rw [hgeo.segmentChunks]; exact h.chunks_le
      chunks_pow := by rw [hgeo.segmentChunks]; exact h.chunks_pow
      limit_le := by rw [hgeo.maxSegments]; exact h.limit_le
      mem_vacant := mem_vacant_release h hi
      vacant_nodup := nodup_vacant_release h hi
      size_eq := ?_
      size_le := by rw [segments_size_release, hgeo.maxSegments]; exact h.size_le
      segment_wf := fun j u hu => h.segment_wf j u (old j u hu).2
      placed := fun j u hu => placed _ (h.placed j u (old j u hu).2)
      apart := fun j k u v hu hv => h.apart j k u v (old j u hu).2 (old k v hv).2
      spare_placed := ?_
      spare_nodup := nodup_spare_release h i
      spare_apart := ?_
      block_size := by
        rw [hblocks, hgeo.areaBytes, hgeo.segmentsPerBlock]
        exact h.block_size
      block_placed := by rw [hblocks, regions_size_release]; exact h.block_placed
      block_nodup := by rw [hblocks]; exact h.block_nodup
      backed := fun j u hu => backed _ _ (h.backed j u (old j u hu).2)
      spare_pooled := ?_
      totalBytes_lt := Nat.lt_of_le_of_lt (totalBytes_release_le s i) h.totalBytes_lt }
    · have hpos := h.reserved_pos hi
      rw [segments_size_release, hvac, hres, List.length_cons, h.size_eq]
      omega
    -- the area that becomes spare is the one the segment had
    · intro a ha
      rcases (mem_spare_release hi a).mp ha with e | ha
      · exact placed _ (e ▸ h.placed i t hi)
      · exact placed _ (h.spare_placed a ha)
    · intro a ha j u hu
      obtain ⟨hne, hu⟩ := old j u hu
      rcases (mem_spare_release hi a).mp ha with e | ha
      · exact e ▸ h.apart i j t u hi hu hne
      · exact h.spare_apart a ha j u hu
    · intro a ha
      rcases (mem_spare_release hi a).mp ha with e | ha
      · exact backed t.chunks (.pooled a) (e ▸ h.backed i t hi)
      · exact backed 0 (.pooled a) (h.spare_pooled a ha)

/-! ## Entering a segment -/

/-- The store with another table, which has one segment more. -/
def withTable (s : Store) (vacant : List SegmentIndex) (segments : Array (Option Segment)) :
    Store :=
  { s with vacant, segments, reserved := s.reserved + 1 }

/-- `t` may be entered into the table of `s`. -/
structure Enterable (s : Store) (t : Segment) : Prop where
  room : s.reserved < s.maxSegments
  wellFormed : t.WellFormed
  placed : s.Placed t.backing
  apart : ∀ i u, s.segment? i = some u → t.backing.Apart u.backing
  spare_apart : ∀ a, a ∈ s.spare → (Backing.pooled a).Apart t.backing
  backed : s.Backed t.chunks t.backing

/-- A table with one new entry is in order, however its index was found. -/
theorem WellFormed.withTable {s : Store} (h : s.WellFormed) {t : Segment} (ht : s.Enterable t)
    {i : SegmentIndex} {v : List SegmentIndex} {g : Array (Option Segment)}
    (hnodup : v.Nodup) (hmem : ∀ j, j ∈ v ↔ j ∈ s.vacant ∧ i ≠ j)
    (hle : s.segments.size ≤ g.size)
    (hback : ∀ j, j < g.size → j = i ∨ j < s.segments.size)
    (hsize : g.size = s.reserved + 1 + v.length) (hmax : g.size ≤ s.maxSegments)
    (hseg : ∀ j, (s.withTable v g).segment? j = if i = j then some t else s.segment? j) :
    (s.withTable v g).WellFormed := by
  -- every segment of the new table is the new one, or was there before
  have old : ∀ j u, (s.withTable v g).segment? j = some u →
      (i = j ∧ u = t) ∨ (i ≠ j ∧ s.segment? j = some u) := by
    intro j u hu
    rw [hseg] at hu
    split at hu
    · next e => exact Or.inl ⟨e, (Option.some.inj hu).symm⟩
    · next e => exact Or.inr ⟨e, hu⟩
  refine { h with
    mem_vacant := ?_
    vacant_nodup := hnodup
    size_eq := hsize
    size_le := hmax
    segment_wf := ?_
    placed := ?_
    apart := ?_
    spare_apart := ?_
    backed := ?_ }
  · intro j
    show j ∈ v ↔ j < g.size ∧ (s.withTable v g).segment? j = none
    rw [hmem, h.mem_vacant, hseg]
    -- the index that was filled is vacant in neither account
    by_cases e : i = j
    · simp [e]
    · simp only [e, ne_eq, not_false_eq_true, and_true, if_false]
      constructor
      · rintro ⟨hj, hn⟩
        exact ⟨Nat.lt_of_lt_of_le hj hle, hn⟩
      · rintro ⟨hj, hn⟩
        exact ⟨(hback j hj).resolve_left (Ne.symm e), hn⟩
  · intro j u hu
    rcases old j u hu with ⟨_, rfl⟩ | ⟨_, hu⟩
    · exact ht.wellFormed
    · exact h.segment_wf j u hu
  · intro j u hu
    rcases old j u hu with ⟨_, rfl⟩ | ⟨_, hu⟩
    · exact ht.placed
    · exact h.placed j u hu
  · intro j k u w hu hw hne
    rcases old j u hu with ⟨rfl, rfl⟩ | ⟨_, hu⟩
    · rcases old k w hw with ⟨rfl, _⟩ | ⟨_, hw⟩
      · exact absurd rfl hne
      · exact ht.apart k w hw
    · rcases old k w hw with ⟨rfl, rfl⟩ | ⟨_, hw⟩
      · exact (ht.apart j u hu).symm
      · exact h.apart j k u w hu hw hne
  · intro a ha j u hu
    rcases old j u hu with ⟨_, rfl⟩ | ⟨_, hu⟩
    · exact ht.spare_apart a ha
    · exact h.spare_apart a ha j u hu
  · intro j u hu
    rcases old j u hu with ⟨_, rfl⟩ | ⟨_, hu⟩
    · exact ht.backed
    · exact h.backed j u hu

/-- The index of the next segment: the entry vacated last, or the end of
the table. -/
def nextIndex (s : Store) : SegmentIndex := s.vacant.headD s.segments.size

/-- What entering `t` at index `i` leaves of a store. -/
structure Entered (s : Store) (t : Segment) (i : SegmentIndex) (s' : Store) : Prop where
  index : i = s.nextIndex
  wellFormed : s'.WellFormed
  geometry : SameGeometry s s'
  fresh : s.segment? i = none
  segment? : ∀ j, s'.segment? j = if i = j then some t else s.segment? j
  /-- The table is longer only if more segments are reserved than it had
  room for. -/
  size : s'.segments.size = max s.segments.size (s.reserved + 1)
  reserved : s'.reserved = s.reserved + 1

/-- Nothing but the table is different. -/
structure SamePool (s s' : Store) : Prop where
  memory : s'.memory = s.memory
  spare : s'.spare = s.spare
  blocks : s'.blocks = s.blocks
  big : s'.big = s.big
  bigBytes : s'.bigBytes = s.bigBytes

theorem samePool_withTable (s : Store) (vacant : List SegmentIndex)
    (segments : Array (Option Segment)) : SamePool s (s.withTable vacant segments) :=
  ⟨rfl, rfl, rfl, rfl, rfl⟩

/-- A table without a vacant entry grows. -/
theorem entered_push {s : Store} (h : s.WellFormed) {t : Segment} (ht : s.Enterable t)
    (hv : s.vacant = []) :
    Entered s t s.segments.size (s.withTable [] (s.segments.push (some t))) := by
  have hroom := ht.room
  have hsize := h.size_eq
  rw [hv, List.length_nil, Nat.add_zero] at hsize
  have hseg : ∀ j, (s.withTable [] (s.segments.push (some t))).segment? j =
      if s.segments.size = j then some t else s.segment? j := by
    intro j
    simp only [withTable, Store.segment?, Array.getElem?_push]
    by_cases e : j = s.segments.size
    · simp [e]
    · simp [e, Ne.symm e]
  refine ⟨by rw [nextIndex, hv]; rfl, ?_, ⟨rfl, rfl, rfl, rfl, rfl⟩, by simp [Store.segment?], hseg,
    ?_, rfl⟩
  · refine h.withTable ht List.nodup_nil (by simp [hv]) (by simp) ?_ ?_ ?_ hseg
    · intro j hj
      rw [Array.size_push] at hj
      omega
    · rw [Array.size_push, List.length_nil, hsize]
    · rw [Array.size_push]
      omega
  · show (s.segments.push (some t)).size = _
    rw [Array.size_push]
    omega

/-- The entry that was vacated last is used again. -/
theorem entered_set {s : Store} (h : s.WellFormed) {t : Segment} (ht : s.Enterable t)
    {i : SegmentIndex} {rest : List SegmentIndex} (hv : s.vacant = i :: rest) :
    Entered s t i (s.withTable rest (s.segments.setIfInBounds i (some t))) := by
  have hsize := h.size_eq
  rw [hv, List.length_cons] at hsize
  obtain ⟨hi, hnone⟩ := (h.mem_vacant i).mp (hv ▸ List.mem_cons_self)
  obtain ⟨hirest, hrest⟩ := List.nodup_cons.mp (hv ▸ h.vacant_nodup)
  have hmem : ∀ j, j ∈ rest ↔ j ∈ s.vacant ∧ i ≠ j := by
    intro j
    rw [hv, List.mem_cons]
    constructor
    · intro hj
      exact ⟨Or.inr hj, fun e => hirest (e ▸ hj)⟩
    · rintro ⟨hj, hne⟩
      exact hj.resolve_left (Ne.symm hne)
  have hseg : ∀ j, (s.withTable rest (s.segments.setIfInBounds i (some t))).segment? j =
      if i = j then some t else s.segment? j := by
    intro j
    have hset := segment?_setIfInBounds s i j (some t)
    simp only [hi, and_true] at hset
    exact hset
  refine ⟨by rw [nextIndex, hv]; rfl, ?_, ⟨rfl, rfl, rfl, rfl, rfl⟩, hnone, hseg, ?_, rfl⟩
  · refine h.withTable ht hrest hmem (by simp) ?_ ?_ ?_ hseg
    · intro j hj
      rw [Array.size_setIfInBounds] at hj
      exact Or.inr hj
    · rw [Array.size_setIfInBounds]
      omega
    · rw [Array.size_setIfInBounds]
      exact h.size_le
  · show (s.segments.setIfInBounds i (some t)).size = _
    rw [Array.size_setIfInBounds]
    omega

/-- A segment is entered at the next index, which was free, and nothing but
the table changes. -/
theorem install_eq {s : Store} (h : s.WellFormed) {t : Segment} (ht : s.Enterable t) :
    ∃ i s', install t s = .ok i s' ∧ Entered s t i s' ∧ SamePool s s' := by
  have hrun : ∀ f : Store → SegmentIndex × Store,
      (modifyGet f : StoreM SegmentIndex) s = .ok (f s).1 (f s).2 := fun _ => rfl
  cases hv : s.vacant with
  | nil =>
    refine ⟨_, _, ?_, entered_push h ht hv, samePool_withTable ..⟩
    rw [install, hrun]
    simp only [hv, withTable]
  | cons i rest =>
    refine ⟨_, _, ?_, entered_set h ht hv, samePool_withTable ..⟩
    rw [install, hrun]
    simp only [hv, withTable]

end Store

end SegmentedHeap
