/-
SegmentedHeap.Proofs.Isolation — the objects of a run share no byte.

Regions are numbered, and it is the system that decides where each one
lies. What it promises is that the blocks that a store holds lie apart,
each at a multiple of the alignment it was asked for with. Under that
promise the areas of segments, and the spare ones, lie apart, and each
object lies inside the area of its own segment. Which region an object is
in, and where in it, never changes while the object is there.

* `Store.Owns`, `Store.LaidOut` — the blocks, and the promise.
* `Store.WellFormed.extent_apart` — areas that are not one area.
* `Formed.isolated` — **what follows for objects, areas and spare areas**.
* `Formed.laidOut` — the promise can be kept.
-/
import SegmentedHeap.Proofs.Sizes

namespace SegmentedHeap

/-! ## Stretches of memory -/

/-- The bytes from `start` up to `stop`. -/
structure Extent where
  start : Nat
  stop : Nat
deriving DecidableEq

namespace Extent

def Apart (e f : Extent) : Prop := e.stop ≤ f.start ∨ f.stop ≤ e.start

def Within (e f : Extent) : Prop := f.start ≤ e.start ∧ e.stop ≤ f.stop

theorem Apart.symm {e f : Extent} (h : e.Apart f) : f.Apart e := Or.symm h

theorem Within.trans {e f g : Extent} (h : e.Within f) (k : f.Within g) : e.Within g :=
  ⟨Nat.le_trans k.1 h.1, Nat.le_trans h.2 k.2⟩

theorem Apart.within {e e' f f' : Extent} (h : e.Apart f) (he : e'.Within e) (hf : f'.Within f) :
    e'.Apart f' := by
  rcases h with h | h
  · exact Or.inl (Nat.le_trans he.2 (Nat.le_trans h hf.1))
  · exact Or.inr (Nat.le_trans hf.2 (Nat.le_trans h he.1))

end Extent

/-- The bytes at an address, where region `r` starts at `place r`. -/
def Address.extent (a : Address) (place : Nat → Nat) (bytes : Nat) : Extent :=
  ⟨place a.region + a.offset, place a.region + a.offset + bytes⟩

/-- The bytes of a block. -/
def Block.extent (b : Block) (place : Nat → Nat) : Extent := b.base.extent place b.size

/-- Bytes inside a region lie as they do in the region. -/
theorem Address.within_of_le {a b : Address} {place : Nat → Nat} {m n : Nat}
    (hr : a.region = b.region) (hlo : b.offset ≤ a.offset) (hhi : a.offset + m ≤ b.offset + n) :
    (a.extent place m).Within (b.extent place n) := by
  simp only [Extent.Within, extent, hr]
  omega

/-! ## Blocks and areas -/

namespace Store

/-- A block that the store holds, with the alignment it was asked for with:
a pool block, or the block of a big segment. -/
inductive Owns (s : Store) : Block → Nat → Prop where
  | pool {b : Block} : b ∈ s.blocks → s.Owns b b.size
  | single {i : SegmentIndex} {t : Segment} {b : Block} :
      s.segment? i = some t → t.backing = .dedicated b → s.Owns b s.chunkBytes

/-- Where the system put the regions: each block at a multiple of its
alignment, and the blocks of different regions apart. -/
structure LaidOut (s : Store) (place : Nat → Nat) : Prop where
  aligned : ∀ b n, s.Owns b n → n ∣ place b.region
  apart : ∀ b c m n, s.Owns b m → s.Owns c n → b.region ≠ c.region →
    (b.extent place).Apart (c.extent place)

/-- The memory under a segment. -/
def extent (s : Store) (place : Nat → Nat) : Backing → Extent
  | .pooled area => area.extent place s.areaBytes
  | .dedicated block => block.extent place

/-- The memory is part of a block that the store holds. -/
def Held (s : Store) (place : Nat → Nat) (b : Backing) : Prop :=
  ∃ c n, s.Owns c n ∧ c.region = b.base.region ∧ (s.extent place b).Within (c.extent place)

section

variable {s : Store} {place : Nat → Nat}

theorem Pooled.held {a : Address} (h : s.Pooled a) : s.Held place (.pooled a) := by
  obtain ⟨b, hb, hr, hle⟩ := h
  refine ⟨b, _, .pool hb, hr, Address.within_of_le hr.symm (Nat.zero_le _) ?_⟩
  simpa [Block.base] using hle

theorem WellFormed.held (h : s.WellFormed) {i : SegmentIndex} {t : Segment}
    (ht : s.segment? i = some t) : s.Held place t.backing := by
  have hb := h.backed i t ht
  cases hbacking : t.backing with
  | pooled a =>
    rw [hbacking] at hb
    exact Pooled.held hb
  | dedicated b => exact ⟨b, _, .single ht hbacking, rfl, Nat.le_refl _, Nat.le_refl _⟩

/-- **What starts apart lies apart.** -/
theorem LaidOut.extent_apart (hl : s.LaidOut place) {b c : Backing} (hb : s.Placed b)
    (hc : s.Placed c) (hheld : s.Held place b) (hheld' : s.Held place c) (hapart : b.Apart c) :
    (s.extent place b).Apart (s.extent place c) := by
  by_cases hr : b.base.region = c.base.region
  · -- two areas of one pool block
    cases b with
    | dedicated b => exact absurd hr (hapart.2 (Or.inl rfl))
    | pooled b =>
      cases c with
      | dedicated c => exact absurd hr (hapart.2 (Or.inr rfl))
      | pooled c =>
        have hr : b.region = c.region := hr
        have hne : b.offset ≠ c.offset := hapart.offset_ne hr
        have hb : b.offset % s.areaBytes = 0 := hb.2 rfl
        have hc : c.offset % s.areaBytes = 0 := hc.2 rfl
        simp only [Extent.Apart, extent, Address.extent, hr]
        rcases Nat.lt_or_gt_of_ne hne with hlt | hlt
        · have := Heap.apart_of_mod hb hc hlt
          omega
        · have := Heap.apart_of_mod hc hb hlt
          omega
  · obtain ⟨d, m, hd, hdr, hin⟩ := hheld
    obtain ⟨e, n, he, her, hin'⟩ := hheld'
    exact (hl.apart d e m n hd he (by rw [hdr, her]; exact hr)).within hin hin'

end

end Store

namespace Heap

variable {h h' : Heap} {p q : ObjRef} {x y : Object} {place : Nat → Nat}

/-! ## Objects -/

/-- The bytes of an object. -/
def extent (h : Heap) (place : Nat → Nat) (p : ObjRef) : Except Fault Extent := do
  return (← h.addressOf p).extent place (← h.capacity p)

theorem extent_of_lookup (hx : h.lookup p = some x) :
    h.extent place p = .ok (x.address.extent place x.bytes.length) := by
  rw [extent, addressOf_of_lookup hx, capacity_of_lookup hx]
  rfl

/-- An object lies in the memory under its segment. -/
theorem Formed.within_segment (hf : h.Formed) (place : Nat → Nat) (hx : h.lookup p = some x) :
    ∃ s, h.store.segment? p.segment = some s ∧
      (x.address.extent place x.bytes.length).Within (h.store.extent place s.backing) := by
  obtain ⟨s, hs, ho, rfl⟩ := lookup_eq_some.mp hx
  refine ⟨s, hs, ?_⟩
  have ho := (Segment.mem_allocated.mp ho).1
  have hbig := Segment.isBig_eq s
  have hbase := Segment.base_eq s
  have hback := hf.store.backed _ s hs
  simp only [Segment.objectAt, Memory.length_load]
  cases hb : s.backing with
  | pooled a =>
    rw [hb] at hbig hbase
    have hend := hf.end_le_area hs ho hbig
    rw [hbase]
    refine Address.within_of_le rfl (Nat.le_add_right _ _) ?_
    show a.offset + _ + _ ≤ a.offset + _
    rw [Nat.add_assoc]
    exact Nat.add_le_add_left hend _
  | dedicated b =>
    rw [hb] at hbig hbase hback
    rw [hf.slot_of_big hs ho hbig, hbase]
    refine Address.within_of_le rfl (Nat.le_add_right _ _) ?_
    show b.base.offset + 0 * h.store.chunkBytes + s.chunks * h.store.chunkBytes ≤ _
    rw [Nat.zero_mul]
    exact Nat.add_le_add_left hback.2.1 _

/-- Different segments lie apart. -/
theorem Formed.segments_apart (hf : h.Formed) (hl : h.store.LaidOut place) {i j : SegmentIndex}
    {s t : Segment} (hs : h.store.segment? i = some s) (ht : h.store.segment? j = some t)
    (hne : i ≠ j) : (h.store.extent place s.backing).Apart (h.store.extent place t.backing) :=
  hl.extent_apart (hf.store.placed i s hs) (hf.store.placed j t ht) (hf.store.held hs)
    (hf.store.held ht) (hf.store.apart i j s t hs ht hne)

/-- **Different objects lie apart.** -/
theorem Formed.objects_apart (hf : h.Formed) (hl : h.store.LaidOut place)
    (hx : h.lookup p = some x) (hy : h.lookup q = some y) (hne : p ≠ q) :
    (x.address.extent place x.bytes.length).Apart (y.address.extent place y.bytes.length) := by
  by_cases hseg : p.segment = q.segment
  · obtain ⟨s, hs, ho, rfl⟩ := lookup_eq_some.mp hx
    obtain ⟨t, ht, ho', rfl⟩ := lookup_eq_some.mp hy
    rw [hseg, ht] at hs
    cases hs
    have ho := (Segment.mem_allocated.mp ho).1
    have ho' := (Segment.mem_allocated.mp ho').1
    have hoff : p.offset.val ≠ q.offset.val := fun e =>
      hne (ObjRef.eq_iff.mpr ⟨hseg, Fin.ext e⟩)
    simp only [Extent.Apart, Address.extent, Segment.objectAt, Memory.length_load, Address.advance]
    have := hf.disjoint_of_offset_ne ht ho ho' hoff
    omega
  · obtain ⟨s, hs, hin⟩ := hf.within_segment place hx
    obtain ⟨t, ht, hin'⟩ := hf.within_segment place hy
    exact (hf.segments_apart hl hs ht hseg).within hin hin'

/-- **An object starts at a multiple of the bytes of a chunk.** -/
theorem Formed.chunkBytes_dvd (hf : h.Formed) (hl : h.store.LaidOut place)
    (hx : h.lookup p = some x) :
    h.store.chunkBytes ∣ place x.address.region + x.address.offset := by
  obtain ⟨s, hs, ho, rfl⟩ := lookup_eq_some.mp hx
  have hbase := Segment.base_eq s
  have hback := hf.store.backed _ s hs
  have hplaced := hf.store.placed _ s hs
  have harea : h.store.chunkBytes ∣ h.store.areaBytes := Nat.dvd_mul_left _ _
  have hmain : h.store.chunkBytes ∣ place s.base.region + s.base.offset := by
    rw [hbase]
    cases hb : s.backing with
    | pooled a =>
      rw [hb] at hback hplaced
      obtain ⟨b, hmem, hr, _⟩ := hback
      have hsize : h.store.chunkBytes ∣ b.size := by
        rw [(hf.store.block_size b hmem).1]
        exact Nat.dvd_mul_right_of_dvd harea _
      have hoff : h.store.chunkBytes ∣ a.offset :=
        Nat.dvd_trans harea (Nat.dvd_of_mod_eq_zero (hplaced.2 rfl))
      refine Nat.dvd_add ?_ hoff
      rw [show (Backing.pooled a).base.region = b.region from hr.symm]
      exact Nat.dvd_trans hsize (hl.aligned b _ (.pool hmem))
    | dedicated b => exact Nat.dvd_add (hl.aligned b _ (.single hs hb)) (Nat.dvd_zero _)
  show h.store.chunkBytes ∣ place s.base.region + (s.base.offset + p.offset.val * _)
  rw [← Nat.add_assoc]
  exact Nat.dvd_add hmain (Nat.dvd_mul_left _ _)

/-- A heap with an object has chunks of the configured size. -/
theorem chunkBytes_eq_config (hf : h.Formed) (hc : h.Configured) (hx : h.lookup p = some x) :
    h.store.chunkBytes = h.config.chunkBytes := by
  have hle : h.store.chunkBytes ≤ Word.maxSize :=
    Nat.le_trans (hf.chunkBytes_le_length hx) (capacity_le_of_ok hf (capacity_of_lookup hx))
  refine hc.chunkBytes_eq (Nat.lt_of_not_le fun hbits => ?_)
  have hpow : 2 ^ 64 ≤ 2 ^ h.store.chunkBits := Nat.pow_le_pow_right (by decide) hbits
  rw [Store.chunkBytes, Nat.pow_eq, Word.maxSize] at hle
  omega

/-- The alignment that is promised for objects divides a chunk. -/
theorem Configured.alignment_dvd (hc : h.Configured) :
    h.config.dataAlignment ∣ h.config.chunkBytes := by
  have ho := Config.inOrder hc.accepted
  obtain ⟨m, hm⟩ := Word.isPowerOfTwo_iff.mp ho.alignment_pow
  obtain ⟨n, hn⟩ := Word.isPowerOfTwo_iff.mp ho.chunk_pow
  have hle := ho.alignment_le
  rw [hm, hn] at hle ⊢
  exact Nat.pow_dvd_pow 2 ((Nat.pow_le_pow_iff_right (by decide)).mp hle)

/-! ## Isolation -/

/-- What the objects of a heap, the areas of its segments and its spare
areas have to do with each other in memory: nothing. -/
structure Isolated (h : Heap) (place : Nat → Nat) : Prop where
  /-- An object lies in the area or the block of its segment. -/
  within : ∀ p, h.isAllocated p = true → ∃ e s, h.extent place p = .ok e ∧
    h.store.segment? p.segment = some s ∧ e.Within (h.store.extent place s.backing)
  aligned : ∀ p e, h.isAllocated p = true → h.extent place p = .ok e →
    h.config.chunkBytes ∣ e.start ∧ h.config.dataAlignment ∣ e.start
  objects : ∀ p q e f, p ≠ q → h.isAllocated p = true → h.isAllocated q = true →
    h.extent place p = .ok e → h.extent place q = .ok f → e.Apart f
  /-- The memory of segments, and the spare areas, are parts of blocks. -/
  held : ∀ i s, h.store.segment? i = some s → h.store.Held place s.backing
  held_spare : ∀ a ∈ h.store.spare, h.store.Held place (.pooled a)
  segments : ∀ i j s t, i ≠ j → h.store.segment? i = some s → h.store.segment? j = some t →
    (h.store.extent place s.backing).Apart (h.store.extent place t.backing)
  spare : h.store.spare.Pairwise fun a b =>
    (h.store.extent place (.pooled a)).Apart (h.store.extent place (.pooled b))
  unused : ∀ a ∈ h.store.spare, ∀ i s, h.store.segment? i = some s →
    (h.store.extent place (.pooled a)).Apart (h.store.extent place s.backing)

theorem Formed.isolated (hf : h.Formed) (hc : h.Configured) (hl : h.store.LaidOut place) :
    h.Isolated place := by
  have spare_held : ∀ a ∈ h.store.spare, h.store.Held place (.pooled a) :=
    fun a ha => (hf.store.spare_pooled a ha).held
  refine ⟨fun p hp => ?_, fun p e hp he => ?_, fun p q e f hne hp hq he hf' => ?_,
    fun i s hs => hf.store.held hs, spare_held,
    fun i j s t hne hs ht => hf.segments_apart hl hs ht hne, ?_, fun a ha i s hs => ?_⟩
  · obtain ⟨x, hx⟩ := hf.isAllocated_iff_lookup.mp hp
    obtain ⟨s, hs, hin⟩ := hf.within_segment place hx
    exact ⟨_, s, extent_of_lookup hx, hs, hin⟩
  · obtain ⟨x, hx⟩ := hf.isAllocated_iff_lookup.mp hp
    rw [extent_of_lookup hx] at he
    cases he
    have hdvd := hf.chunkBytes_dvd hl hx
    rw [chunkBytes_eq_config hf hc hx] at hdvd
    exact ⟨hdvd, Nat.dvd_trans hc.alignment_dvd hdvd⟩
  · obtain ⟨x, hx⟩ := hf.isAllocated_iff_lookup.mp hp
    obtain ⟨y, hy⟩ := hf.isAllocated_iff_lookup.mp hq
    rw [extent_of_lookup hx] at he
    rw [extent_of_lookup hy] at hf'
    cases he
    cases hf'
    exact hf.objects_apart hl hx hy hne
  · refine hf.store.spare_nodup.imp_of_mem fun ha hb hne => ?_
    refine hl.extent_apart (hf.store.spare_placed _ ha) (hf.store.spare_placed _ hb)
      (spare_held _ ha) (spare_held _ hb) ⟨hne, fun hd => ?_⟩
    rcases hd with hd | hd <;> cases hd
  · exact hl.extent_apart (hf.store.spare_placed a ha) (hf.store.placed i s hs) (spare_held a ha)
      (hf.store.held hs) (hf.store.spare_apart a ha i s hs)

/-! ## A place for every region -/

/-- The bytes of a pool block are a power of two. -/
theorem Configured.blockSize_eq (hc : h.Configured) (hf : h.Formed) {b : Block}
    (hb : b ∈ h.store.blocks) : ∃ k, b.size = Nat.pow 2 k := by
  obtain ⟨i, hi⟩ := Word.isPowerOfTwo_iff.mp hf.store.chunks_pow
  obtain ⟨j, hj⟩ := Word.isPowerOfTwo_iff.mp (Config.inOrder hc.accepted).segments_pow
  have hblocks : h.store.segmentsPerBlock = Nat.pow 2 j := hc.geometry.segmentsPerBlock.trans hj
  refine ⟨i + h.store.chunkBits + j, ?_⟩
  rw [(hf.store.block_size b hb).1, Store.areaBytes, Store.chunkBytes, hi, hblocks]
  simp only [Nat.pow_eq, Nat.pow_add]

/-- **The system can keep its promise**, with every region at a multiple
of the largest word. -/
theorem Formed.laidOut (hf : h.Formed) (hc : h.Configured) :
    h.store.LaidOut (· * Word.limit) := by
  have hsize : ∀ b n, h.store.Owns b n → b.size ≤ Word.maxSize := by
    intro b n hb
    cases hb with
    | pool hmem => exact (hf.store.block_size b hmem).2
    | single hs hbacking =>
      have hback := hf.store.backed _ _ hs
      rw [hbacking] at hback
      exact hback.2.2
  have hstep : ∀ r r' n, r < r' → n ≤ Word.maxSize → r * Word.limit + n ≤ r' * Word.limit := by
    intro r r' n hlt hn
    calc r * Word.limit + n ≤ r * Word.limit + Word.limit :=
          Nat.add_le_add_left (Nat.le_trans hn (by decide)) _
      _ = (r + 1) * Word.limit := (Nat.succ_mul _ _).symm
      _ ≤ r' * Word.limit := Nat.mul_le_mul_right _ hlt
  refine ⟨fun b n hb => Nat.dvd_mul_left_of_dvd ?_ _, fun b c m n hb hc' hne => ?_⟩
  · cases hb with
    | pool hmem =>
      obtain ⟨k, hk⟩ := hc.blockSize_eq hf hmem
      have hle := (hf.store.block_size b hmem).2
      rw [hk] at hle ⊢
      refine Word.dvd_limit (Nat.le_of_lt ?_)
      refine (Nat.pow_lt_pow_iff_right (a := 2) (by decide)).mp (Nat.lt_of_le_of_lt hle ?_)
      decide
    | single hs hbacking =>
      refine Word.dvd_limit ?_
      rw [hc.geometry.chunkBits]
      exact Word.trailingZeros_le _
  · simp only [Extent.Apart, Block.extent, Address.extent, Block.base, Nat.add_zero]
    rcases Nat.lt_or_gt_of_ne hne with hlt | hlt
    · exact Or.inl (hstep b.region c.region b.size hlt (hsize b m hb))
    · exact Or.inr (hstep c.region b.region c.size hlt (hsize c n hc'))

end Heap

end SegmentedHeap
