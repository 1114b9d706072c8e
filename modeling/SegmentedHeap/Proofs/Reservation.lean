/-
SegmentedHeap.Proofs.Reservation — a new segment is reserved.

A reservation that succeeds enters one segment with every slot free into
the table, at an index that was vacant, and no byte of memory that could
be read before reads differently after it. One that is refused leaves the
store as it was. The only fault it can meet is a size that does not fit a
word: a pool block's product, or a chunk of no size.

* `Sized`, `Oversized` — whether these sizes fit, and the fault if not.
* `growPool_of_sized`, `growPool_of_oversized` — the ways a pool grows.
* `takeArea_ends` — an area for a small segment, spare or of a new block.
* `reserveSmall_ends`, `reserveBig_ends` — the two reservations.
-/
import SegmentedHeap.Proofs.Store

namespace SegmentedHeap

/-! ## New segments -/

namespace Segment

/-- A small segment with every slot free. -/
def newSmall (kind : KindId) (chunks limit : Nat) (area : Address) (stored : Bool) : Segment where
  kind := kind
  chunks := chunks
  backing := .pooled area
  slots := OffsetSet.slotStarts chunks limit
  free := OffsetSet.slotStarts chunks limit
  lengths := if stored then some (Array.replicate limit 0) else none

theorem small_eq {chunks limit : Nat} (h : 0 < chunks) (hl : limit ≤ 64) (kind : KindId)
    (area : Address) (stored : Bool) :
    small kind chunks limit area stored = .ok (newSmall kind chunks limit area stored) := by
  simp [small, OffsetSet.slotStarts?, h, hl, newSmall, bind, Except.bind, pure, Except.pure]

/-- A segment whose slots are all free is well formed as soon as the table
of lengths covers them with zeros. -/
theorem wellFormed_of_free {s : Segment} (hf : s.free = s.slots) (h1 : s.gen1 = ∅)
    (h2 : s.gen2 = ∅) (hm : s.marked = ∅) (ho : s.oldToNew = ∅)
    (hl : ∀ lengths, s.lengths = some lengths → ∀ o, o ∈ s.slots → lengths[o.val]? = some 0) :
    s.WellFormed where
  free_slots o h := hf ▸ h
  gen1_allocated o h := absurd (h1 ▸ h) (OffsetSet.not_mem_empty o)
  gen2_allocated o h := absurd (h2 ▸ h) (OffsetSet.not_mem_empty o)
  marked_allocated o h := absurd (hm ▸ h) (OffsetSet.not_mem_empty o)
  oldToNew_allocated o h := absurd (ho ▸ h) (OffsetSet.not_mem_empty o)
  disjoint o h := absurd (h1 ▸ h) (OffsetSet.not_mem_empty o)
  oldToNew_old o h := absurd (ho ▸ h) (OffsetSet.not_mem_empty o)
  stored_slots lengths e o h :=
    Classical.byContradiction fun hn => by
      have := hl lengths e o h
      rw [Array.getElem?_eq_none (Nat.le_of_not_lt hn)] at this
      cases this
  stored_free lengths e o h := hl lengths e o (hf ▸ h)

theorem wellFormed_newSmall {chunks : Nat} (h : 0 < chunks) (kind : KindId) (limit : Nat)
    (area : Address) (stored : Bool) : (newSmall kind chunks limit area stored).WellFormed := by
  refine wellFormed_of_free rfl rfl rfl rfl rfl fun lengths e o ho => ?_
  have hlt : o.val < limit := by
    have := (OffsetSet.mem_slotStarts.mp ho).2
    omega
  cases stored with
  | false => cases e
  | true =>
    cases e
    simp [hlt]

theorem wellFormed_big (kind : KindId) (chunks : Nat) (block : Block) (stored : Bool) :
    (big kind chunks block stored).WellFormed := by
  refine wellFormed_of_free rfl rfl rfl rfl rfl fun lengths e o ho => ?_
  have h0 : (0 : Offset) = o := OffsetSet.mem_singleton.mp ho
  cases stored with
  | false => cases e
  | true =>
    cases e
    rw [← h0]
    rfl

end Segment

/-- Bytes of the block that a segment has to itself. -/
def Segment.ownBytes (t : Segment) : Nat :=
  match t.backing with
  | .pooled _ => 0
  | .dedicated block => block.size

/-! ## Areas -/

/-- A product of powers of two that is cut off to a word is either whole
or gone. -/
theorem Word.pow_mod_limit {n : Nat} (h : Nat.pow 2 n % Word.limit ≠ 0) :
    Nat.pow 2 n % Word.limit = Nat.pow 2 n := by
  rw [Nat.pow_eq] at h ⊢
  apply Nat.mod_eq_of_lt
  apply Classical.byContradiction
  intro hn
  have hle : 64 ≤ n := (Nat.pow_le_pow_iff_right (by decide : 1 < 2)).mp (Nat.le_of_not_lt hn)
  exact h (Nat.mod_eq_zero_of_dvd (Nat.pow_dvd_pow 2 hle))

/-- The areas of a block, in increasing order. -/
theorem Block.mem_areas {b : Block} {areaBytes : Nat} {areas : List Address}
    (h : b.areas areaBytes = .ok areas) :
    areas.Nodup ∧ ∀ a ∈ areas, a.region = b.region ∧ a.offset % areaBytes = 0 ∧
      a.offset + areaBytes ≤ b.size := by
  unfold Block.areas at h
  split at h
  · next hc =>
    cases h
    constructor
    · refine List.Pairwise.map _ (fun i j hij e => hij ?_) List.nodup_range
      have he : i * areaBytes = j * areaBytes := congrArg Address.offset e
      exact Nat.eq_of_mul_eq_mul_right hc.1 he
    · intro a ha
      obtain ⟨i, hi, rfl⟩ := List.mem_map.mp ha
      refine ⟨rfl, Nat.mul_mod_left i areaBytes, ?_⟩
      calc i * areaBytes + areaBytes = (i + 1) * areaBytes := (Nat.succ_mul i areaBytes).symm
        _ ≤ b.size / areaBytes * areaBytes := Nat.mul_le_mul_right _ (List.mem_range.mp hi)
        _ ≤ b.size := Nat.div_mul_le_self _ _
  · cases h

/-- A block of so many areas is cut into that many. -/
theorem Block.length_areas {b : Block} {areaBytes count : Nat} {areas : List Address}
    (h : b.areas areaBytes = .ok areas) (hsize : b.size = areaBytes * count) :
    areas.length = count := by
  unfold Block.areas at h
  split at h
  · next hc =>
    cases h
    rw [List.length_map, List.length_range, hsize, Nat.mul_div_cancel_left _ hc.1]
  · cases h

/-- A block that was granted is a new region, of a size that an object in
memory may have, and within the address space of the system. -/
theorem Block.reserve_eq {system : System} {held size align : Nat} {m m' : Memory} {b : Block}
    (h : Block.reserve system held m size align = .ok (b, m')) :
    b = ⟨m.regions.size, size⟩ ∧ m' = m.reserve.2 ∧ size ≤ Word.maxSize ∧
      held + size < Word.limit := by
  unfold Block.reserve at h
  split at h
  · cases h
  · next hwf =>
    split at h
    · cases h
    · next hgranted =>
      cases h
      simp only [wellFormed, Bool.not_eq_true', Bool.not_eq_false, Bool.and_eq_true,
        decide_eq_true_eq] at hwf
      rw [Bool.not_eq_true', Bool.not_eq_false] at hgranted
      exact ⟨rfl, rfl, Nat.le_trans (Nat.le_add_right _ _) hwf.2,
        system.bounded _ _ _ hgranted⟩

theorem Block.pool_eq {system : System} {held size : Nat} {m m' : Memory} {b : Block}
    (h : Block.pool system held m size = .ok (b, m')) :
    b = ⟨m.regions.size, size⟩ ∧ m' = m.reserve.2 ∧ 0 < size ∧ size ≤ Word.maxSize ∧
      held + size < Word.limit := by
  unfold Block.pool at h
  split at h
  · next hp =>
    obtain ⟨k, rfl⟩ := Word.isPowerOfTwo_iff.mp hp
    obtain ⟨hb, hm, hle, hlt⟩ := reserve_eq h
    exact ⟨hb, hm, Nat.two_pow_pos k, hle, hlt⟩
  · cases h

theorem Block.single_eq {system : System} {held size align : Nat} {m m' : Memory} {b : Block}
    (h : Block.single system held m size align = .ok (b, m')) :
    b = ⟨m.regions.size, max size 1⟩ ∧ m' = m.reserve.2 ∧ max size 1 ≤ Word.maxSize ∧
      held + max size 1 < Word.limit :=
  reserve_eq h

theorem Memory.size_reserve (m : Memory) : m.reserve.2.regions.size = m.regions.size + 1 := by
  simp [Memory.reserve]

/-- The next region is there once it is reserved. -/
theorem Memory.lt_size_reserve (m : Memory) : m.regions.size < m.reserve.2.regions.size := by
  rw [size_reserve]
  exact Nat.lt_succ_self _

namespace Store

theorem lift_of_ok {α : Type} {x : Except Fault α} {a : α} (h : x = .ok a) (s : Store) :
    lift x s = .ok a s := by
  subst h
  rfl

theorem lift_of_error {α : Type} {x : Except Fault α} {f : Fault} (h : x = .error f) (s : Store) :
    lift x s = .error (.fault f) s := by
  subst h
  rfl

theorem Ends.lift_bind {α β : Type} {x : Except Fault α} {f : α → StoreM β} {s : Store}
    {ok : β → Store → Prop} {refused : StoreError → Store → Prop} {faulted : Fault → Prop}
    (hok : ∀ a, x = .ok a → Ends (f a s) ok refused faulted)
    (hf : ∀ e, x = .error e → faulted e) : Ends ((lift x >>= f) s) ok refused faulted := by
  show Ends (EStateM.bind (lift x) f s) ok refused faulted
  cases x with
  | ok a => exact hok a rfl
  | error e => exact hf e rfl

/-! ## Sizes that fit -/

/-- Bytes of a pool block, as far as an area's bytes fit a word. -/
def poolBytes (s : Store) : Nat := s.segmentChunks * s.chunkBytes % Word.limit * s.segmentsPerBlock

/-- The sizes of a chunk and of a pool block fit a word. -/
structure Sized (s : Store) : Prop where
  chunk : s.chunkBits < 64
  pool : s.poolBytes < Word.limit

/-- The fault of a size that does not fit. -/
def Oversized (s : Store) (f : Fault) : Prop := f = .overflow ∧ ¬ s.Sized

theorem SameGeometry.sized_iff {s t : Store} (h : SameGeometry s t) : t.Sized ↔ s.Sized := by
  have hpool : t.poolBytes = s.poolBytes := by
    rw [poolBytes, poolBytes, h.segmentChunks, h.chunkBytes, h.segmentsPerBlock]
  constructor
  · intro ht
    exact ⟨h.chunkBits ▸ ht.chunk, hpool ▸ ht.pool⟩
  · intro hs
    exact ⟨h.chunkBits ▸ hs.chunk, hpool ▸ hs.pool⟩

theorem SameGeometry.oversized {s t : Store} {f : Fault} (h : SameGeometry s t)
    (hf : t.Oversized f) : s.Oversized f :=
  ⟨hf.1, fun hs => hf.2 (h.sized_iff.mpr hs)⟩

/-- A chunk without a size. -/
theorem oversized_of_chunkBits {s : Store} (h : ¬ s.chunkBits < 64) : s.Oversized .overflow :=
  ⟨rfl, fun hs => h hs.chunk⟩

/-! ## New regions -/

/-- The store with a new region, and with these counts of big segments. -/
def grown (s : Store) (big bigBytes : Nat) : Store :=
  { s with memory := s.memory.reserve.2, big, bigBytes }

/-- A new region gives more room and moves nothing. -/
theorem WellFormed.grown {s : Store} (h : s.WellFormed) {big bigBytes : Nat}
    (hlt : (s.grown big bigBytes).totalBytes < Word.limit) : (s.grown big bigBytes).WellFormed :=
  have hgeo : SameGeometry s (s.grown big bigBytes) := ⟨rfl, rfl, rfl, rfl, rfl⟩
  have hle := Nat.le_of_lt s.memory.lt_size_reserve
  { h with
    placed := fun i t ht => (h.placed i t ht).mono hgeo hle
    spare_placed := fun a ha => (h.spare_placed a ha).mono hgeo hle
    block_placed := fun b hb => Nat.lt_of_lt_of_le (h.block_placed b hb) hle
    totalBytes_lt := hlt }

/-- One area is spare no longer; or none was, and one more pool block has
come with its areas. -/
def Serves (s s' : Store) : Prop :=
  s'.blocks = s.blocks ∧ s.spare.length = s'.spare.length + 1 ∨
    s'.blocks.length = s.blocks.length + 1 ∧ s.spare = [] ∧
      s'.spare.length + 1 = s.segmentsPerBlock

/-- What taking area `a` leaves of a store. -/
structure AreaTaken (s : Store) (a : Address) (s' : Store) : Prop where
  wellFormed : s'.WellFormed
  geometry : SameGeometry s s'
  segments : s'.segments = s.segments
  vacant : s'.vacant = s.vacant
  reserved : s'.reserved = s.reserved
  big : s'.big = s.big
  bigBytes : s'.bigBytes = s.bigBytes
  serves : Serves s s'
  placed : s'.Placed (.pooled a)
  apart : ∀ i u, s.segment? i = some u → (Backing.pooled a).Apart u.backing
  not_spare : ¬ a ∈ s'.spare
  pooled : s'.Pooled a
  read : ∀ b, s'.memory.read b = s.memory.read b

/-- One more pool block takes nothing away. -/
theorem Backed.cons {s t : Store} {chunks : Nat} {b : Backing} {c : Block}
    (hb : s.Backed chunks b) (hplaced : s.Placed b) (hc : c.region = s.memory.regions.size)
    (h : SameGeometry s t) (hblocks : t.blocks = c :: s.blocks) : t.Backed chunks b := by
  cases b with
  | pooled a =>
    obtain ⟨d, hd, hr, hle⟩ := hb
    exact ⟨d, hblocks ▸ List.mem_cons_of_mem c hd, hr, by rw [h.areaBytes]; exact hle⟩
  | dedicated d =>
    obtain ⟨hne, hle, hmax⟩ := hb
    refine ⟨?_, ?_, hmax⟩
    · rw [hblocks]
      refine List.forall_mem_cons.mpr ⟨fun e => ?_, hne⟩
      exact Nat.ne_of_lt hplaced.1 (e.symm.trans hc)
    · rw [h.chunkBytes]
      exact hle

/-! ## New pool blocks -/

/-- The store with a new pool block of so many bytes, of which these areas
are spare. -/
def withBlock (s : Store) (size : Nat) (areas : List Address) : Store :=
  { s with
    memory := s.memory.reserve.2
    blocks := ⟨s.memory.regions.size, size⟩ :: s.blocks
    spare := areas ++ s.spare }

/-- The area is one of a pool block of so many bytes in the next region. -/
structure NewArea (s : Store) (size : Nat) (a : Address) : Prop where
  region : a.region = s.memory.regions.size
  aligned : a.offset % s.areaBytes = 0
  within : a.offset + s.areaBytes ≤ size

theorem sameGeometry_withBlock (s : Store) (size : Nat) (areas : List Address) :
    SameGeometry s (s.withBlock size areas) := ⟨rfl, rfl, rfl, rfl, rfl⟩

theorem totalBytes_withBlock (s : Store) (size : Nat) (areas : List Address) :
    (s.withBlock size areas).totalBytes = s.totalBytes + size := by
  show size + Word.total (s.blocks.map Block.size) + s.bigBytes = s.totalBytes + size
  rw [totalBytes]
  omega

namespace NewArea

variable {s : Store} {size : Nat} {a : Address}

/-- Nothing else is in the next region. -/
theorem region_ne (ha : s.NewArea size a) {region : Nat} (h : region < s.memory.regions.size) :
    a.region ≠ region := by
  rw [ha.region]
  exact Ne.symm (Nat.ne_of_lt h)

theorem apart (ha : s.NewArea size a) (h : s.WellFormed) {i : SegmentIndex} {t : Segment}
    (ht : s.segment? i = some t) : (Backing.pooled a).Apart t.backing :=
  Backing.apart_of_region (ha.region_ne (h.placed i t ht).1)

theorem not_spare (ha : s.NewArea size a) (h : s.WellFormed) : a ∉ s.spare := fun hm =>
  ha.region_ne (h.spare_placed a hm).1 rfl

theorem placed (ha : s.NewArea size a) (areas : List Address) :
    (s.withBlock size areas).Placed (.pooled a) := by
  refine ⟨?_, fun _ => ha.aligned⟩
  show a.region < s.memory.reserve.2.regions.size
  rw [ha.region]
  exact s.memory.lt_size_reserve

theorem pooled (ha : s.NewArea size a) (areas : List Address) :
    (s.withBlock size areas).Pooled a :=
  ⟨_, List.mem_cons_self, ha.region.symm, ha.within⟩

end NewArea

/-- A pool block is added, and areas of it that are spare. -/
theorem WellFormed.withBlock {s : Store} (h : s.WellFormed) {areas : List Address} {size : Nat}
    (hnodup : areas.Nodup) (hnew : ∀ a ∈ areas, s.NewArea size a)
    (hsize : size = s.areaBytes * s.segmentsPerBlock) (hmax : size ≤ Word.maxSize)
    (hlt : s.totalBytes + size < Word.limit) : (s.withBlock size areas).WellFormed := by
  have hgrown : (s.grown s.big s.bigBytes).WellFormed := h.grown h.totalBytes_lt
  have hgeo := sameGeometry_withBlock s size areas
  refine { hgrown with
    spare_placed := fun a ha => ?_
    spare_nodup := ?_
    spare_apart := fun a ha => ?_
    block_size := List.forall_mem_cons.mpr ⟨⟨hsize, hmax⟩, h.block_size⟩
    block_placed := List.forall_mem_cons.mpr ⟨s.memory.lt_size_reserve, hgrown.block_placed⟩
    block_nodup := ?_
    backed := fun i t ht => (h.backed i t ht).cons (h.placed i t ht) rfl hgeo rfl
    spare_pooled := fun a ha => ?_
    totalBytes_lt := by rw [totalBytes_withBlock]; exact hlt }
  · rcases List.mem_append.mp ha with ha | ha
    · exact (hnew a ha).placed areas
    · exact hgrown.spare_placed a ha
  · refine List.nodup_append.mpr ⟨hnodup, h.spare_nodup, fun a ha b hb e => ?_⟩
    exact (hnew a ha).not_spare h (e ▸ hb)
  · rcases List.mem_append.mp ha with ha | ha
    · exact fun i t ht => (hnew a ha).apart h ht
    · exact hgrown.spare_apart a ha
  · refine List.nodup_cons.mpr ⟨fun hm => ?_, h.block_nodup⟩
    obtain ⟨b, hb, e⟩ := List.mem_map.mp hm
    exact Nat.ne_of_lt (h.block_placed b hb) e
  · rcases List.mem_append.mp ha with ha | ha
    · exact (hnew a ha).pooled areas
    · have hb : s.Backed 0 (.pooled a) := h.spare_pooled a ha
      exact hb.cons (h.spare_placed a ha) rfl hgeo rfl

/-- The first area of a new pool block is taken, and the others are spare. -/
theorem WellFormed.areaTaken {s : Store} (h : s.WellFormed) {a : Address} {rest : List Address}
    {size : Nat} (hspare : s.spare = []) (hnodup : (a :: rest).Nodup)
    (hlen : (a :: rest).length = s.segmentsPerBlock) (hnew : ∀ b ∈ a :: rest, s.NewArea size b)
    (hsize : size = s.areaBytes * s.segmentsPerBlock) (hmax : size ≤ Word.maxSize)
    (hlt : s.totalBytes + size < Word.limit) : AreaTaken s a (s.withBlock size rest) := by
  obtain ⟨ha, hrest⟩ := List.nodup_cons.mp hnodup
  obtain ⟨hfirst, hothers⟩ := List.forall_mem_cons.mp hnew
  have hserves : Serves s (s.withBlock size rest) :=
    Or.inr ⟨rfl, hspare, by rw [Store.withBlock, hspare, List.append_nil]; exact hlen⟩
  exact {
    wellFormed := h.withBlock hrest hothers hsize hmax hlt
    geometry := sameGeometry_withBlock s size rest
    segments := rfl
    vacant := rfl
    reserved := rfl
    big := rfl
    bigBytes := rfl
    serves := hserves
    placed := hfirst.placed rest
    apart := fun i t ht => hfirst.apart h ht
    not_spare := fun hm => (List.mem_append.mp hm).elim ha (hfirst.not_spare h)
    pooled := hfirst.pooled rest
    read := Memory.read_reserve s.memory }

/-- Where a pool block was had, its size did not leave the word, and so
neither did that of an area. -/
theorem WellFormed.areaBytes_eq {s : Store} (h : s.WellFormed) {areaBytes : Nat}
    (hb : s.segmentBytes? = .ok areaBytes) (hpos : areaBytes ≠ 0) : areaBytes = s.areaBytes := by
  obtain ⟨k, hk⟩ := Word.isPowerOfTwo_iff.mp h.chunks_pow
  unfold segmentBytes? at hb
  split at hb
  · have e := (Except.ok.inj hb).symm
    have hpow : s.segmentChunks * s.chunkBytes = Nat.pow 2 (k + s.chunkBits) := by
      rw [hk, chunkBytes, Nat.pow_eq, Nat.pow_eq, Nat.pow_eq, Nat.pow_add]
    rw [hpow] at e
    rw [Store.areaBytes, hpow, e]
    exact Word.pow_mod_limit (e ▸ hpos)
  · cases hb

theorem lift_segmentBytes {s : Store} (hbits : s.chunkBits < 64) :
    lift s.segmentBytes? s = .ok (s.segmentChunks * s.chunkBytes % Word.limit) s :=
  lift_of_ok (if_pos hbits) s

theorem lift_chunkBytes {s : Store} (hbits : s.chunkBits < 64) :
    lift s.chunkBytes? s = .ok s.chunkBytes s :=
  lift_of_ok (if_pos hbits) s

/-- A pool does not grow if its block, or a chunk, has no size. -/
theorem growPool_of_oversized {s : Store} (hs : ¬ s.Sized) :
    growPool s = .error (.fault .overflow) s := by
  rw [growPool, get_bind_eq]
  by_cases hbits : s.chunkBits < 64
  · have hmul : Word.mul (s.segmentChunks * s.chunkBytes % Word.limit) s.segmentsPerBlock =
        .error .overflow := if_neg fun hpool => hs ⟨hbits, hpool⟩
    rw [bind_of_ok (lift_segmentBytes hbits), get_bind_eq, bind_of_error (lift_of_error hmul s)]
  · have hbytes : s.segmentBytes? = .error .overflow := if_neg hbits
    rw [bind_of_error (lift_of_error hbytes s)]

/-- A block that is granted has bytes, and so is cut into some area. -/
theorem areas_of_granted {s : Store} {held : Nat} {block : Block} {memory : Memory}
    (hpool : Block.pool s.system held s.memory s.poolBytes = .ok (block, memory)) :
    ∃ a rest, block.areas (s.segmentChunks * s.chunkBytes % Word.limit) = .ok (a :: rest) := by
  obtain ⟨rfl, _, hpos, _⟩ := Block.pool_eq hpool
  have hareas : Block.areas ⟨s.memory.regions.size, s.poolBytes⟩
      (s.segmentChunks * s.chunkBytes % Word.limit) = .ok _ :=
    if_pos ⟨Nat.pos_of_mul_pos_right hpos, Nat.mul_mod_right _ _⟩
  generalize List.map _ _ = areas at hareas
  cases areas with
  | cons a rest => exact ⟨a, rest, hareas⟩
  | nil =>
    have hzero := Block.length_areas hareas (rfl : s.poolBytes = _)
    rw [poolBytes, ← hzero, List.length_nil, Nat.mul_zero] at hpos
    exact absurd hpos (Nat.lt_irrefl 0)

/-- With sizes that fit, a pool grows if its block is granted, and is
refused with it. -/
theorem growPool_of_sized {s : Store} (hs : s.Sized) :
    (∃ e, Block.pool s.system s.totalBytes s.memory s.poolBytes = .error e ∧
      growPool s = .error (.refused (.block e)) s) ∨
    ∃ block memory a rest,
      Block.pool s.system s.totalBytes s.memory s.poolBytes = .ok (block, memory) ∧
      block.areas (s.segmentChunks * s.chunkBytes % Word.limit) = .ok (a :: rest) ∧
      growPool s = .ok a (s.withBlock s.poolBytes rest) := by
  have hmul : Word.mul (s.segmentChunks * s.chunkBytes % Word.limit) s.segmentsPerBlock =
      .ok s.poolBytes := if_pos hs.pool
  rw [growPool, get_bind_eq, bind_of_ok (lift_segmentBytes hs.chunk), get_bind_eq,
    bind_of_ok (lift_of_ok hmul s), get_bind_eq]
  cases hpool : Block.pool s.system s.totalBytes s.memory s.poolBytes with
  | error e => exact Or.inl ⟨e, rfl, rfl⟩
  | ok p =>
    obtain ⟨block, memory⟩ := p
    obtain ⟨a, rest, hareas⟩ := areas_of_granted hpool
    refine Or.inr ⟨block, memory, a, rest, rfl, hareas, ?_⟩
    simp only
    rw [bind_of_ok (lift_of_ok hareas s)]
    obtain ⟨rfl, rfl, _⟩ := Block.pool_eq hpool
    rfl

theorem growPool_ends {s : Store} (h : s.WellFormed) (hspare : s.spare = []) :
    Ends (growPool s) (fun a s' => AreaTaken s a s') (fun _ s' => s' = s) s.Oversized := by
  by_cases hs : s.Sized
  · rcases growPool_of_sized hs with ⟨e, _, hrun⟩ | ⟨block, memory, a, rest, hpool, hareas, hrun⟩
    · rw [hrun]
      rfl
    · obtain ⟨rfl, _, hpos, hmax, hlt⟩ := Block.pool_eq hpool
      have harea : s.segmentChunks * s.chunkBytes % Word.limit = s.areaBytes :=
        h.areaBytes_eq (if_pos hs.chunk) (Nat.ne_of_gt (Nat.pos_of_mul_pos_right hpos))
      obtain ⟨hnodup, hmem⟩ := Block.mem_areas hareas
      rw [harea] at hmem
      exact Ends.of_eq hrun (h.areaTaken hspare hnodup (Block.length_areas hareas rfl)
        (fun b hb => ⟨(hmem b hb).1, (hmem b hb).2.1, (hmem b hb).2.2⟩)
        (by rw [poolBytes, harea]) hmax hlt)
  · rw [growPool_of_oversized hs]
    exact ⟨rfl, hs⟩

/-- An area for a small segment is taken for good: nothing else uses it,
and it is spare no longer. -/
theorem takeArea_ends {s : Store} (h : s.WellFormed) :
    Ends (takeArea s) (fun a s' => AreaTaken s a s') (fun _ s' => s' = s) s.Oversized := by
  unfold takeArea
  refine Ends.get_bind ?_
  cases hs : s.spare with
  | nil => exact growPool_ends h hs
  | cons a rest =>
    have hmem : ∀ b, b ∈ a :: rest → b ∈ s.spare := fun b hb => hs ▸ hb
    obtain ⟨ha, hrest⟩ := List.nodup_cons.mp (hs ▸ h.spare_nodup)
    refine ⟨?_, ⟨rfl, rfl, rfl, rfl, rfl⟩, rfl, rfl, rfl, rfl, rfl,
      Or.inl ⟨rfl, congrArg List.length hs⟩, h.spare_placed a (hmem a List.mem_cons_self),
      h.spare_apart a (hmem a List.mem_cons_self), ha, h.spare_pooled a (hmem a List.mem_cons_self),
      fun _ => rfl⟩
    exact { h with
      spare_placed := fun b hb => h.spare_placed b (hmem b (List.mem_cons_of_mem a hb))
      spare_nodup := hrest
      spare_apart := fun b hb => h.spare_apart b (hmem b (List.mem_cons_of_mem a hb))
      spare_pooled := fun b hb => h.spare_pooled b (hmem b (List.mem_cons_of_mem a hb)) }

/-! ## Reserving -/

theorem checkLimit_of_le {s : Store} (h : s.maxSegments ≤ s.reserved) :
    checkLimit s = .error (.refused (.segmentLimit s.maxSegments)) s := by
  rw [checkLimit, get_bind_eq, if_pos h]
  rfl

theorem checkLimit_of_lt {s : Store} (h : s.reserved < s.maxSegments) :
    checkLimit s = .ok () s := by
  rw [checkLimit, get_bind_eq, if_neg (Nat.not_le.mpr h)]
  rfl

theorem checkLimit_ends (s : Store) {faulted : Fault → Prop} :
    Ends (checkLimit s) (fun _ s' => s' = s ∧ s.reserved < s.maxSegments) (fun _ s' => s' = s)
      faulted := by
  unfold checkLimit
  refine Ends.get_bind ?_
  by_cases hn : s.maxSegments ≤ s.reserved
  · rw [if_pos hn]
    rfl
  · rw [if_neg hn]
    exact ⟨rfl, Nat.lt_of_not_le hn⟩

/-- What reserving a segment leaves of a store: the segment is entered
into the table, and what could be read reads as before. A small one takes
an area, and a big one has a block that is as long as its chunks. -/
structure Reserved (s : Store) (t : Segment) (i : SegmentIndex) (s' : Store) : Prop
    extends Entered s t i s' where
  read : ∀ b, s'.memory.read b = s.memory.read b
  big : s'.big = s.big + t.isBig.toNat
  bigBytes : s'.bigBytes = s.bigBytes + t.ownBytes
  pool : if t.isBig then s'.blocks = s.blocks ∧ s'.spare = s.spare else Serves s s'
  ownBytes : t.isBig = true → t.ownBytes = max (t.chunks * s.chunkBytes) 1

/-- A small reservation enters a segment with every slot free, or changes
nothing. -/
theorem reserveSmall_ends {s : Store} (h : s.WellFormed) {chunks : Nat} (hc : 0 < chunks)
    (kind : KindId) (stored : Bool) :
    Ends (reserveSmall kind chunks stored s)
      (fun i s' => ∃ area, Reserved s (.newSmall kind chunks s.segmentChunks area stored) i s')
      (fun _ s' => s' = s) s.Oversized := by
  unfold reserveSmall
  refine (checkLimit_ends s).bind fun _ s₀ hs₀ => ?_
  obtain ⟨rfl, hroom⟩ := hs₀
  refine (takeArea_ends h).bind fun area s₁ hs₁ => Ends.get_bind ?_
  have hgeo := hs₁.geometry
  have hseg : ∀ i, s₁.segment? i = s₀.segment? i := fun i => by
    rw [segment?, segment?, hs₁.segments]
  -- the area that was taken lies in a block of the pool, and no other segment has it
  have hent : s₁.Enterable (.newSmall kind chunks s₀.segmentChunks area stored) := {
    room := by rw [hs₁.reserved, hgeo.maxSegments]; exact hroom
    wellFormed := Segment.wellFormed_newSmall hc kind _ area stored
    placed := hs₁.placed
    apart := fun i u hu => hs₁.apart i u (by rw [← hseg]; exact hu)
    spare_apart := fun a ha => by
      refine ⟨fun e => ?_, fun hd => by rcases hd with hd | hd <;> cases hd⟩
      have e : a = area := e
      exact hs₁.not_spare (e ▸ ha)
    backed := hs₁.pooled }
  obtain ⟨i, s₂, he, hin, hpool⟩ := install_eq hs₁.wellFormed hent
  show Ends ((lift (Segment.small kind chunks s₁.segmentChunks area stored) >>=
    fun t => install t) s₁) _ _ _
  rw [Segment.small_eq hc hs₁.wellFormed.chunks_le, hgeo.segmentChunks]
  refine Ends.lift_bind (fun t ht => ?_) (fun _ he => by cases he)
  cases ht
  rw [he]
  refine ⟨area, ⟨?_, hin.wellFormed, hgeo.trans hin.geometry, ?_, fun j => ?_, ?_, ?_⟩,
    fun b => ?_, hpool.big.trans hs₁.big, hpool.bigBytes.trans hs₁.bigBytes, ?_,
    fun hb => Bool.noConfusion hb⟩
  · rw [hin.index, nextIndex, nextIndex, hs₁.vacant, hs₁.segments]
  · rw [← hseg]
    exact hin.fresh
  · rw [hin.segment?, hseg]
  · rw [hin.size, hs₁.segments, hs₁.reserved]
  · rw [hin.reserved, hs₁.reserved]
  · rw [hpool.memory, hs₁.read]
  · show Serves s₀ s₂
    rw [Serves, hpool.blocks, hpool.spare]
    exact hs₁.serves

/-- A block of its own is a region that nothing else is in. -/
theorem WellFormed.enterable_big {s : Store} (h : s.WellFormed) (hroom : s.reserved < s.maxSegments)
    (big bigBytes : Nat) {size : Nat} (kind : KindId) {chunks : Nat} (stored : Bool)
    (hle : chunks * s.chunkBytes ≤ size) (hmax : size ≤ Word.maxSize) :
    (s.grown big bigBytes).Enterable
      (.big kind chunks ⟨s.memory.regions.size, size⟩ stored) where
  room := hroom
  wellFormed := Segment.wellFormed_big kind chunks _ stored
  placed := ⟨s.memory.lt_size_reserve, nofun⟩
  apart i u hu := Backing.apart_of_region (Ne.symm (Nat.ne_of_lt (h.placed i u hu).1))
  spare_apart a ha := Backing.apart_of_region (Nat.ne_of_lt (h.spare_placed a ha).1)
  backed := ⟨fun b hb => Nat.ne_of_lt (h.block_placed b hb), hle, hmax⟩

/-- With room in the table and a size that fits, a big segment is had if
its block is granted, and is refused with it. -/
theorem reserveBig_eq {s : Store} (hroom : s.reserved < s.maxSegments) (hbits : s.chunkBits < 64)
    (kind : KindId) {chunks : Nat} (stored : Bool) (hlt : chunks * s.chunkBytes < Word.limit) :
    reserveBig kind chunks stored s =
      match Block.single s.system s.totalBytes s.memory (chunks * s.chunkBytes) s.chunkBytes with
      | .error e => .error (.refused (.block e)) s
      | .ok (block, memory) => install (.big kind chunks block stored)
          { s with memory, big := s.big + 1, bigBytes := s.bigBytes + block.size } := by
  rw [reserveBig, bind_of_ok (checkLimit_of_lt hroom), get_bind_eq,
    bind_of_ok (lift_chunkBytes hbits)]
  simp only [Nat.not_le.mpr hlt, if_false]
  rw [get_bind_eq]
  cases Block.single s.system s.totalBytes s.memory (chunks * s.chunkBytes) s.chunkBytes with
  | error e => rfl
  | ok p => rfl

/-- A big reservation enters a segment with its one slot free, or changes
nothing. -/
theorem reserveBig_ends {s : Store} (h : s.WellFormed) (kind : KindId) (chunks : Nat)
    (stored : Bool) :
    Ends (reserveBig kind chunks stored s)
      (fun i s' => ∃ block, Reserved s (.big kind chunks block stored) i s')
      (fun _ s' => s' = s) s.Oversized := by
  by_cases hfull : s.maxSegments ≤ s.reserved
  · rw [reserveBig, bind_of_error (checkLimit_of_le hfull)]
    rfl
  have hroom := Nat.lt_of_not_le hfull
  -- the size in bytes is computed in two steps, and either may overflow
  by_cases hbits : s.chunkBits < 64
  · by_cases hlt : chunks * s.chunkBytes < Word.limit
    · rw [reserveBig_eq hroom hbits kind stored hlt]
      cases hsingle :
          Block.single s.system s.totalBytes s.memory (chunks * s.chunkBytes) s.chunkBytes with
      | error e => rfl
      | ok p =>
        obtain ⟨block, memory⟩ := p
        obtain ⟨rfl, rfl, hmax, hheld⟩ := Block.single_eq hsingle
        have htotal : (s.grown (s.big + 1)
            (s.bigBytes + max (chunks * s.chunkBytes) 1)).totalBytes < Word.limit := by
          rw [totalBytes, Nat.add_assoc] at hheld
          exact hheld
        obtain ⟨i, s₁, he, hin, hpool⟩ := install_eq (h.grown htotal)
          (h.enterable_big hroom (s.big + 1) (s.bigBytes + max (chunks * s.chunkBytes) 1) kind
            stored (Nat.le_max_left _ 1) hmax)
        refine Ends.of_eq he
          ⟨_, ⟨hin.index, hin.wellFormed, ?_, hin.fresh, hin.segment?, hin.size, hin.reserved⟩,
            fun b => ?_, hpool.big, hpool.bigBytes, ⟨hpool.blocks, hpool.spare⟩, fun _ => rfl⟩
        · exact ⟨hin.geometry.chunkBits, hin.geometry.segmentChunks, hin.geometry.segmentsPerBlock,
            hin.geometry.maxSegments, hin.geometry.system⟩
        · rw [hpool.memory]
          exact Memory.read_reserve s.memory b
    · rw [reserveBig, bind_of_ok (checkLimit_of_lt hroom), get_bind_eq,
        bind_of_ok (lift_chunkBytes hbits)]
      simp only [Nat.le_of_not_lt hlt, if_true]
      rfl
  · have hbytes : s.chunkBytes? = .error .overflow := if_neg hbits
    rw [reserveBig, bind_of_ok (checkLimit_of_lt hroom), get_bind_eq,
      bind_of_error (lift_of_error hbytes s)]
    exact oversized_of_chunkBits hbits

end Store

end SegmentedHeap
