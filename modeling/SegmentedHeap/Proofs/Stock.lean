/-
SegmentedHeap.Proofs.Stock — the store keeps its books.

The store says the same thing several times over: in the table, in the
lists of vacant entries and spare areas, in the pool blocks and in its
counters. In every run of reservations and releases they agree. Two of
the figures look back over the whole run: the table is as long as the
most segments that were ever reserved at once, and there are just enough
pool blocks for the most small ones.

* `count`, `summed` — what the table itself holds.
* `Accounted` — the counters agree with the table and the lists.
* `Advances` — what one step of a run does to the figures.
* `Run`, `Peak` — a run of the store, and the most that a number ever was.
* `TakenBack`, `Answers` — what the operations answer.
* `Run.stock_balanced` — **the books of a run balance**.
-/
import Mathlib.Order.Bounds.Basic
import SegmentedHeap.Proofs.Counting
import SegmentedHeap.Proofs.Invariant

namespace SegmentedHeap

/-- Whether a segment lies in a pool block. -/
def Segment.isSmall (t : Segment) : Bool := !t.isBig

namespace Store

/-! ## What the table holds -/

/-- How many reserved segments have a property. -/
def count (s : Store) (P : Segment → Bool) : Nat := s.entries.countP fun e => P e.2

/-- The sum of a number over the reserved segments. -/
def summed (s : Store) (w : Segment → Nat) : Nat := Word.total (s.entries.map fun e => w e.2)

/-- The table of `s'` is that of `s` with one more segment. -/
structure Adds (s : Store) (i : SegmentIndex) (t : Segment) (s' : Store) : Prop where
  fresh : s.segment? i = none
  segment? : ∀ j, s'.segment? j = if i = j then some t else s.segment? j

section

variable {s s' : Store} {i : SegmentIndex} {t : Segment}

theorem nodup_entries (s : Store) : s.entries.Nodup :=
  (Heap.entries_pairwise s).imp fun hne e => hne (congrArg Prod.fst e)

/-- One more segment is one more entry. -/
theorem Adds.entries (ha : Adds s i t s') : s'.entries.Perm ((i, t) :: s.entries) := by
  have hnew : (i, t) ∉ s.entries := fun hm => by
    rw [mem_entries, ha.fresh] at hm
    cases hm
  refine (List.perm_ext_iff_of_nodup s'.nodup_entries
    (List.nodup_cons.mpr ⟨hnew, s.nodup_entries⟩)).mpr fun ⟨j, u⟩ => ?_
  rw [List.mem_cons, mem_entries, mem_entries, ha.segment?, Prod.mk.injEq]
  by_cases e : i = j
  · subst e
    simp [ha.fresh, eq_comm]
  · simp [e, Ne.symm e]

theorem Adds.length (ha : Adds s i t s') : s'.entries.length = s.entries.length + 1 :=
  ha.entries.length_eq

theorem Adds.count (ha : Adds s i t s') (P : Segment → Bool) :
    s'.count P = s.count P + (P t).toNat := by
  rw [Store.count, ha.entries.countP_eq, List.countP_cons]
  cases P t <;> rfl

theorem Adds.summed (ha : Adds s i t s') (w : Segment → Nat) :
    s'.summed w = s.summed w + w t := by
  rw [Store.summed, Word.total_perm (ha.entries.map _), List.map_cons, Word.total_cons,
    Nat.add_comm]
  rfl

/-- Taking a segment back undoes entering it. -/
theorem adds_release (hi : s.segment? i = some t) : Adds (s.release i) i t s where
  fresh := by rw [segment?_release, if_pos rfl]
  segment? j := by
    rw [segment?_release]
    by_cases e : i = j
    · rw [if_pos e, ← e, hi]
    · rw [if_neg e, if_neg e]

end

/-! ## The counters -/

/-- The counters agree with the table, and the areas of the pool blocks
are spare or in use. -/
structure Accounted (s : Store) : Prop extends WellFormed s where
  reserved_eq : s.reserved = s.entries.length
  big_eq : s.big = s.count Segment.isBig
  bigBytes_eq : s.bigBytes = s.summed Segment.ownBytes
  ownBytes_eq : ∀ i t, s.segment? i = some t → t.isBig = true →
    t.ownBytes = t.chunks * s.chunkBytes
  pool_eq : s.blocks.length * s.segmentsPerBlock = s.spare.length + s.count Segment.isSmall

/-- What a step does to the figures that look back. -/
structure Advances (s s' : Store) : Prop where
  accounted : s'.Accounted
  geometry : SameGeometry s s'
  size : s'.segments.size = max s.segments.size s'.reserved
  blocks : s'.blocks.length = s.blocks.length ∨ s'.blocks.length = s.blocks.length + 1 ∧
    s.blocks.length * s.segmentsPerBlock < s'.count Segment.isSmall

section

variable {s s' : Store} {i : SegmentIndex} {t : Segment}

theorem WellFormed.reserved_le (h : s.WellFormed) : s.reserved ≤ s.segments.size := by
  rw [h.size_eq]
  exact Nat.le_add_right _ _

theorem Advances.refl (h : s.Accounted) : Advances s s :=
  ⟨h, .refl s, (Nat.max_eq_left h.reserved_le).symm, Or.inl rfl⟩

/-- A segment is reserved. A big one is sized from its chunks, of which it
has at least one. -/
theorem Accounted.reserve (h : s.Accounted) (hr : Reserved s t i s')
    (hchunks : t.isBig = true → 1 ≤ t.chunks) : Advances s s' := by
  have ha : Adds s i t s' := ⟨hr.fresh, hr.segment?⟩
  have hown : t.isBig = true → t.ownBytes = t.chunks * s.chunkBytes := fun hb => by
    rw [hr.ownBytes hb, Nat.max_eq_left]
    exact Nat.mul_pos (hchunks hb) (Nat.two_pow_pos _)
  have hsmall : s'.count Segment.isSmall = s.count Segment.isSmall + (!t.isBig).toNat :=
    ha.count Segment.isSmall
  have hpool := hr.pool
  have hold := h.pool_eq
  refine ⟨⟨hr.wellFormed, ?_, ?_, ?_, fun j u hu hb => ?_, ?_⟩, hr.geometry,
    by rw [hr.size, hr.reserved], ?_⟩
  · rw [hr.reserved, ha.length, h.reserved_eq]
  · rw [hr.big, ha.count, h.big_eq]
  · rw [hr.bigBytes, ha.summed, h.bigBytes_eq]
  · rw [hr.geometry.chunkBytes]
    rw [hr.segment?] at hu
    split at hu
    · cases hu
      exact hown hb
    · exact h.ownBytes_eq j u hu hb
  · rw [hr.geometry.segmentsPerBlock]
    cases hb : t.isBig with
    | true =>
      simp only [hb, if_true] at hpool
      rw [hpool.1, hpool.2, hsmall, hb, hold]
      rfl
    | false =>
      simp only [hb, Bool.false_eq_true, if_false] at hpool
      rw [hsmall, hb, Bool.not_false, Bool.toNat_true]
      -- a spare area was there, or a block was added of which one area is taken
      rcases hpool with ⟨hblocks, hspare⟩ | ⟨hblocks, hspare, hnew⟩
      · rw [hblocks]
        omega
      · rw [hblocks, Nat.succ_mul, hold, hspare, List.length_nil]
        omega
  · cases hb : t.isBig with
    | true =>
      simp only [hb, if_true] at hpool
      rw [hpool.1]
      exact Or.inl rfl
    | false =>
      simp only [hb, Bool.false_eq_true, if_false] at hpool
      rcases hpool with ⟨hblocks, _⟩ | ⟨hblocks, hspare, _⟩
      · rw [hblocks]
        exact Or.inl rfl
      · refine Or.inr ⟨hblocks, ?_⟩
        rw [hold, hsmall, hb, hspare, List.length_nil, Bool.not_false, Bool.toNat_true]
        omega

/-- What a release does to the counters. -/
theorem release_counters (hi : s.segment? i = some t) :
    (s.release i).big = s.big - t.isBig.toNat ∧
      (s.release i).bigBytes = s.bigBytes - t.ownBytes ∧
      (s.release i).spare.length = s.spare.length + t.isSmall.toNat := by
  rw [release_eq hi]
  unfold Segment.isSmall Segment.isBig Segment.ownBytes
  cases t.backing <;> exact ⟨rfl, rfl, rfl⟩

theorem Accounted.release (h : s.Accounted) (hi : s.segment? i = some t) :
    Advances s (s.release i) := by
  have ha := adds_release hi
  have hgeo := sameGeometry_release s i
  obtain ⟨hbig, hbytes, hspare⟩ := release_counters hi
  have hres := (vacant_release hi).2
  have hblocks := blocks_release s i
  refine ⟨⟨h.toWellFormed.release i, ?_, ?_, ?_, fun j u hu hb => ?_, ?_⟩, hgeo, ?_,
    Or.inl (congrArg List.length hblocks)⟩
  · rw [hres, h.reserved_eq, ha.length, Nat.add_sub_cancel]
  · rw [hbig, h.big_eq, ha.count, Nat.add_sub_cancel]
  · rw [hbytes, h.bigBytes_eq, ha.summed, Nat.add_sub_cancel]
  · rw [hgeo.chunkBytes]
    refine h.ownBytes_eq j u ?_ hb
    rw [ha.segment?]
    split
    · next e =>
      rw [← e, ha.fresh] at hu
      cases hu
    · exact hu
  · have hold := h.pool_eq
    have hsmall := ha.count Segment.isSmall
    rw [hblocks, hgeo.segmentsPerBlock, hold, hspare, hsmall]
    omega
  · have hle := h.reserved_le
    rw [segments_size_release, hres]
    omega

end

/-! ## Stores with the same stock -/

/-- The two stores have the same segments reserved, and the same counters
and lists. What the segments say of their objects may differ. -/
structure SameStock (s s' : Store) : Prop where
  geometry : SameGeometry s s'
  size : s'.segments.size = s.segments.size
  vacant : s'.vacant = s.vacant
  spare : s'.spare = s.spare
  blocks : s'.blocks = s.blocks
  reserved : s'.reserved = s.reserved
  big : s'.big = s.big
  bigBytes : s'.bigBytes = s.bigBytes
  segment? : ∀ i, (s.segment? i).elim (s'.segment? i = none) fun t =>
    ∃ t', s'.segment? i = some t' ∧ Segment.SameShape t t'

namespace SameStock

variable {s s' s'' : Store} {i : SegmentIndex} {t : Segment}

theorem refl (s : Store) : SameStock s s := by
  refine ⟨.refl s, rfl, rfl, rfl, rfl, rfl, rfl, rfl, fun i => ?_⟩
  cases h : s.segment? i with
  | none => rfl
  | some t => exact ⟨t, rfl, .refl t⟩

theorem of_none (h : SameStock s s') (hi : s.segment? i = none) : s'.segment? i = none := by
  have hs := h.segment? i
  rw [hi] at hs
  exact hs

theorem of_some (h : SameStock s s') (hi : s.segment? i = some t) :
    ∃ t', s'.segment? i = some t' ∧ Segment.SameShape t t' := by
  have hs := h.segment? i
  rw [hi] at hs
  exact hs

theorem trans (h : SameStock s s') (k : SameStock s' s'') : SameStock s s'' := by
  refine ⟨h.geometry.trans k.geometry, k.size.trans h.size, k.vacant.trans h.vacant,
    k.spare.trans h.spare, k.blocks.trans h.blocks, k.reserved.trans h.reserved,
    k.big.trans h.big, k.bigBytes.trans h.bigBytes, fun i => ?_⟩
  cases hi : s.segment? i with
  | none => exact k.of_none (h.of_none hi)
  | some t =>
    obtain ⟨t', ht', hshape⟩ := h.of_some hi
    obtain ⟨t'', ht'', hshape'⟩ := k.of_some ht'
    exact ⟨t'', ht'', hshape.trans hshape'⟩

/-- A figure that depends on the shape of segments alone is the same. -/
theorem map_entries {α : Type} (h : SameStock s s') {f : Segment → α}
    (hf : ∀ t t', Segment.SameShape t t' → f t' = f t) :
    s'.entries.map (fun e => f e.2) = s.entries.map fun e => f e.2 := by
  rw [entries, entries, List.map_filterMap, List.map_filterMap, h.size]
  refine List.filterMap_congr fun i _ => ?_
  cases hi : s.segment? i with
  | none => rw [h.of_none hi]
  | some t =>
    obtain ⟨t', ht', hshape⟩ := h.of_some hi
    rw [ht']
    exact congrArg some (hf t t' hshape)

theorem count (h : SameStock s s') {P : Segment → Bool}
    (hP : ∀ t t', Segment.SameShape t t' → P t' = P t) : s'.count P = s.count P := by
  have hcount : ∀ u : Store, u.count P = (u.entries.map fun e => P e.2).countP id := fun u => by
    rw [List.countP_map]
    rfl
  rw [hcount, hcount, h.map_entries hP]

theorem accounted (h : SameStock s s') (ha : s.Accounted) (hw : s'.WellFormed) :
    s'.Accounted where
  toWellFormed := hw
  reserved_eq := by
    have hmap := h.map_entries fun t t' hs => hs.chunks
    have hlen := congrArg List.length hmap
    rw [List.length_map, List.length_map] at hlen
    rw [h.reserved, ha.reserved_eq, hlen]
  big_eq := by
    rw [h.big, ha.big_eq, h.count fun t t' hs => hs.isBig]
  bigBytes_eq := by
    rw [h.bigBytes, ha.bigBytes_eq, summed, summed,
      h.map_entries fun t t' hs => by rw [Segment.ownBytes, Segment.ownBytes, hs.backing]]
  ownBytes_eq i t' ht' hb := by
    cases hi : s.segment? i with
    | none =>
      rw [h.of_none hi] at ht'
      cases ht'
    | some t =>
      obtain ⟨u, hu, hs⟩ := h.of_some hi
      rw [ht'] at hu
      cases hu
      rw [hs.isBig] at hb
      rw [h.geometry.chunkBytes, hs.chunks, ← ha.ownBytes_eq i t hi hb, Segment.ownBytes,
        Segment.ownBytes, hs.backing]
  pool_eq := by
    rw [h.blocks, h.geometry.segmentsPerBlock, ha.pool_eq, h.spare,
      h.count fun t t' hs => by rw [Segment.isSmall, Segment.isSmall, hs.isBig]]

end SameStock

/-- A segment is changed and keeps its shape. -/
theorem sameStock_modifySegment {s : Store} {i : SegmentIndex} {f : Segment → Segment}
    (hf : ∀ t, s.segment? i = some t → Segment.SameShape t (f t)) :
    SameStock s (s.modifySegment i f) := by
  refine ⟨sameGeometry_modifySegment s i f, segments_size_modifySegment s i f, rfl, rfl, rfl, rfl,
    rfl, rfl, fun j => ?_⟩
  rw [segment?_modifySegment]
  cases hj : s.segment? j with
  | none => split <;> rfl
  | some t =>
    split
    · next e => exact ⟨f t, rfl, hf t (e ▸ hj)⟩
    · exact ⟨t, rfl, .refl t⟩

/-- A reserved segment is replaced by one of its shape. -/
theorem sameStock_replace {s : Store} {i : SegmentIndex} {t u : Segment}
    (ht : s.segment? i = some t) (hu : Segment.SameShape t u) :
    SameStock s (s.modifySegment i fun _ => u) :=
  sameStock_modifySegment fun t' ht' => by
    rw [ht] at ht'
    cases ht'
    exact hu

/-! ## Runs -/

/-- One call of an operation on the store, whether it succeeds or is
refused. A big segment is asked for with at least one chunk, and only
indexes in the table are released. -/
inductive Step : Store → Store → Prop where
  | reserveSmall {s s' : Store} (kind : KindId) (chunks : Nat) (stored : Bool) :
      Leaves (reserveSmall kind chunks stored) s s' → Step s s'
  | reserveBig {s s' : Store} (kind : KindId) (chunks : Nat) (stored : Bool) :
      1 ≤ chunks → Leaves (reserveBig kind chunks stored) s s' → Step s s'
  | releaseAt {s s' : Store} (i : SegmentIndex) : Leaves (releaseAt i) s s' → Step s s'

/-- Slots of no chunks cannot be counted out. -/
theorem reserveSmall_zero {s : Store} (h : s.WellFormed) (kind : KindId) (stored : Bool) :
    Ends (reserveSmall kind 0 stored s) (fun _ _ => False) (fun _ s' => s' = s)
      fun _ => True := by
  unfold reserveSmall
  refine ((checkLimit_ends s).bind fun _ s₀ hs₀ => ?_)
  obtain ⟨rfl, _⟩ := hs₀
  refine ((takeArea_ends h).mono (fun _ _ ht => ht) (fun _ _ hr => hr) fun _ _ => trivial).bind
    fun _ s₁ _ => Ends.get_bind ?_
  exact Ends.lift_bind (fun t ht => by cases ht) fun _ _ => trivial

theorem releaseAt_eq {s : Store} {i : SegmentIndex} (hi : i < s.segments.size) :
    releaseAt i s = .ok () (s.release i) := by
  unfold releaseAt
  rw [get_bind_eq, if_neg (Nat.not_le_of_lt hi)]
  rfl

theorem releaseAt_leaves {s s' : Store} {i : SegmentIndex} (hl : Leaves (releaseAt i) s s') :
    i < s.segments.size ∧ s' = s.release i := by
  by_cases hi : i < s.segments.size
  · rw [Leaves, releaseAt_eq hi] at hl
    rcases hl with ⟨_, e⟩ | ⟨_, e⟩
    · cases e
      exact ⟨hi, rfl⟩
    · cases e
  · have e : releaseAt i s = .error (.fault .outOfBounds) s := by
      unfold releaseAt
      rw [get_bind_eq, if_pos (Nat.le_of_not_lt hi)]
      rfl
    rw [Leaves, e] at hl
    rcases hl with ⟨_, e⟩ | ⟨_, e⟩ <;> cases e

/-- **One step keeps the books.** -/
theorem Step.advances {s s' : Store} (h : s.Accounted) (hs : Step s s') : Advances s s' := by
  cases hs with
  | reserveSmall kind chunks stored hl =>
    rcases Nat.eq_zero_or_pos chunks with rfl | hpos
    · rcases (reserveSmall_zero h.toWellFormed kind stored).of_leaves hl with ⟨_, hn⟩ | ⟨_, rfl⟩
      · exact hn.elim
      · exact .refl h
    · rcases (reserveSmall_ends h.toWellFormed hpos kind stored).of_leaves hl with
        ⟨_, _, hr⟩ | ⟨_, rfl⟩
      · exact h.reserve hr nofun
      · exact .refl h
  | reserveBig kind chunks stored hpos hl =>
    rcases (reserveBig_ends h.toWellFormed kind chunks stored).of_leaves hl with
      ⟨_, _, hr⟩ | ⟨_, rfl⟩
    · exact h.reserve hr fun _ => hpos
    · exact .refl h
  | releaseAt i hl =>
    obtain ⟨_, rfl⟩ := releaseAt_leaves hl
    cases hi : s.segment? i with
    | none =>
      rw [release_of_none hi]
      exact .refl h
    | some t => exact h.release hi

/-- The stores of a run from an empty one, the latest first. -/
inductive Run (config : Config) (system : System) : List Store → Prop where
  | start : config.error? = none → Run config system [ofConfig config system]
  | step {s s' : Store} {past : List Store} :
      Run config system (s :: past) → Step s s' → Run config system (s' :: s :: past)

/-- `n` is the most that a number was in a run. -/
def Peak (f : Store → Nat) (run : List Store) (n : Nat) : Prop :=
  (∃ s ∈ run, f s = n) ∧ ∀ s ∈ run, f s ≤ n

theorem Peak.cons {f : Store → Nat} {run : List Store} {n : Nat} (hp : Peak f run n)
    (s : Store) : Peak f (s :: run) (max n (f s)) := by
  obtain ⟨⟨t, ht, e⟩, hle⟩ := hp
  constructor
  · rcases Nat.le_total n (f s) with hn | hn
    · exact ⟨s, List.mem_cons_self, (Nat.max_eq_right hn).symm⟩
    · exact ⟨t, List.mem_cons_of_mem s ht, by rw [Nat.max_eq_left hn, e]⟩
  · refine List.forall_mem_cons.mpr ⟨Nat.le_max_right _ _, fun u hu => ?_⟩
    exact Nat.le_trans (hle u hu) (Nat.le_max_left _ _)

theorem accounted_ofConfig {config : Config} (hc : config.error? = none) (system : System) :
    (ofConfig config system).Accounted where
  toWellFormed := Heap.wellFormed_ofConfig hc system
  reserved_eq := rfl
  big_eq := rfl
  bigBytes_eq := rfl
  ownBytes_eq := nofun
  pool_eq := by simp [ofConfig, count, entries]

/-- What looks back over a run: the length of the table, and how many pool
blocks there are. -/
structure Outlasts (s : Store) (run : List Store) : Prop where
  size : Peak Store.reserved run s.segments.size
  blocks : ∃ n, Peak (fun t => t.count Segment.isSmall) run n ∧
    IsLeast {m | n ≤ m * s.segmentsPerBlock} s.blocks.length

theorem Outlasts.step {s s' : Store} {past : List Store} (ho : Outlasts s (s :: past))
    (ha : Advances s s') : Outlasts s' (s' :: s :: past) := by
  obtain ⟨n, hpeak, hcover, hleast⟩ := ho.blocks
  have hcover : n ≤ s.blocks.length * s.segmentsPerBlock := hcover
  have hpool := ha.accounted.pool_eq
  rw [ha.geometry.segmentsPerBlock] at hpool
  refine ⟨by rw [ha.size]; exact ho.size.cons s', _, hpeak.cons s', ?_, fun m hm => ?_⟩
  · rw [ha.geometry.segmentsPerBlock]
    show max n _ ≤ s'.blocks.length * s.segmentsPerBlock
    rcases ha.blocks with e | ⟨e, _⟩
    · rw [e] at hpool ⊢
      omega
    · rw [e, Nat.succ_mul] at hpool ⊢
      omega
  · rw [ha.geometry.segmentsPerBlock] at hm
    have hm : max n (s'.count Segment.isSmall) ≤ m * s.segmentsPerBlock := hm
    rcases ha.blocks with e | ⟨e, hmore⟩
    · rw [e]
      exact hleast (Nat.le_trans (Nat.le_max_left _ _) hm)
    · -- a block came in because the old ones did not cover what is reserved now
      rw [e]
      have hlt : s.blocks.length * s.segmentsPerBlock < m * s.segmentsPerBlock := by omega
      exact Nat.lt_of_mul_lt_mul_right hlt

/-- In every run the books are kept. -/
theorem Run.accounted {config : Config} {system : System} {s : Store} {past : List Store}
    (hr : Run config system (s :: past)) :
    s.Accounted ∧ SameGeometry (ofConfig config system) s ∧ Outlasts s (s :: past) := by
  generalize he : s :: past = run at hr
  induction hr generalizing s past with
  | start hc =>
    cases he
    have hzero : ∀ f : Store → Nat, f (ofConfig config system) = 0 →
        Peak f [ofConfig config system] 0 := fun f hf =>
      ⟨⟨_, List.mem_singleton_self _, hf⟩, fun t ht => by rw [List.mem_singleton.mp ht, hf]⟩
    exact ⟨accounted_ofConfig hc system, .refl _, hzero _ rfl, 0, hzero _ rfl, Nat.zero_le _,
      fun m _ => Nat.zero_le m⟩
  | step hr hs ih =>
    cases he
    obtain ⟨h, hgeo, ho⟩ := ih rfl
    have ha := hs.advances h
    exact ⟨ha.accounted, hgeo.trans ha.geometry, ho.step ha⟩

theorem Run.accepted {config : Config} {system : System} {run : List Store}
    (hr : Run config system run) : config.error? = none := by
  induction hr with
  | start hc => exact hc
  | step _ _ ih => exact ih

/-! ## All books -/

/-- Bytes of a big segment's chunks. -/
def bigChunkBytes (s : Store) (t : Segment) : Nat := if t.isBig then t.chunks * s.chunkBytes else 0

theorem Accounted.bigBytes_eq_chunks {s : Store} (h : s.Accounted) :
    s.bigBytes = s.summed s.bigChunkBytes := by
  rw [h.bigBytes_eq, summed, summed]
  refine congrArg Word.total (List.map_congr_left fun ⟨i, t⟩ he => ?_)
  have hi := mem_entries.mp he
  unfold bigChunkBytes
  cases hb : t.isBig with
  | true => exact h.ownBytes_eq i t hi hb
  | false =>
    rw [Segment.isBig_eq] at hb
    unfold Segment.ownBytes
    cases hback : t.backing with
    | pooled area => rfl
    | dedicated block =>
      rw [hback] at hb
      cases hb

/-- The pool blocks are equally long. -/
theorem WellFormed.total_blocks {s : Store} (h : s.WellFormed) :
    Word.total (s.blocks.map Block.size) =
      s.blocks.length * s.areaBytes * s.segmentsPerBlock := by
  rw [List.map_congr_left fun b hb => (h.block_size b hb).1, List.map_const',
    Word.total_replicate, Nat.mul_assoc]

/-- Where there is a pool block, its areas are as long as a small segment
is said to be. -/
theorem WellFormed.segmentBytes?_eq {s : Store} (h : s.WellFormed) (hspb : 0 < s.segmentsPerBlock)
    (hb : s.blocks ≠ []) : s.segmentBytes? = .ok s.areaBytes := by
  obtain ⟨b, hb⟩ := List.exists_mem_of_ne_nil _ hb
  obtain ⟨hsize, hmax⟩ := h.block_size b hb
  have hle : s.areaBytes ≤ Word.maxSize := by
    refine Nat.le_trans (Nat.le_mul_of_pos_right _ hspb) ?_
    rw [← hsize]
    exact hmax
  have hbits : s.chunkBits < 64 := by
    obtain ⟨k, hk⟩ := Word.isPowerOfTwo_iff.mp h.chunks_pow
    refine Nat.lt_of_not_le fun hn => ?_
    have hpow : 2 ^ 64 ≤ s.chunkBytes := Nat.pow_le_pow_right (by decide) hn
    have hone : s.chunkBytes ≤ s.areaBytes := by
      rw [areaBytes, hk]
      exact Nat.le_mul_of_pos_left _ (Nat.two_pow_pos k)
    have := Nat.le_trans hpow (Nat.le_trans hone hle)
    exact absurd this (by decide)
  rw [segmentBytes?, if_pos hbits, ← areaBytes,
    Nat.mod_eq_of_lt (Nat.lt_of_le_of_lt hle (by decide))]

/-- The books of a store after a run. -/
structure Balanced (config : Config) (s : Store) (run : List Store) : Prop where
  mem_vacant : ∀ i, i ∈ s.vacant ↔ s.segments[i]? = some none
  vacant_nodup : s.vacant.Nodup
  size_eq : s.segments.size = s.reserved + s.vacant.length
  size_peak : Peak Store.reserved run s.segments.size
  size_le : s.segments.size ≤ config.maxSegments
  reserved_eq : s.reserved = s.entries.length
  big_eq : s.big = s.count Segment.isBig
  pool_eq : s.blocks.length * config.segmentsPerBlock = s.spare.length + s.count Segment.isSmall
  blocks_least : ∃ n, Peak (fun t => t.count Segment.isSmall) run n ∧
    IsLeast {m | n ≤ m * config.segmentsPerBlock} s.blocks.length
  totalBytes_eq : s.totalBytes =
    s.blocks.length * s.areaBytes * config.segmentsPerBlock + s.summed s.bigChunkBytes
  segmentBytes_eq : s.blocks ≠ [] → s.segmentBytes? = .ok s.areaBytes
  /-- Indexes have 26 bits, and no slot has the null reference. -/
  encoded : ∀ i, i < s.segments.size → i < Nat.pow 2 26 ∧ ∀ o, ObjRef.ofSlot i o ≠ .null
  distinct : ∀ i j o o', i < s.segments.size → j < s.segments.size →
    ObjRef.ofSlot i o = ObjRef.ofSlot j o' → i = j ∧ o = o'

/-- `s'` is `s` with the segment `t` at index `i` taken back: its entry is
the next to be used, its area the next that is spare, and a block of its
own is the system's again. -/
structure TakenBack (s : Store) (i : SegmentIndex) (t : Segment) (s' : Store) : Prop where
  geometry : SameGeometry s s'
  segment? : ∀ j, s'.segment? j = if i = j then none else s.segment? j
  size : s'.segments.size = s.segments.size
  vacant : s'.vacant = i :: s.vacant
  reserved : s'.reserved + 1 = s.reserved
  blocks : s'.blocks = s.blocks
  pooled : ∀ area, t.backing = .pooled area → s'.spare = area :: s.spare ∧ s'.big = s.big ∧
    s'.totalBytes = s.totalBytes ∧ s'.memory = s.memory
  dedicated : ∀ block, t.backing = .dedicated block → s'.spare = s.spare ∧ s'.big + 1 = s.big ∧
    s'.totalBytes + block.size = s.totalBytes ∧ s'.memory = s.memory.release block.region

theorem Accounted.takenBack {s : Store} {i : SegmentIndex} {t : Segment} (h : s.Accounted)
    (hi : s.segment? i = some t) : TakenBack s i t (s.release i) := by
  have ha := adds_release hi
  have hnext := (h.release hi).accounted
  have hreserved := hnext.reserved_eq
  have hbig := hnext.big_eq
  have hbytes := hnext.bigBytes_eq
  rw [← Nat.add_right_cancel_iff (n := 1), ← ha.length, ← h.reserved_eq] at hreserved
  have htotal : (s.release i).totalBytes + t.ownBytes = s.totalBytes := by
    rw [totalBytes, totalBytes, blocks_release, Nat.add_assoc, hbytes, h.bigBytes_eq, ha.summed]
  have hbig : (s.release i).big + t.isBig.toNat = s.big := by
    rw [hbig, h.big_eq, ha.count]
  refine ⟨sameGeometry_release s i, segment?_release s i, segments_size_release s i,
    (vacant_release hi).1, hreserved, blocks_release s i, fun area harea => ?_,
    fun block hblock => ?_⟩
  · simp only [Segment.isBig, Segment.ownBytes, harea] at hbig htotal
    refine ⟨?_, hbig, htotal, ?_⟩ <;> rw [release_eq hi, harea]
  · simp only [Segment.isBig, Segment.ownBytes, hblock] at hbig htotal
    refine ⟨?_, hbig, htotal, ?_⟩ <;> rw [release_eq hi, hblock]

/-- How a store answers a reservation or a release. -/
structure Answers (s : Store) : Prop where
  issued : ∀ kind chunks stored i s', reserveSmall kind chunks stored s = .ok i s' ∨
    reserveBig kind chunks stored s = .ok i s' →
    s.segment? i = none ∧ (s'.segment? i).isSome ∧ i < SegmentedHeap.maxSegments
  refused : ∀ kind chunks stored e s', reserveSmall kind chunks stored s = .error (.refused e) s' ∨
    reserveBig kind chunks stored s = .error (.refused e) s' → s' = s
  vacant : ∀ i, i ∈ s.vacant → releaseAt i s = .ok () s
  released : ∀ i t, s.segment? i = some t → ∃ s', releaseAt i s = .ok () s' ∧ TakenBack s i t s'

theorem Accounted.answers {s : Store} (ha : s.Accounted) : s.Answers := by
  have h := ha.toWellFormed
  have hentered : ∀ {t : Segment} {i s'}, Reserved s t i s' →
      s.segment? i = none ∧ (s'.segment? i).isSome ∧ i < SegmentedHeap.maxSegments := by
    intro t i s' hr
    have hi : s'.segment? i = some t := by rw [hr.segment?, if_pos rfl]
    exact ⟨hr.fresh, by rw [hi]; rfl, hr.wellFormed.index_lt hi⟩
  refine ⟨fun kind chunks stored i s' he => ?_, fun kind chunks stored e s' he => ?_,
    fun i hi => ?_, fun i t hi => ⟨_, releaseAt_eq (lt_size_of_segment? hi), ha.takenBack hi⟩⟩
  · rcases he with he | he
    · rcases Nat.eq_zero_or_pos chunks with rfl | hpos
      · exact ((reserveSmall_zero h kind stored).of_ok he).elim
      · obtain ⟨_, hr⟩ := (reserveSmall_ends h hpos kind stored).of_ok he
        exact hentered hr
    · obtain ⟨_, hr⟩ := (reserveBig_ends h kind chunks stored).of_ok he
      exact hentered hr
  · rcases he with he | he
    · rcases Nat.eq_zero_or_pos chunks with rfl | hpos
      · exact (reserveSmall_zero h kind stored).of_refused he
      · exact (reserveSmall_ends h hpos kind stored).of_refused he
    · exact (reserveBig_ends h kind chunks stored).of_refused he
  · obtain ⟨hlt, hnone⟩ := (h.mem_vacant i).mp hi
    rw [releaseAt_eq hlt, release_of_none hnone]

/-- **The books of a run balance**, and the store answers by them. -/
theorem Run.stock_balanced {config : Config} {system : System} {s : Store} {past : List Store}
    (hr : Run config system (s :: past)) : Balanced config s (s :: past) ∧ s.Answers := by
  obtain ⟨h, hgeo, ho⟩ := hr.accounted
  have hspb : s.segmentsPerBlock = config.segmentsPerBlock := hgeo.segmentsPerBlock
  have hmax : s.maxSegments = config.maxSegments := hgeo.maxSegments
  have hpos : 0 < s.segmentsPerBlock := by
    obtain ⟨k, hk⟩ := Word.isPowerOfTwo_iff.mp (Config.inOrder hr.accepted).segments_pow
    rw [hspb, hk]
    exact Nat.two_pow_pos k
  have hlt : ∀ i, i < s.segments.size → i < SegmentedHeap.maxSegments := fun i hi =>
    Nat.lt_of_lt_of_le hi (Nat.le_trans h.size_le h.limit_le)
  refine ⟨⟨fun i => ?_, h.vacant_nodup, h.size_eq, ho.size, hmax ▸ h.size_le, h.reserved_eq,
    h.big_eq, hspb ▸ h.pool_eq, hspb ▸ ho.blocks, ?_, h.segmentBytes?_eq hpos, fun i hi => ?_,
    fun i j o o' hi hj e => ?_⟩, h.answers⟩
  · rw [h.mem_vacant, segment?, Option.join_eq_none_iff]
    constructor
    · rintro ⟨hi, hn | hn⟩
      · exact absurd (Array.getElem?_eq_none_iff.mp hn) (Nat.not_le_of_lt hi)
      · exact hn
    · intro hn
      exact ⟨(Array.getElem?_eq_some_iff.mp hn).1, Or.inr hn⟩
  · rw [totalBytes, h.total_blocks, h.bigBytes_eq_chunks, hspb]
  · exact ⟨Nat.lt_trans (hlt i hi) (by decide), ObjRef.ofSlot_ne_null (hlt i hi)⟩
  · have hi := Nat.le_of_lt (hlt i hi)
    have hj := Nat.le_of_lt (hlt j hj)
    have hseg := congrArg ObjRef.segment e
    have hoff := congrArg ObjRef.offset e
    rw [ObjRef.segment_ofSlot hi, ObjRef.segment_ofSlot hj] at hseg
    rw [ObjRef.offset_ofSlot hi, ObjRef.offset_ofSlot hj] at hoff
    exact ⟨hseg, hoff⟩

/-- A small segment is taken back. Its entry is used again for a big one,
and its area for the next small one: four segments lie in four entries and
two blocks. -/
theorem stock_balanced_reused : ∃ (config : Config) (s₃ s₄ s₅ s₆ : Store) (past : List Store)
    (t : Segment) (area : Address), Run config .standard (s₆ :: s₅ :: s₄ :: s₃ :: past) ∧
      s₃.segment? 1 = some t ∧ t.backing = .pooled area ∧
      releaseAt 1 s₃ = .ok () s₄ ∧ TakenBack s₃ 1 t s₄ ∧
      reserveBig 2 3 false s₄ = .ok 1 s₅ ∧ reserveSmall 0 2 false s₅ = .ok 3 s₆ ∧
      (s₆.segment? 3).map Segment.backing = some (.pooled area) ∧
      s₆.segments.size = 4 ∧ s₆.big = 1 ∧ s₆.blocks.length = 2 ∧ s₆.totalBytes = 280 ∧
      Balanced config s₆ (s₆ :: s₅ :: s₄ :: s₃ :: past) ∧ s₆.Answers := by
  let config : Config :=
    { chunkBytes := 8, segmentChunks := 8, segmentsPerBlock := 2, dataAlignment := 8 }
  let s₀ := ofConfig config .standard
  let s₁ := after (reserveSmall 0 2 false) s₀
  let s₂ := after (reserveSmall 0 2 false) s₁
  let s₃ := after (reserveSmall 1 4 true) s₂
  let s₄ := after (releaseAt 1) s₃
  let s₅ := after (reserveBig 2 3 false) s₄
  let s₆ := after (reserveSmall 0 2 false) s₅
  have h₀ : Run config .standard [s₀] := .start (by decide)
  have h₁ : Run config .standard [s₁, s₀] :=
    .step h₀ (.reserveSmall 0 2 false (leaves_after (by decide +kernel)))
  have h₂ : Run config .standard [s₂, s₁, s₀] :=
    .step h₁ (.reserveSmall 0 2 false (leaves_after (by decide +kernel)))
  have h₃ : Run config .standard [s₃, s₂, s₁, s₀] :=
    .step h₂ (.reserveSmall 1 4 true (leaves_after (by decide +kernel)))
  have h₄ : Run config .standard [s₄, s₃, s₂, s₁, s₀] :=
    .step h₃ (.releaseAt 1 (leaves_after (by decide +kernel)))
  have h₅ : Run config .standard [s₅, s₄, s₃, s₂, s₁, s₀] :=
    .step h₄ (.reserveBig 2 3 false (by decide) (leaves_after (by decide +kernel)))
  have h₆ : Run config .standard [s₆, s₅, s₄, s₃, s₂, s₁, s₀] :=
    .step h₅ (.reserveSmall 0 2 false (leaves_after (by decide +kernel)))
  have hback : (s₃.segment? 1).map Segment.backing = some (.pooled ⟨0, 64⟩) := by decide +kernel
  obtain ⟨t, ht, harea⟩ := Option.map_eq_some_iff.mp hback
  obtain ⟨s', hs', htaken⟩ := h₃.stock_balanced.2.released 1 t ht
  have hrelease : releaseAt 1 s₃ = .ok () s₄ := eq_ok_of_returned (by decide +kernel)
  rw [hrelease] at hs'
  cases hs'
  have hbig : reserveBig 2 3 false s₄ = .ok 1 s₅ := eq_ok_of_returned (by decide +kernel)
  have hsmall : reserveSmall 0 2 false s₅ = .ok 3 s₆ := eq_ok_of_returned (by decide +kernel)
  have hstate : (s₆.segment? 3).map Segment.backing = some (.pooled ⟨0, 64⟩) ∧
      s₆.segments.size = 4 ∧ s₆.big = 1 ∧ s₆.blocks.length = 2 ∧ s₆.totalBytes = 280 := by
    decide +kernel
  obtain ⟨hagain, hsize, hbigs, hblocks, hbytes⟩ := hstate
  exact ⟨config, s₃, s₄, s₅, s₆, _, t, _, h₆, ht, harea, hrelease, htaken, hbig, hsmall, hagain,
    hsize, hbigs, hblocks, hbytes, h₆.stock_balanced⟩

end Store

end SegmentedHeap
