/-
SegmentedHeap.Proofs.Overflow — runs without an overflow.

The sizes of a pool block are multiplied without a check. So an accepted
configuration whose pool blocks are too long has a heap, and the heap's
first small object is a fault; with any other configuration no run meets
an overflow.

What a heap sums up fits a word in every run, since it is bounded by the
memory that it has: the objects of a segment lie in it, the segments lie
in the blocks of the store, and the system grants no more bytes than have
an address.

* `Sound.totalChunks_le` — the bytes of all objects lie in the blocks.
* `Countable` — the figures of a heap fit a word.
* `no_overflow_of_fits` — **runs of a heap whose pool blocks fit**.
* `alloc_overflow_iff` — the first small object of a heap.
-/
import SegmentedHeap.Proofs.Accounting
import SegmentedHeap.Proofs.Books
import SegmentedHeap.Proofs.Sizes

namespace SegmentedHeap

/-- A small segment is a fault if a pool block is needed for it and the sizes
do not fit. -/
theorem Store.reserveSmall_overflow {s : Store} (hroom : s.reserved < s.maxSegments)
    (hspare : s.spare = []) (hs : ¬ s.Sized) (kind : KindId) (chunks : Nat) (stored : Bool) :
    reserveSmall kind chunks stored s = .error (.fault .overflow) s := by
  have htake : takeArea s = .error (.fault .overflow) s := by
    rw [takeArea, get_bind_eq, hspare]
    exact growPool_of_oversized hs
  rw [reserveSmall, bind_of_ok (checkLimit_of_lt hroom), bind_of_error htake]

/-! ## Objects in their segments -/

/-- Slots of `n` chunks lie apart, so that as many as there are fit. -/
theorem OffsetSet.length_mul_le {l : List Offset} {n limit : Nat} (hl : l.Nodup)
    (hmem : ∀ o ∈ l, o ∈ slotStarts n limit) : l.length * n ≤ limit := by
  rcases Nat.eq_zero_or_pos n with rfl | hn
  · exact Nat.zero_le _
  have hslot : ∀ o ∈ l, o.val % n = 0 ∧ o.val + n ≤ limit := fun o ho =>
    mem_slotStarts.mp (hmem o ho)
  -- the slots are numbered from the start of the segment
  have hnodup : (l.map fun o => o.val / n).Nodup := by
    refine hl.map_on fun o ho o' ho' e => Fin.ext ?_
    rw [← Nat.div_mul_cancel (Nat.dvd_of_mod_eq_zero (hslot o ho).1), e,
      Nat.div_mul_cancel (Nat.dvd_of_mod_eq_zero (hslot o' ho').1)]
  have hrange : (l.map fun o => o.val / n) ⊆ List.range (limit / n) := by
    intro k hk
    obtain ⟨o, ho, rfl⟩ := List.mem_map.mp hk
    rw [List.mem_range, ← Nat.succ_le_iff, Nat.le_div_iff_mul_le hn, Nat.succ_mul,
      Nat.div_mul_cancel (Nat.dvd_of_mod_eq_zero (hslot o ho).1)]
    exact (hslot o ho).2
  have hle := hnodup.length_le_of_subset hrange
  rw [List.length_map, List.length_range] at hle
  exact Nat.le_trans (Nat.mul_le_mul_right n hle) (Nat.div_mul_le_self limit n)

/-- A sum over a row of segments, of which those with the property have a
share of the same size. -/
theorem Word.total_mul_le {α : Type} (P : α → Bool) (k w : α → Nat) (c share : Nat) {l : List α}
    (h : ∀ a ∈ l, k a * c ≤ w a + (P a).toNat * share) :
    Word.total (l.map k) * c ≤ Word.total (l.map w) + l.countP P * share := by
  induction l with
  | nil => simp [Word.total]
  | cons a l ih =>
    have hfirst := h a List.mem_cons_self
    have hrest := ih fun b hb => h b (List.mem_cons_of_mem a hb)
    have hcount : (a :: l).countP P = l.countP P + (P a).toNat := by
      rw [List.countP_cons]
      cases P a <;> rfl
    rw [List.map_cons, List.map_cons, Word.total_cons, Word.total_cons, hcount, Nat.add_mul,
      Nat.add_mul]
    omega

namespace Heap

variable {h h' : Heap}

/-- The objects of a segment lie in its area, or in its block. -/
theorem Sound.segment_le (hs : h.Sound) {i : SegmentIndex} {s : Segment}
    (hi : h.store.segment? i = some s) :
    s.allocated.members.length * s.chunks * h.store.chunkBytes ≤
      s.ownBytes + s.isSmall.toNat * h.store.areaBytes := by
  have hf := hs.wellFormed.toFormed
  have hslots : ∀ o ∈ s.allocated.members, o ∈ s.slots := fun o ho =>
    (Segment.mem_allocated.mp (OffsetSet.mem_members.mp ho)).1
  cases hb : s.isBig with
  | true =>
    have hone : s.allocated.members.length ≤ [(0 : Offset)].length := by
      refine List.Nodup.length_le_of_subset (Segment.nodup_members s.allocated) fun o ho => ?_
      exact List.mem_singleton.mpr (hf.slot_of_big hi (hslots o ho) hb)
    rw [hs.accounted.ownBytes_eq i s hi hb]
    calc s.allocated.members.length * s.chunks * h.store.chunkBytes
        ≤ 1 * s.chunks * h.store.chunkBytes :=
          Nat.mul_le_mul_right _ (Nat.mul_le_mul_right _ hone)
      _ = s.chunks * h.store.chunkBytes := by rw [Nat.one_mul]
      _ ≤ _ := Nat.le_add_right _ _
  | false =>
    have hfit : s.allocated.members.length * s.chunks ≤ h.store.segmentChunks := by
      refine OffsetSet.length_mul_le (Segment.nodup_members s.allocated) fun o ho => ?_
      exact OffsetSet.mem_slotStarts.mpr (hf.slot_of_small hi (hslots o ho) hb).2
    rw [Segment.isSmall, hb, Bool.not_false, Bool.toNat_true, Nat.one_mul]
    exact Nat.le_trans (Nat.mul_le_mul_right _ hfit) (Nat.le_add_left _ _)

/-- The chunks of all objects, summed up by segments. -/
theorem Formed.totalChunks_eq (hf : h.Formed) : h.occupancy.totalChunks =
    Word.total (h.store.entries.map fun e => e.2.allocated.members.length * e.2.chunks) := by
  have hslots := totals_slots hf (f := (·.allocated.members)) (c := h.chunksAt)
    (k := Segment.chunks) (fun s => Segment.nodup_members s.allocated) fun p s hs ho =>
      (hf.of_segment hs (OffsetSet.mem_members.mp ho)).2.2.2
  refine (totals_allChunks hf).unique (hslots.congr (fun p => ?_) fun _ _ => rfl)
  rw [← mem_objects hf, objects, mem_slots hf]

/-- **The bytes of all objects** lie in the blocks of the store. -/
theorem Sound.totalChunks_le (hs : h.Sound) :
    h.occupancy.totalChunks * h.store.chunkBytes ≤ h.store.totalBytes := by
  have hsum := Word.total_mul_le (fun e : SegmentIndex × Segment => e.2.isSmall)
    (fun e => e.2.allocated.members.length * e.2.chunks) (fun e => e.2.ownBytes)
    h.store.chunkBytes h.store.areaBytes fun e he => hs.segment_le (Store.mem_entries.mp he)
  have hpool : h.store.count Segment.isSmall * h.store.areaBytes ≤
      Word.total (h.store.blocks.map Block.size) := by
    rw [hs.accounted.total_blocks, Nat.mul_right_comm, hs.accounted.pool_eq]
    exact Nat.mul_le_mul_right _ (Nat.le_add_left _ _)
  rw [hs.wellFormed.toFormed.totalChunks_eq, Store.totalBytes, hs.accounted.bigBytes_eq]
  exact Nat.le_trans hsum (by rw [Nat.add_comm]; exact Nat.add_le_add_right hpool _)

/-! ## Figures that fit -/

/-- An object has at least one chunk. -/
theorem Formed.totalObjects_le (hf : h.Formed) :
    h.occupancy.totalObjects ≤ h.occupancy.totalChunks := by
  refine (totals_one_iff.mpr (counts_all hf)).le (totals_allChunks hf) (fun _ ha => ha)
    fun p ha => ?_
  obtain ⟨s, hs, ho⟩ := hf.segment_of_isAllocated ha
  rw [(hf.of_segment hs ho).2.2.2]
  exact hf.chunks_pos hs

/-- The old-to-new set has objects for members. -/
theorem Formed.oldToNew_le (hf : h.Formed) :
    h.occupancy.oldToNew ≤ h.occupancy.totalObjects := by
  have hsum : h.occupancy.oldToNew = h.oldToNewSize := by
    have hfold := foldl_countSegment (h := h) Occupancy.oldToNew (·.oldToNew.size)
      (fun s t => by unfold countSegment; split <;> simp [Generation.all]) h.store.entries
      h.unoccupied
    exact hfold.trans (Nat.zero_add _)
  rw [hsum]
  refine (totals_one_iff.mpr (counts_oldToNew hf)).le (totals_one_iff.mpr (counts_all hf))
    (fun p hp => ?_) fun _ _ => Nat.le_refl _
  obtain ⟨x, hx, _⟩ := hp
  exact hf.isAllocated_iff_lookup.mpr ⟨x, hx⟩

/-- What a heap sums up of its memory and of its objects fits a word. -/
structure Countable (h : Heap) : Prop where
  totalBytes : h.store.totalBytes < Word.limit
  bigBytes : h.store.bigBytes < Word.limit
  reserved : h.store.reserved < Word.limit
  objects : h.occupancy.totalObjects < Word.limit
  chunks : h.occupancy.totalChunks < Word.limit
  oldToNew : h.occupancy.oldToNew < Word.limit

theorem Sound.countable (hs : h.Sound) : h.Countable := by
  have hf := hs.wellFormed.toFormed
  have htotal := hf.store.totalBytes_lt
  have hchunks : h.occupancy.totalChunks < Word.limit := by
    refine Nat.lt_of_le_of_lt (Nat.le_trans ?_ hs.totalChunks_le) htotal
    exact Nat.le_mul_of_pos_right _ (Nat.two_pow_pos _)
  have hobjects := Nat.lt_of_le_of_lt hf.totalObjects_le hchunks
  refine ⟨htotal, Nat.lt_of_le_of_lt (Nat.le_add_left _ _) htotal, ?_, hobjects, hchunks,
    Nat.lt_of_le_of_lt hf.oldToNew_le hobjects⟩
  calc h.store.reserved ≤ h.store.segments.size := hf.store.reserved_le
    _ ≤ SegmentedHeap.maxSegments := Nat.le_trans hf.store.size_le hf.store.limit_le
    _ < Word.limit := by decide

/-! ## Runs without an overflow -/

/-- An allocation is refused as exhausted or by a check of the request. -/
theorem AllocRefused.cause {tag : TypeTag} {length : Nat} {e : HeapError}
    (hr : h.AllocRefused tag length e h') :
    e.isExhausted = true ∨ h.request tag length = .error (.refused e) := by
  rcases hr.2 with hcheck | ⟨r, _, rfl⟩
  · exact Or.inr hcheck
  · exact Or.inl rfl

/-- A list of kinds for segments that are not too long makes a table, or is
refused. -/
theorem ofList_ne_fault {kinds : List Kind} {segmentChunks : Nat} (hle : segmentChunks ≤ 64)
    (f : Fault) : KindTable.ofList kinds segmentChunks ≠ .error (.fault f) := by
  unfold KindTable.ofList
  rw [if_neg (Nat.not_lt.mpr hle)]
  split
  · nofun
  · split <;> nofun

/-- A heap is built, or its configuration is refused, if its kinds are
known. -/
theorem create_ne_fault {config : Config} {layout : ObjectLayout} {system : System}
    (hk : config.error? = none → ∃ kinds, layout.kinds = .ok kinds) (f : Fault) :
    create config layout system ≠ .error (.fault f) := by
  intro hc
  unfold create at hc
  cases herr : config.error? with
  | some e =>
    rw [herr] at hc
    cases hc
  | none =>
    obtain ⟨kinds, hkinds⟩ := hk herr
    rw [herr, hkinds] at hc
    cases htable : KindTable.ofList kinds config.segmentChunks with
    | ok table =>
      simp only [Failure.ofExcept, bind, Except.bind, htable] at hc
      cases hc
    | error e =>
      simp only [Failure.ofExcept, bind, Except.bind, htable] at hc
      cases hc
      exact ofList_ne_fault (Config.inOrder herr).chunks_le f htable

end Heap

/-- **A mutator is built**, or it is refused, if the bytes of a pool block
fit a word. -/
theorem Mutator.create_ne_fault {config : Config} {system : System}
    (hword : config.chunkBytes < Word.limit) (hfit : config.poolBytes < Word.limit) (f : Fault) :
    Mutator.create config system ≠ .error (.fault f) := by
  intro hc
  unfold Mutator.create at hc
  cases hh : Heap.create config (Model.layout config.chunkBytes) system with
  | error e =>
    rw [hh] at hc
    cases e with
    | refused e => cases hc
    | fault g =>
      refine Heap.create_ne_fault (fun herr => ?_) g hh
      obtain ⟨_, _, _, _, _, _, hkinds⟩ := Model.kinds_eq (Config.inOrder herr).chunkBytes_ne_zero
      exact ⟨_, hkinds⟩
  | ok h =>
    rw [hh] at hc
    obtain ⟨hw, _, hconfig, hlayout⟩ := Heap.wellFormed_create hh
    have hconfigured := Heap.configured_create hh
    have hsized := (hconfigured.sized_iff (hconfig ▸ hword)).mpr (hconfig ▸ hfit)
    have hz := (Config.inOrder hconfigured.accepted).chunkBytes_ne_zero
    rw [hconfig] at hz
    cases ha : Heap.alloc Model.ModelType.nil.tag 0 h with
    | ok obj h' =>
      simp only [ha, Except.mapError, bind, Except.bind] at hc
      cases hc
    | error e h' =>
      simp only [ha, Except.mapError, bind, Except.bind] at hc
      cases e with
      | refused e => cases hc
      | fault g =>
        rcases (Heap.alloc_ends hw _ _).of_fault ha with hf | hf
        · exact hf.2 hsized
        · exact Heap.request_ne_fault (hlayout ▸ Model.layout_total hz) _ _ g hf

namespace Heap

variable {h h' : Heap}

/-- **If the bytes of a pool block fit a word, no operation of a run
overflows**, and neither do the bytes of an object and what the heap sums
up. An allocation returns, or is refused as exhausted or by a check of the
request. A mutator of that configuration is built, or it is refused. -/
theorem no_overflow_of_fits (hr : h.Reachable) (hword : h.config.chunkBytes < Word.limit)
    (hfit : h.config.poolBytes < Word.limit) (hl : h.layout.Total) :
    (∀ tag length, Ends (alloc tag length h) (fun _ _ => True)
      (fun e h' => h' = h ∧
        (e.isExhausted = true ∨ h.request tag length = .error (.refused e)))
      fun _ => False) ∧
    (∀ obj, Ends (free obj h) (fun _ _ => True) (fun _ _ => True) fun _ => False) ∧
    (∀ source field target, Ends (writeRef source field target h) (fun _ _ => True)
      (fun _ _ => True) (· ≠ .overflow)) ∧
    (∀ (σ : Type) (tracer : Tracer σ) (level : Generation) (log : σ),
      Ends (collect tracer level log h) (fun _ _ => True) (fun _ _ => False) (· ≠ .overflow)) ∧
    (∀ p n, h.capacity p = .ok n → n ≤ Word.maxSize) ∧ h.Countable ∧
    ∀ system f, Mutator.create h.config system ≠ .error (.fault f) := by
  have hw := hr.wellFormed
  have hsized : h.store.Sized := (hr.configured.sized_iff hword).mpr hfit
  refine ⟨fun tag length => ?_, fun obj => ?_, fun source field target => ?_,
    fun σ tracer level log => ?_, fun p n hn => capacity_le_of_ok hw.toFormed hn,
    hr.sound.countable, fun system f => Mutator.create_ne_fault hword hfit f⟩
  · refine (alloc_ends hw tag length).mono (fun _ _ _ => trivial)
      (fun e h' hn => ⟨hn.1, hn.cause⟩) fun f hf => ?_
    rcases hf with hf | hf
    · exact hf.2 hsized
    · exact request_ne_fault hl tag length f hf
  · exact (free_ends hw obj).mono (fun _ _ _ => trivial) (fun _ _ _ => trivial) fun _ hf => hf
  · refine (writeRef_ends hw source field target).mono (fun _ _ _ => trivial)
      (fun _ _ _ => trivial) fun f hf => ?_
    rw [hf.1]
    nofun
  · refine (collect_ends hw tracer level log).mono (fun _ _ _ => trivial) (fun _ _ hn => hn)
      fun f hf => ?_
    obtain ⟨_, p, rfl, _⟩ := hf
    nofun

/-- A heap of small segments with a pair in it: any further allocation, its
figures, and a mutator of its configuration. -/
theorem no_overflow_small : ∃ h, allocPair smallHeap = .ok holder h ∧
    (∀ tag length, Ends (alloc tag length h) (fun _ _ => True)
      (fun e h' => h' = h ∧
        (e.isExhausted = true ∨ h.request tag length = .error (.refused e)))
      fun _ => False) ∧
    h.Countable ∧ h.store.totalBytes = 64 ∧
    ∀ system f, Mutator.create h.config system ≠ .error (.fault f) := by
  let h := after allocPair smallHeap
  have ha : allocPair smallHeap = .ok holder h := eq_ok_of_returned (by decide +kernel)
  obtain ⟨hw, _, hconfig, hlayout⟩ := wellFormed_create create_smallHeap
  have hsetting := ((alloc_ends hw _ _).of_ok ha).setting
  rw [← hsetting.config] at hconfig
  rw [← hsetting.layout] at hlayout
  obtain ⟨halloc, _, _, _, _, hcount, hcreate⟩ :=
    no_overflow_of_fits (.alloc _ _ reachable_smallHeap (Or.inl ⟨_, ha⟩))
      (by rw [hconfig]; decide) (by rw [hconfig]; decide)
      (by rw [hlayout]; exact Model.layout_total (by decide))
  exact ⟨h, ha, halloc, hcount, by decide +kernel, hcreate⟩

/-! ## The overflow -/

/-- A small object for which a pool block is needed where the sizes do not
fit. -/
theorem alloc_overflow {tag : TypeTag} {length : Nat} {r : Request}
    (hr : h.request tag length = .ok r) (hsmall : r.spec.isBig = false)
    (hqueue : h.queue r.kind = []) (hspare : h.store.spare = [])
    (hroom : h.store.reserved < h.store.maxSegments) (hs : ¬ h.store.Sized) :
    alloc tag length h = .error (.fault .overflow) h := by
  have hreserve := Store.reserveSmall_overflow hroom hspare hs r.kind r.chunks r.spec.storesLength
  have hstore : onStore (Store.reserveSmall r.kind r.chunks r.spec.storesLength) (exhausted r) h =
      .error (.fault .overflow) h := by
    cases h
    simp only [onStore, hreserve, Failure.map]
  have hqueued : claimQueued r.kind (h.queues[r.kind]?.getD []) h = .ok none h := by
    have hq : h.queues[r.kind]?.getD [] = [] := hqueue
    rw [hq]
    rfl
  have hclaim : claim r h = .error (.fault .overflow) h := by
    rw [claim, hsmall, if_neg Bool.false_ne_true, claimSmall, get_bind_eq, bind_of_ok hqueued]
    exact bind_of_error hstore
  rw [alloc, get_bind_eq, hr]
  exact bind_of_error hclaim

/-- **The first small object of a heap** overflows exactly if the bytes of
a pool block leave the word. -/
theorem alloc_overflow_iff {config : Config} {layout : ObjectLayout} {system : System}
    (hc : create config layout system = .ok h) (hword : config.chunkBytes < Word.limit)
    (hroom : 0 < config.maxSegments) {tag : TypeTag} {length : Nat} {r : Request}
    (hr : h.request tag length = .ok r) (hsmall : r.spec.isBig = false) :
    (∃ h', alloc tag length h = .error (.fault .overflow) h') ↔ Word.limit ≤ config.poolBytes := by
  have hconf := configured_create hc
  have hqueue := queue_create hc r.kind
  have hw := (wellFormed_create hc).1
  obtain ⟨_, _, _, _, _, rfl⟩ := create_eq_ok hc
  have hsized := hconf.sized_iff hword
  constructor
  · intro ⟨h', he⟩
    rcases (alloc_ends hw tag length).of_fault he with hf | hf
    · exact Nat.le_of_not_lt fun hfit => hf.2 (hsized.mpr hfit)
    · rw [hr] at hf
      cases hf
  · intro hlong
    have hs : ¬ Store.Sized (.ofConfig config system) := fun hs =>
      Nat.not_lt.mpr hlong (hsized.mp hs)
    exact ⟨_, alloc_overflow hr hsmall hqueue rfl hroom hs⟩

/-- Pool blocks of so many segments that their bytes are `2 ^ 70`. -/
def longConfig : Config where
  segmentsPerBlock := 0x1000000000000000

/-- **An accepted configuration whose heap has no first object.** -/
theorem alloc_overflow_long : longConfig.error? = none ∧
    ∃ h, create longConfig (Model.layout 16) .standard = .ok h ∧
      ∃ h', alloc Model.ModelType.nil.tag 0 h = .error (.fault .overflow) h' := by
  refine ⟨by decide, ?_⟩
  have hrun : ((create longConfig (Model.layout 16) .standard).toOption.bind fun h =>
      (h.request Model.ModelType.nil.tag 0).toOption).map (fun r => r.spec.isBig) =
      some false := by
    decide +kernel
  obtain ⟨r, hr, hsmall⟩ := Option.map_eq_some_iff.mp hrun
  obtain ⟨h, hc, hr⟩ := Option.bind_eq_some_iff.mp hr
  have hc := eq_ok_of_toOption hc
  exact ⟨h, hc, (alloc_overflow_iff hc (by decide) (by decide) (eq_ok_of_toOption hr) hsmall).mpr
    (by decide)⟩

end Heap

end SegmentedHeap
