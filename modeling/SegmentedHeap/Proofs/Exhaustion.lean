/-
SegmentedHeap.Proofs.Exhaustion — when a heap has no room.

An allocation uses what there is before it is refused: the free slots of
all segments of its kind, since each segment with a free slot is queued,
and then a segment that can still be reserved. So it runs out exactly if
there is neither. With a retry it then makes a full collection, which gives
back every segment that it empties and queues the others anew, and tries
once more. The second try starts from a heap whose segments all hold
survivors, and to it the same applies.

* `Crowded`, `runsOut_iff` — **an allocation that runs out**.
* `Retried`, `retried_of_allocRetrying` — an allocation with a retry.
* `Reachable.retriesSettled` — the retries of a run.
* `runs_out_only_if_crowded` — **the heaps of a run**.
-/
import SegmentedHeap.Proofs.Pruning
import SegmentedHeap.Proofs.Refusals
import SegmentedHeap.Proofs.Shortage

namespace SegmentedHeap

namespace Heap

variable {σ : Type} {h h' : Heap} {tracer : Tracer σ} {tag : TypeTag} {length : Nat} {r : Request}

/-! ## No room -/

/-- As many segments are reserved as may be. -/
def AtLimit (h : Heap) : Prop := h.store.entries.length = h.config.maxSegments

/-- Every slot of every segment of a kind holds an object. -/
def SlotsTaken (h : Heap) (kind : KindId) : Prop :=
  ∀ i s, h.store.segment? i = some s → s.kind = kind →
    ∀ o ∈ s.slots, h.isAllocated (.ofSlot i o) = true

/-- There is no room for a request: no slot for a small one, and no segment
that could be reserved for it. -/
inductive Crowded (h : Heap) (r : Request) : Prop where
  | small : r.spec.isBig = false → h.SlotsTaken r.kind → h.AtLimit ∨ h.store.NoArea →
      Crowded h r
  | big : r.spec.isBig = true → h.AtLimit ∨ h.store.system.grants h.store.totalBytes
      (r.chunks * h.store.chunkBytes) h.store.chunkBytes = false → Crowded h r

/-- An allocation is refused as exhausted. -/
def RunsOut (h : Heap) (tag : TypeTag) (length : Nat) : Prop :=
  ∃ e h', alloc tag length h = .error (.refused e) h' ∧ e.isExhausted = true

theorem Sound.limit_iff (hs : h.Sound) (hc : h.Configured) :
    h.store.maxSegments ≤ h.store.reserved ↔ h.AtLimit := by
  have hmax : h.store.maxSegments = h.config.maxSegments := hc.geometry.maxSegments
  have hle := Nat.le_trans hs.accounted.reserved_le hs.accounted.size_le
  rw [AtLimit, ← hs.accounted.reserved_eq, ← hmax]
  omega

/-- The slots of a small kind are taken if no segment of it has one that is
free. -/
theorem slotsTaken_iff (hf : h.Formed) (hv : h.Valid r) (hsmall : r.spec.isBig = false) :
    h.SlotsTaken r.kind ↔ ∀ i, ¬ h.HasSlot r.kind i := by
  constructor
  · rintro htaken i ⟨s, hs, _, hkind, o, ho⟩
    have hslot := (hf.store.segment_wf i s hs).free_slots o ho
    obtain ⟨t, ht, hmem⟩ := hf.segment_of_isAllocated (htaken i s hs hkind o hslot)
    have hi := Nat.le_of_lt (hf.store.index_lt hs)
    rw [ObjRef.segment_ofSlot hi, hs] at ht
    rw [ObjRef.offset_ofSlot hi] at hmem
    cases ht
    exact (Segment.mem_allocated.mp hmem).2 ho
  · intro hnone i s hs hkind o ho
    refine (hf.isAllocated_ofSlot hs (Segment.mem_allocated.mpr ⟨ho, fun hfree => ?_⟩)).2
    refine hnone i ⟨s, hs, ?_, hkind, o, hfree⟩
    obtain ⟨spec, hspec, hof⟩ := hf.typed i s hs
    rw [hkind, hv.kind] at hspec
    cases hspec
    cases hsize : r.spec.size with
    | fixed n => exact (hof.small n hsize).1
    | big =>
      rw [Kind.isBig, hsize] at hsmall
      cases hsmall

/-- No slot is claimed where none of the kind is free and the store refuses
a segment. -/
theorem claim_of_refused (hw : h.WellFormed)
    (hnone : r.spec.isBig = false → ∀ i, ¬ h.HasSlot r.kind i) {cause : StoreError} {s : Store}
    (hstore : reserveFor r h.store = .error (.refused cause) s) :
    ∃ h', claim r h = .error (.refused (exhausted r h' cause)) h' := by
  unfold reserveFor at hstore
  unfold claim
  cases hb : r.spec.isBig with
  | true =>
    rw [hb, if_pos rfl] at hstore
    exact ⟨_, bind_of_error (onStore_of_error (exhausted r) hstore)⟩
  | false =>
    rw [hb, if_neg Bool.false_ne_true] at hstore
    have hqueue : h.queue r.kind = [] := List.eq_nil_iff_forall_not_mem.mpr fun i hi =>
      hnone hb i ((hw.mem_queue_iff_hasSlot r.kind i).mp hi)
    refine ⟨h.setStore s, ?_⟩
    rw [if_neg Bool.false_ne_true, claimSmall, get_bind_eq]
    show (claimQueued r.kind (h.queue r.kind) >>= _) h = _
    rw [hqueue]
    exact (bind_of_ok rfl).trans (bind_of_error (onStore_of_error (exhausted r) hstore))

/-- A request that passes its checks runs out where no slot of its kind is
free and the store refuses a segment. -/
theorem runsOut_iff_refused (hw : h.WellFormed) (hreq : h.request tag length = .ok r) :
    h.RunsOut tag length ↔ (r.spec.isBig = false → ∀ i, ¬ h.HasSlot r.kind i) ∧
      ∃ e s', reserveFor r h.store = .error (.refused e) s' := by
  obtain ⟨hv, _⟩ := valid_of_request hreq
  constructor
  · rintro ⟨e, h', he, _⟩
    have hclaim := claim_of_alloc_refused hw hreq he
    obtain ⟨_, _, cause, hstore⟩ := (claim_ends hw.toFormed hw.toFiled hv).of_refused hclaim
    refine ⟨fun hsmall i hi => ?_, cause, _, hstore⟩
    -- a slot that is free would have been claimed
    obtain ⟨obj, h₁, hdone, _⟩ := claimSmall_of_hasSlot hw.toFormed hw.toFiled hi
    rw [claim, hsmall, if_neg Bool.false_ne_true, hdone] at hclaim
    cases hclaim
  · rintro ⟨hnone, cause, s, hstore⟩
    obtain ⟨h', hclaim⟩ := claim_of_refused hw hnone hstore
    refine ⟨exhausted r h' cause, h', ?_, rfl⟩
    rw [alloc, get_bind_eq, hreq]
    exact bind_of_error hclaim

/-- The bytes of a big object whose request passes its checks fit in
memory. -/
theorem bigChunks_of_request (hreq : h.request tag length = .ok r) (hbig : r.spec.isBig = true) :
    0 < r.chunks ∧ r.chunks * h.store.chunkBytes ≤ Word.maxSize := by
  obtain ⟨_, _, hchunks⟩ := checks_of_request hreq
  rcases h.requestedChunks_cases r.spec length with ⟨_, _, e⟩ | ⟨needed, _, ⟨n, hs, _⟩ | ⟨_, e⟩⟩
  · cases e.symm.trans hchunks
  · rw [Kind.isBig, hs] at hbig
    cases hbig
  · rw [e] at hchunks
    split at hchunks
    · cases hchunks
    · next hle =>
      rw [← Except.ok.inj hchunks]
      refine ⟨Nat.lt_of_lt_of_le Nat.one_pos (Nat.le_max_right _ _), ?_⟩
      exact Nat.le_trans (Nat.mul_le_mul_right _ (Nat.le_of_not_lt hle)) (Nat.div_mul_le_self _ _)

/-- **An allocation runs out exactly if there is no room** for the request. -/
theorem runsOut_iff (hs : h.Sound) (hc : h.Configured) (hreq : h.request tag length = .ok r)
    (hsized : r.spec.isBig = false → h.store.Sized) :
    h.RunsOut tag length ↔ h.Crowded r := by
  have hw := hs.wellFormed
  obtain ⟨hv, _⟩ := valid_of_request hreq
  rw [runsOut_iff_refused hw hreq, reserveFor]
  cases hb : r.spec.isBig with
  | false =>
    rw [if_neg Bool.false_ne_true, Store.reserveSmall_refused_iff (hsized hb),
      hs.limit_iff hc, ← slotsTaken_iff hw.toFormed hv hb]
    constructor
    · rintro ⟨htaken, hroom⟩
      exact .small hb (htaken rfl) hroom
    · intro hcrowded
      cases hcrowded with
      | small _ htaken hroom => exact ⟨fun _ => htaken, hroom⟩
      | big hbig _ =>
        rw [hb] at hbig
        cases hbig
  | true =>
    obtain ⟨hpos, hle⟩ := bigChunks_of_request hreq hb
    rw [if_pos rfl, Store.reserveBig_refused_iff _ _ hpos hle, hs.limit_iff hc]
    constructor
    · rintro ⟨_, hroom⟩
      exact .big hb hroom
    · intro hcrowded
      cases hcrowded with
      | small hsmall _ _ =>
        rw [hb] at hsmall
        cases hsmall
      | big _ hroom => exact ⟨fun hn => Bool.noConfusion hn, hroom⟩

/-- A request that passes its checks is refused as exhausted or not at all. -/
theorem isExhausted_of_refused (hw : h.WellFormed) (hreq : h.request tag length = .ok r)
    {e : HeapError} (he : alloc tag length h = .error (.refused e) h') : e.isExhausted = true := by
  rcases ((alloc_ends hw tag length).of_refused he).2 with hreject | ⟨_, _, rfl⟩
  · cases hreq.symm.trans hreject
  · rfl

/-- Where there is room, an object is returned. -/
theorem alloc_of_room (hs : h.Sound) (hc : h.Configured) (hreq : h.request tag length = .ok r)
    (hsized : h.store.Sized) (hroom : ¬ h.Crowded r) : ∃ p h', alloc tag length h = .ok p h' := by
  have hends := alloc_ends hs.wellFormed tag length
  cases he : alloc tag length h with
  | ok p h' => exact ⟨p, h', rfl⟩
  | error e h' =>
    rw [he] at hends
    cases e with
    | refused e =>
      have ho : h.RunsOut tag length := ⟨e, h', he, isExhausted_of_refused hs.wellFormed hreq he⟩
      exact (hroom ((runsOut_iff hs hc hreq fun _ => hsized).mp ho)).elim
    | fault f =>
      rcases hends with hover | hfault
      · exact (hover.2 hsized).elim
      · cases hreq.symm.trans hfault

/-! ## The retry -/

/-- An allocation makes no collection and no retry. -/
theorem kept_alloc (hl : Leaves (alloc tag length) h h') :
    h'.metrics.collections = h.metrics.collections ∧ h'.metrics.retries = h.metrics.retries := by
  rcases (alloc_counters tag length h).of_leaves hl with ⟨_, bytes, sizeClass, hc⟩ | ⟨_, hc⟩
  · have hm : h'.metrics = h.metrics.recordAllocation bytes sizeClass :=
      congrArg Counters.metrics hc
    rw [hm]
    cases sizeClass <;> exact ⟨rfl, rfl⟩
  · have hm : h'.metrics = h.metrics := congrArg Counters.metrics hc
    rw [hm]
    exact ⟨rfl, rfl⟩

theorem kept_attempt {out : Except HeapError ObjRef}
    (he : attempt (alloc tag length) h = .ok out h') :
    h'.metrics.collections = h.metrics.collections ∧ h'.metrics.retries = h.metrics.retries := by
  rcases of_attempt he with ⟨p, _, ha⟩ | ⟨e, _, ha⟩
  · exact kept_alloc (Or.inl ⟨p, ha⟩)
  · exact kept_alloc (Or.inr ⟨e, ha⟩)

/-- A collection is counted at its level, and makes no retry. -/
theorem counted_collect (hw : h.WellFormed) {level : Generation} {log : σ}
    {result : CollectionReport × σ} (he : collect tracer level log h = .ok result h') :
    h'.metrics.collections = h.metrics.collections.modify (· + 1) level ∧
      h'.metrics.retries = h.metrics.retries := by
  have hm : h'.metrics = h.metrics.recordCollection result.1 :=
    congrArg Counters.metrics ((collect_counters hw.toFormed tracer level log).of_ok he)
  rw [hm, ← ((collect_ends hw tracer level log).of_ok he).level_eq]
  exact ⟨rfl, rfl⟩

/-- A request that runs out is one that passes its checks. -/
theorem request_of_runsOut (hw : h.WellFormed) (ho : h.RunsOut tag length) :
    ∃ r, h.request tag length = .ok r := by
  obtain ⟨e, h', he, hex⟩ := ho
  rcases ((alloc_ends hw tag length).of_refused he).2 with hreject | ⟨r, hreq, _⟩
  · have hd := disallows_of_request hreject
    cases hd <;> cases hex
  · exact ⟨r, hreq⟩

/-- A heap that a collection left, in which there is no room either: each
segment holds an object that survived. -/
structure Depleted (h : Heap) (tag : TypeTag) (length : Nat) (h₁ : Heap) : Prop where
  survivor : ∀ i s, h₁.store.segment? i = some s →
    ∃ p : ObjRef, p.segment = i ∧ h.isAllocated p = true ∧ h₁.isAllocated p = true
  crowded : ∃ r, h.request tag length = .ok r ∧ h₁.request tag length = .ok r ∧
    ((r.spec.isBig = false → h.store.Sized) → h₁.Crowded r)

/-- What is refused right after a collection runs out, since what survived
leaves no room. -/
theorem depleted_of_collect (hs : h.Sound) (hc : h.Configured)
    (hreq : h.request tag length = .ok r) {level : Generation} {log : σ}
    {result : CollectionReport × σ} {h₁ : Heap} {e : HeapError}
    (hcollect : collect tracer level log h = .ok result h₁)
    (he : alloc tag length h₁ = .error (.refused e) h') :
    e.isExhausted = true ∧ h.Depleted tag length h₁ := by
  have hw := hs.wellFormed
  have hcollected := (collect_ends hw tracer level log).of_ok hcollect
  have hs₁ := (hs.collect tracer level log).of_ok hcollect
  have hreq₁ : h₁.request tag length = .ok r :=
    (request_congr hcollected.setting tag length).trans hreq
  have hex := isExhausted_of_refused hs₁.wellFormed hreq₁ he
  refine ⟨hex, fun i s hi => ?_, r, hreq, hreq₁, fun hsized => ?_⟩
  · obtain ⟨p, hp, halloc⟩ := occupied_collect hw hcollect i s hi
    exact ⟨p, hp, (hcollected.exactly hw).makes p halloc, halloc⟩
  · have hsized₁ : r.spec.isBig = false → h₁.store.Sized := fun hsmall =>
      hcollected.setting.geometry.sized_iff.mpr (hsized hsmall)
    exact (runsOut_iff hs₁ (hc.congr hcollected.setting) hreq₁ hsized₁).mp ⟨e, h', he, hex⟩

/-- How an allocation with a retry goes: as the allocation does, unless that
runs out. Then there is one collection, a full one, and another try, which
is refused only if there is no room even so. -/
structure Retried (h : Heap) (tracer : Tracer σ) (tag : TypeTag) (length : Nat) (log : σ)
    (out : Except HeapError ObjRef × σ) (h' : Heap) : Prop where
  alone : ¬ h.RunsOut tag length → attempt (alloc tag length) h = .ok out.1 h' ∧ out.2 = log ∧
    h'.metrics.collections = h.metrics.collections
  again : h.RunsOut tag length → ∃ report h₁ h₂,
    collect tracer .two log (h.withMetrics h.metrics.recordRetry) = .ok (report, out.2) h₁ ∧
    attempt (alloc tag length) h₁ = .ok out.1 h₂ ∧
    h' = h₂.withMetrics (h₂.metrics.recordRetried out.1.isOk) ∧
    h'.metrics.collections = h.metrics.collections.modify (· + 1) .two ∧
    ∀ e, out.1 = .error e → e.isExhausted = true ∧ h.Depleted tag length h₁

/-- **One collection is made, and only if the first try runs out**; the
second runs out only where what survived takes all the room. -/
theorem retried_of_allocRetrying (hs : h.Sound) (hc : h.Configured) {log : σ}
    {out : Except HeapError ObjRef × σ} (he : allocRetrying tracer tag length log h = .ok out h') :
    Retried h tracer tag length log out h' := by
  have hw := hs.wellFormed
  cases tries_of_allocRetrying hw he with
  | @once tried _ htry hkept =>
    refine ⟨fun _ => ⟨htry, rfl, (kept_attempt htry).1⟩, fun ho => ?_⟩
    obtain ⟨e, h', he, hex⟩ := ho
    have hfirst : attempt (alloc tag length) h = .ok (.error e) h' := by rw [attempt, he]
    cases hfirst.symm.trans htry
    rw [hkept e rfl] at hex
    cases hex
  | @twice e report log' tried h₁ h₂ ha hex hcollect htry =>
    have ho : h.RunsOut tag length := ⟨e, h, ha, hex⟩
    have hw₀ := hw.withMetrics h.metrics.recordRetry
    refine ⟨fun hn => (hn ho).elim, fun _ => ⟨report, h₁, h₂, hcollect, htry, rfl, ?_, ?_⟩⟩
    · exact (kept_attempt htry).1.trans (counted_collect hw₀ hcollect).1
    · intro f hf
      obtain ⟨r, hreq⟩ := request_of_runsOut hw ho
      obtain ⟨_, hok, _⟩ | ⟨g, hg, hagain⟩ := of_attempt htry
      · cases hf.symm.trans hok
      · cases hf.symm.trans hg
        have hc₀ : (h.withMetrics h.metrics.recordRetry).Configured :=
          ⟨hc.accepted, hc.kinds, hc.geometry⟩
        obtain ⟨hex, hd⟩ := depleted_of_collect (hs.withMetrics _) hc₀ hreq hcollect hagain
        exact ⟨hex, hd.survivor, hd.crowded⟩

/-! ## Retries of a run -/

/-- Each retry ended in one of the two ways. -/
def RetriesSettled (h : Heap) : Prop :=
  h.metrics.retries.attempts = h.metrics.retries.successful + h.metrics.retries.failed

theorem RetriesSettled.congr (hr : h.RetriesSettled) (hm : h'.metrics.retries = h.metrics.retries) :
    h'.RetriesSettled := by
  rw [RetriesSettled, hm]
  exact hr

theorem RetriesSettled.of_uncounted {α : Type} {act : HeapM α} (hr : h.RetriesSettled)
    (hu : Uncounted act) (hl : Leaves act h h') : h'.RetriesSettled :=
  hr.congr (congrArg (fun c : Counters => c.metrics.retries) ((hu h).leaves hl))

theorem RetriesSettled.allocRetrying {log : σ} {out : Except HeapError ObjRef × σ}
    (hr : h.RetriesSettled) (hw : h.WellFormed)
    (he : allocRetrying tracer tag length log h = .ok out h') : h'.RetriesSettled := by
  cases tries_of_allocRetrying hw he with
  | once htry _ => exact hr.congr (kept_attempt htry).2
  | @twice e report log' tried h₁ h₂ _ _ hcollect htry =>
    have hw₀ := hw.withMetrics h.metrics.recordRetry
    have hm : h₂.metrics.retries = h.metrics.recordRetry.retries :=
      (kept_attempt htry).2.trans (counted_collect hw₀ hcollect).2
    unfold RetriesSettled at hr ⊢
    show (h₂.metrics.recordRetried tried.isOk).retries.attempts =
      (h₂.metrics.recordRetried tried.isOk).retries.successful +
        (h₂.metrics.recordRetried tried.isOk).retries.failed
    cases hok : tried.isOk <;>
      simp only [Metrics.recordRetried, hm, Metrics.recordRetry, if_true, if_false,
        Bool.false_eq_true] <;> omega

/-- **Each retry of a run ended in one of the two ways.** -/
theorem Reachable.retriesSettled (hr : h.Reachable) : h.RetriesSettled := by
  induction hr with
  | create hc =>
    obtain ⟨_, _, _, _, _, rfl⟩ := create_eq_ok hc
    rfl
  | alloc tag length _ hl ih => exact ih.congr (kept_alloc hl).2
  | allocRetrying tracer tag length log hr hl ih =>
    rcases hl with ⟨_, he⟩ | ⟨_, he⟩
    · exact ih.allocRetrying hr.wellFormed he
    · exact ((allocRetrying_ends hr.wellFormed tracer tag length log).of_refused he).elim
  | @free h h' obj _ hl ih =>
    rcases (free_counters obj h).of_leaves hl with ⟨_, hc⟩ | ⟨_, hc⟩
    all_goals exact ih.congr (congrArg (fun c : Counters => c.metrics.retries) hc)
  | setBytes obj start bytes _ hl ih => exact ih.of_uncounted (uncounted_setBytes _ _ _) hl
  | register source target _ hl ih => exact ih.of_uncounted (uncounted_register _ _) hl
  | writeRef source field target _ hl ih => exact ih.of_uncounted (uncounted_writeRef _ _ _) hl
  | collect tracer level log hr hl ih =>
    rcases hl with ⟨_, he⟩ | ⟨_, he⟩
    · exact ih.congr (counted_collect hr.wellFormed he).2
    · exact ((collect_ends hr.wellFormed tracer level log).of_refused he).elim

/-- **An allocation runs out only if there is no room**, in every heap of a
run, and returns an object if there is some. One with a retry makes a full
collection then and no other, and runs out again only if what survived
leaves no room either; and each retry of the run is counted as one that
succeeded or failed. -/
theorem runs_out_only_if_crowded (hr : h.Reachable) :
    (∀ tag length r, h.request tag length = .ok r →
      ((r.spec.isBig = false → h.store.Sized) → (h.RunsOut tag length ↔ h.Crowded r)) ∧
      (h.store.Sized → ¬ h.Crowded r → ∃ p h', alloc tag length h = .ok p h')) ∧
    (∀ (τ : Type) (tracer : Tracer τ) tag length (log : τ),
      Ends (allocRetrying tracer tag length log h) (Retried h tracer tag length log)
        (fun _ _ => False) fun f => (∃ metrics, (h.withMetrics metrics).StrayFault tracer .two f) ∨
          h.AllocFault tag length f) ∧
    h.metrics.retries.attempts = h.metrics.retries.successful + h.metrics.retries.failed := by
  have hs := hr.sound
  have hc := hr.configured
  refine ⟨fun tag length r hreq => ⟨runsOut_iff hs hc hreq, alloc_of_room hs hc hreq⟩,
    fun τ tracer tag length log => ?_, hr.retriesSettled⟩
  exact (allocRetrying_ends hs.wellFormed tracer tag length log).sharpen fun _ _ he =>
    retried_of_allocRetrying hs hc he

/-- A big vector that nothing refers to has the only segment, so that there
is no room for a pair until the vector is collected. -/
theorem runs_out_only_if_crowded_tightHeap : ∃ (h h' : Heap) (r : Request)
    (out : Except HeapError ObjRef × Unit), h.Reachable ∧
      h.request Model.ModelType.pair.tag 0 = .ok r ∧ r.spec.isBig = false ∧ h.Crowded r ∧
      allocRetrying { roots := [], refs := fun v => v.refs 2 } Model.ModelType.pair.tag 0 () h =
        .ok out h' ∧ out.1.isOk = true ∧
      h'.metrics.collections = h.metrics.collections.modify (· + 1) .two ∧
      h'.metrics.retries.attempts = h'.metrics.retries.successful + h'.metrics.retries.failed := by
  let tag := Model.ModelType.pair.tag
  let tracer : Tracer Unit := { roots := [], refs := fun v => v.refs 2 }
  let h := after (alloc Model.ModelType.vector.tag 1000) tightHeap
  have hr : h.Reachable := .alloc _ _ reachable_tightHeap (leaves_after (by decide +kernel))
  have hrefused : (refusal (alloc tag 0 h)).map (·.isExhausted) = some true := by decide +kernel
  obtain ⟨e, hre, hex⟩ := Option.map_eq_some_iff.mp hrefused
  obtain ⟨h₀, he⟩ := exists_of_refusal hre
  have ho : h.RunsOut tag 0 := ⟨e, h₀, he, hex⟩
  have hkind : (h.request tag 0).toOption.map (·.spec.isBig) = some false ∧
      (returned (allocRetrying tracer tag 0 ()) h).map (·.1.isOk) = some true ∧
      h.store.chunkBits < 64 ∧ h.store.poolBytes < Word.limit := by
    decide +kernel
  obtain ⟨hrequest, hretried, hbits, hpool⟩ := hkind
  obtain ⟨r, hreq, hsmall⟩ := Option.map_eq_some_iff.mp hrequest
  obtain ⟨out, hout, hok⟩ := Option.map_eq_some_iff.mp hretried
  have hreq := eq_ok_of_toOption hreq
  have hout := eq_ok_of_returned hout
  obtain ⟨hiff, hretry, _⟩ := runs_out_only_if_crowded hr
  obtain ⟨_, _, _, _, _, _, hcount, _⟩ := ((hretry Unit tracer tag 0 ()).of_ok hout).again ho
  have hr' : Reachable _ := .allocRetrying tracer tag 0 () hr (Or.inl ⟨out, hout⟩)
  have hcrowded := ((hiff tag 0 r hreq).1 fun _ => ⟨hbits, hpool⟩).mp ho
  exact ⟨h, _, r, out, hr, hreq, hsmall, hcrowded, hout, hok, hcount,
    (runs_out_only_if_crowded hr').2.2⟩

end Heap

end SegmentedHeap
