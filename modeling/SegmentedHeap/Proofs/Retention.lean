/-
SegmentedHeap.Proofs.Retention — nothing empty is retained.

A segment that holds no object can be given back. A big one goes with its
object, whether that is freed or collected. A small one waits for the end
of a collection, so that it can be idle for a while; but allocations,
stores and collections leave none idle that was not, and a free only the
one that the object was in. So every idle segment of a run goes back to a
free since the last collection.

* `Idle` — a small segment without objects.
* `Idle.of_alloc`, `Idle.of_free`, … — what each operation leaves idle.
* `FreedSince` — runs, with what was freed one by one since the last
  collection.
* `nothing_empty_retained` — **the segments of a run**, and of the heap
  after its next collection.
-/
import SegmentedHeap.Proofs.Pruning

namespace SegmentedHeap

namespace Heap

open Store (GivesBack SameStock)

variable {σ : Type} {h h' : Heap} {tracer : Tracer σ} {level : Generation} {p q : ObjRef}
  {i : SegmentIndex} {s : Segment} {freed : List ObjRef}

/-! ## Small segments without objects -/

/-- A small segment has the index, and holds no object. -/
def Idle (h : Heap) (i : SegmentIndex) : Prop :=
  h.hasSmall i = true ∧ ∀ p : ObjRef, p.segment = i → ¬ h.isAllocated p = true

theorem Occupied.not_idle (ho : h.Occupied) (i : SegmentIndex) : ¬ h.Idle i := by
  intro hi
  obtain ⟨s, hs, _⟩ := (Option.any_eq_true _ _).mp hi.1
  obtain ⟨p, hp, ha⟩ := ho i s hs
  exact hi.2 p hp ha

/-- Where a segment is left as it was, with its objects, it was idle if it
is. -/
theorem Idle.of_left (hi : h'.Idle i)
    (hleft : ∀ t', h'.store.segment? i = some t' → ∃ t, h.store.segment? i = some t ∧
      Segment.SameShape t t')
    (hobj : ∀ p : ObjRef, p.segment = i → h.isAllocated p = true → h'.isAllocated p = true) :
    h.Idle i := by
  obtain ⟨t', ht', hsmall⟩ := (Option.any_eq_true _ _).mp hi.1
  obtain ⟨t, ht, hshape⟩ := hleft t' ht'
  refine ⟨?_, fun p hp ha => hi.2 p hp (hobj p hp ha)⟩
  rw [hasSmall, ht, Option.any_some, ← hshape.isBig]
  exact hsmall

/-- The index of a new segment is one that references can have. -/
theorem nextIndex_le (hw : h.WellFormed) : h.store.nextIndex ≤ maxSegments := by
  have hs := hw.store
  have hle : ∀ i, i ≤ h.store.segments.size → i ≤ maxSegments := fun i hi =>
    Nat.le_trans hi (Nat.le_trans hs.size_le hs.limit_le)
  rw [Store.nextIndex]
  cases hv : h.store.vacant with
  | nil => exact hle _ (Nat.le_refl _)
  | cons i rest =>
    exact hle i (Nat.le_of_lt ((hs.mem_vacant i).mp (hv ▸ List.mem_cons_self)).1)

/-- Segments but for one are as they were. -/
theorem lasting_leftBut (s₀ : Store) (j : SegmentIndex) : Lasting fun s =>
    ∀ i t', i ≠ j → s.segment? i = some t' →
      ∃ t, s₀.segment? i = some t ∧ Segment.SameShape t t' where
  modify {s k f} hs hf i t' hi ht' := by
    obtain ⟨u, hu, ⟨e, rfl⟩ | rfl⟩ := Store.exists_of_modifySegment ht'
    · obtain ⟨t, ht, hshape⟩ := hs i u hi hu
      exact ⟨t, ht, hshape.trans (hf u (e ▸ hu)).shape⟩
    · exact hs i t' hi hu
  memory _ hs := hs

/-- **The segments that an allocation finds** are left as they were, and
the one that it may add is the object's. -/
theorem left_of_alloc (hw : h.WellFormed) {tag : TypeTag} {length : Nat}
    (he : alloc tag length h = .ok p h') (hi : i ≠ p.segment) {t' : Segment}
    (ht' : h'.store.segment? i = some t') :
    ∃ t, h.store.segment? i = some t ∧ Segment.SameShape t t' := by
  obtain ⟨r, _, hreq, hv, hplace, _⟩ := ((alloc_ends hw tag length).of_ok he).object
  by_cases hwait : r.spec.isBig = false ∧ h.queue r.kind ≠ []
  · -- a slot is waiting, so that nothing is reserved
    obtain ⟨hsmall, hne⟩ := hwait
    obtain ⟨j, hj⟩ := List.exists_mem_of_ne_nil _ hne
    obtain ⟨obj, h₁, hclaim, hsame, _⟩ := claimSmall_of_hasSlot hw.toFormed hw.toFiled
      ((hw.mem_queue_iff_hasSlot r.kind j).mp hj)
    have hc : claim r h = .ok obj h₁ := by
      rw [claim, hsmall, if_neg Bool.false_ne_true]
      exact hclaim
    obtain ⟨h₂, hfurnish, hdone⟩ := alloc_of_claim hw hreq hc
    cases hdone.symm.trans he
    have hsame' := ((lasting_sameStock h₁.store).furnish (.refl _) r p).of_ok hfurnish
    exact (GivesBack.of_sameStock (hsame.trans hsame')).left i t' ht'
  · -- the object is in the segment that is reserved for it
    have hnone : (if r.spec.isBig then [] else h.queue r.kind) = [] := by
      cases hb : r.spec.isBig with
      | true => rfl
      | false => exact Classical.byContradiction fun hne => hwait ⟨hb, hne⟩
    rw [nextSlot, hnone] at hplace
    have hseg : p.segment = h.store.nextIndex := by
      rw [hplace]
      exact ObjRef.segment_ofSlot (nextIndex_le hw) _
    have hends := (lasting_leftBut h.store h.store.nextIndex).alloc hw
      (fun i t _ ht => ⟨t, ht, .refl t⟩) (fun j t s' hr _ _ => fun i u hi hu => ?_) tag length
    · exact hends.of_ok he i t' (hseg ▸ hi) ht'
    · rw [hr.segment?, if_neg fun e => hi (e.symm.trans hr.index)] at hu
      exact ⟨u, hu, .refl u⟩

/-- **An allocation leaves no segment idle** that was not. -/
theorem Idle.of_alloc (hw : h.WellFormed) {tag : TypeTag} {length : Nat}
    (hl : Leaves (alloc tag length) h h') (hi : h'.Idle i) : h.Idle i := by
  rcases hl with ⟨p, he⟩ | ⟨e, he⟩
  · have ha := (alloc_ends hw tag length).of_ok he
    obtain ⟨_, _, _, _, _, _, hx⟩ := ha.object
    have hne : i ≠ p.segment := fun e =>
      hi.2 p e.symm (ha.wellFormed.isAllocated_iff_lookup.mpr ⟨_, hx⟩)
    refine hi.of_left (fun t' => left_of_alloc hw he hne) fun q hq hqa => ?_
    rw [ha.wellFormed.isAllocated_iff_lookup, ha.others q fun e => hne (e ▸ hq.symm)]
    exact hw.isAllocated_iff_lookup.mp hqa
  · rw [← ((alloc_ends hw tag length).of_refused he).1]
    exact hi

/-- **A free leaves only the object's segment idle.** -/
theorem Idle.of_free (hw : h.WellFormed) (he : free p h = .ok () h') (hi : h'.Idle i)
    (hne : p.segment ≠ i) : h.Idle i := by
  obtain ⟨hf', hc, _⟩ := (free_ends hw p).of_ok he
  refine hi.of_left (fun t' => (free_givesBack he).left i t') fun q hq hqa => ?_
  rw [hf'.isAllocated_iff_lookup, hc.lookup_other fun e => hne (e ▸ hq)]
  exact hw.isAllocated_iff_lookup.mp hqa

/-- A heap with the same stock and the same objects has the same idle
segments. -/
theorem Idle.of_sameStock (hs : SameStock h.store h'.store)
    (hobj : ∀ q, h.isAllocated q = true → h'.isAllocated q = true) (hi : h'.Idle i) : h.Idle i :=
  hi.of_left (fun t' => (GivesBack.of_sameStock hs).left i t') fun q _ => hobj q

/-! ## Runs -/

/-- The heaps of the runs of a program, each with the objects that were
freed one by one since its last collection, the collections inside an
allocation with a retry included. -/
inductive FreedSince : Heap → List ObjRef → Prop where
  | create {config : Config} {layout : ObjectLayout} {system : System} {h : Heap} :
      create config layout system = .ok h → FreedSince h []
  | alloc {h h' : Heap} {freed : List ObjRef} (tag : TypeTag) (length : Nat) :
      FreedSince h freed → Leaves (alloc tag length) h h' → FreedSince h' freed
  | allocRetrying {σ : Type} {h h' : Heap} {freed : List ObjRef}
      {r : Except HeapError ObjRef × σ} (tracer : Tracer σ) (tag : TypeTag) (length : Nat)
      (log : σ) : FreedSince h freed → allocRetrying tracer tag length log h = .ok r h' →
      FreedSince h' (if retryReports tracer tag length log h = [] then freed else [])
  | free {h h' : Heap} {freed : List ObjRef} (obj : ObjRef) :
      FreedSince h freed → free obj h = .ok () h' → FreedSince h' (obj :: freed)
  | freeRefused {h h' : Heap} {freed : List ObjRef} {e : HeapError} (obj : ObjRef) :
      FreedSince h freed → free obj h = .error (.refused e) h' → FreedSince h' freed
  | setBytes {h h' : Heap} {freed : List ObjRef} (obj : ObjRef) (start : Nat)
      (bytes : List UInt8) : FreedSince h freed → Leaves (setBytes obj start bytes) h h' →
      FreedSince h' freed
  | register {h h' : Heap} {freed : List ObjRef} (source target : ObjRef) :
      FreedSince h freed → Leaves (register source target) h h' → FreedSince h' freed
  | writeRef {h h' : Heap} {freed : List ObjRef} (source : ObjRef) (field : Nat)
      (target : ObjRef) : FreedSince h freed → Leaves (writeRef source field target) h h' →
      FreedSince h' freed
  | collect {σ : Type} {h h' : Heap} {freed : List ObjRef} {r : CollectionReport × σ}
      (tracer : Tracer σ) (level : Generation) (log : σ) :
      FreedSince h freed → collect tracer level log h = .ok r h' → FreedSince h' []

/-- The same runs. -/
theorem FreedSince.reachable (hr : FreedSince h freed) : h.Reachable := by
  induction hr with
  | create hc => exact .create hc
  | alloc tag length _ hl ih => exact .alloc tag length ih hl
  | allocRetrying tracer tag length log _ he ih =>
    exact .allocRetrying tracer tag length log ih (Or.inl ⟨_, he⟩)
  | free obj _ he ih => exact .free obj ih (Or.inl ⟨_, he⟩)
  | freeRefused obj _ he ih => exact .free obj ih (Or.inr ⟨_, he⟩)
  | setBytes obj start bytes _ hl ih => exact .setBytes obj start bytes ih hl
  | register source target _ hl ih => exact .register source target ih hl
  | writeRef source field target _ hl ih => exact .writeRef source field target ih hl
  | collect tracer level log _ he ih => exact .collect tracer level log ih (Or.inl ⟨_, he⟩)

theorem Reachable.freedSince (hr : h.Reachable) : ∃ freed, FreedSince h freed := by
  induction hr with
  | create hc => exact ⟨_, .create hc⟩
  | alloc tag length _ hl ih => exact ih.imp fun _ hr => .alloc tag length hr hl
  | allocRetrying tracer tag length log hr hl ih =>
    obtain ⟨_, ih⟩ := ih
    rcases hl with ⟨_, he⟩ | ⟨_, he⟩
    · exact ⟨_, .allocRetrying tracer tag length log ih he⟩
    · exact ((allocRetrying_ends hr.wellFormed tracer tag length log).of_refused he).elim
  | free obj _ hl ih =>
    obtain ⟨_, ih⟩ := ih
    rcases hl with ⟨_, he⟩ | ⟨_, he⟩
    · exact ⟨_, .free obj ih he⟩
    · exact ⟨_, .freeRefused obj ih he⟩
  | setBytes obj start bytes _ hl ih => exact ih.imp fun _ hr => .setBytes obj start bytes hr hl
  | register source target _ hl ih => exact ih.imp fun _ hr => .register source target hr hl
  | writeRef source field target _ hl ih =>
    exact ih.imp fun _ hr => .writeRef source field target hr hl
  | collect tracer level log hr hl ih =>
    obtain ⟨_, ih⟩ := ih
    rcases hl with ⟨_, he⟩ | ⟨_, he⟩
    · exact ⟨_, .collect tracer level log ih he⟩
    · exact ((collect_ends hr.wellFormed tracer level log).of_refused he).elim

/-- An attempt leaves no segment idle that was not. -/
theorem Idle.of_attempt (hw : h.WellFormed) {tag : TypeTag} {length : Nat}
    {r : Except HeapError ObjRef} (he : attempt (alloc tag length) h = .ok r h')
    (hi : h'.Idle i) : h.Idle i := by
  rcases Heap.of_attempt he with ⟨p, _, ha⟩ | ⟨e, _, ha⟩
  · exact hi.of_alloc hw (Or.inl ⟨p, ha⟩)
  · exact hi.of_alloc hw (Or.inr ⟨e, ha⟩)

/-- An allocation with a retry leaves a segment idle only if it did not
collect, and found it so. -/
theorem Idle.of_allocRetrying {tag : TypeTag} {length : Nat} {log : σ}
    {r : Except HeapError ObjRef × σ} (hw : h.WellFormed)
    (he : allocRetrying tracer tag length log h = .ok r h') (hi : h'.Idle i) :
    h.Idle i ∧ retryReports tracer tag length log h = [] := by
  cases tries_of_allocRetrying hw he with
  | once htry hkept => exact ⟨hi.of_attempt hw htry, retryReports_of_once log htry hkept⟩
  | @twice _ _ _ _ h₁ h₂ _ _ hcollect htry =>
    -- after the collection there is none, and the second try leaves none
    have hw₀ := hw.withMetrics h.metrics.recordRetry
    have hw₁ := ((collect_ends hw₀ tracer .two log).of_ok hcollect).wellFormed
    have hi₂ : h₂.Idle i := hi
    exact ((occupied_collect hw₀ hcollect).not_idle i (hi₂.of_attempt hw₁ htry)).elim

/-- **A segment that is idle was emptied by a free** since the last
collection. -/
theorem FreedSince.idle (hr : FreedSince h freed) (hi : h.Idle i) :
    ∃ p ∈ freed, p.segment = i := by
  induction hr with
  | create hc =>
    obtain ⟨_, _, _, _, _, rfl⟩ := create_eq_ok hc
    cases hi.1
  | alloc tag length hr hl ih => exact ih (hi.of_alloc hr.reachable.wellFormed hl)
  | allocRetrying tracer tag length log hr he ih =>
    obtain ⟨hi, hnone⟩ := hi.of_allocRetrying hr.reachable.wellFormed he
    rw [if_pos hnone]
    exact ih hi
  -- only a free can leave a segment without objects
  | free obj hr he ih =>
    by_cases e : obj.segment = i
    · exact ⟨obj, List.mem_cons_self, e⟩
    · obtain ⟨p, hp, hseg⟩ := ih (hi.of_free hr.reachable.wellFormed he e)
      exact ⟨p, List.mem_cons_of_mem obj hp, hseg⟩
  | freeRefused obj hr he ih =>
    rw [(free_ends hr.reachable.wellFormed obj).of_refused he] at hi
    exact ih hi
  | setBytes obj start bytes hr hl ih =>
    have hw := hr.reachable.wellFormed
    have hstock := ((lasting_sameStock _).setBytes (.refl _) obj start bytes).leaves hl
    exact ih (hi.of_sameStock hstock fun q => ((sameObjects_setBytes hw hl).isAllocated_iff
      hw.toFormed (steady_setBytes hw hl).wellFormed.toFormed q).mpr)
  | register source target hr hl ih =>
    have hw := hr.reachable.wellFormed
    have hstock := ((lasting_sameStock _).register (.refl _) source target).leaves hl
    exact ih (hi.of_sameStock hstock fun q => ((sameObjects_register hw hl).isAllocated_iff
      hw.toFormed (steady_register hw hl).wellFormed.toFormed q).mpr)
  | writeRef source field target hr hl ih =>
    have hw := hr.reachable.wellFormed
    have hstock := ((lasting_sameStock _).writeRef (.refl _) source field target).leaves hl
    exact ih (hi.of_sameStock hstock fun q => ((sameObjects_writeRef hw hl).isAllocated_iff
      hw.toFormed (steady_writeRef hw hl).wellFormed.toFormed q).mpr)
  -- a collection leaves no segment without objects
  | collect tracer level log hr he ih =>
    exact ((occupied_collect hr.reachable.wellFormed he).not_idle i hi).elim

/-- What is reserved in a heap, given what was freed one by one since the
last collection. -/
structure Retains (h : Heap) (freed : List ObjRef) : Prop where
  big : ∀ i s, h.store.segment? i = some s → s.isBig = true →
    ∃! p : ObjRef, p.segment = i ∧ h.isAllocated p = true
  small : ∀ i s, h.store.segment? i = some s → s.isBig = false →
    (∃ p : ObjRef, p.segment = i ∧ h.isAllocated p = true) ∨ ∃ p ∈ freed, p.segment = i

theorem FreedSince.retains (hr : FreedSince h freed) : h.Retains freed := by
  refine ⟨fun i s hs hb => hr.reachable.wellFormed.existsUnique_of_big hs hb,
    fun i s hs hb => Classical.or_iff_not_imp_left.mpr fun hn => hr.idle ⟨?_, fun p hp ha => ?_⟩⟩
  · rw [hasSmall, hs, Option.any_some, hb]
    rfl
  · exact hn ⟨p, hp, ha⟩

/-- **Nothing empty is retained** in a run: wherever it has come to, a big
segment holds its object and a small one is without objects only after
frees. A collection that is made there leaves no segment empty, whatever
its level, and so does the one inside an allocation with a retry, which
counts that retry first. -/
theorem nothing_empty_retained (hr : FreedSince h freed) : h.Retains freed ∧
    ∀ (τ : Type) (tracer : Tracer τ) (level : Generation) (log : τ) (metrics : Metrics),
      Ends (collect tracer level log (h.withMetrics metrics))
        (fun _ h' => Pruned (h.withMetrics metrics) h') (fun _ _ => False)
        ((h.withMetrics metrics).StrayFault tracer level) := by
  refine ⟨hr.retains, fun τ tracer level log metrics => ?_⟩
  have hs := hr.reachable.sound.withMetrics metrics
  exact (collect_ends hs.wellFormed tracer level log).sharpen fun _ _ => pruned_collect hs

theorem not_isAllocated_of_zero (hf : h.Formed) (hzero : h.occupancy.totalObjects = 0)
    (q : ObjRef) : ¬ h.isAllocated q = true := by
  intro hq
  obtain ⟨live, _, hmem, hlength⟩ := counts_all hf
  rw [hzero] at hlength
  have hq := (hmem q).mpr hq
  rw [List.length_eq_zero_iff.mp hlength.symm] at hq
  exact List.not_mem_nil hq

/-- A pair that is freed leaves its segment empty; the next collection
gives the segment back, and its area is spare. -/
theorem nothing_empty_retained_pair : ∃ (h h' : Heap) (p : ObjRef) (t : Segment) (a : Address)
    (r : CollectionReport × Unit), FreedSince h [p] ∧ h.Retains [p] ∧ h.Idle p.segment ∧
      h.store.segment? p.segment = some t ∧ t.backing = .pooled a ∧
      collect { roots := [], refs := fun v => v.refs 2 } .zero () h = .ok r h' ∧ Pruned h h' ∧
      h'.store.reserved = 0 ∧ h'.store.spare.count a = 1 := by
  let tracer : Tracer Unit := { roots := [], refs := fun v => v.refs 2 }
  let p : ObjRef := .ofSlot 0 0
  let h₁ := after (alloc Model.ModelType.pair.tag 0) smallHeap
  let h := after (free p) h₁
  have hr₁ : FreedSince h₁ [] := .alloc _ _ (.create create_smallHeap)
    (leaves_after (by decide +kernel))
  have hr : FreedSince h [p] := .free p hr₁ (eq_ok_of_returned (by decide +kernel))
  have hfacts : p.segment = 0 ∧ h.hasSmall 0 = true ∧ h.occupancy.totalObjects = 0 ∧
      h.config.checkRefs = false := by
    decide +kernel
  obtain ⟨hp, hsmall, hzero, hunchecked⟩ := hfacts
  obtain ⟨t, ht, hb⟩ := (Option.any_eq_true _ _).mp hsmall
  obtain ⟨a, ha⟩ : ∃ a, t.backing = .pooled a := by
    cases hbacking : t.backing with
    | pooled a => exact ⟨a, rfl⟩
    | dedicated b =>
      rw [Segment.isBig, hbacking] at hb
      cases hb
  have hs := hr.reachable.sound
  have hidle : h.Idle p.segment :=
    ⟨hp ▸ hsmall, fun q _ => not_isAllocated_of_zero hs.wellFormed.toFormed hzero q⟩
  obtain ⟨hretains, hcollect⟩ := nothing_empty_retained hr
  have hends := hcollect Unit tracer .zero () h.metrics
  have hsame : h.withMetrics h.metrics = h := rfl
  rw [hsame] at hends
  obtain ⟨r, h', he, hpruned⟩ := (hends.mono (fun _ _ hk => hk) (fun _ _ hn => hn) fun f hf => by
    rw [StrayFault, hunchecked] at hf
    exact Bool.false_ne_true hf.1).returns
  have hobjects := (((collect_ends hs.wellFormed tracer .zero ()).of_ok he).settles
    hs.wellFormed).objects
  have hle := hpruned.reserved_le
  have hzero' : h'.occupancy.totalObjects = 0 := by omega
  have hgone : h'.store.segment? p.segment = none := by
    cases ht' : h'.store.segment? p.segment with
    | none => rfl
    | some t' =>
      obtain ⟨q, _, hq⟩ := hpruned.occupied _ t' ht'
      have hf' := ((collect_ends hs.wellFormed tracer .zero ()).of_ok he).wellFormed.toFormed
      exact (not_isAllocated_of_zero hf' hzero' q hq).elim
  have ht : h.store.segment? p.segment = some t := hp ▸ ht
  have hspare : a ∈ h'.store.spare :=
    (hpruned.spare a).2.mpr (Or.inr ⟨p.segment, t, ht, hgone, ha⟩)
  exact ⟨h, h', p, t, a, r, hr, hretains, hidle, ht, ha, he, hpruned, by omega,
    Nat.le_antisymm (hpruned.spare a).1 (List.count_pos_iff.mpr hspare)⟩

end Heap

end SegmentedHeap
