/-
SegmentedHeap.Proofs.FreeLists — where a small object finds its slot.

In every heap of a run the queue of a kind lists the segments of that
kind with a free slot, and no others: none that was given back, none that
is big, and none whose index another kind uses by now. So the segment at
the front of a queue always has a slot, and the search for one ends in
its first pass: a segment is only reserved when no slot of the kind is
free.

* `FreeLists` — the queues, the segments that wait in them and the flags.
* `claimPass`, `claimPasses` — the search for a slot, pass by pass.
* `freeLists_run` — **the queues of a run**, and where slots come from.
-/
import SegmentedHeap.Proofs.Reachable
import SegmentedHeap.Proofs.Stock

namespace SegmentedHeap

namespace Heap

variable {h : Heap} {r : Request}

/-! ## The queues -/

/-- The small segment of a kind has a free slot. -/
def HasSlot (h : Heap) (kind : KindId) (i : SegmentIndex) : Prop :=
  ∃ s, h.store.segment? i = some s ∧ s.isBig = false ∧ s.kind = kind ∧ ∃ o, o ∈ s.free

/-- The queues list the segments with a free slot. -/
structure FreeLists (h : Heap) : Prop where
  size : h.queues.size = h.kinds.size
  nodup : ∀ k, (h.queue k).Nodup
  mem_queue : ∀ k i, i ∈ h.queue k ↔ h.HasSlot k i
  queued : ∀ i s, h.store.segment? i = some s → (s.queued = true ↔ ∃ k, i ∈ h.queue k)
  absent : ∀ k i, (∀ s, h.store.segment? i = some s → s.isBig = true ∨ s.kind ≠ k) →
    i ∉ h.queue k

theorem Filed.mem_queue_iff_hasSlot (hq : h.Filed) (k : KindId) (i : SegmentIndex) :
    i ∈ h.queue k ↔ h.HasSlot k i := by
  rw [hq.mem_queue]
  constructor
  · rintro ⟨s, hs, hk, hqueued⟩
    obtain ⟨hsmall, hfree⟩ := (hq.queued i s hs).mp hqueued
    exact ⟨s, hs, hsmall, hk, Segment.hasFree_iff.mp hfree⟩
  · rintro ⟨s, hs, hsmall, hk, hfree⟩
    exact ⟨s, hs, hk, (hq.queued i s hs).mpr ⟨hsmall, Segment.hasFree_iff.mpr hfree⟩⟩

theorem Filed.freeLists (hq : h.Filed) : h.FreeLists := by
  refine ⟨hq.size, hq.nodup, hq.mem_queue_iff_hasSlot, fun i s hs => ?_, fun k i hn hm => ?_⟩
  · constructor
    · intro hqueued
      exact ⟨s.kind, (hq.mem_queue_iff hs _).mpr ⟨rfl, hqueued⟩⟩
    · rintro ⟨k, hm⟩
      exact ((hq.mem_queue_iff hs k).mp hm).2
  · obtain ⟨s, hs, hsmall, hk, _⟩ := (hq.mem_queue_iff_hasSlot k i).mp hm
    rcases hn s hs with hbig | hne
    · exact Bool.false_ne_true (hsmall.symm.trans hbig)
    · exact hne hk

/-! ## The search for a slot -/

/-- One pass of the search: the segment at the front of the queue hands
out a slot, or a new one that is put there. -/
def claimPass (r : Request) : HeapM (Option ObjRef) := do
  match (← get).queue r.kind with
  | index :: _ => claimFrom r.kind index
  | [] =>
    let index ← onStore (Store.reserveSmall r.kind r.chunks r.spec.storesLength) (exhausted r)
    modify (·.waiting r.kind index)
    claimFrom r.kind index

/-- The search in at most so many passes. -/
def claimPasses (r : Request) : (passes : Nat) → HeapM (Option ObjRef)
  | 0 => return none
  | passes + 1 => do
    match ← claimPass r with
    | some obj => return some obj
    | none => claimPasses r passes

theorem onStore_of_ok {α : Type} {act : StoreM α} (explain : Heap → StoreError → HeapError)
    {a : α} {s : Store} (ha : act h.store = .ok a s) :
    onStore act explain h = .ok a (h.setStore s) := by
  simp only [onStore, ha]
  rfl

theorem onStore_of_error {α : Type} {act : StoreM α} (explain : Heap → StoreError → HeapError)
    {e : Failure StoreError} {s : Store} (ha : act h.store = .error e s) :
    onStore act explain h = .error (e.map (explain (h.setStore s))) (h.setStore s) := by
  simp only [onStore, ha]
  rfl

/-- A slot from the segment at the front of the queue. -/
theorem claimSmall_of_queue {i : SegmentIndex} {rest : List SegmentIndex} {obj : ObjRef}
    {h' : Heap} (hqueue : h.queue r.kind = i :: rest)
    (he : claimFrom r.kind i h = .ok (some obj) h') : claimSmall r h = .ok obj h' := by
  have hqueued : claimQueued r.kind (i :: rest) h = .ok (some obj) h' := bind_of_ok he
  unfold claimSmall
  rw [get_bind_eq]
  show (claimQueued r.kind (h.queue r.kind) >>= _) h = _
  rw [hqueue, bind_of_ok hqueued]
  rfl

/-- The first pass of the search ends it. -/
theorem claimPass_eq (hf : h.Formed) (hq : h.Filed) (hv : h.Valid r) {n : Nat}
    (hsize : r.spec.size = .fixed n) :
    claimPass r h = (claimSmall r >>= fun obj => pure (some obj)) h := by
  have hpos : 0 < r.chunks := by
    rw [hv.fixed n hsize]
    exact (hf.fixed r.kind r.spec n hv.kind hsize).1
  rw [claimPass, get_bind_eq]
  cases hqueue : h.queue r.kind with
  | cons i rest =>
    obtain ⟨obj, h', he, _⟩ := claimQueued_ends hf hq hv hsize hqueue
    rw [bind_of_ok (claimSmall_of_queue hqueue he)]
    exact he
  -- with no segment waiting both reserve one, and the claim from it succeeds
  | nil =>
    have hsmall : claimSmall r h = (onStore (Store.reserveSmall r.kind r.chunks
        r.spec.storesLength) (exhausted r) >>= fun index => do
          modify (·.waiting r.kind index)
          match ← claimFrom r.kind index with
          | some obj => return obj
          | none => throw (.fault .badGeometry)) h := by
      unfold claimSmall
      rw [get_bind_eq]
      show (claimQueued r.kind (h.queue r.kind) >>= _) h = _
      rw [hqueue]
      rfl
    show (onStore (Store.reserveSmall r.kind r.chunks r.spec.storesLength) (exhausted r) >>=
      fun index => do
        modify (·.waiting r.kind index)
        claimFrom r.kind index) h = _
    cases hres : Store.reserveSmall r.kind r.chunks r.spec.storesLength h.store with
    | error e s' =>
      have he := onStore_of_error (exhausted r) hres
      rw [bind_of_error he, bind_of_error (hsmall.trans (bind_of_error he))]
    | ok i s' =>
      obtain ⟨area, hr⟩ :=
        (Store.reserveSmall_ends hf.store hpos r.kind r.spec.storesLength).of_ok hres
      obtain ⟨obj, h', he, _⟩ := claimNew_ends hf hq hv hsize hqueue hr
      have hstore := onStore_of_ok (exhausted r) hres
      have hdone : claimSmall r h = .ok obj h' := by
        rw [hsmall, bind_of_ok hstore]
        exact bind_of_ok he
      rw [bind_of_ok hstore, bind_of_ok hdone]
      exact he

/-- More passes would do the same. -/
theorem claimPasses_succ (hf : h.Formed) (hq : h.Filed) (hv : h.Valid r) {n : Nat}
    (hsize : r.spec.size = .fixed n) (passes : Nat) :
    claimPasses r (passes + 1) h = claimPass r h := by
  have he := claimPass_eq hf hq hv hsize
  rw [claimPasses]
  cases hsmall : claimSmall r h with
  | ok obj h' =>
    rw [bind_of_ok hsmall] at he
    rw [he, bind_of_ok he]
  | error e h' =>
    rw [bind_of_error hsmall] at he
    rw [he, bind_of_error he]

/-- While a slot of the kind is free, one is handed out and nothing is
reserved. -/
theorem claimSmall_of_hasSlot (hf : h.Formed) (hq : h.Filed) {i : SegmentIndex}
    (hi : h.HasSlot r.kind i) :
    ∃ obj h', claimSmall r h = .ok obj h' ∧ Store.SameStock h.store h'.store ∧
      h.HasSlot r.kind obj.segment := by
  cases hqueue : h.queue r.kind with
  | nil =>
    have hm := (hq.mem_queue_iff_hasSlot r.kind i).mpr hi
    rw [hqueue] at hm
    cases hm
  | cons j rest =>
    obtain ⟨s, o, _, _, hs, hkind, hsmall, ho, _⟩ := claimFrom_ends hf hq hqueue
    have hmem := OffsetSet.mem_of_first? ho
    have hj : (ObjRef.ofSlot j o).segment = j :=
      ObjRef.segment_ofSlot (Nat.le_of_lt (hf.store.index_lt hs)) o
    refine ⟨.ofSlot j o, _, claimSmall_of_queue hqueue (claimFrom_eq hs ho), ?_, ?_⟩
    · split
      · exact Store.sameStock_replace hs (Segment.sameShape_claimed s o)
      · exact Store.sameStock_replace hs
          ((Segment.sameShape_claimed s o).trans (Segment.sameShape_setQueued _ _))
    · rw [hj]
      exact ⟨s, hs, hsmall, hkind, o, hmem⟩

/-! ## Runs -/

/-- How a small request is served. -/
structure Served (h : Heap) (r : Request) : Prop where
  /-- The search returns or fails in its first pass. -/
  pass : claimPass r h = (claimSmall r >>= fun obj => pure (some obj)) h
  passes : ∀ n, claimPasses r (n + 1) h = claimPass r h
  /-- Nothing is reserved while a slot is free. -/
  thrifty : ∀ i, h.HasSlot r.kind i → ∃ obj h', claimSmall r h = .ok obj h' ∧
    Store.SameStock h.store h'.store ∧ h.HasSlot r.kind obj.segment

/-- **In every run the queues list the free slots**, and a small request is
served from them as long as there is one. -/
theorem freeLists_run (hr : h.Reachable) : h.FreeLists ∧
    ∀ tag length r, h.request tag length = .ok r → r.spec.isBig = false → h.Served r := by
  have hw := hr.wellFormed
  refine ⟨hw.freeLists, fun tag length r hreq hsmall => ?_⟩
  obtain ⟨hv, _⟩ := valid_of_request hreq
  obtain ⟨n, hsize⟩ : ∃ n, r.spec.size = .fixed n := by
    unfold Kind.isBig at hsmall
    cases hsize : r.spec.size with
    | fixed n => exact ⟨n, rfl⟩
    | big =>
      rw [hsize] at hsmall
      cases hsmall
  exact ⟨claimPass_eq hw.toFormed hw.toFiled hv hsize,
    claimPasses_succ hw.toFormed hw.toFiled hv hsize,
    fun i hi => claimSmall_of_hasSlot hw.toFormed hw.toFiled hi⟩

/-- After the first pair the next one has its slot in the same segment. -/
theorem freeLists_run_pair : ∃ (h h' : Heap) (r : Request) (obj : ObjRef), h.Reachable ∧
    h.request Model.ModelType.pair.tag 0 = .ok r ∧ r.spec.isBig = false ∧ h.FreeLists ∧
      h.queue r.kind = [0] ∧ h.Served r ∧ claimSmall r h = .ok obj h' ∧
      Store.SameStock h.store h'.store := by
  let h := after (alloc Model.ModelType.pair.tag 0) smallHeap
  have hr : h.Reachable := .alloc _ _ reachable_smallHeap (leaves_after (by decide +kernel))
  have hreq : (h.request Model.ModelType.pair.tag 0).toOption.map
      (fun r => (r.spec.isBig, h.queue r.kind)) = some (false, [0]) := by
    decide +kernel
  obtain ⟨r, hreq, e⟩ := Option.map_eq_some_iff.mp hreq
  have hreq := eq_ok_of_toOption hreq
  obtain ⟨hsmall, hqueue⟩ := Prod.mk.inj e
  obtain ⟨hlists, hserved⟩ := freeLists_run hr
  have hserved := hserved _ _ r hreq hsmall
  have hslot : h.HasSlot r.kind 0 := (hlists.mem_queue r.kind 0).mp (by rw [hqueue]; simp)
  obtain ⟨obj, h', he, hsame, _⟩ := hserved.thrifty 0 hslot
  exact ⟨h, h', r, obj, hr, hreq, hsmall, hlists, hqueue, hserved, he, hsame⟩

end Heap

end SegmentedHeap
