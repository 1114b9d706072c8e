/-
SegmentedHeap.Proofs.Allocation — what an allocation does.

A valid request is given a slot that held no object, from the front of
its kind's queue or from a new segment, and no other object can tell. The
object that is made of the slot has zero bytes.

* `claim_ends` — a slot for a valid request.
* `alloc_ends` — an allocation returns a new object, or it is refused and
  the heap is as it was.
-/
import SegmentedHeap.Proofs.Change
import SegmentedHeap.Proofs.Requests

namespace SegmentedHeap

/-- The length that is stored for a slot before it is furnished. -/
def Request.blank (r : Request) : Option Nat := r.stored.map fun _ => 0

/-- The object that is made of a claimed slot. -/
def Request.object (r : Request) (x : Object) : Object :=
  { x with
    generation := if r.spec.uncollected then .two else .zero
    stored := r.stored
    bytes := List.replicate x.bytes.length 0 }

namespace Heap

/-! ## Questions inside an operation -/

theorem Ends.ask_bind {α β : Type} {question : Heap → Except Fault α} {a : α} {f : α → HeapM β}
    {h : Heap} {ok : β → Heap → Prop} {refused : HeapError → Heap → Prop}
    {faulted : Fault → Prop} (hq : question h = .ok a)
    (hf : Ends (f a h) ok refused faulted) : Ends ((ask question >>= f) h) ok refused faulted := by
  have e : (ask question >>= f) h = f a h := by
    show EStateM.bind (ask question) f h = f a h
    simp only [EStateM.bind, ask, hq]
  rw [e]
  exact hf

/-- A question that has no answer ends the operation. -/
theorem Ends.ask_bind_fault {α β : Type} {question : Heap → Except Fault α} {fault : Fault}
    {f : α → HeapM β} {h : Heap} {ok : β → Heap → Prop} {refused : HeapError → Heap → Prop}
    {faulted : Fault → Prop} (hq : question h = .error fault) (hf : faulted fault) :
    Ends ((ask question >>= f) h) ok refused faulted := by
  have e : (ask question >>= f) h = .error (.fault fault) h := by
    show EStateM.bind (ask question) f h = _
    simp only [EStateM.bind, ask, hq]
  rw [e]
  exact hf

/-- An operation of the store, in the heap that holds the store. -/
theorem Ends.onStore_bind {α β : Type} {act : StoreM α} {explain : Heap → StoreError → HeapError}
    {f : α → HeapM β} {h : Heap} {done : α → Store → Prop} {ok : β → Heap → Prop}
    {refused : HeapError → Heap → Prop} {faulted : Fault → Prop}
    (ha : Ends (act h.store) done (fun _ s => s = h.store) faulted)
    (hf : ∀ a s, done a s → Ends (f a (h.setStore s)) ok refused faulted)
    (hr : ∀ e, act h.store = .error (.refused e) h.store → refused (explain h e) h) :
    Ends ((onStore act explain >>= f) h) ok refused faulted := by
  show Ends (EStateM.bind (onStore act explain) f h) ok refused faulted
  cases hact : act h.store with
  | ok a s =>
    rw [hact] at ha
    have hbind : EStateM.bind (onStore act explain) f h = f a (h.setStore s) := by
      simp only [EStateM.bind, onStore, hact]
      rfl
    rw [hbind]
    exact hf a s ha
  | error e s =>
    rw [hact] at ha
    have hbind : EStateM.bind (onStore act explain) f h =
        .error (e.map (explain (h.setStore s))) (h.setStore s) := by
      simp only [EStateM.bind, onStore, hact]
      rfl
    rw [hbind]
    cases e with
    | refused e =>
      have hs : s = h.store := ha
      subst hs
      exact hr e hact
    | fault f => exact ha

/-- A step that is taken only if a condition holds, with what is known
after it in either case. -/
theorem Ends.when_bind {β : Type} {c : Prop} [Decidable c] {g : Heap → Heap}
    {k : PUnit → HeapM β} {h : Heap} (mid : Heap → Prop) {ok : β → Heap → Prop}
    {refused : HeapError → Heap → Prop} {faulted : Fault → Prop}
    (hthen : c → mid (g h)) (helse : ¬ c → mid h)
    (hk : ∀ h', mid h' → Ends (k ⟨⟩ h') ok refused faulted) :
    Ends ((if c then modify g >>= k else k ⟨⟩) h) ok refused faulted := by
  by_cases hc : c
  · rw [if_pos hc]
    exact Ends.modify_bind (hk _ (hthen hc))
  · rw [if_neg hc]
    exact hk _ (helse hc)

/-! ## Claiming a slot -/

/-- The record of a slot that was just handed out. -/
structure Fresh (x : Object) (kind : KindId) (chunks : Nat) (stored : Option Nat) : Prop where
  kind : x.kind = kind
  chunks : x.chunks = chunks
  generation : x.generation = .zero
  remembered : x.remembered = false
  stored : x.stored = stored

variable {h : Heap} {i : SegmentIndex} {s : Segment} {o : Offset}

/-- The segment with a free slot handed out, in a queue or not. -/
theorem claimed_wellFormed (hf : h.Formed) (hs : h.store.segment? i = some s) (ho : o ∈ s.free)
    (b : Bool) : ∀ t, h.store.segment? i = some t →
      Segment.SameShape t ((s.claimed o).setQueued b) ∧ ((s.claimed o).setQueued b).WellFormed := by
  intro t ht
  rw [hs] at ht
  cases ht
  exact ⟨(Segment.sameShape_claimed s o).trans (Segment.sameShape_setQueued _ b),
    ((hf.store.segment_wf i s hs).claimed ho).setQueued b⟩

/-- Handing out a slot makes an object of it, and of nothing else. -/
theorem lookup_claimed (hf : h.Formed) (hs : h.store.segment? i = some s) (ho : o ∈ s.free)
    (b : Bool) :
    h.lookup (.ofSlot i o) = none ∧
    ∃ x, Fresh x s.kind s.chunks (s.lengths.map fun _ => 0) ∧ ∀ q,
      (h.modifySegment i fun _ => (s.claimed o).setQueued b).lookup q =
        if ObjRef.ofSlot i o = q then some x else h.lookup q := by
  have hwf := hf.store.segment_wf i s hs
  have hi := hf.store.index_lt hs
  have hseg := ObjRef.segment_ofSlot (Nat.le_of_lt hi) o
  have hoff := ObjRef.offset_ofSlot (Nat.le_of_lt hi) o
  have hslot := hwf.free_slots o ho
  -- a free slot is in none of the sets that describe objects
  have hnot : ¬ o ∈ s.allocated := fun ha => (Segment.mem_allocated.mp ha).2 ho
  have hmem : ∀ p, p ∈ ((s.claimed o).setQueued b).allocated ↔ o = p ∨ p ∈ s.allocated :=
    fun p => by rw [Segment.allocated_setQueued, Segment.mem_allocated_claimed hslot]
  refine ⟨?_, ((s.claimed o).setQueued b).objectAt h.store.memory h.store.chunkBytes o,
    ⟨rfl, rfl, ?_, ?_, ?_⟩, fun q => ?_⟩
  · rw [lookup_of_segment? (by rw [hseg]; exact hs), hoff, Segment.object?_of_not_mem hnot]
  · exact hwf.generation_of_not_allocated hnot
  · exact OffsetSet.contains_eq_false_iff.mpr fun hm => hnot (hwf.oldToNew_allocated o hm)
  · show s.length? o = _
    cases hl : s.lengths with
    | none => rw [Segment.length?, hl]; rfl
    | some lengths =>
      rw [Segment.length?, hl]
      exact hwf.stored_free lengths hl o ho
  · have hat := @lookup_modifySegment_at h (.ofSlot i o) (fun _ => (s.claimed o).setQueued b)
    rw [hseg, hoff] at hat
    rw [hat]
    · rw [hs, Option.bind_some, Segment.object?_of_mem ((hmem o).mpr (Or.inl rfl))]
    · intro t ht p hp
      rw [hs] at ht
      cases ht
      refine Segment.object?_congr (claimed_wellFormed hf hs ho b s hs).1 ?_ rfl Iff.rfl rfl _ _
      exact (hmem p).trans ⟨fun hm => hm.resolve_left (Ne.symm hp), Or.inr⟩

/-- What the taking of a slot at the front of a queue leaves. -/
theorem claimFrom_eq {kind : KindId} (hs : h.store.segment? i = some s)
    (ho : s.free.first? = some o) :
    claimFrom kind i h = .ok (some (.ofSlot i o))
      (if (s.claimed o).hasFree then h.modifySegment i fun _ => s.claimed o
       else { h.modifySegment i fun _ => (s.claimed o).setQueued false with
          queues := h.queues.modify kind List.tail }) := by
  show EStateM.bind (ask fun h => h.store.segment i) _ h = _
  simp only [EStateM.bind, ask, Store.segment, hs, Segment.takeSlot_of_first? ho]
  by_cases hc : (s.claimed o).hasFree = true
  · simp only [hc, if_true]
    rfl
  · simp only [hc]
    rfl

/-- A segment that has handed out a slot waits on if it has another, and
else leaves its queue, of which it was the front. -/
theorem filed_claimed (hq : h.Filed) {kind : KindId} {rest : List SegmentIndex} {h' : Heap}
    (hs : h.store.segment? i = some s) (hqueue : h.queue kind = i :: rest)
    (hkinds : h'.kinds = h.kinds) (hsize : h'.queues.size = h.queues.size)
    (hseg : ∀ j, h'.store.segment? j =
      if i = j then some ((s.claimed o).setQueued (s.claimed o).hasFree) else h.store.segment? j)
    (hqueue' : ∀ k, h'.queue k =
      if kind = k ∧ (s.claimed o).hasFree = false then rest else h.queue k) : h'.Filed := by
  obtain ⟨hkind, hqueued⟩ := (hq.mem_queue_iff hs kind).mp (hqueue ▸ List.mem_cons_self)
  obtain ⟨hsmall, _⟩ := (hq.queued i s hs).mp hqueued
  -- an index waits once, so behind the front it does not occur
  obtain ⟨hi, hrest⟩ := List.nodup_cons.mp (hqueue ▸ hq.nodup kind)
  have hself := hseg i
  rw [if_pos rfl] at hself
  refine hq.replaceAt hself hkinds hsize (fun j hj => ?_) (fun k => ?_) (fun k j hj => ?_)
    (fun k => ?_) ?_ fun hbig => ?_
  · rw [hseg, if_neg (Ne.symm hj)]
  · rw [hqueue']
    split
    · exact hrest
    · exact hq.nodup k
  · rw [hqueue']
    split
    · next hc =>
      rw [← hc.1, hqueue, List.mem_cons]
      exact ⟨Or.inr, fun hm => hm.resolve_left hj⟩
    · exact Iff.rfl
  · show i ∈ h'.queue k ↔ s.kind = k ∧ (s.claimed o).hasFree = true
    rw [hqueue']
    split
    · next hc =>
      rw [hc.2]
      exact iff_of_false hi fun hn => Bool.false_ne_true hn.2
    · next hc =>
      rw [hq.mem_queue_iff hs]
      refine and_congr_right fun hk => iff_of_true hqueued ?_
      rw [hkind] at hk
      exact Classical.byContradiction fun hn => hc ⟨hk, Bool.eq_false_iff.mpr hn⟩
  · show (s.claimed o).hasFree = true ↔ s.isBig = false ∧ (s.claimed o).hasFree = true
    exact ⟨fun hc => ⟨hsmall, hc⟩, And.right⟩
  · exact absurd (hsmall.symm.trans hbig) Bool.false_ne_true

/-- The segment at the front of a queue hands out a slot. -/
theorem claimFrom_ends (hf : h.Formed) (hq : h.Filed) {kind : KindId} {rest : List SegmentIndex}
    (hqueue : h.queue kind = i :: rest) :
    ∃ s o h' x, h.store.segment? i = some s ∧ s.kind = kind ∧ s.isBig = false ∧
      s.free.first? = some o ∧
      claimFrom kind i h = .ok (some (.ofSlot i o)) h' ∧ h.lookup (.ofSlot i o) = none ∧
      Fresh x s.kind s.chunks (s.lengths.map fun _ => 0) ∧
      Changed h (.ofSlot i o) (some x) h' := by
  obtain ⟨s, hs, hkind, hqueued⟩ := (hq.mem_queue kind i).mp (hqueue ▸ List.mem_cons_self)
  obtain ⟨hsmall, hfree⟩ := (hq.queued i s hs).mp hqueued
  obtain ⟨o, ho⟩ := Segment.first?_of_hasFree hfree
  have hmem := OffsetSet.mem_of_first? ho
  obtain ⟨hnone, x, hx, hlookup⟩ := lookup_claimed hf hs hmem (s.claimed o).hasFree
  have hshape := claimed_wellFormed hf hs hmem (s.claimed o).hasFree
  refine ⟨s, o, _, x, hs, hkind, hsmall, ho, claimFrom_eq hs ho, hnone, hx, ?_⟩
  have hseg := Store.segment?_modifySegment_of hs fun _ =>
    (s.claimed o).setQueued (s.claimed o).hasFree
  -- only the segment's last slot takes it off the queue
  by_cases hc : (s.claimed o).hasFree = true
  · have e : (s.claimed o).setQueued (s.claimed o).hasFree = s.claimed o := by
      rw [hc, ← hqueued]
      rfl
    rw [if_pos hc, ← e]
    refine ⟨sameSetting_modifySegment h i _, hf.modifySegment hshape, fun _ => ?_, hlookup⟩
    refine filed_claimed hq hs hqueue rfl rfl hseg fun k => ?_
    rw [if_neg (fun hn => by rw [hc] at hn; cases hn.2)]
    rfl
  · have hc := Bool.eq_false_iff.mpr hc
    rw [if_neg (by rw [hc]; exact Bool.false_ne_true), ← hc]
    refine ⟨⟨rfl, rfl, rfl, Store.sameGeometry_modifySegment h.store i _⟩,
      (hf.modifySegment hshape).congr rfl rfl, fun _ => ?_, hlookup⟩
    refine filed_claimed hq hs hqueue rfl Array.size_modify hseg fun k => ?_
    obtain ⟨spec, hspec, _⟩ := hf.typed i s hs
    rw [hkind] at hspec
    have hlt := hq.lt_queues hspec
    refine (queue_modify (h.modifySegment i _) kind k List.tail).trans ?_
    show (if kind = k ∧ k < h.queues.size then (h.queue k).tail else h.queue k) = _
    -- only the queue of this kind loses its front
    by_cases e : kind = k
    · rw [← e, if_pos ⟨rfl, hlt⟩, if_pos ⟨rfl, hc⟩, hqueue]
      rfl
    · rw [if_neg (fun hn => e hn.1), if_neg (fun hn => e hn.1)]

/-! ## A new segment -/

section Reserved

variable {t : Segment} {s' : Store}

theorem Formed.reserved (hf : h.Formed) (hr : Store.Reserved h.store t i s') {spec : Kind}
    (hspec : h.kinds.get? t.kind = some spec) (ht : t.OfKind spec h.store.segmentChunks) :
    (h.setStore s').Formed := by
  refine ⟨hr.wellFormed, fun k spec n hk hn => ?_, fun j u hu => ?_⟩
  · show 0 < n ∧ n ≤ s'.segmentChunks
    rw [hr.geometry.segmentChunks]
    exact hf.fixed k spec n hk hn
  · show ∃ spec, h.kinds.get? u.kind = some spec ∧ u.OfKind spec s'.segmentChunks
    rw [hr.geometry.segmentChunks]
    change s'.segment? j = some u at hu
    rw [hr.segment?] at hu
    split at hu
    · cases hu
      exact ⟨spec, hspec, ht⟩
    · exact hf.typed j u hu

theorem segment?_reserved (hr : Store.Reserved h.store t i s') :
    (h.setStore s').store.segment? i = some t := by
  show s'.segment? i = some t
  rw [hr.segment?, if_pos rfl]

/-- A new segment without objects cannot be told. -/
theorem lookup_reserved (hr : Store.Reserved h.store t i s') (ht : t.free = t.slots)
    (q : ObjRef) : (h.setStore s').lookup q = h.lookup q := by
  by_cases e : i = q.segment
  · have hseg : (h.setStore s').store.segment? q.segment = some t := by
      show s'.segment? q.segment = some t
      rw [hr.segment?, if_pos e]
    rw [lookup_of_segment? hseg, lookup_of_none (e ▸ hr.fresh), Segment.object?_of_not_mem]
    rw [Segment.mem_allocated, ht]
    exact fun hm => hm.2 hm.1
  · refine lookup_congr hr.geometry.chunkBytes ?_ fun _ _ a _ => hr.read a
    show s'.segment? q.segment = h.store.segment? q.segment
    rw [hr.segment?, if_neg e]

/-- The index of a new segment waits in no queue. -/
theorem Filed.not_mem_of_fresh (hq : h.Filed) (hi : h.store.segment? i = none) (k : KindId) :
    ¬ i ∈ h.queue k := by
  intro hm
  obtain ⟨s, hs, _⟩ := (hq.mem_queue k i).mp hm
  rw [hi] at hs
  cases hs

end Reserved

/-- The heap with a segment put at the end of a kind's queue. -/
def waiting (h : Heap) (kind : KindId) (index : SegmentIndex) : Heap :=
  { h.modifySegment index (·.setQueued true) with
    queues := h.queues.modify kind (· ++ [index]) }

theorem segment?_waiting (hs : h.store.segment? i = some s) (kind : KindId) (j : SegmentIndex) :
    (h.waiting kind i).store.segment? j =
      if i = j then some (s.setQueued true) else h.store.segment? j :=
  Store.segment?_modifySegment_of hs _ j

theorem queue_waiting {kind : KindId} (hlt : kind < h.queues.size) (i : SegmentIndex)
    (k : KindId) :
    (h.waiting kind i).queue k = if kind = k then h.queue k ++ [i] else h.queue k := by
  refine (queue_modify (h.modifySegment i _) kind k (· ++ [i])).trans ?_
  show (if kind = k ∧ k < h.queues.size then h.queue k ++ [i] else h.queue k) = _
  by_cases e : kind = k
  · rw [if_pos ⟨e, e ▸ hlt⟩, if_pos e]
  · rw [if_neg (fun hn => e hn.1), if_neg e]

/-- A segment that did not wait and has a free slot may wait. -/
theorem filed_waiting {h₀ : Heap} (hq : h₀.Filed) {kind : KindId} {spec : Kind}
    (hkinds : h.kinds = h₀.kinds) (hqueues : h.queues = h₀.queues)
    (hother : ∀ j, j ≠ i → h.store.segment? j = h₀.store.segment? j)
    (hi : h.store.segment? i = some s) (hkind : s.kind = kind)
    (hspec : h₀.kinds.get? kind = some spec) (hnot : ∀ k, ¬ i ∈ h₀.queue k)
    (hsmall : s.isBig = false) (hfree : s.hasFree = true) : (h.waiting kind i).Filed := by
  have hqueue : ∀ k, (h.waiting kind i).queue k =
      if kind = k then h₀.queue k ++ [i] else h₀.queue k := by
    intro k
    have hsame : h.queue k = h₀.queue k := by rw [queue, queue, hqueues]
    rw [queue_waiting (hqueues ▸ hq.lt_queues hspec), hsame]
  have hself := segment?_waiting hi kind i
  rw [if_pos rfl] at hself
  refine hq.replaceAt hself hkinds (Array.size_modify.trans (congrArg Array.size hqueues))
    (fun j hj => ?_) (fun k => ?_) (fun k j hj => ?_) (fun k => ?_) ?_ fun hbig => ?_
  · rw [segment?_waiting hi, if_neg (Ne.symm hj)]
    exact hother j hj
  · rw [hqueue]
    split
    · refine List.nodup_append.mpr ⟨hq.nodup k, List.pairwise_singleton _ i, ?_⟩
      intro a ha b hb e
      exact hnot k ((e.trans (List.mem_singleton.mp hb)) ▸ ha)
    · exact hq.nodup k
  · rw [hqueue]
    split
    · rw [List.mem_append, List.mem_singleton]
      exact ⟨fun hm => hm.resolve_right hj, Or.inl⟩
    · exact Iff.rfl
  · show i ∈ (h.waiting kind i).queue k ↔ s.kind = k ∧ true = true
    rw [hqueue, hkind]
    split
    · next e => exact iff_of_true (List.mem_append_right _ List.mem_cons_self) ⟨e, rfl⟩
    · next e => exact iff_of_false (hnot k) fun hn => e hn.1
  · exact ⟨fun _ => ⟨hsmall, hfree⟩, fun _ => rfl⟩
  · exact absurd (hsmall.symm.trans hbig) Bool.false_ne_true

theorem Formed.waiting (hf : h.Formed) (kind : KindId) (i : SegmentIndex) :
    (h.waiting kind i).Formed :=
  (hf.modifySegment fun s hs => ⟨Segment.sameShape_setQueued s true,
    (hf.store.segment_wf i s hs).setQueued true⟩).congr rfl rfl

/-- Whether a segment waits cannot be told from its objects. -/
theorem lookup_waiting (h : Heap) (kind : KindId) (i : SegmentIndex) :
    (h.waiting kind i).lookup = h.lookup := by
  refine Eq.trans ?_ (lookup_modifySegment_of_same (h := h) (i := i) (f := (·.setQueued true))
    fun s _ o => ?_)
  · rfl
  · exact Segment.object?_congr (Segment.sameShape_setQueued s true) Iff.rfl rfl Iff.rfl rfl _ _

/-! ## A slot for a request -/

/-- The segment that is reserved for a request if none of its kind waits. -/
def reserveFor (r : Request) : StoreM SegmentIndex :=
  if r.spec.isBig then Store.reserveBig r.kind r.chunks r.spec.storesLength
  else Store.reserveSmall r.kind r.chunks r.spec.storesLength

/-- A valid request that finds no room is refused as exhausted, for the
reason that no segment is had for it, and nothing changes. -/
def NoRoom (h : Heap) (r : Request) (e : HeapError) (h' : Heap) : Prop :=
  h' = h ∧ e = .exhausted (h.shortage r.kind r.chunks) ∧
    ∃ cause, reserveFor r h.store = .error (.refused cause) h.store

/-- The slot that a request is given: the lowest free one of the segment
at the front of its kind's queue, or the first of a new segment. -/
def nextSlot (h : Heap) (r : Request) : ObjRef :=
  ((if r.spec.isBig then [] else h.queue r.kind).head?).elim (.ofSlot h.store.nextIndex .lowest)
    fun i => .ofSlot i (((h.store.segment? i).bind (·.free.first?)).getD .lowest)

/-- What claiming a slot for a request leaves of a heap. -/
structure Claimed (h : Heap) (r : Request) (obj : ObjRef) (h' : Heap) : Prop where
  place : obj = h.nextSlot r
  fresh : h.lookup obj = none
  object : ∃ x, Fresh x r.kind r.chunks r.blank ∧ Changed h obj (some x) h'

/-- The lengths of a segment that a request's kind stores, or does not. -/
theorem Valid.blank_eq {r : Request} (hv : h.Valid r)
    (hs : s.OfKind r.spec h.store.segmentChunks) : (s.lengths.map fun _ => 0) = r.blank := by
  have e : s.lengths.isSome = r.stored.isSome := hs.stores.trans hv.stored.symm
  unfold Request.blank
  cases hl : s.lengths with
  | none =>
    cases hr : r.stored with
    | none => rfl
    | some n => rw [hl, hr] at e; cases e
  | some lengths =>
    cases hr : r.stored with
    | none => rw [hl, hr] at e; cases e
    | some n => rfl

/-- A segment of a request's kind that is not big has slots for it. -/
theorem Valid.chunks_eq {r : Request} (hv : h.Valid r)
    (hs : s.OfKind r.spec h.store.segmentChunks) (hb : s.isBig = false) : s.chunks = r.chunks := by
  cases hsize : r.spec.size with
  | fixed n => rw [(hs.small n hsize).2.1, hv.fixed n hsize]
  | big =>
    rw [(hs.big hsize).1] at hb
    cases hb

/-- The slot for a small request while a segment waits. -/
theorem nextSlot_of_queue {r : Request} (hsmall : r.spec.isBig = false) {rest : List SegmentIndex}
    (hqueue : h.queue r.kind = i :: rest) (hs : h.store.segment? i = some s)
    (ho : s.free.first? = some o) : h.nextSlot r = .ofSlot i o := by
  rw [nextSlot, hsmall, if_neg Bool.false_ne_true, hqueue, List.head?_cons, Option.elim_some]
  simp [hs, ho]

/-- The slot for a small request while none waits. -/
theorem nextSlot_of_none {r : Request} (hsmall : r.spec.isBig = false)
    (hqueue : h.queue r.kind = []) : h.nextSlot r = .ofSlot h.store.nextIndex .lowest := by
  rw [nextSlot, hsmall, if_neg Bool.false_ne_true, hqueue]
  rfl

/-- A slot from the queue of a request's kind. -/
theorem claimQueued_ends (hf : h.Formed) (hq : h.Filed) {r : Request} (hv : h.Valid r) {n : Nat}
    (hsize : r.spec.size = .fixed n) {rest : List SegmentIndex}
    (hqueue : h.queue r.kind = i :: rest) :
    ∃ obj h', claimFrom r.kind i h = .ok (some obj) h' ∧ Claimed h r obj h' := by
  obtain ⟨s, o, h', x, hs, hkind, hsmall, ho, heq, hnone, hx, hc⟩ := claimFrom_ends hf hq hqueue
  refine ⟨_, h', heq, ?_, hnone, x, ?_, hc⟩
  · exact (nextSlot_of_queue (by rw [Kind.isBig, hsize]; rfl) hqueue hs ho).symm
  obtain ⟨spec, hspec, hk⟩ := hf.typed i s hs
  rw [hkind, hv.kind] at hspec
  cases hspec
  rw [← hkind, ← hv.chunks_eq hk hsmall, ← hv.blank_eq hk]
  exact hx

/-- New segments of a request are of its kind. -/
theorem Valid.ofKind_newSmall {r : Request} (hv : h.Valid r) {n : Nat}
    (hsize : r.spec.size = .fixed n) (limit : Nat) (area : Address) :
    (Segment.newSmall r.kind r.chunks limit area r.spec.storesLength).OfKind r.spec limit := by
  refine ⟨fun m hm => ⟨rfl, hv.fixed m hm, by rw [← hv.fixed m hm]; rfl⟩, fun hb => ?_, ?_⟩
  · rw [hsize] at hb
    cases hb
  · show (if r.spec.storesLength then _ else _ : Option (Array Nat)).isSome = _
    cases r.spec.storesLength <;> rfl

theorem Valid.ofKind_big {r : Request} (hv : h.Valid r) (hsize : r.spec.size = .big)
    (limit : Nat) (block : Block) :
    (Segment.big r.kind r.chunks block r.spec.storesLength).OfKind r.spec limit := by
  refine ⟨fun m hm => ?_, fun _ => ⟨rfl, hv.big hsize, rfl⟩, ?_⟩
  · rw [hsize] at hm
    cases hm
  · show (if r.spec.storesLength then _ else _ : Option (Array Nat)).isSome = _
    cases r.spec.storesLength <;> rfl

theorem zero_mem_newSmall {n limit : Nat} (h : n ≤ limit) (kind : KindId) (area : Address)
    (stored : Bool) : (0 : Offset) ∈ (Segment.newSmall kind n limit area stored).free :=
  OffsetSet.mem_slotStarts.mpr ⟨Nat.zero_mod n, by simpa using h⟩

/-- The lowest member of a set with offset zero. -/
theorem first?_of_zero_mem {t : OffsetSet} (h : (0 : Offset) ∈ t) : t.first? = some 0 := by
  have hc : t.contains 0 = true := h
  rw [OffsetSet.first?, offsets, List.finRange_succ, List.find?_cons_of_pos hc]

/-- A new segment waits in an empty queue and hands out its first slot. -/
theorem claimNew_ends (hf : h.Formed) (hq : h.Filed) {r : Request} (hv : h.Valid r) {n : Nat}
    (hsize : r.spec.size = .fixed n) (hqueue : h.queue r.kind = []) {area : Address} {s' : Store}
    (hr : Store.Reserved h.store
      (.newSmall r.kind r.chunks h.store.segmentChunks area r.spec.storesLength) i s') :
    ∃ obj h', claimFrom r.kind i ((h.setStore s').waiting r.kind i) = .ok (some obj) h' ∧
      Claimed h r obj h' := by
  -- from here on only these facts about the new segment matter
  generalize ht : Segment.newSmall r.kind r.chunks h.store.segmentChunks area r.spec.storesLength =
    t at hr
  have hkind : t.OfKind r.spec h.store.segmentChunks := by
    rw [← ht]
    exact hv.ofKind_newSmall hsize _ area
  have hfacts : t.kind = r.kind ∧ t.isBig = false ∧ t.free = t.slots ∧ (0 : Offset) ∈ t.free := by
    rw [← ht]
    refine ⟨rfl, rfl, rfl, zero_mem_newSmall ?_ _ _ _⟩
    rw [hv.fixed n hsize]
    exact (hf.fixed r.kind r.spec n hv.kind hsize).2
  obtain ⟨hk, hsmall, hslots, hfirst⟩ := hfacts
  have hfree : t.hasFree = true := Segment.hasFree_iff.mpr ⟨0, hfirst⟩
  have hseg := segment?_reserved hr
  have hformed := (hf.reserved hr (by rw [hk]; exact hv.kind) hkind).waiting r.kind i
  have hfiled : ((h.setStore s').waiting r.kind i).Filed := by
    refine filed_waiting hq rfl rfl (fun j hj => ?_) hseg hk hv.kind
      (hq.not_mem_of_fresh hr.fresh) hsmall hfree
    show s'.segment? j = _
    rw [hr.segment?, if_neg (Ne.symm hj)]
  have hlookup : ∀ q, ((h.setStore s').waiting r.kind i).lookup q = h.lookup q := fun q => by
    rw [lookup_waiting, lookup_reserved hr hslots]
  have hsetting : SameSetting h ((h.setStore s').waiting r.kind i) :=
    ⟨rfl, rfl, rfl, hr.geometry.trans (Store.sameGeometry_modifySegment s' i _)⟩
  have hqueue' : ((h.setStore s').waiting r.kind i).queue r.kind = [i] := by
    have hlt : r.kind < (h.setStore s').queues.size := hq.lt_queues hv.kind
    rw [queue_waiting hlt, if_pos rfl]
    show h.queue r.kind ++ [i] = [i]
    rw [hqueue]
    rfl
  -- the segment waits alone, so the claim is one from a queue
  obtain ⟨obj, h', heq, hplace, hnone, x, hx, hc⟩ := claimQueued_ends hformed hfiled
    ⟨hv.kind, hv.fixed, hv.big, hv.stored⟩ hsize hqueue'
  rw [hlookup] at hnone
  refine ⟨obj, h', heq, ?_, hnone, x, hx, hsetting.trans hc.setting, hc.formed,
    fun _ => hc.filed hfiled, fun q => by rw [hc.lookup, hlookup]⟩
  have hbig : r.spec.isBig = false := by rw [Kind.isBig, hsize]; rfl
  have hwait := segment?_waiting hseg r.kind i
  rw [if_pos rfl] at hwait
  rw [hplace, nextSlot_of_queue hbig hqueue' hwait (first?_of_zero_mem (t := t.free) hfirst),
    nextSlot_of_none hbig hqueue, hr.index]

theorem claimSmall_ends (hf : h.Formed) (hq : h.Filed) {r : Request} (hv : h.Valid r) {n : Nat}
    (hsize : r.spec.size = .fixed n) :
    Ends (claimSmall r h) (Claimed h r) (h.NoRoom r) h.store.Oversized := by
  have hpos : 0 < r.chunks := by
    rw [hv.fixed n hsize]
    exact (hf.fixed r.kind r.spec n hv.kind hsize).1
  unfold claimSmall
  refine Ends.get_bind ?_
  show Ends ((claimQueued r.kind (h.queue r.kind) >>= _) h) _ _ _
  cases hqueue : h.queue r.kind with
  | cons i rest =>
    obtain ⟨obj, h', heq, hc⟩ := claimQueued_ends hf hq hv hsize hqueue
    have hrun : claimQueued r.kind (i :: rest) h = .ok (some obj) h' := by
      simp only [claimQueued, bind, EStateM.bind, heq]
      rfl
    exact Ends.bind_of_eq hrun hc
  | nil =>
    refine Ends.bind_of_eq rfl ?_
    have hres := Store.reserveSmall_ends hf.store hpos r.kind r.spec.storesLength
    refine Ends.onStore_bind hres (fun i s' hs' => ?_) fun e he => ⟨rfl, rfl, e, ?_⟩
    · obtain ⟨area, hr⟩ := hs'
      obtain ⟨obj, h', heq, hc⟩ := claimNew_ends hf hq hv hsize hqueue hr
      exact Ends.modify_bind (Ends.bind_of_eq heq hc)
    · have hsmall : r.spec.isBig = false := by rw [Kind.isBig, hsize]; rfl
      rw [reserveFor, hsmall]
      exact he

/-- A big segment whose one slot is handed out at once waits in no queue. -/
theorem filed_big {t : Segment} {s' : Store} (hq : h.Filed)
    (hr : Store.Reserved h.store t i s') (hbig : t.isBig = true) (hqueued : t.queued = false)
    (hfree : t.free = {(0 : Offset)}) :
    ((h.setStore s').modifySegment i fun _ => t.claimed 0).Filed := by
  have hseg := Store.segment?_modifySegment_of (segment?_reserved hr) fun _ => t.claimed 0
  have hself := hseg i
  rw [if_pos rfl] at hself
  refine hq.replaceAt hself rfl rfl (fun j hj => ?_) hq.nodup (fun k j _ => Iff.rfl)
    (fun k => ?_) ?_ fun _ => Segment.hasFree_claimed_of_single hfree
  · refine (hseg j).trans ?_
    rw [if_neg (Ne.symm hj)]
    show s'.segment? j = _
    rw [hr.segment?, if_neg (Ne.symm hj)]
  · refine iff_of_false (hq.not_mem_of_fresh hr.fresh k) fun hn => ?_
    exact Bool.false_ne_true (hqueued.symm.trans hn.2)
  · show t.queued = true ↔ t.isBig = false ∧ _
    rw [hqueued, hbig]
    exact iff_of_false Bool.false_ne_true fun hn => Bool.false_ne_true hn.1.symm

theorem claimBig_ends (hf : h.Formed) (hq : h.Filed) {r : Request} (hv : h.Valid r)
    (hsize : r.spec.size = .big) :
    Ends (claimBig r h) (Claimed h r) (h.NoRoom r) h.store.Oversized := by
  unfold claimBig
  have hres := Store.reserveBig_ends hf.store r.kind r.chunks r.spec.storesLength
  have hb : r.spec.isBig = true := by rw [Kind.isBig, hsize]; rfl
  refine Ends.onStore_bind hres (fun i s' hs' => ?_) fun e he =>
    ⟨rfl, rfl, e, by rw [reserveFor, hb]; exact he⟩
  obtain ⟨block, hr⟩ := hs'
  generalize ht : Segment.big r.kind r.chunks block r.spec.storesLength = t at hr
  have hkind : t.OfKind r.spec h.store.segmentChunks := by
    rw [← ht]
    exact hv.ofKind_big hsize _ block
  have hfacts : t.kind = r.kind ∧ t.chunks = r.chunks ∧ t.isBig = true ∧ t.free = t.slots ∧
      t.free = {(0 : Offset)} ∧ t.queued = false := by
    rw [← ht]
    exact ⟨rfl, rfl, rfl, rfl, rfl, rfl⟩
  obtain ⟨hk, hchunks, hbig, hslots, hfree, hqueued⟩ := hfacts
  have hformed : (h.setStore s').Formed := hf.reserved hr (by rw [hk]; exact hv.kind) hkind
  have hseg := segment?_reserved hr
  have hmem : (0 : Offset) ∈ t.free := by
    rw [hfree]
    exact OffsetSet.mem_singleton.mpr rfl
  have hstay : (t.claimed 0).setQueued false = t.claimed 0 := by
    rw [← hqueued]
    rfl
  have hshape := claimed_wellFormed hformed hseg hmem false
  obtain ⟨hnone, x, hx, hlookup⟩ := lookup_claimed hformed hseg hmem false
  rw [hstay] at hlookup hshape
  rw [lookup_reserved hr hslots] at hnone
  refine Ends.ask_bind (a := t) (by simp only [Store.segment, hseg]) ?_
  rw [Segment.takeSlot_of_first? (first?_of_zero_mem hmem)]
  refine Ends.modify_bind ⟨?_, hnone, x, ?_, ?_, hformed.modifySegment hshape,
    fun _ => filed_big hq hr hbig hqueued hfree, fun q => ?_⟩
  · rw [nextSlot, hb, if_pos rfl, hr.index]
    rfl
  · rw [← hk, ← hchunks, ← hv.blank_eq hkind]
    exact hx
  · exact ⟨rfl, rfl, rfl, hr.geometry.trans (Store.sameGeometry_modifySegment s' i _)⟩
  · rw [hlookup, lookup_reserved hr hslots]

/-- A valid request is given a slot, or the heap is as it was. -/
theorem claim_ends (hf : h.Formed) (hq : h.Filed) {r : Request} (hv : h.Valid r) :
    Ends (claim r h) (Claimed h r) (h.NoRoom r) h.store.Oversized := by
  unfold claim Kind.isBig
  cases hsize : r.spec.size with
  | fixed n => exact claimSmall_ends hf hq hv hsize
  | big => exact claimBig_ends hf hq hv hsize

/-! ## The object -/

/-- A segment that is put in the place of what it is a change of. -/
theorem modifySegment_const (hs : h.store.segment? i = some s) (f : Segment → Segment) :
    (h.modifySegment i fun _ => f s) = h.modifySegment i f := by
  rw [modifySegment, modifySegment, Store.modifySegment_congr fun t ht => ?_]
  rw [hs] at ht
  cases ht
  rfl

/-- The length of an object that stores one can be set. -/
theorem exists_setLength {obj : ObjRef} {x : Object} (hf : h.Formed) (hx : h.lookup obj = some x)
    (hstored : x.stored.isSome = true) (n : Nat) :
    ∃ t, (do (← h.segment obj).setLength obj.offset n) = .ok t ∧
      Changed h obj (some { x with stored := some n })
        (h.modifySegment obj.segment fun _ => t) := by
  obtain ⟨s, hs, hs?, ho, _⟩ := segment_of_lookup hx
  have hset := (hf.store.segment_wf _ s hs?).setLength_eq (Segment.mem_allocated.mp ho).1 n
  refine ⟨s.withLength obj.offset n, by rw [hs]; exact hset, ?_⟩
  rw [modifySegment_const hs? (·.withLength obj.offset n)]
  exact changed_withLength hf hx hstored n

/-- A claimed slot is made an object. -/
theorem furnish_ends {obj : ObjRef} {x : Object} (hf : h.Formed) {r : Request}
    (hx : h.lookup obj = some x) (hfresh : Fresh x r.kind r.chunks r.blank) :
    Ends (furnish r obj h) (fun _ h' => Changed h obj (some (r.object x)) h')
      (fun _ _ => False) (fun _ => False) := by
  unfold furnish
  refine Ends.ask_bind (capacity_of_lookup hx) (Ends.ask_bind (addressOf_of_lookup hx) ?_)
  have hfill := changed_fill hf hx 0
  refine Ends.modify_bind (Ends.when_bind (fun h₂ => Changed h obj
    (some { r.object x with stored := x.stored }) h₂) (fun hu => ?_) (fun hu => ?_) fun h₂ hc => ?_)
  · have hgen := changed_setGeneration hfill.formed hfill.lookup_self
      (g := .two) fun _ => nofun
    have hobj : r.object x = { x with
        generation := .two
        stored := r.stored
        bytes := List.replicate x.bytes.length 0 } := by
      rw [Request.object, if_pos hu]
    rw [hobj]
    exact hfill.trans hgen
  · have hobj : r.object x = { x with
        stored := r.stored
        bytes := List.replicate x.bytes.length 0 } := by
      rw [Request.object, if_neg hu, ← hfresh.generation]
    rw [hobj]
    exact hfill
  -- the length is stored last; the counters are of no account
  cases hstored : r.stored with
  | none =>
    have hobj : ({ r.object x with stored := x.stored } : Object) = r.object x := by
      rw [hfresh.stored, Request.blank, hstored, Option.map_none, ← hstored]
      rfl
    rw [hobj] at hc
    exact hc.congr rfl rfl rfl rfl rfl
  | some n =>
    have hobj : ({ r.object x with stored := some n } : Object) = r.object x := by
      rw [← hstored]
      rfl
    have hsome : x.stored.isSome = true := by
      rw [hfresh.stored, Request.blank, hstored]
      rfl
    obtain ⟨t, ht, hlen⟩ := exists_setLength hc.formed hc.lookup_self hsome n
    refine Ends.ask_bind ht (Ends.modify_bind ?_)
    rw [← hobj]
    exact (hc.trans hlen).congr rfl rfl rfl rfl rfl

/-! ## Allocations -/

/-- What an allocation of a type and length leaves of a heap. -/
structure Allocated (h : Heap) (tag : TypeTag) (length : Nat) (obj : ObjRef) (h' : Heap) :
    Prop where
  wellFormed : h'.WellFormed
  setting : SameSetting h h'
  fresh : h.lookup obj = none
  object : ∃ r x, h.request tag length = .ok r ∧ h.Valid r ∧ obj = h.nextSlot r ∧
    Fresh x r.kind r.chunks r.blank ∧ h'.lookup obj = some (r.object x)
  others : ∀ q, q ≠ obj → h'.lookup q = h.lookup q

/-- A fault that an allocation can meet: the size of a pool block that does
not fit a word, or a fault of the layout. -/
def AllocFault (h : Heap) (tag : TypeTag) (length : Nat) (f : Fault) : Prop :=
  h.store.Oversized f ∨ h.request tag length = .error (.fault f)

/-- An allocation is refused by a check of the request or for want of
room, and changes nothing. -/
def AllocRefused (h : Heap) (tag : TypeTag) (length : Nat) (e : HeapError) (h' : Heap) : Prop :=
  h' = h ∧ (h.request tag length = .error (.refused e) ∨
    ∃ r, h.request tag length = .ok r ∧ e = .exhausted (h.shortage r.kind r.chunks))

/-- **An allocation returns a new object, with zero bytes, and changes no
other; or it is refused and changes nothing.** -/
theorem alloc_ends (hw : h.WellFormed) (tag : TypeTag) (length : Nat) :
    Ends (alloc tag length h) (h.Allocated tag length) (h.AllocRefused tag length)
      (h.AllocFault tag length) := by
  unfold alloc
  refine Ends.get_bind ?_
  cases hr : h.request tag length with
  | error e =>
    cases e with
    | refused e => exact ⟨rfl, Or.inl hr⟩
    | fault f => exact Or.inr hr
  | ok r =>
    obtain ⟨hv, _⟩ := valid_of_request hr
    refine Ends.bind ((claim_ends hw.toFormed hw.toFiled hv).mono
      (fun _ _ hc => hc) (fun _ _ hn => ⟨hn.1, Or.inr ⟨r, hr, hn.2.1⟩⟩) fun _ he => Or.inl he)
      fun obj h₁ hc => ?_
    obtain ⟨hplace, hnone, x, hx, hc⟩ := hc
    refine Ends.bind ((furnish_ends hc.formed hc.lookup_self hx).mono
      (fun _ _ hc => hc) (fun _ _ hn => hn.elim) fun _ hn => hn.elim) fun _ h₂ hd => ?_
    have hboth := hc.trans hd
    refine ⟨⟨hboth.formed, hboth.filed hw.toFiled, ?_⟩, hboth.setting, hnone,
      ⟨r, x, hr, hv, hplace, hx, hboth.lookup_self⟩, fun q hq => hboth.lookup_other hq⟩
    refine hboth.permanent hw.permanent fun y spec hy hspec hu => ?_
    cases hy
    have hspec : h.kinds.get? x.kind = some spec := hspec
    rw [hx.kind, hv.kind] at hspec
    cases hspec
    show (if r.spec.uncollected = true then Generation.two else .zero) = .two
    rw [if_pos hu]

/-- What is claimed is furnished. -/
theorem alloc_of_claim (hw : h.WellFormed) {tag : TypeTag} {length : Nat} {r : Request}
    {obj : ObjRef} {h₁ : Heap} (hr : h.request tag length = .ok r) (hc : claim r h = .ok obj h₁) :
    ∃ h', furnish r obj h₁ = .ok ⟨⟩ h' ∧ alloc tag length h = .ok obj h' := by
  obtain ⟨hv, _⟩ := valid_of_request hr
  obtain ⟨_, _, x, hx, hd⟩ := (claim_ends hw.toFormed hw.toFiled hv).of_ok hc
  obtain ⟨_, h', he, _⟩ := (furnish_ends hd.formed hd.lookup_self hx).returns
  refine ⟨h', he, ?_⟩
  rw [alloc, get_bind_eq, hr]
  show (claim r >>= fun obj => furnish r obj >>= fun _ => pure obj) h = _
  rw [bind_of_ok hc, bind_of_ok he]
  rfl

end Heap

end SegmentedHeap
