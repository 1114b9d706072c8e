/-
SegmentedHeap.Proofs.Books — every operation of a heap keeps the books.

The operations of the store keep its books if they are asked for what it
can give: small slots of at least one chunk, big segments of at least one
chunk, and releases of reserved segments only. The operations of a heap
ask for nothing else. Most of them reserve and release nothing at all; what
they change in a segment is no part of its shape.

* `Stocked` — the store has the stock of one that keeps its books.
* `Always` — what holds of an operation, however it ends.
* `Lasting`, `Lasting.alloc`, … — a property of the store that operations
  keep that give nothing back.
* `alloc_stocked`, `free_stocked` — allocations and frees.
* `Reachable.sound` — **in every run the books are kept**.
-/
import SegmentedHeap.Proofs.Reachable
import SegmentedHeap.Proofs.Upkeep

namespace SegmentedHeap

open Store (SameStock Accounted)

/-! ## However an operation ends -/

/-- The operation that gave `r` left a state with this property, if it
left one. -/
def Always {ε σ α : Type} (P : σ → Prop) (r : EStateM.Result (Failure ε) σ α) : Prop :=
  Ends r (fun _ => P) (fun _ => P) fun _ => True

namespace Heap

section

variable {α β : Type} {h h' : Heap} {P : Heap → Prop}

theorem always_of_leaves {act : HeapM α} (hl : ∀ h', Leaves act h h' → P h') :
    Always P (act h) := by
  cases he : act h with
  | ok a h' => exact hl h' (Or.inl ⟨a, he⟩)
  | error e h' =>
    cases e with
    | refused e => exact hl h' (Or.inr ⟨e, he⟩)
    | fault f => trivial

/-- A question leaves everything as it is. -/
theorem Always.asking {question : Heap → Except Fault α} {f : α → HeapM β}
    (hf : ∀ a, question h = .ok a → Always P (f a h)) : Always P ((ask question >>= f) h) := by
  cases hq : question h with
  | ok a => exact Ends.ask_bind hq (hf a hq)
  | error f => exact Ends.ask_bind_fault hq trivial

/-- An operation of the store leaves another store, or is refused. -/
theorem Always.onStore {act : StoreM α} {explain : Heap → StoreError → HeapError} {f : α → HeapM β}
    {done : α → Store → Prop} {faulted : Fault → Prop}
    (ha : Ends (act h.store) done (fun _ s => s = h.store) faulted)
    (hf : ∀ a s, done a s → Always P (f a (h.setStore s))) (hr : P h) :
    Always P ((onStore act explain >>= f) h) :=
  Ends.onStore_bind (ha.mono (fun _ _ hd => hd) (fun _ _ e => e) fun _ _ => trivial) hf
    fun _ _ => hr

/-- An attempt leaves what the operation leaves. -/
theorem Always.attempt {act : HeapM α} (ha : Always P (act h)) : Always P (attempt act h) := by
  unfold Heap.attempt
  cases he : act h with
  | ok a h' =>
    rw [he] at ha
    exact ha
  | error e h' =>
    rw [he] at ha
    cases e <;> exact ha

end

/-! ## Heaps that are stocked -/

/-- The store has the stock of one that keeps its books. -/
def Stocked (h : Heap) : Prop := ∃ s, Accounted s ∧ SameStock s h.store

section

variable {h h' : Heap} {i : SegmentIndex}

theorem stocked_of_accounted (ha : h.store.Accounted) : h.Stocked := ⟨_, ha, .refl _⟩

/-- A stocked heap that is formed keeps its books. -/
theorem Stocked.accounted (hs : h.Stocked) (hf : h.Formed) : h.store.Accounted := by
  obtain ⟨_, ha, hsame⟩ := hs
  exact hsame.accounted ha hf.store

theorem Stocked.congr (hs : h.Stocked) (hsame : SameStock h.store h'.store) : h'.Stocked := by
  obtain ⟨s, ha, hs⟩ := hs
  exact ⟨s, ha, hs.trans hsame⟩

/-- A reserved segment, as a question gives it. -/
theorem segment?_of_segment {t : Segment} (ht : h.store.segment i = .ok t) :
    h.store.segment? i = some t := by
  unfold Store.segment at ht
  cases hs : h.store.segment? i with
  | none =>
    rw [hs] at ht
    cases ht
  | some u =>
    rw [hs] at ht
    exact congrArg some (Except.ok.inj ht)

/-! ## Allocations -/

/-- What handing a slot out and furnishing it make of a segment. -/
structure Handled (t u : Segment) : Prop where
  shape : Segment.SameShape t u
  marked : u.marked = t.marked

theorem handled_takeSlot (t : Segment) : Handled t t.takeSlot.2 := by
  unfold Segment.takeSlot
  split
  · exact ⟨Segment.sameShape_claimed t _, rfl⟩
  · exact ⟨.refl t, rfl⟩

theorem handled_setGeneration (t : Segment) (o : Offset) (g : Generation) :
    Handled t (t.setGeneration o g) :=
  ⟨Segment.sameShape_setGeneration t o g, by cases g <;> rfl⟩

theorem handled_setLength {t u : Segment} {position n : Nat}
    (hu : t.setLength position n = .ok u) : Handled t u := by
  unfold Segment.setLength at hu
  split at hu
  · cases hu
    exact ⟨.refl t, rfl⟩
  · split at hu
    · cases hu
      exact ⟨⟨rfl, rfl, rfl, rfl, by simp [*]⟩, rfl⟩
    · cases hu

/-- A property of stores that is kept where a segment is handled, and where
memory is written. -/
structure Lasting (Q : Store → Prop) : Prop where
  modify : ∀ {s : Store} {i : SegmentIndex} {f : Segment → Segment}, Q s →
    (∀ t, s.segment? i = some t → Handled t (f t)) → Q (s.modifySegment i f)
  memory : ∀ {s : Store} (m : Memory), Q s → Q { s with memory := m }

section Lasting

variable {Q : Store → Prop} {r : Request}

theorem Lasting.replace (hq : Lasting Q) {s : Store} {t u : Segment} (hs : Q s)
    (ht : s.segment? i = some t) (hu : Handled t u) : Q (s.modifySegment i fun _ => u) := by
  refine hq.modify hs fun t' ht' => ?_
  rw [ht] at ht'
  cases ht'
  exact hu

theorem Lasting.claimFrom (hq : Lasting Q) (hs : Q h.store) (kind : KindId) (i : SegmentIndex) :
    Always (fun h' => Q h'.store) (claimFrom kind i h) := by
  unfold Heap.claimFrom
  refine Always.asking fun t ht => ?_
  have ht := segment?_of_segment ht
  have htaken := handled_takeSlot t
  simp only
  split
  · exact hq.replace hs ht htaken
  · exact hq.replace hs ht
      ⟨htaken.shape.trans (Segment.sameShape_setQueued _ false), htaken.marked⟩

theorem Lasting.furnish (hq : Lasting Q) (hs : Q h.store) (r : Request) (obj : ObjRef) :
    Always (fun h' => Q h'.store) (furnish r obj h) := by
  unfold Heap.furnish
  refine Always.asking fun capacity _ => Always.asking fun address _ => Ends.modify_bind ?_
  have hfilled : Q { h.store with memory := h.store.memory.fill address capacity 0 } :=
    hq.memory _ hs
  refine Ends.when_bind (fun h' => Q h'.store)
    (fun _ => hq.modify hfilled fun t _ => handled_setGeneration t _ _) (fun _ => hfilled)
    fun h₂ hs₂ => ?_
  cases r.stored with
  | none => exact hs₂
  | some n =>
    refine Always.asking fun t ht => Ends.modify_bind ?_
    cases hseg : h₂.segment obj with
    | error f =>
      rw [hseg] at ht
      cases ht
    | ok u =>
      rw [hseg] at ht
      exact hq.replace hs₂ (segment?_of_segment hseg) (handled_setLength ht)

/-- The segments that are reserved for objects of a heap have no marks, and
the big ones have a chunk. -/
def Reserves (h : Heap) (Q : Store → Prop) : Prop :=
  ∀ i t s', h.store.Reserved t i s' → t.marked = ∅ → (t.isBig = true → 0 < t.chunks) → Q s'

/-- A small slot comes from the queue, or from a segment that is reserved
for it. -/
theorem Lasting.claimSmall (hq : Lasting Q) (hf : h.Formed) (hfiled : h.Filed) (hs : Q h.store)
    (hreserve : h.Reserves Q) (hv : h.Valid r) {n : Nat} (hsize : r.spec.size = .fixed n) :
    Always (fun h' => Q h'.store) (claimSmall r h) := by
  have hpos : 0 < r.chunks := by
    rw [hv.fixed n hsize]
    exact (hf.fixed r.kind r.spec n hv.kind hsize).1
  unfold Heap.claimSmall
  refine Ends.get_bind ?_
  show Always _ ((claimQueued r.kind (h.queue r.kind) >>= _) h)
  cases hqueue : h.queue r.kind with
  | cons i rest =>
    -- the front of a queue has a slot, so that nothing is reserved after it
    obtain ⟨obj, h', heq, _⟩ := claimQueued_ends hf hfiled hv hsize hqueue
    have hrun : claimQueued r.kind (i :: rest) h = .ok (some obj) h' := bind_of_ok heq
    exact Ends.bind_of_eq hrun ((hq.claimFrom hs r.kind i).of_ok heq)
  | nil =>
    refine Ends.bind_of_eq rfl ?_
    have hres := Store.reserveSmall_ends hf.store hpos r.kind r.spec.storesLength
    refine Always.onStore hres (fun i s' hs' => ?_) hs
    obtain ⟨area, hr⟩ := hs'
    have hwaiting : Q ((h.setStore s').waiting r.kind i).store :=
      hq.modify (hreserve i _ s' hr rfl nofun) fun t _ => ⟨Segment.sameShape_setQueued t true, rfl⟩
    refine Ends.modify_bind (Ends.bind (hq.claimFrom hwaiting r.kind i) fun obj h' hs => ?_)
    cases obj with
    | some obj => exact hs
    | none => trivial

/-- A big segment is reserved, and its only slot is taken. -/
theorem Lasting.claimBig (hq : Lasting Q) (hf : h.Formed) (hs : Q h.store)
    (hreserve : h.Reserves Q) (hv : h.Valid r) (hsize : r.spec.size = .big) :
    Always (fun h' => Q h'.store) (claimBig r h) := by
  unfold Heap.claimBig
  have hres := Store.reserveBig_ends hf.store r.kind r.chunks r.spec.storesLength
  refine Always.onStore hres (fun i s' hs' => ?_) hs
  obtain ⟨block, hr⟩ := hs'
  refine Always.asking fun t ht => Ends.modify_bind ?_
  have htaken := hq.replace (hreserve i _ s' hr rfl fun _ => hv.big hsize)
    (segment?_of_segment ht) (handled_takeSlot t)
  cases t.takeSlot.1 <;> exact htaken

/-- **What a store keeps through an allocation**: it lasts, and is true once
a segment has been reserved. -/
theorem Lasting.alloc (hq : Lasting Q) (hw : h.WellFormed) (hs : Q h.store)
    (hreserve : h.Reserves Q) (tag : TypeTag) (length : Nat) :
    Always (fun h' => Q h'.store) (alloc tag length h) := by
  unfold Heap.alloc
  refine Ends.get_bind ?_
  cases hr : h.request tag length with
  | error e =>
    cases e with
    | refused e => exact hs
    | fault f => trivial
  | ok r =>
    obtain ⟨hv, _⟩ := valid_of_request hr
    have hclaim : Always (fun h' => Q h'.store) (claim r h) := by
      unfold claim Kind.isBig
      cases hsize : r.spec.size with
      | fixed n => exact hq.claimSmall hw.toFormed hw.toFiled hs hreserve hv hsize
      | big => exact hq.claimBig hw.toFormed hs hreserve hv hsize
    refine Ends.bind hclaim fun obj h₁ hs₁ => ?_
    exact Ends.bind (hq.furnish hs₁ r obj) fun _ _ hs => hs

/-- Bytes are written to memory. -/
theorem Lasting.setBytes (hq : Lasting Q) (hs : Q h.store) (obj : ObjRef) (start : Nat)
    (bytes : List UInt8) : Always (fun h' => Q h'.store) (setBytes obj start bytes h) := by
  unfold Heap.setBytes
  refine Ends.get_bind ?_
  cases h.isAllocated obj with
  | false => trivial
  | true =>
    refine Always.asking fun capacity _ => ?_
    by_cases hn : capacity < start + bytes.length
    · simp only [hn, if_true]
      trivial
    · simp only [hn, if_false]
      exact Always.asking fun address _ => hq.memory _ hs

/-- An object joins the old-to-new set. -/
theorem Lasting.register (hq : Lasting Q) (hs : Q h.store) (source target : ObjRef) :
    Always (fun h' => Q h'.store) (register source target h) := by
  unfold Heap.register
  cases source.isNull || target.isNull with
  | true => exact hs
  | false =>
    refine Always.asking fun younger _ => Always.asking fun older _ => ?_
    by_cases hlt : younger < older
    · simp only [hlt, if_true]
      exact hq.modify hs fun t _ => ⟨Segment.sameShape_addOldToNew t _, rfl⟩
    · simp only [hlt, if_false]
      exact hs

theorem Lasting.writeRef (hq : Lasting Q) (hs : Q h.store) (source : ObjRef) (field : Nat)
    (target : ObjRef) : Always (fun h' => Q h'.store) (writeRef source field target h) := by
  unfold Heap.writeRef
  refine Ends.get_bind ?_
  cases h.readRef source field with
  | error e => exact hs
  | ok r => exact Ends.bind (hq.setBytes hs source _ _) fun _ _ hs =>
      hq.register hs source target

end Lasting

/-- A store has the stock that it had. -/
theorem lasting_sameStock (s₀ : Store) : Lasting (SameStock s₀) where
  modify hs hf := hs.trans (Store.sameStock_modifySegment fun t ht => (hf t ht).shape)
  memory m hs := hs.trans (Store.sameStock_memory _ m)

theorem lasting_stocked : Lasting fun s => ∃ s₀, Accounted s₀ ∧ SameStock s₀ s where
  modify hs hf := hs.imp fun s₀ hs => ⟨hs.1, (lasting_sameStock s₀).modify hs.2 hf⟩
  memory m hs := hs.imp fun s₀ hs => ⟨hs.1, (lasting_sameStock s₀).memory m hs.2⟩

theorem alloc_stocked (hw : h.WellFormed) (ha : h.store.Accounted) (tag : TypeTag)
    (length : Nat) : Always Stocked (alloc tag length h) :=
  lasting_stocked.alloc hw (stocked_of_accounted ha)
    (fun _ _ _ hr _ hbig => ⟨_, (ha.reserve hr hbig).accounted, .refl _⟩) tag length

/-! ## Objects that go and change -/

theorem sameStock_enqueue (h : Heap) (i : SegmentIndex) :
    SameStock h.store (h.enqueue i).store := by
  unfold enqueue
  split
  · exact .refl _
  · split
    · exact .refl _
    · exact Store.sameStock_modifySegment fun t _ => Segment.sameShape_setQueued t true

theorem free_stocked (hf : h.Formed) (ha : h.store.Accounted) (obj : ObjRef) :
    Always Stocked (free obj h) := by
  unfold free
  refine Ends.get_bind ?_
  cases hx : h.isAllocated obj with
  | false => exact stocked_of_accounted ha
  | true =>
    refine Always.asking fun uncollected _ => ?_
    cases uncollected with
    | true => exact stocked_of_accounted ha
    | false =>
      obtain ⟨x, hx⟩ := hf.isAllocated_iff_lookup.mp hx
      have hd : (h.discard obj).Stocked := stocked_of_accounted (guardedDiscard_eq hf ha hx).2
      exact hd.congr (sameStock_enqueue
        ((h.discard obj).withMetrics (h.discard obj).metrics.recordFree) obj.segment)

end

/-! ## Runs -/

/-- A well-formed heap whose store keeps its books. -/
structure Sound (h : Heap) : Prop where
  wellFormed : h.WellFormed
  accounted : h.store.Accounted

section

variable {σ : Type} {h h' : Heap}

theorem Sound.withMetrics (hs : h.Sound) (metrics : Metrics) : (h.withMetrics metrics).Sound :=
  ⟨hs.wellFormed.withMetrics metrics, hs.accounted⟩

/-- What is well formed and stocked is sound. -/
theorem Steady.sound (hs : Steady h h') (hstock : h'.Stocked) : h'.Sound :=
  ⟨hs.wellFormed, hstock.accounted hs.wellFormed.toFormed⟩

theorem Sound.stocked (hs : h.Sound) : h.Stocked := stocked_of_accounted hs.accounted

theorem Sound.alloc (hs : h.Sound) (tag : TypeTag) (length : Nat) :
    Always Sound (alloc tag length h) :=
  always_of_leaves fun _ hl => (steady_alloc hs.wellFormed hl).sound
    ((alloc_stocked hs.wellFormed hs.accounted tag length).leaves hl)

theorem Sound.collect (hs : h.Sound) (tracer : Tracer σ) (level : Generation) (log : σ) :
    Always Sound (collect tracer level log h) := by
  refine always_of_leaves fun h' hl => ⟨(steady_collect hs.wellFormed hl).wellFormed, ?_⟩
  rcases hl with ⟨_, he⟩ | ⟨e, he⟩
  · exact accounted_collect hs.wellFormed hs.accounted he
  · exact ((collect_ends hs.wellFormed tracer level log).of_refused he).elim

theorem Sound.allocRetrying (hs : h.Sound) (tracer : Tracer σ) (tag : TypeTag) (length : Nat)
    (log : σ) : Always Sound (allocRetrying tracer tag length log h) := by
  unfold Heap.allocRetrying
  refine Ends.bind (Always.attempt (hs.alloc tag length)) fun tried h₁ hs₁ => ?_
  cases tried with
  | ok obj => exact hs₁
  | error e =>
    simp only
    split
    · unfold allocAgain
      refine Ends.modify_bind (Ends.bind ((hs₁.withMetrics _).collect tracer .two log)
        fun _ h₂ hs₂ =>
          Ends.bind (Always.attempt (hs₂.alloc tag length)) fun _ h₃ hs₃ => ?_)
      exact hs₃.withMetrics _
    · exact hs₁

end

/-- **In every run the heap is sound.** -/
theorem Reachable.sound {h : Heap} (hr : h.Reachable) : h.Sound := by
  induction hr with
  | create hc =>
    refine ⟨(wellFormed_create hc).1, ?_⟩
    obtain ⟨hconfig, _, _, _, _, rfl⟩ := create_eq_ok hc
    exact Store.accounted_ofConfig hconfig _
  | alloc tag length _ hl ih => exact (ih.alloc tag length).leaves hl
  | allocRetrying tracer tag length log _ hl ih =>
    exact (ih.allocRetrying tracer tag length log).leaves hl
  | free obj _ hl ih =>
    exact (steady_free ih.wellFormed hl).sound
      ((free_stocked ih.wellFormed.toFormed ih.accounted obj).leaves hl)
  | setBytes obj start bytes _ hl ih =>
    exact (steady_setBytes ih.wellFormed hl).sound
      ((lasting_stocked.setBytes ih.stocked obj start bytes).leaves hl)
  | register source target _ hl ih =>
    exact (steady_register ih.wellFormed hl).sound
      ((lasting_stocked.register ih.stocked source target).leaves hl)
  | writeRef source field target _ hl ih =>
    exact (steady_writeRef ih.wellFormed hl).sound
      ((lasting_stocked.writeRef ih.stocked source field target).leaves hl)
  | collect tracer level log _ hl ih => exact (ih.collect tracer level log).leaves hl

end Heap

end SegmentedHeap
