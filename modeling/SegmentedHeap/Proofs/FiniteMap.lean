/-
SegmentedHeap.Proofs.FiniteMap — allocating inserts and freeing removes.

To a program a heap is a finite map from references to objects. An
allocation that returns adds one reference that named nothing, with all
that is known of a new object; a free that returns takes one away. What
can be asked of the other objects is answered as before, whichever slot
was taken or given back: a fresh one, one that an object left, one in the
area of another kind, or that of a big segment.

* `SameAnswers`, `OthersAlike` — what can be asked of the other objects.
* `Inserted`, `inserted_of_alloc` — an object comes.
* `Removed`, `removed_of_free` — an object goes.
* `insertion_and_removal` — **a heap of a run as a finite map**.
-/
import SegmentedHeap.Proofs.Refusals

namespace SegmentedHeap

/-- The length that is known of an object of the kind. -/
def Kind.recorded (spec : Kind) (length : Nat) : Option Nat :=
  match spec.length with
  | .untracked => none
  | .stored => some length
  | .constant _ => some length

namespace Heap

variable {h h' : Heap} {p q obj : ObjRef} {x : Object}

/-! ## The other objects -/

/-- What can be asked of an object is answered in the same way. -/
structure SameAnswers (h h' : Heap) (q : ObjRef) : Prop where
  kindOf : h'.kindOf q = h.kindOf q
  typeOf : h'.typeOf q = h.typeOf q
  lengthOf : h'.lengthOf q = h.lengthOf q
  generationOf : h'.generationOf q = h.generationOf q
  inOldToNew : h'.inOldToNew q = h.inOldToNew q
  capacity : h'.capacity q = h.capacity q
  addressOf : h'.addressOf q = h.addressOf q
  bytes : h'.bytes q = h.bytes q

theorem typeOf_of_lookup {spec : Kind} (hx : h.lookup p = some x)
    (hspec : h.kinds.get? x.kind = some spec) : h.typeOf p = .ok spec.tag := by
  rw [typeOf, specOf_of_lookup hx hspec]
  rfl

theorem sameAnswers_of_lookup (hf : h.Formed) (hf' : h'.Formed) (hs : SameSetting h h')
    (hx : h.lookup q = some x) (hx' : h'.lookup q = some x) : SameAnswers h h' q := by
  obtain ⟨spec, hspec⟩ := hf.spec_of_lookup hx
  have hspec' : h'.kinds.get? x.kind = some spec := hs.kinds ▸ hspec
  exact {
    kindOf := by rw [kindOf_of_lookup hx, kindOf_of_lookup hx']
    typeOf := by rw [typeOf_of_lookup hx hspec, typeOf_of_lookup hx' hspec']
    lengthOf := by rw [lengthOf_of_lookup hf hx hspec, lengthOf_of_lookup hf' hx' hspec']
    generationOf := by rw [generationOf_of_lookup hx, generationOf_of_lookup hx']
    inOldToNew := by rw [inOldToNew_of_lookup hx, inOldToNew_of_lookup hx']
    capacity := by rw [capacity_of_lookup hx, capacity_of_lookup hx']
    addressOf := by rw [addressOf_of_lookup hx, addressOf_of_lookup hx']
    bytes := by rw [bytes_eq_of_lookup hf hx, bytes_eq_of_lookup hf' hx'] }

/-- The other objects are the same ones, and the same is known of them. -/
def OthersAlike (h h' : Heap) (obj : ObjRef) : Prop :=
  ∀ q, q ≠ obj → h'.isAllocated q = h.isAllocated q ∧
    (h.isAllocated q = true → SameAnswers h h' q)

theorem othersAlike_of_lookup (hf : h.Formed) (hf' : h'.Formed) (hs : SameSetting h h')
    (hl : ∀ q, q ≠ obj → h'.lookup q = h.lookup q) : OthersAlike h h' obj := by
  intro q hq
  constructor
  · rw [Bool.eq_iff_iff, hf'.isAllocated_iff_lookup, hf.isAllocated_iff_lookup, hl q hq]
  · intro ha
    obtain ⟨x, hx⟩ := hf.isAllocated_iff_lookup.mp ha
    exact sameAnswers_of_lookup hf hf' hs hx ((hl q hq).trans hx)

/-! ## An object comes -/

/-- What the allocation of an object of a type and length makes of a
heap. -/
structure Inserted (h : Heap) (tag : TypeTag) (length : Nat) (obj : ObjRef) (h' : Heap) :
    Prop where
  absent : h.isAllocated obj = false
  ne_null : obj ≠ .null
  present : h'.isAllocated obj = true
  kind : ∃ kind spec, h.Assigns tag length kind spec ∧ h'.kindOf obj = .ok kind ∧
    h'.lengthOf obj = .ok (spec.recorded length) ∧
    h'.generationOf obj = .ok (if spec.uncollected then .two else .zero)
  type : h'.typeOf obj = .ok tag
  data : ∃ needed capacity, h.layout.chunksFor tag length = .ok needed ∧
    h'.capacity obj = .ok capacity ∧ needed * h.store.chunkBytes ≤ capacity ∧
    h'.bytes obj = .ok (List.replicate capacity 0)
  unremembered : h'.inOldToNew obj = .ok false
  others : OthersAlike h h' obj

/-- The length that is known of a new object. -/
theorem length_object {kind : KindId} {spec : Kind} {length : Nat} {stored : Option Nat}
    (hs : storedLength kind spec length = .ok stored) (hx : x.stored = stored) :
    x.length spec = spec.recorded length := by
  obtain ⟨hstored, _, hconst⟩ := storedLength_eq hs
  rw [Kind.storesLength] at hstored
  unfold Object.length Kind.recorded
  cases hl : spec.length with
  | untracked => rfl
  | stored =>
    rw [hl] at hstored
    exact hx.trans hstored
  | constant n => exact congrArg some (hconst n hl).symm

theorem inserted_of_alloc (hw : h.WellFormed) {tag : TypeTag} {length : Nat}
    (he : alloc tag length h = .ok obj h') : Inserted h tag length obj h' := by
  obtain ⟨hw', hset, hfresh, ⟨r, x, hr, _, _, hx, hobj⟩, hothers⟩ :=
    (alloc_ends hw tag length).of_ok he
  obtain ⟨ha, hstored, hchunks⟩ := checks_of_request hr
  obtain ⟨_, _, needed, hneeded, hle⟩ := requestedChunks_eq hchunks
  rw [ha.tag] at hneeded
  have hf' := hw'.toFormed
  have hspec : h'.kinds.get? (r.object x).kind = some r.spec := by
    rw [hset.kinds]
    exact (congrArg h.kinds.get? hx.kind).trans ha.entry
  have hroom : needed * h.store.chunkBytes ≤ (r.object x).bytes.length := by
    rw [length_bytes_of_lookup hobj, hset.geometry.chunkBytes]
    exact Nat.mul_le_mul_right _ (Nat.le_trans hle (Nat.le_of_eq hx.chunks.symm))
  have hzero : (r.object x).bytes = List.replicate (r.object x).bytes.length 0 := by
    rw [Request.object, List.length_replicate]
  exact {
    absent := hw.not_isAllocated_iff_lookup.mpr hfresh
    ne_null := hf'.ne_null_of_lookup hobj
    present := hf'.isAllocated_iff_lookup.mpr ⟨_, hobj⟩
    kind := ⟨r.kind, r.spec, ha, (kindOf_of_lookup hobj).trans (congrArg Except.ok hx.kind),
      (lengthOf_of_lookup hf' hobj hspec).trans (congrArg Except.ok (length_object hstored rfl)),
      generationOf_of_lookup hobj⟩
    type := (typeOf_of_lookup hobj hspec).trans (congrArg Except.ok ha.tag)
    data := ⟨needed, _, hneeded, capacity_of_lookup hobj, hroom,
      (bytes_eq_of_lookup hf' hobj).trans (congrArg Except.ok hzero)⟩
    unremembered := (inOldToNew_of_lookup hobj).trans (congrArg Except.ok hx.remembered)
    others := othersAlike_of_lookup hw.toFormed hf' hset hothers }

/-! ## An object goes -/

/-- What freeing an object makes of a heap. -/
structure Removed (h : Heap) (obj : ObjRef) (h' : Heap) : Prop where
  present : h.isAllocated obj = true
  absent : h'.isAllocated obj = false
  others : OthersAlike h h' obj

theorem removed_of_free (hw : h.WellFormed) (he : free obj h = .ok () h') :
    Removed h obj h' := by
  obtain ⟨hw', hc, hx⟩ := (free_ends hw obj).of_ok he
  exact {
    present := hw.isAllocated_iff_lookup.mpr hx
    absent := hw'.not_isAllocated_iff_lookup.mpr hc.lookup_self
    others := othersAlike_of_lookup hw.toFormed hw'.toFormed hc.setting fun _ => hc.lookup_other }

/-! ## The heaps of a run -/

/-- A heap is as well formed with other bytes in its memory. -/
theorem WellFormed.setMemory (hw : h.WellFormed) {m : Memory}
    (hm : m.regions.size = h.store.memory.regions.size) : (h.setMemory m).WellFormed := by
  refine ⟨hw.toFormed.setMemory hm, hw.toFiled.congr rfl rfl
    (fun i t ht => ⟨t, ht, rfl, rfl, rfl, rfl⟩) fun i s hs => ⟨s, hs⟩, ?_⟩
  intro p y spec hy hspec hu
  rw [lookup_setMemory] at hy
  obtain ⟨x, hx, rfl⟩ := Option.map_eq_some_iff.mp hy
  exact hw.permanent p x spec hx hspec hu

/-- **Allocating and freeing insert into and remove from a finite map**, in
every heap of a run. An allocation inserts whatever bytes are in memory:
with `m` for memory the heap is as it was but for them. -/
theorem insertion_and_removal (hr : h.Reachable) :
    (∀ tag length obj h', alloc tag length h = .ok obj h' → Inserted h tag length obj h') ∧
    (∀ m : Memory, m.regions.size = h.store.memory.regions.size → ∀ tag length obj h',
      alloc tag length (h.setMemory m) = .ok obj h' →
      Inserted (h.setMemory m) tag length obj h') ∧
    ∀ obj h', free obj h = .ok () h' → Removed h obj h' :=
  ⟨fun _ _ _ _ => inserted_of_alloc hr.wellFormed,
    fun _ hm _ _ _ _ => inserted_of_alloc (hr.wellFormed.setMemory hm),
    fun _ _ => removed_of_free hr.wellFormed⟩

/-- A heap with a pair that was given some bytes. -/
def pairHeap : Heap :=
  after (setBytes ⟨0⟩ 2 [7, 8, 9]) (after (alloc Model.ModelType.pair.tag 0) smallHeap)

theorem reachable_pairHeap : Reachable pairHeap := by
  have hmade : returnsFrom (alloc Model.ModelType.pair.tag 0) smallHeap = true ∧
      returnsFrom (setBytes ⟨0⟩ 2 [7, 8, 9])
        (after (alloc Model.ModelType.pair.tag 0) smallHeap) = true := by
    decide +kernel
  exact .setBytes _ _ _ (.alloc _ _ reachable_smallHeap (leaves_after hmade.1))
    (leaves_after hmade.2)

/-- The pair is freed; the next one gets its slot, with no byte of it
left. -/
theorem insertion_and_removal_pairHeap : ∃ h₁ h₂ : Heap,
    pairHeap.bytes ⟨0⟩ = .ok [0, 0, 7, 8, 9, 0, 0, 0] ∧ Removed pairHeap ⟨0⟩ h₁ ∧
    Inserted h₁ Model.ModelType.pair.tag 0 ⟨0⟩ h₂ ∧ h₂.bytes ⟨0⟩ = .ok (List.replicate 8 0) := by
  have hrun : returned (free ⟨0⟩) pairHeap = some () ∧
      returned (alloc Model.ModelType.pair.tag 0) (after (free ⟨0⟩) pairHeap) = some ⟨0⟩ ∧
      pairHeap.bytes ⟨0⟩ = .ok [0, 0, 7, 8, 9, 0, 0, 0] ∧
      (after (alloc Model.ModelType.pair.tag 0) (after (free ⟨0⟩) pairHeap)).bytes ⟨0⟩ =
        .ok (List.replicate 8 0) := by
    decide +kernel
  obtain ⟨hfree, halloc, hold, hnew⟩ := hrun
  have hfree := eq_ok_of_returned hfree
  have hfreed := Reachable.free ⟨0⟩ reachable_pairHeap (Or.inl ⟨_, hfree⟩)
  exact ⟨_, _, hold, (insertion_and_removal reachable_pairHeap).2.2 _ _ hfree,
    (insertion_and_removal hfreed).1 _ _ _ _ (eq_ok_of_returned halloc), hnew⟩

end Heap

end SegmentedHeap
