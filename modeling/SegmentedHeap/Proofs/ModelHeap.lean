/-
SegmentedHeap.Proofs.ModelHeap — heaps of the model.

Such a heap has the kinds of the model, holds nil in its first slot, and
is closed for what the model traces. A new object has zero bytes, so that
whatever it yields is nil, which is never collected. The uncollected
objects are nil, which yields nothing, and the symbols: with all of these
among the roots, every collection keeps the heap as it should be.

* `IsOf`, `Modelled` — objects of a type, and the invariant.
* `Modelled.collected`, `Modelled.allocated`, `Modelled.written`,
  `Modelled.overwritten` — **each step keeps it**.
* `modelled_first` — a heap is such a heap once its nil is made.
-/
import SegmentedHeap.Proofs.ModelObjects
import SegmentedHeap.Proofs.Reachable

namespace SegmentedHeap

open Model

/-- The tracer of the model, without roots. -/
def Mutator.scanner : Tracer Unit where
  roots := []
  refs := Mutator.refs

/-- The tracer sees in objects the references of the model, and no others. -/
structure Tracer.ForModel {σ : Type} (tracer : Tracer σ) : Prop where
  refs : tracer.refs = Mutator.refs
  tied : tracer.tied = fun _ => []

namespace Heap

variable {σ : Type} {h h' : Heap} {tracer : Tracer σ} {level : Generation} {p q : ObjRef}
  {x y : Object} {type : ModelType}

/-! ## Objects of a type -/

/-- The reference is to an object of the type. -/
def IsOf (h : Heap) (type : ModelType) (p : ObjRef) : Prop :=
  ∃ x spec, h.lookup p = some x ∧ h.kinds.get? x.kind = some spec ∧ spec.tag = type.tag

theorem isOf_iff : h.IsOf type p ↔
    ∃ k spec, (h.lookup p).map Object.kind = some k ∧ h.kinds.get? k = some spec ∧
      spec.tag = type.tag := by
  constructor
  · intro hp
    obtain ⟨x, spec, hx, hspec, ht⟩ := hp
    exact ⟨x.kind, spec, by rw [hx]; rfl, hspec, ht⟩
  · intro hp
    obtain ⟨k, spec, hk, hspec, ht⟩ := hp
    obtain ⟨x, hx, rfl⟩ := Option.map_eq_some_iff.mp hk
    exact ⟨x, spec, hx, hspec, ht⟩

/-- An object is of one type. -/
theorem IsOf.unique {s t : ModelType} (hs : h.IsOf s p) (ht : h.IsOf t p) : s = t := by
  obtain ⟨x, spec, hx, hspec, hs⟩ := hs
  obtain ⟨y, spec', hy, hspec', ht⟩ := ht
  rw [hx] at hy
  cases hy
  rw [hspec] at hspec'
  cases hspec'
  exact ModelType.tag_injective (hs.symm.trans ht)

theorem IsOf.congr (hk : h'.kinds = h.kinds) (hl : h'.lookup p = h.lookup p) :
    h'.IsOf type p ↔ h.IsOf type p := by
  rw [IsOf, IsOf, hk, hl]

namespace SameObjects

theorem isOf_iff (hs : SameObjects h h') : h'.IsOf type p ↔ h.IsOf type p := by
  rw [Heap.isOf_iff, Heap.isOf_iff, hs.kind, hs.setting.kinds]

theorem proper (hs : SameObjects h h') (hf : h.Formed) (hf' : h'.Formed) (hp : h.Proper p) :
    h'.Proper p :=
  hp.mono hf hf' fun _ hx => hs.isSome hx

end SameObjects

/-- Nil yields nothing. -/
theorem refsOf_nil (hf : h.Formed) (hr : tracer.ForModel) (hp : h.IsOf .nil p) :
    h.refsOf tracer p = [] := by
  obtain ⟨x, spec, hx, hspec, ht⟩ := hp
  rw [refsOf_of_lookup hf hx hspec, hr.refs, hr.tied, List.append_nil]
  exact Mutator.refs_nil ht

/-- A new object yields nil, if anything. -/
theorem Allocated.eq_zero_of_mem_refs {tag : TypeTag} {length : Nat} {obj : ObjRef}
    (ha : Allocated h tag length obj h') (hr : tracer.ForModel)
    (hq : q ∈ h'.refsOf tracer obj) : q = ⟨0⟩ := by
  obtain ⟨r, x, _, _, _, _, hobj⟩ := ha.object
  obtain ⟨spec, hspec⟩ := ha.wellFormed.toFormed.spec_of_lookup hobj
  rw [refsOf_of_lookup ha.wellFormed.toFormed hobj hspec, hr.refs, hr.tied,
    List.append_nil] at hq
  refine Mutator.eq_zero_of_mem_refs (fun i => ?_) hq
  show (List.replicate x.bytes.length (0 : UInt8)).getD i 0 = 0
  rw [List.getD_eq_getElem?_getD, List.getElem?_replicate]
  split <;> rfl

/-- A new object is of the type that was asked for. -/
theorem Allocated.isOf {length : Nat} {obj : ObjRef} (ha : Allocated h type.tag length obj h') :
    h'.IsOf type obj := by
  obtain ⟨r, x, hr, hv, _, hfresh, hobj⟩ := ha.object
  refine ⟨r.object x, r.spec, hobj, ?_, (valid_of_request hr).2⟩
  rw [ha.setting.kinds]
  exact hfresh.kind ▸ hv.kind

/-- What is there after a collection was there before. -/
theorem Sifted.isOf (hs : Sifted h tracer level h') (hp : h'.IsOf type p) : h.IsOf type p := by
  obtain ⟨z, spec, hz, hspec, ht⟩ := hp
  obtain ⟨x, hx, hk⟩ := hs.kind_before hz
  refine ⟨x, spec, hx, ?_, ht⟩
  rw [hk, ← hs.setting.kinds]
  exact hspec

/-- An allocation leaves what was there. -/
theorem Allocated.proper {tag : TypeTag} {length : Nat} {obj : ObjRef}
    (ha : Allocated h tag length obj h') (hf : h.Formed) (hp : h.Proper p) : h'.Proper p := by
  refine hp.mono hf ha.wellFormed.toFormed fun x hx => ⟨x, (ha.others p fun e => ?_).trans hx⟩
  rw [e, ha.fresh] at hx
  cases hx

/-! ## The invariant -/

/-- The heap has the layout of the model, and chunks that hold a
reference. -/
structure Equipped (h : Heap) : Prop where
  layout : ∃ chunkBytes, h.layout = Model.layout chunkBytes
  uncollected : ∀ k spec, h.kinds.get? k = some spec →
    (spec.uncollected = true ↔ spec.tag = ModelType.nil.tag ∨ spec.tag = ModelType.symbol.tag)
  room : refBytes ≤ h.store.chunkBytes

/-- The heap is as the model needs it. -/
structure Modelled (h : Heap) : Prop extends Equipped h where
  closed : h.Closed Mutator.scanner
  nil : h.IsOf .nil ⟨0⟩

theorem Equipped.congr (he : h.Equipped) (hs : SameSetting h h') : h'.Equipped where
  layout := by
    rw [hs.layout]
    exact he.layout
  uncollected := by
    rw [hs.kinds]
    exact he.uncollected
  room := by
    rw [Store.chunkBytes, hs.geometry.chunkBits]
    exact he.room

/-- Of a tracer, only what it sees in objects matters. -/
theorem Closed.retrace {τ : Type} {other : Tracer τ} (hc : h.Closed tracer)
    (hr : other.refs = tracer.refs) (ht : other.tied = tracer.tied) : h.Closed other := by
  have e : h.refsOf other = h.refsOf tracer := by
    funext p
    rw [refsOf, refsOf, hr, ht]
  refine ⟨hc.wellFormed, fun p hp => hc.complete p ?_, fun p q hq => hc.yields p q (e ▸ hq)⟩
  rw [HoldsYounger, e] at hp
  exact hp

theorem Equipped.collectable_eq_false (he : h.Equipped)
    (hp : h.IsOf .nil p ∨ h.IsOf .symbol p) : h.collectable p = false := by
  have hu : ∃ x spec, h.lookup p = some x ∧ h.kinds.get? x.kind = some spec ∧
      spec.uncollected = true := by
    rcases hp with ⟨x, spec, hx, hspec, ht⟩ | ⟨x, spec, hx, hspec, ht⟩
    · exact ⟨x, spec, hx, hspec, (he.uncollected _ spec hspec).mpr (Or.inl ht)⟩
    · exact ⟨x, spec, hx, hspec, (he.uncollected _ spec hspec).mpr (Or.inr ht)⟩
  obtain ⟨x, spec, hx, hspec, hu⟩ := hu
  rw [collectable, hx, Option.bind_some, hspec, Option.any_some, hu]
  rfl

namespace Modelled

theorem wellFormed (hm : h.Modelled) : h.WellFormed := hm.closed.wellFormed

/-- Nil is of generation two. -/
theorem generation_nil (hm : h.Modelled) :
    ∃ x, h.lookup ⟨0⟩ = some x ∧ x.generation = .two := by
  obtain ⟨x, spec, hx, hspec, ht⟩ := hm.nil
  have hu := (hm.uncollected _ spec hspec).mpr (Or.inl ht)
  exact ⟨x, hx, hm.wellFormed.permanent _ x spec hx hspec hu⟩

/-- With all symbols among the roots, every uncollected object that yields
a reference is a root. -/
theorem anchored (hm : h.Modelled) (hr : tracer.ForModel)
    (hp : ∀ p ∈ tracer.roots, h.Proper p) (hs : ∀ p, h.IsOf .symbol p → p ∈ tracer.roots) :
    h.Anchored tracer := by
  refine ⟨hp, fun p x spec hx hspec hu => ?_⟩
  rcases (hm.uncollected _ spec hspec).mp hu with ht | ht
  · exact Or.inr (refsOf_nil hm.wellFormed.toFormed hr ⟨x, spec, hx, hspec, ht⟩)
  · exact Or.inl (hs p ⟨x, spec, hx, hspec, ht⟩)

/-! ## What each step keeps -/

/-- **A collection** keeps such a heap, and its roots stay. -/
theorem collected {report : CollectionReport} (hm : h.Modelled)
    (hr : tracer.ForModel) (ha : h.Anchored tracer)
    (hd : Collected h tracer level report h') :
    h'.Modelled ∧ ∀ p ∈ tracer.roots, h'.Proper p := by
  have hc : h.Closed tracer := hm.closed.retrace hr.refs hr.tied
  have hs := hd.toSifted
  refine ⟨⟨hm.toEquipped.congr hs.setting,
      (hc.sifted ha hd.wellFormed hs).retrace hr.refs.symm hr.tied.symm, ?_⟩,
    fun p hp => hc.proper_root hd.wellFormed.toFormed hs hp (ha.proper p hp)⟩
  have hcol := hm.collectable_eq_false (Or.inl hm.nil)
  obtain ⟨x, spec, hx, hspec, ht⟩ := hm.nil
  obtain ⟨b, hy, _⟩ := hs.survived _ x hx fun hgarbage => by
    rw [hgarbage.1] at hcol
    cases hcol
  refine ⟨_, spec, hy, ?_, ht⟩
  rw [hs.setting.kinds]
  exact hspec

/-- Marking such a heap meets no stray reference. -/
theorem no_stray (hm : h.Modelled) (hr : tracer.ForModel) (ha : h.Anchored tracer)
    (f : Fault) : ¬ h.StrayFault tracer level f :=
  (hm.closed.retrace hr.refs hr.tied).no_stray ha f

/-- **A new object** comes. -/
theorem allocated {length : Nat} {obj : ObjRef} (hm : h.Modelled)
    (ha : Allocated h type.tag length obj h') : h'.Modelled := by
  refine ⟨hm.toEquipped.congr ha.setting, hm.closed.allocated ha fun q hq => ?_,
    (IsOf.congr ha.setting.kinds (ha.others _ fun e => ?_)).mpr hm.nil⟩
  · rw [ha.eq_zero_of_mem_refs ⟨rfl, rfl⟩ hq]
    exact hm.generation_nil
  · obtain ⟨x, _, hx, _⟩ := hm.nil
    rw [e, ha.fresh] at hx
    cases hx

/-- **A proper reference is stored.** -/
theorem written {source target : ObjRef} {field : Nat} (hm : h.Modelled)
    (ht : h.Proper target) (hw : Written h source field target h') : h'.Modelled :=
  ⟨hm.toEquipped.congr hw.setting, hm.closed.written (Mutator.fieldwise rfl) ht hw,
    hw.sameObjects.isOf_iff.mpr hm.nil⟩

/-- **Bytes are stored past the fields that hold references.** -/
theorem overwritten {start : Nat} {new : List UInt8} (hm : h.Modelled) (hp : h.IsOf type p)
    (hs : ∀ length, type.fieldCount length * refBytes ≤ start)
    (hx : h.lookup p = some x) (hroom : start + new.length ≤ x.bytes.length)
    (hw : h'.WellFormed)
    (hd : Changed h p (some { x with bytes := overwrite x.bytes start new }) h') :
    h'.Modelled := by
  have hsame := hd.sameObjects hx rfl
  refine ⟨hm.toEquipped.congr hd.setting, hm.closed.overwritten hw hx hd rfl rfl ?_,
    hsame.isOf_iff.mpr hm.nil⟩
  obtain ⟨y, spec, hy, hspec, ht⟩ := hp
  rw [hx] at hy
  cases hy
  have hspec' : h'.kinds.get? x.kind = some spec := by rw [hd.setting.kinds]; exact hspec
  rw [refsOf_of_lookup hw.toFormed hd.lookup_self hspec',
    refsOf_of_lookup hm.wellFormed.toFormed hx hspec]
  refine congrArg (· ++ _) ?_
  exact Mutator.refs_overwrite hroom (Mutator.fields_eq (v := x.view spec) ht ▸ hs _)

theorem withMetrics (hm : h.Modelled) (metrics : Metrics) : (h.withMetrics metrics).Modelled :=
  ⟨⟨hm.layout, hm.uncollected, hm.room⟩, hm.closed.withMetrics metrics, hm.nil⟩

end Modelled

/-! ## A new heap -/

/-- A heap that is built for the model has its layout. -/
theorem equipped_create {config : Config} {system : System}
    (hc : create config (Model.layout config.chunkBytes) system = .ok h) : h.Equipped := by
  obtain ⟨herr, list, table, hlist, htable, rfl⟩ := create_eq_ok hc
  have hle := (Config.inOrder herr).chunk_ge
  obtain ⟨k, hk⟩ := Word.isPowerOfTwo_iff.mp (Config.inOrder herr).chunk_pow
  refine ⟨⟨_, rfl⟩, fun i spec hspec => ?_, ?_⟩
  · exact uncollected_iff_of_mem hlist
      (List.mem_of_getElem? ((get?_ofList htable _).symm.trans hspec))
  · show refBytes ≤ Nat.pow 2 (Word.trailingZeros config.chunkBytes)
    rw [hk] at hle ⊢
    by_cases hlt : k < 64
    · rw [Word.trailingZeros_two_pow hlt]
      exact Nat.le_trans (by decide) hle
    · rw [Word.trailingZeros_two_pow_of_le (Nat.le_of_not_lt hlt)]
      decide

/-- **The heap is as the model needs it** once its nil is made, in the
first slot. -/
theorem modelled_first {config : Config} {system : System} {obj : ObjRef}
    (hc : create config (Model.layout config.chunkBytes) system = .ok h)
    (ha : Allocated h ModelType.nil.tag 0 obj h') : h'.Modelled ∧ obj = ⟨0⟩ := by
  obtain ⟨hw, hempty, _⟩ := wellFormed_create hc
  have hzero : obj = ⟨0⟩ := by
    obtain ⟨r, _, _, _, hplace, _⟩ := ha.object
    have hqueue := queue_create hc r.kind
    obtain ⟨_, _, table, _, _, rfl⟩ := create_eq_ok hc
    rw [hplace, nextSlot, hqueue, ite_self]
    rfl
  have hnone : ∀ p, h.refsOf Mutator.scanner p = [] := fun p => hw.refsOf_of_none (hempty p)
  have hclosed : h.Closed Mutator.scanner := by
    refine ⟨hw, hw.barrierComplete_iff.mpr fun p x hx => ?_, fun p q hq => ?_⟩
    · rw [hempty] at hx
      cases hx
    · rw [hnone] at hq
      cases hq
  refine ⟨⟨(equipped_create hc).congr ha.setting, hclosed.allocated ha fun q hq => ?_, ?_⟩, hzero⟩
  · rw [refsOf_nil ha.wellFormed.toFormed ⟨rfl, rfl⟩ ha.isOf] at hq
    cases hq
  · exact hzero ▸ ha.isOf

end Heap

end SegmentedHeap
