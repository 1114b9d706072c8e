/-
SegmentedHeap.Proofs.Saving — what a program can reach is seen as before.

Whatever collections come with an allocation, an object that the roots
lead to is seen in the end as it was at first, and so is nil. It is live
at the start of each of them, because the objects on the way to it were
saved by the ones before. The new object is none of these, though its
slot may have held an object that was there at first.

* `Saves` — some objects are seen as before.
* `Guarded` — the objects that the roots lead to, and nil.
* `Suited` — what the configuration settles for a heap of the model.
* `HeapError.OfSize` — how a request of the model is refused.
* `Blank` — what is seen of a new object.
* `alloc_saves`, `collect_saves` — **what is guarded is saved**.
-/
import SegmentedHeap.Proofs.Mutator
import SegmentedHeap.Proofs.Sizes
import SegmentedHeap.Proofs.Survival
import SegmentedHeap.Proofs.Views

namespace SegmentedHeap

open Model

/-! ## Sizes of the model -/

namespace Model

/-- The length that is kept for an object of a type. -/
def ModelType.lengthOf (type : ModelType) (length : Nat) : Option Nat :=
  match type.lengthRule with
  | .untracked => none
  | .stored => some length
  | .constant n => some n

/-- The chunks that an object needs hold its bytes. -/
theorem bytesFor_le {chunkBytes n length : Nat} {type : ModelType}
    (hn : chunksFor chunkBytes type.tag length = .ok n) :
    bytesFor type length ≤ n * chunkBytes := by
  by_cases hz : chunkBytes = 0
  · subst hz
    cases hn
  · have hpos : 0 < chunkBytes := Nat.pos_of_ne_zero hz
    simp only [chunksFor, ModelType.ofTag?_tag, ceilDiv, hz, if_false, bind, Except.bind, pure,
      Except.pure, Except.ok.injEq] at hn
    have hceil : bytesFor type length ≤
        (bytesFor type length + chunkBytes - 1) / chunkBytes * chunkBytes := by
      have hdiv := Nat.div_add_mod (bytesFor type length + chunkBytes - 1) chunkBytes
      have hmod := Nat.mod_lt (bytesFor type length + chunkBytes - 1) hpos
      rw [Nat.mul_comm] at hdiv
      omega
    rw [← hn]
    exact Nat.le_trans hceil (Nat.mul_le_mul_right _ (Nat.le_max_left _ _))

end Model

/-- What is seen of a new object of a type and length. Its length is one
that can be stored, if it is, and it has the bytes that it needs. -/
structure ObjectView.Blank (v : ObjectView) (type : ModelType) (n : Nat) : Prop where
  tag : v.tag = type.tag
  length : v.length = type.lengthOf n
  bounded : type.lengthRule = .stored → n ≤ Word.max32
  room : bytesFor type n ≤ v.capacity

/-- The errors of a request that is met when it asks for less: there is no
room, or the size is one that no object has. -/
inductive HeapError.OfSize : HeapError → Prop where
  | exhausted (shortage : Shortage) : OfSize (.exhausted shortage)
  | invalidSize (requested limit : Nat) : OfSize (.invalidSize requested limit)

namespace Heap

variable {σ : Type} {h h' h'' : Heap} {P Q : ObjRef → Prop} {tracer : Tracer σ}
  {level : Generation} {p : ObjRef} {x : Object} {type : ModelType} {length : Nat}

/-! ## Objects that are seen as before -/

/-- The objects of `P` are seen in `h'` as in `h`. -/
structure Saves (h : Heap) (P : ObjRef → Prop) (h' : Heap) : Prop where
  setting : SameSetting h h'
  views : ∀ p, P p → h'.view? p = h.view? p

namespace Saves

theorem refl (h : Heap) (P : ObjRef → Prop) : h.Saves P h := ⟨.refl h, fun _ _ => rfl⟩

theorem trans (hs : h.Saves P h') (hs' : h'.Saves Q h'') (hpq : ∀ p, P p → Q p) :
    h.Saves P h'' :=
  ⟨hs.setting.trans hs'.setting, fun p hp => (hs'.views p (hpq p hp)).trans (hs.views p hp)⟩

theorem withMetrics (hs : h.Saves P h') (metrics : Metrics) : h.Saves P (h'.withMetrics metrics) :=
  ⟨⟨hs.setting.config, hs.setting.layout, hs.setting.kinds, hs.setting.geometry⟩, hs.views⟩

theorem isAllocated (hs : h.Saves P h') (hf : h.Formed) (hf' : h'.Formed) (hp : P p)
    (ha : h.isAllocated p = true) : h'.isAllocated p = true := by
  obtain ⟨v, hv⟩ := (isAllocated_iff_view? hf).mp ha
  exact (isAllocated_iff_view? hf').mpr ⟨v, (hs.views p hp).trans hv⟩

theorem proper (hs : h.Saves P h') (hf : h.Formed) (hf' : h'.Formed) (hp : p ≠ .null → P p)
    (hproper : h.Proper p) : h'.Proper p := by
  by_cases e : p = .null
  · exact Or.inl e
  · exact Or.inr (hs.isAllocated hf hf' (hp e) (hproper.resolve_left e))

end Saves

/-- An object that the roots lead to, or nil. -/
def Guarded (h : Heap) (tracer : Tracer σ) (p : ObjRef) : Prop := h.Live tracer p ∨ p = ⟨0⟩

/-- What the roots led to they still lead to, if it was saved. -/
theorem Saves.guarded (hs : h.Saves (h.Guarded tracer) h') (hf : h.Formed) (hf' : h'.Formed)
    (hp : h.Guarded tracer p) : h'.Guarded tracer p := by
  refine hp.imp_left fun hl => ?_
  clear hp
  induction hl with
  | root hr ha => exact .root hr (hs.isAllocated hf hf' (Or.inl (.root hr ha)) ha)
  | step hq hr ha ih =>
    refine .step ih ?_ (hs.isAllocated hf hf' (Or.inl (.step hq hr ha)) ha)
    rw [refsOf, hs.views _ (Or.inl hq)]
    exact hr

theorem Modelled.isAllocated_guarded (hm : h.Modelled) (hp : h.Guarded tracer p) :
    h.isAllocated p = true := by
  rcases hp with hl | rfl
  · exact hl.isAllocated
  · obtain ⟨x, _, hx, _⟩ := hm.nil
    exact hm.wellFormed.isAllocated_iff_lookup.mpr ⟨x, hx⟩

/-! ## What collections and allocations save -/

/-- What is not garbage is seen as before. -/
theorem Sifted.view? (hs : Sifted h tracer level h') (hf : h.Formed) (hf' : h'.Formed)
    (hx : h.lookup p = some x) (hg : ¬ h.IsGarbage tracer level p) : h'.view? p = h.view? p := by
  obtain ⟨b, hy, _⟩ := hs.survived p x hx hg
  obtain ⟨spec, hspec⟩ := hf.spec_of_lookup hx
  rw [view?_of_lookup hf hx hspec, view?_of_lookup hf' hy (hs.setting.kinds ▸ hspec)]
  rfl

/-- **A collection saves what is guarded.** -/
theorem Modelled.saves (hm : h.Modelled) (hr : tracer.ForModel)
    (hs : Sifted h tracer level h') (hf' : h'.Formed) : h.Saves (h.Guarded tracer) h' := by
  have hf := hm.wellFormed.toFormed
  refine ⟨hs.setting, fun p hp => ?_⟩
  obtain ⟨x, hx⟩ := hf.isAllocated_iff_lookup.mp (hm.isAllocated_guarded hp)
  refine hs.view? hf hf' hx ?_
  rcases hp with hl | rfl
  · have hprotected : h.Protected tracer level p := Or.inl hl
    exact hprotected.not_garbage hf fun _ => (hm.closed.retrace hr.refs hr.tied).complete
  · intro hgarbage
    exact Bool.false_ne_true ((hm.collectable_eq_false (Or.inl hm.nil)).symm.trans hgarbage.1)

/-- An allocation saves every object. -/
theorem Allocated.saves {tag : TypeTag} {obj : ObjRef} (hf : h.Formed)
    (ha : Allocated h tag length obj h') : h.Saves (fun p => h.isAllocated p = true) h' := by
  refine ⟨ha.setting, fun p hp => view?_congr hf ha.wellFormed.toFormed ha.setting.kinds
    (ha.others p fun e => ?_)⟩
  obtain ⟨x, hx⟩ := hf.isAllocated_iff_lookup.mp hp
  rw [e, ha.fresh] at hx
  cases hx

/-! ## New objects -/

/-- The heap is as a configuration for the model makes it, whose sizes fit
a word. -/
structure Suited (h : Heap) : Prop extends Configured h where
  layout : h.layout = Model.layout h.config.chunkBytes
  sized : h.store.Sized

namespace Suited

theorem congr (hs : h.Suited) (hset : SameSetting h h') : h'.Suited where
  toConfigured := hs.toConfigured.congr hset
  layout := by
    rw [hset.layout, hset.config]
    exact hs.layout
  sized := hset.geometry.sized_iff.mpr hs.sized

theorem no_fault (hs : h.Suited) (tag : TypeTag) (length : Nat) (f : Fault) :
    ¬ h.AllocFault tag length f := by
  intro hf
  rcases hf with hf | hf
  · exact hf.2 hs.sized
  · have hne : h.config.chunkBytes ≠ 0 := by
      have := (Config.inOrder hs.accepted).chunk_ge
      omega
    exact request_ne_fault (hs.layout ▸ Model.layout_total hne) tag length f hf

theorem lengthRule (hs : h.Suited) {k : KindId} {spec : Kind} (hspec : h.kinds.get? k = some spec)
    (ht : spec.tag = type.tag) : spec.length = type.lengthRule := by
  obtain ⟨list, hlist, htable⟩ := hs.kinds
  rw [hs.layout] at hlist
  exact lengthRule_of_mem hlist
    (List.mem_of_getElem? ((get?_ofList htable _).symm.trans hspec)) ht

/-- A request of the model that is for the length which its type has, if
all objects of it have the same, is refused for its size only. -/
theorem ofSize (hs : h.Suited) {e : HeapError}
    (hlength : ∀ n, type.lengthRule = .constant n → length = n)
    (hr : h.AllocRefused type.tag length e h') : e.OfSize := by
  rcases hr.2 with hr | ⟨r, _, rfl⟩
  · obtain ⟨list, hlist, htable⟩ := hs.kinds
    rw [hs.layout] at hlist
    have hkind : ∀ {k}, h.layout.kindFor type.tag length = .ok k →
        ∃ spec, h.kinds.get? k = some spec ∧ spec.tag = type.tag := by
      intro k hk
      rw [hs.layout] at hk
      rw [get?_ofList htable]
      exact kind_of_kindFor hlist hk
    cases disallows_of_request hr with
    | unknownKind hk hnone =>
      obtain ⟨_, hspec, _⟩ := hkind hk
      cases hnone.symm.trans hspec
    | kindMismatch hk hspec hne =>
      obtain ⟨_, hspec', ht⟩ := hkind hk
      cases hspec.symm.trans hspec'
      exact absurd ht hne
    | lengthMismatch ha hconstant hne =>
      exact absurd (hlength _ ((hs.lengthRule ha.entry ha.tag).symm.trans hconstant)) hne
    | longLength | tooLarge | tooBig => exact .invalidSize _ _
  · exact .exhausted _

end Suited

/-- A heap that has a nil has small segments. -/
theorem suited_of_nil (hf : h.Formed) (hc : h.Configured)
    (hl : h.layout = Model.layout h.config.chunkBytes) (hp : h.IsOf .nil p) : h.Suited := by
  obtain ⟨x, spec, hx, hspec, ht⟩ := hp
  obtain ⟨s, hs, _, rfl⟩ := lookup_eq_some.mp hx
  obtain ⟨spec', hspec', hkind⟩ := hf.typed _ s hs
  cases Option.some.inj (hspec.symm.trans hspec')
  obtain ⟨list, hlist, htable⟩ := hc.kinds
  rw [hl] at hlist
  obtain ⟨t, ht', _, _, hbig⟩ := type_of_mem hlist
    (List.mem_of_getElem? ((get?_ofList htable _).symm.trans hspec))
  have hnil : t = .nil := ModelType.tag_injective (ht'.symm.trans ht)
  refine ⟨hc, hl, hf.sized_of_small hs ?_⟩
  cases hsize : spec.size with
  | fixed n => exact (hkind.small n hsize).1
  | big =>
    have hrule := hbig hsize
    rw [hnil] at hrule
    cases hrule

/-- A heap that is built for the model is suited once its nil is made, and
was so before. -/
theorem suited_first {config : Config} {system : System} {obj : ObjRef}
    (hc : create config (Model.layout config.chunkBytes) system = .ok h)
    (ha : Allocated h ModelType.nil.tag 0 obj h') : h.Suited ∧ h'.Suited := by
  obtain ⟨_, _, hconfig, hlayout⟩ := wellFormed_create hc
  have hconf := configured_create hc
  have hlay : h.layout = Model.layout h.config.chunkBytes := hconfig ▸ hlayout
  have hs : h'.Suited := suited_of_nil ha.wellFormed.toFormed (hconf.congr ha.setting)
    (by rw [ha.setting.layout, ha.setting.config, hlay]) ha.isOf
  exact ⟨⟨hconf, hlay, ha.setting.geometry.sized_iff.mp hs.sized⟩, hs⟩

/-- The length of a new object is the one asked for, as far as it is
kept. -/
theorem length_of_storedLength {kind : KindId} {spec : Kind} {stored : Option Nat} {x : Object}
    (hrule : spec.length = type.lengthRule) (hx : x.stored = stored)
    (hs : storedLength kind spec length = .ok stored) :
    x.length spec = type.lengthOf length ∧ (type.lengthRule = .stored → length ≤ Word.max32) := by
  obtain ⟨hstored, hbound, _⟩ := storedLength_eq hs
  refine ⟨?_, hrule ▸ hbound⟩
  rw [Kind.storesLength, hrule] at hstored
  rw [Object.length, ModelType.lengthOf, hrule, hx, hstored]
  cases type.lengthRule <;> rfl

/-- **A new object is blank.** -/
theorem Allocated.blank {obj : ObjRef} (hs : h.Suited) (ha : Allocated h type.tag length obj h') :
    ∃ v, h'.view? obj = some v ∧ v.Blank type length := by
  obtain ⟨r, x, hr, _, _, hfresh, hobj⟩ := ha.object
  obtain ⟨⟨_, hspec, htag⟩, hstored, hchunks⟩ := checks_of_request hr
  have hkind : h'.kinds.get? (r.object x).kind = some r.spec := by
    rw [ha.setting.kinds]
    exact hfresh.kind ▸ hspec
  obtain ⟨hlength, hbounded⟩ := length_of_storedLength (x := r.object x)
    (hs.lengthRule hspec htag) rfl hstored
  refine ⟨_, view?_of_lookup ha.wellFormed.toFormed hobj hkind, htag, hlength, hbounded, ?_⟩
  obtain ⟨_, _, needed, hneeded, hle⟩ := requestedChunks_eq hchunks
  rw [hs.layout, htag] at hneeded
  have hbytes : (r.object x).bytes.length = r.chunks * h.config.chunkBytes := by
    rw [length_bytes_of_lookup hobj, ha.setting.geometry.chunkBytes,
      hs.chunkBytes_eq hs.sized.chunk]
    exact congrArg (· * _) hfresh.chunks
  exact Nat.le_trans (bytesFor_le hneeded)
    (Nat.le_trans (Nat.mul_le_mul_right _ hle) (Nat.le_of_eq hbytes.symm))

end Heap

/-! ## Allocations of a mutator -/

namespace Mutator

variable {m m' : Mutator} {kept : List ObjRef} {obj : ObjRef}

/-- What the roots lead to, and what is kept beside them. -/
def Guards (m : Mutator) (kept : List ObjRef) : ObjRef → Prop :=
  m.heap.Guarded (m.pushed kept).tracer

/-- The mutator is as before over another heap, in which what was guarded
is seen as before. -/
def Saved (m : Mutator) (kept : List ObjRef) (m' : Mutator) : Prop :=
  ∃ h', m' = m.withHeap h' ∧ h'.WellFormed ∧ m.heap.Saves (m.Guards kept) h'

/-- The same after a request that was refused for its size. -/
def Short (m : Mutator) (kept : List ObjRef) (e : HeapError) (m' : Mutator) : Prop :=
  e.OfSize ∧ m.Saved kept m'

/-- The same with an object that is seen as `v`, and was not guarded. -/
def Making (m : Mutator) (kept : List ObjRef) (obj : ObjRef) (v : ObjectView) (m' : Mutator) :
    Prop :=
  ∃ h', m' = m.withHeap h' ∧ h'.WellFormed ∧ m.heap.Saves (m.Guards kept) h' ∧
    ¬ m.Guards kept obj ∧ h'.view? obj = some v

/-- The heaps that an allocation goes through. -/
theorem withstands_saves (m : Mutator) (hm : m.heap.Modelled) (kept : List ObjRef) :
    (m.pushed kept).Withstands fun h => h.Serves (m.pushed kept).tracer.roots m.symbols ∧
      m.heap.Saves (m.Guards kept) h := by
  have hs := (m.pushed kept).withstands_serves
  refine ⟨fun h hi => hs.wellFormed h hi.1, fun h level f hi => hs.no_stray h level f hi.1,
    fun h level report h' hi hc => ⟨hs.collected h level report h' hi.1 hc, ?_⟩,
    fun h metrics hi => ⟨hs.withMetrics h metrics hi.1, hi.2.withMetrics metrics⟩⟩
  refine hi.2.trans (hi.1.toModelled.saves ⟨rfl, rfl⟩ hc.toSifted hc.wellFormed.toFormed)
    fun p hp => ?_
  exact hi.2.guarded hm.wellFormed.toFormed hi.1.formed hp

/-- **An allocation saves what is guarded**, and the new object is another
one; or it is refused for its size and saves that all the same. It meets
no fault. -/
theorem alloc_saves (hs : m.heap.Serves m.tracer.roots m.symbols) (hsuited : m.heap.Suited)
    (hk : ∀ p ∈ kept, m.heap.Proper p) (type : ModelType) (length : Nat)
    (hlength : ∀ n, type.lengthRule = .constant n → length = n) :
    Ends (alloc type length kept m)
      (fun obj m' => ∃ v, m.Making kept obj v m' ∧ v.Blank type length)
      (m.Short kept) (fun _ => False) := by
  have hf := hs.formed
  have hs' : m.heap.Serves (m.pushed kept).tracer.roots m.symbols :=
    (hs.append hk).mono (fun p hp => List.mem_append.mpr (mem_pushed_roots.mp hp)) fun _ hp => hp
  refine (alloc_yields (m.withstands_saves hs.toModelled kept) ⟨hs', .refl _ _⟩ type length).mono
    (fun obj m' hd => ?_) (fun e m' hd => ?_) fun f hf => ?_
  · obtain ⟨h', rfl, h₁, h₂, metrics, ⟨hs₁, hsaves⟩, ha, rfl⟩ := hd
    obtain ⟨v, hv, hblank⟩ := ha.blank (hsuited.congr hsaves.setting)
    have hkeeps : ∀ p, m.Guards kept p → h₁.isAllocated p = true := fun p hp =>
      hsaves.isAllocated hf hs₁.formed hp (hs.toModelled.isAllocated_guarded hp)
    refine ⟨v, ⟨_, rfl, ha.wellFormed.withMetrics metrics,
      (hsaves.trans (ha.saves hs₁.formed) hkeeps).withMetrics metrics, fun hp => ?_, hv⟩, hblank⟩
    obtain ⟨x, hx⟩ := hs₁.formed.isAllocated_iff_lookup.mp (hkeeps obj hp)
    rw [ha.fresh] at hx
    cases hx
  · obtain ⟨h', rfl, ⟨hs₁, hsaves⟩, h, ⟨_, hsaves'⟩, hr⟩ := hd
    exact ⟨(hsuited.congr hsaves'.setting).ofSize hlength hr, h', rfl, hs₁.wellFormed, hsaves⟩
  · obtain ⟨h, ⟨_, hsaves⟩, hf⟩ := hf
    exact (hsuited.congr hsaves.setting).no_fault _ _ f hf

/-- **A collection saves what is guarded.** It always returns. -/
theorem collect_saves (hs : m.heap.Serves m.tracer.roots m.symbols) (level : Generation) :
    Ends (collect level m) (fun _ => m.Saved []) (fun _ _ => False) (fun _ => False) := by
  refine (collect_collected hs.wellFormed level).mono (fun _ m' hd => ?_) (fun _ _ h => h)
    (hs.no_stray ⟨rfl, rfl⟩ m.mem_roots_of_symbol)
  obtain ⟨h', rfl, hd⟩ := hd
  have hpushed : (m.pushed []).tracer = m.tracer := by simp [pushed]
  refine ⟨h', rfl, hd.wellFormed, ?_⟩
  rw [Guards, hpushed]
  exact hs.toModelled.saves ⟨rfl, rfl⟩ hd.toSifted hd.wellFormed.toFormed

end Mutator

end SegmentedHeap
