/-
SegmentedHeap.Proofs.Mutator — what the operations of a mutator keep.

A heap serves a mutator if it is as the model needs it, every root is
proper, and every symbol is interned. Whatever is given to a constructor
is a root while it allocates, so it is still proper when it is stored;
a collection in between drops nothing that a root leads to. The root
stack is as before afterwards, whether the constructor succeeds or not.

* `Serves` — the invariant, for given roots and symbols.
* `Made`, `Failed` — how a constructor ends.
* `alloc_ends`, `pair_ends`, `cell_ends`, `symbol_ends`, `intVec_ends`,
  `vector_ends`, `list_ends` — **the constructors**.
* `writeRef_ends` — **the stores**.
-/
import SegmentedHeap.Proofs.ModelHeap

namespace SegmentedHeap

open Model

/-- The fault is not that of a collection that met a stray reference. -/
def NoStray (f : Fault) : Prop := ∀ p, f ≠ .strayReference p

namespace Heap

variable {h h' : Heap} {roots symbols : List ObjRef} {obj : ObjRef} {type : ModelType}

/-! ## Heaps that serve a mutator -/

/-- The heap has what a mutator with these roots and symbols counts on. -/
structure Serves (h : Heap) (roots symbols : List ObjRef) : Prop extends Modelled h where
  proper : ∀ p ∈ roots, h.Proper p
  interned : ∀ p, h.IsOf .symbol p → p ∈ symbols

theorem AllocFault.noStray {tag : TypeTag} {length : Nat} {f : Fault} (he : h.Equipped)
    (hf : h.AllocFault tag length f) : NoStray f := by
  intro p e
  obtain ⟨chunkBytes, hl⟩ := he.layout
  rcases hf with hf | hf
  · rw [hf.1] at e
    cases e
  · rcases fault_of_request hf with hf | ⟨_, hf⟩ <;> rw [hl] at hf
    · rw [fault_of_layout.1 hf] at e
      cases e
    · rw [fault_of_layout.2 hf] at e
      cases e

namespace Serves

theorem formed (hs : h.Serves roots symbols) : h.Formed := hs.wellFormed.toFormed

theorem proper_nil (hs : h.Serves roots symbols) : h.Proper ⟨0⟩ := by
  obtain ⟨x, _, hx, _⟩ := hs.nil
  exact hs.formed.proper_iff.mpr (Or.inr ⟨x, hx⟩)

/-- Fewer roots are served, and more symbols may be interned. -/
theorem mono {roots' symbols' : List ObjRef} (hs : h.Serves roots symbols)
    (hr : ∀ p ∈ roots', p ∈ roots) (hi : ∀ p ∈ symbols, p ∈ symbols') :
    h.Serves roots' symbols' :=
  ⟨hs.toModelled, fun p hp => hs.proper p (hr p hp), fun p hp => hi p (hs.interned p hp)⟩

theorem append {more : List ObjRef} (hs : h.Serves roots symbols) (hp : ∀ p ∈ more, h.Proper p) :
    h.Serves (more ++ roots) symbols := by
  refine ⟨hs.toModelled, fun p hmem => ?_, hs.interned⟩
  rcases List.mem_append.mp hmem with hmem | hmem
  · exact hp p hmem
  · exact hs.proper p hmem

theorem cons {p : ObjRef} (hs : h.Serves roots symbols) (hp : h.Proper p) :
    h.Serves (p :: roots) symbols :=
  ⟨hs.toModelled, List.forall_mem_cons.mpr ⟨hp, hs.proper⟩, hs.interned⟩

/-- Only objects matter, and their kinds. -/
theorem sameObjects (hs : h.Serves roots symbols) (hm : h'.Modelled) (hsame : SameObjects h h') :
    h'.Serves roots symbols :=
  ⟨hm, fun p hp => hsame.proper hs.formed hm.wellFormed.toFormed (hs.proper p hp),
    fun p hp => hs.interned p (hsame.isOf_iff.mp hp)⟩

theorem withMetrics (hs : h.Serves roots symbols) (metrics : Metrics) :
    (h.withMetrics metrics).Serves roots symbols :=
  ⟨hs.toModelled.withMetrics metrics, hs.proper, hs.interned⟩

section

variable {σ : Type} {tracer : Tracer σ}

theorem anchored (hs : h.Serves tracer.roots symbols) (hr : tracer.ForModel)
    (hi : ∀ p ∈ symbols, p ∈ tracer.roots) : h.Anchored tracer :=
  hs.toModelled.anchored hr hs.proper fun p hp => hi p (hs.interned p hp)

theorem collected {level : Generation} {report : CollectionReport}
    (hs : h.Serves tracer.roots symbols) (hr : tracer.ForModel)
    (hi : ∀ p ∈ symbols, p ∈ tracer.roots) (hd : Collected h tracer level report h') :
    h'.Serves tracer.roots symbols := by
  obtain ⟨hm, hp⟩ := hs.toModelled.collected hr (hs.anchored hr hi) hd
  exact ⟨hm, hp, fun p hp => hs.interned p (hd.toSifted.isOf hp)⟩

theorem no_stray {level : Generation} (hs : h.Serves tracer.roots symbols)
    (hr : tracer.ForModel) (hi : ∀ p ∈ symbols, p ∈ tracer.roots) (f : Fault) :
    ¬ h.StrayFault tracer level f :=
  hs.toModelled.no_stray hr (hs.anchored hr hi) f

end

/-- A new symbol has yet to be interned. -/
theorem allocated {length : Nat} (hs : h.Serves roots symbols)
    (ha : Allocated h type.tag length obj h') :
    h'.Serves (obj :: roots) (if type = .symbol then obj :: symbols else symbols) := by
  have hf' := ha.wellFormed.toFormed
  obtain ⟨x, _, hx, _⟩ := ha.isOf
  refine ⟨hs.toModelled.allocated ha, List.forall_mem_cons.mpr ⟨?_, fun p hp => ?_⟩, fun p hp => ?_⟩
  · exact hf'.proper_iff.mpr (Or.inr ⟨x, hx⟩)
  · exact ha.proper hs.formed (hs.proper p hp)
  · by_cases e : p = obj
    · rw [e] at hp ⊢
      rw [if_pos (ha.isOf.unique hp)]
      exact List.mem_cons_self
    · have hp := hs.interned p ((IsOf.congr ha.setting.kinds (ha.others p e)).mp hp)
      split
      · exact List.mem_cons_of_mem _ hp
      · exact hp

end Serves

end Heap

namespace Mutator

variable {α : Type} {m : Mutator} {kept symbols : List ObjRef} {obj : ObjRef} {type : ModelType}

/-! ## Operations that leave the roots alone -/

/-- The mutator with another heap. -/
def withHeap (m : Mutator) (h : Heap) : Mutator := { m with heap := h }

@[simp] theorem tracer_withHeap (m : Mutator) (h : Heap) : (m.withHeap h).tracer = m.tracer := rfl

theorem lookup_concat {β : Type} (l : List (UInt64 × β)) (id id' : UInt64) (b : β) :
    (l ++ [(id, b)]).lookup id' = (l.lookup id').or (if id' = id then some b else none) := by
  rw [List.lookup_append, List.lookup_cons, List.lookup_nil]
  split <;> simp_all

/-- What an id is looked up for once a symbol is interned. -/
theorem lookup_intern (m : Mutator) (id id' : UInt64) (sym : ObjRef) :
    (m.intern id sym).interned.lookup id' =
      if id' = id then some sym else m.interned.lookup id' := by
  rw [intern, List.lookup_cons]
  split <;> simp_all

/-- The mutator with more roots on top of its stack. -/
def pushed (m : Mutator) (above : List ObjRef) : Mutator :=
  { m with stack := m.stack ++ above.toArray }

theorem truncate_pushed (m : Mutator) (above : List ObjRef) (h : Heap) :
    ((m.pushed above).withHeap h).truncate m.stack.size = m.withHeap h := by
  simp [pushed, withHeap, truncate]

theorem pushRoots_eq (objs : List ObjRef) (m : Mutator) :
    pushRoots objs m = .ok () (m.pushed objs) := by
  induction objs generalizing m with
  | nil => simp [pushRoots, pushed]; rfl
  | cons obj objs ih =>
    show EStateM.bind (pushRoot obj) (fun _ => pushRoots objs) m = _
    rw [EStateM.bind]
    show pushRoots objs { m with stack := m.stack.push obj } = _
    rw [ih]
    simp [pushed]

/-- A root that is there is replaced. -/
theorem setRoot_of_lt {index : Nat} (obj : ObjRef) (hi : index < m.stack.size) :
    setRoot index obj m = .ok () { m with stack := m.stack.setIfInBounds index obj } := by
  rw [setRoot, get_bind_eq, if_neg (Nat.not_le.mpr hi)]
  rfl

theorem setRoot_ends (m : Mutator) (index : Nat) (obj : ObjRef) :
    Ends (setRoot index obj m)
      (fun _ m' => m' = { m with stack := m.stack.setIfInBounds index obj }) (fun _ _ => False)
      (· = .outOfBounds) := by
  by_cases hi : index < m.stack.size
  · exact Ends.of_eq (setRoot_of_lt obj hi) rfl
  · unfold setRoot
    refine Ends.get_bind ?_
    rw [if_pos (Nat.le_of_not_lt hi)]
    exact rfl

section

variable {act : HeapM α} {ok : α → Heap → Prop} {refused : HeapError → Heap → Prop}
  {faulted : Fault → Prop}

theorem onHeap_eq (act : HeapM α) (m : Mutator) :
    onHeap act m = match act m.heap with
      | .ok a h => .ok a (m.withHeap h)
      | .error e h => .error e (m.withHeap h) := by
  cases m
  rfl

/-- An operation on the heap changes nothing else. -/
theorem onHeap_ends (h : Ends (act m.heap) ok refused faulted) :
    Ends (onHeap act m) (fun a m' => ∃ h', m' = m.withHeap h' ∧ ok a h')
      (fun e m' => ∃ h', m' = m.withHeap h' ∧ refused e h') faulted := by
  rw [onHeap_eq]
  cases hr : act m.heap with
  | ok a h' =>
    rw [hr] at h
    exact ⟨h', rfl, h⟩
  | error e h' =>
    rw [hr] at h
    cases e with
    | refused e => exact ⟨h', rfl, h⟩
    | fault f => exact h

/-- What is left is what the operation leaves, without the roots that it
added. -/
theorem restoringRoots_of {act : MutatorM α} {ok : α → Mutator → Prop}
    {refused : HeapError → Mutator → Prop}
    (h : Ends (act m) (fun a m' => ok a (m'.truncate m.stack.size))
      (fun e m' => refused e (m'.truncate m.stack.size)) faulted) :
    Ends (restoringRoots act m) ok refused faulted := by
  unfold restoringRoots
  cases hr : act m with
  | ok a m' =>
    rw [hr] at h
    exact h
  | error e m' =>
    rw [hr] at h
    cases e <;> exact h

/-- An operation that only adds roots, run so that these are dropped. -/
theorem restoringRoots_ends {act : MutatorM α}
    (h : Ends (act m) (fun a m' => ∃ above h', m' = (m.pushed above).withHeap h' ∧ ok a h')
      (fun e m' => ∃ above h', m' = (m.pushed above).withHeap h' ∧ refused e h') faulted) :
    Ends (restoringRoots act m) (fun a m' => ∃ h', m' = m.withHeap h' ∧ ok a h')
      (fun e m' => ∃ h', m' = m.withHeap h' ∧ refused e h') faulted := by
  refine restoringRoots_of (h.mono (fun a m' hd => ?_) (fun e m' hd => ?_) fun _ hf => hf)
  · obtain ⟨above, h', rfl, hok⟩ := hd
    exact ⟨h', truncate_pushed m above h', hok⟩
  · obtain ⟨above, h', rfl, hrefused⟩ := hd
    exact ⟨h', truncate_pushed m above h', hrefused⟩

end

theorem mem_tracer_roots {p : ObjRef} (m : Mutator) :
    p ∈ m.tracer.roots ↔ p ∈ m.stack.toList ∨ p ∈ m.symbols := List.mem_append

theorem mem_roots_of_symbol (m : Mutator) : ∀ p ∈ m.symbols, p ∈ m.tracer.roots :=
  fun _ hp => m.mem_tracer_roots.mpr (Or.inr hp)

theorem mem_pushed_roots {p : ObjRef} {above : List ObjRef} :
    p ∈ (m.pushed above).tracer.roots ↔ p ∈ above ∨ p ∈ m.tracer.roots := by
  rw [mem_tracer_roots, mem_tracer_roots, pushed, Array.toList_append, List.mem_append]
  exact or_assoc.trans (by rw [or_left_comm])

/-! ## Collections and allocations -/

/-- What a collection does to the heap. -/
theorem collect_collected (hw : m.heap.WellFormed) (level : Generation) :
    Ends (collect level m)
      (fun r m' => ∃ h', m' = m.withHeap h' ∧ m.heap.Collected m.tracer level r h')
      (fun _ _ => False) (m.heap.StrayFault m.tracer level) := by
  unfold collect
  refine Ends.get_bind ?_
  refine Ends.bind ((onHeap_ends (Heap.collect_ends hw m.tracer level ())).mono
    (fun _ _ h => h) (fun _ _ h => h.elim fun _ h => h.2) fun _ h => h) fun r m' hd => ?_
  exact hd

/-- **A collection** returns, and serves the same roots. -/
theorem collect_ends (hs : m.heap.Serves m.tracer.roots m.symbols) (level : Generation) :
    Ends (collect level m)
      (fun _ m' => ∃ h', m' = m.withHeap h' ∧ h'.Serves m.tracer.roots m.symbols)
      (fun _ _ => False) (fun _ => False) := by
  have hi := m.mem_roots_of_symbol
  refine (collect_collected hs.wellFormed level).mono (fun _ m' hd => ?_) (fun _ _ h => h)
    (hs.no_stray ⟨rfl, rfl⟩ hi)
  obtain ⟨h', rfl, hd⟩ := hd
  exact ⟨h', rfl, hs.collected ⟨rfl, rfl⟩ hi hd⟩

/-- The mutator is as before over another heap, which holds what had to
be kept beside the roots. -/
def Retains (m : Mutator) (kept symbols : List ObjRef) (m' : Mutator) : Prop :=
  ∃ h', m' = m.withHeap h' ∧ h'.Serves (kept ++ m.tracer.roots) symbols

/-- The same with a new object of a type. -/
def Made (m : Mutator) (kept symbols : List ObjRef) (type : ModelType) (obj : ObjRef)
    (m' : Mutator) : Prop :=
  ∃ h', m' = m.withHeap h' ∧ h'.Serves (obj :: (kept ++ m.tracer.roots)) symbols ∧
    h'.IsOf type obj

theorem Retains.mono {kept' symbols' : List ObjRef} {m' : Mutator}
    (hr : m.Retains kept symbols m') (hk : ∀ p ∈ kept', p ∈ kept)
    (hs : ∀ p ∈ symbols, p ∈ symbols') : m.Retains kept' symbols' m' := by
  obtain ⟨h', rfl, hh⟩ := hr
  refine ⟨h', rfl, hh.mono (fun p hp => ?_) hs⟩
  rw [List.mem_append] at hp ⊢
  exact hp.imp_left (hk p)

theorem Made.retains {m' : Mutator} (hm : m.Made kept symbols type obj m') :
    m.Retains (obj :: kept) symbols m' := by
  obtain ⟨h', rfl, hs, _⟩ := hm
  exact ⟨h', rfl, hs⟩

theorem Made.failed {m' : Mutator} (hm : m.Made kept m.symbols type obj m') :
    m.Retains kept m.symbols m' :=
  hm.retains.mono (fun _ hp => List.mem_cons_of_mem _ hp) fun _ hp => hp

/-- The symbols, with a new object if it is one. -/
def symbolsWith (m : Mutator) (type : ModelType) (obj : ObjRef) : List ObjRef :=
  if type = .symbol then obj :: m.symbols else m.symbols

/-- What holds of a heap through collections with the roots of the
mutator, if they return. -/
structure Endures (m : Mutator) (I : Heap → Prop) : Prop where
  wellFormed : ∀ h, I h → h.WellFormed
  collected : ∀ h level report h', I h → h.Collected m.tracer level report h' → I h'
  withMetrics : ∀ h metrics, I h → I (h.withMetrics metrics)

/-- What holds of a heap through collections with the roots of the
mutator, and meets no stray reference in them. -/
structure Withstands (m : Mutator) (I : Heap → Prop) : Prop where
  wellFormed : ∀ h, I h → h.WellFormed
  no_stray : ∀ h level f, I h → ¬ h.StrayFault m.tracer level f
  collected : ∀ h level report h', I h → h.Collected m.tracer level report h' → I h'
  withMetrics : ∀ h metrics, I h → I (h.withMetrics metrics)

/-- The heap has a new object, and before that the property held. -/
def Yields (I : Heap → Prop) (type : ModelType) (length : Nat) (obj : ObjRef) (h' : Heap) : Prop :=
  ∃ h₁ h₂ metrics, I h₁ ∧ h₁.Allocated type.tag length obj h₂ ∧ h' = h₂.withMetrics metrics

/-- The property still holds, and a heap of which it held refused the
request with this error. -/
def Rejects (I : Heap → Prop) (type : ModelType) (length : Nat) (e : HeapError) (h' : Heap) :
    Prop :=
  I h' ∧ ∃ h, I h ∧ h.AllocRefused type.tag length e h

/-- A heap of which the property held met the fault, in a collection or
for its sizes. -/
def Breaks (m : Mutator) (I : Heap → Prop) (type : ModelType) (length : Nat) (f : Fault) : Prop :=
  ∃ h, I h ∧ ((∃ level, h.StrayFault m.tracer level f) ∨ h.AllocFault type.tag length f)

section

variable {I : Heap → Prop}

theorem Withstands.endures (hi : m.Withstands I) : m.Endures I :=
  ⟨hi.wellFormed, hi.collected, hi.withMetrics⟩

/-- The first try allocates in the heap as it is, the second after a
collection. -/
theorem allocRetrying_ends (hi : m.Endures I) (hm : I m.heap) (type : ModelType)
    (length : Nat) :
    Ends (allocRetrying type length m)
      (fun obj m' => ∃ h', m' = m.withHeap h' ∧ Yields I type length obj h')
      (fun e m' => ∃ h', m' = m.withHeap h' ∧ Rejects I type length e h')
      (m.Breaks I type length) := by
  unfold allocRetrying
  refine Ends.bind ((onHeap_ends (Heap.tried_ends (hi.wellFormed _ hm) type.tag length)).mono
    (fun _ _ h => h) (fun _ _ h => h.elim fun _ h => h.2.elim)
    fun f hf => ⟨_, hm, Or.inr hf⟩) fun r m' ht => ?_
  obtain ⟨h₁, rfl, ht⟩ := ht
  cases r with
  | ok obj => exact ⟨h₁, rfl, m.heap, h₁, h₁.metrics, hm, ht, rfl⟩
  | error e =>
    -- a refusal leaves the heap as it was, so the second try starts from there
    obtain rfl : h₁ = m.heap := ht.1
    cases he : e.isExhausted with
    | false =>
      simp only [he, Bool.not_false, if_true]
      exact ⟨_, rfl, hm, _, hm, ht⟩
    | true =>
      simp only [he, Bool.not_true, Bool.false_eq_true, if_false]
      refine Ends.get_bind ?_
      refine Ends.bind ((onHeap_ends (Heap.allocAgain_ends (hi.wellFormed _ hm) m.tracer type.tag
        length ())).mono (fun _ _ h => h) (fun _ _ h => h.elim fun _ h => h.2.elim)
        fun f hf => ?_) fun r m' ht => ?_
      · rcases hf with ⟨metrics, hf⟩ | hf
        · exact ⟨_, hi.withMetrics _ metrics hm, Or.inl ⟨.two, hf⟩⟩
        · exact ⟨_, hm, Or.inr hf⟩
      · obtain ⟨h₂, rfl, before, report, h₃, h₄, after, hc, ht, rfl⟩ := ht
        have hm₃ := hi.collected _ _ _ _ (hi.withMetrics _ before hm) hc
        obtain ⟨r, log⟩ := r
        cases r with
        | ok obj => exact ⟨_, rfl, h₃, h₄, after, hm₃, ht, rfl⟩
        | error e =>
          obtain rfl : h₄ = h₃ := ht.1
          exact ⟨_, rfl, hi.withMetrics _ after hm₃, _, hm₃, ht⟩

/-- **An allocation comes after collections** with what is pinned among
the roots, or is refused after these. -/
theorem alloc_goes (hi : (m.pushed kept).Endures I) (hm : I m.heap) (type : ModelType)
    (length : Nat) :
    Ends (alloc type length kept m)
      (fun obj m' => ∃ h', m' = m.withHeap h' ∧ Yields I type length obj h')
      (fun e m' => ∃ h', m' = m.withHeap h' ∧ Rejects I type length e h')
      ((m.pushed kept).Breaks I type length) := by
  have hhere : ∀ h₁ : Heap, I h₁ → Ends (allocRetrying type length ((m.pushed kept).withHeap h₁))
      (fun obj m' => ∃ above h', m' = (m.pushed above).withHeap h' ∧ Yields I type length obj h')
      (fun e m' => ∃ above h', m' = (m.pushed above).withHeap h' ∧ Rejects I type length e h')
      ((m.pushed kept).Breaks I type length) := by
    intro h₁ hm₁
    have hi₁ : ((m.pushed kept).withHeap h₁).Endures I :=
      ⟨hi.wellFormed, hi.collected, hi.withMetrics⟩
    exact (allocRetrying_ends hi₁ hm₁ type length).mono (fun _ _ hd => ⟨kept, hd⟩)
      (fun _ _ hd => ⟨kept, hd⟩) fun _ hf => hf
  unfold alloc
  refine restoringRoots_ends (Ends.bind_of_eq (pushRoots_eq kept m) (Ends.get_bind ?_))
  by_cases hauto : (m.pushed kept).autoCollect = true
  · rw [if_pos hauto]
    refine Ends.get_bind ?_
    cases hdue : (m.pushed kept).heap.dueLevel with
    | none => exact hhere m.heap hm
    | some level =>
      refine Ends.bind ((collect_collected (m := m.pushed kept) (hi.wellFormed _ hm) level).mono
        (fun _ _ h => h) (fun _ _ h => h.elim) fun f hf => ⟨_, hm, Or.inl ⟨level, hf⟩⟩)
        fun _ m' hd => ?_
      obtain ⟨h₁, rfl, hc⟩ := hd
      exact hhere h₁ (hi.collected _ _ _ _ hm hc)
  · rw [if_neg hauto]
    exact hhere m.heap hm

/-- The same, where no collection meets a stray reference. -/
theorem alloc_yields (hi : (m.pushed kept).Withstands I) (hm : I m.heap) (type : ModelType)
    (length : Nat) :
    Ends (alloc type length kept m)
      (fun obj m' => ∃ h', m' = m.withHeap h' ∧ Yields I type length obj h')
      (fun e m' => ∃ h', m' = m.withHeap h' ∧ Rejects I type length e h')
      (fun f => ∃ h, I h ∧ h.AllocFault type.tag length f) :=
  (alloc_goes hi.endures hm type length).mono (fun _ _ hd => hd) (fun _ _ hd => hd) fun f hf => by
    obtain ⟨h, hh, ⟨level, hstray⟩ | hf⟩ := hf
    · exact (hi.no_stray h level f hh hstray).elim
    · exact ⟨h, hh, hf⟩

end

/-- The heaps that serve a mutator withstand its collections. -/
theorem withstands_serves (m : Mutator) :
    m.Withstands fun h => h.Serves m.tracer.roots m.symbols where
  wellFormed _ hs := hs.wellFormed
  no_stray _ _ f hs := hs.no_stray ⟨rfl, rfl⟩ m.mem_roots_of_symbol f
  collected _ _ _ _ hs hc := hs.collected ⟨rfl, rfl⟩ m.mem_roots_of_symbol hc
  withMetrics _ metrics hs := hs.withMetrics metrics

/-- **An allocation** keeps what is pinned. -/
theorem alloc_ends (hs : m.heap.Serves m.tracer.roots m.symbols)
    (hk : ∀ p ∈ kept, m.heap.Proper p) (type : ModelType) (length : Nat) :
    Ends (alloc type length kept m)
      (fun obj => m.Made kept (m.symbolsWith type obj) type obj)
      (fun _ => m.Retains kept m.symbols) NoStray := by
  have hroots : ∀ p, p ∈ kept ++ m.tracer.roots → p ∈ (m.pushed kept).tracer.roots :=
    fun p hp => mem_pushed_roots.mpr (List.mem_append.mp hp)
  have hs' : m.heap.Serves (m.pushed kept).tracer.roots m.symbols :=
    (hs.append hk).mono (fun p hp => List.mem_append.mpr (mem_pushed_roots.mp hp)) fun _ hp => hp
  refine (alloc_yields (m.pushed kept).withstands_serves hs' type length).mono
    (fun obj m' hd => ?_) (fun _ m' hd => ?_) fun f hf => ?_
  · obtain ⟨h', rfl, h₁, h₂, metrics, hs₁, ha, rfl⟩ := hd
    refine ⟨_, rfl, ((hs₁.allocated ha).withMetrics metrics).mono (fun p hp => ?_) fun _ hp => hp,
      ha.isOf⟩
    exact (List.mem_cons.mp hp).elim (fun e => e ▸ List.mem_cons_self)
      fun hp => List.mem_cons_of_mem _ (hroots p hp)
  · obtain ⟨h', rfl, hs₁, _⟩ := hd
    exact ⟨h', rfl, hs₁.mono hroots fun _ hp => hp⟩
  · obtain ⟨h, hs₁, hf⟩ := hf
    exact hf.noStray hs₁.toEquipped

end Mutator

end SegmentedHeap
