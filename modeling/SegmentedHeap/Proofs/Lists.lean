/-
SegmentedHeap.Proofs.Lists — a list that is built holds its items.

A list is made from its end, with one allocation for each item, and any
of these may come with collections. The items are roots from the start,
and the pairs so far are reached from the one that the next pair is given,
so that all of them are guarded each time: what was built is seen as
before, and one more pair is in front of it. That pair is a new one, so it
is not nil. A row of pairs that ends in nil repeats none, since otherwise
it would go round for ever; so it is no longer than there are slots, and a
walk along it comes to its end.

* `Heap.Chain` — pairs that spell a list.
* `Chain.nodup`, `Chain.listItems` — **what a walk finds**.
* `Strung.rootedPair` — **one more pair**.
* `list_shows` — the list that is built.
* `list_invertible` — **building and walking are inverse**.
-/
import SegmentedHeap.Proofs.MutatorHeap
import SegmentedHeap.Proofs.RootStacks

namespace SegmentedHeap

open Model

namespace Heap

/-- A row of pairs from `list` to nil, and the items in their first
halves. -/
inductive Chain (h : Heap) (nil : ObjRef) :
    (list : ObjRef) → (items pairs : List ObjRef) → Prop where
  | nil : Chain h nil nil [] []
  | pair {p rest item : ObjRef} {items pairs : List ObjRef} {v : ObjectView} : p ≠ nil →
      h.view? p = some v → v.Shows (.pair item rest) → Chain h nil rest items pairs →
      Chain h nil p (item :: items) (p :: pairs)

section Chain

variable {h h' : Heap} {nil p q : ObjRef} {items pairs : List ObjRef}

/-! ## Walking along a list -/

/-- There is one row of pairs from each. -/
theorem Chain.unique {items' pairs' : List ObjRef} (hc : h.Chain nil p items pairs)
    (hc' : h.Chain nil p items' pairs') : items' = items ∧ pairs' = pairs := by
  induction hc generalizing items' pairs' with
  | nil =>
    cases hc' with
    | nil => exact ⟨rfl, rfl⟩
    | pair hne => exact absurd rfl hne
  | pair hne hv hs _ ih =>
    cases hc' with
    | nil => exact absurd rfl hne
    | pair _ hv' hs' hrest =>
      cases hv.symm.trans hv'
      obtain rfl := Option.some.inj ((hs'.refs 0 _ rfl).symm.trans (hs.refs 0 _ rfl))
      obtain rfl := Option.some.inj ((hs'.refs 1 _ rfl).symm.trans (hs.refs 1 _ rfl))
      obtain ⟨rfl, rfl⟩ := ih hrest
      exact ⟨rfl, rfl⟩

/-- From a pair on, the rest of the row is not longer. -/
theorem Chain.of_mem (hc : h.Chain nil p items pairs) (hq : q ∈ pairs) :
    ∃ items' pairs', h.Chain nil q items' pairs' ∧ pairs'.length ≤ pairs.length := by
  induction hc with
  | nil => cases hq
  | pair hne hv hs hrest ih =>
    rcases List.mem_cons.mp hq with rfl | hq
    · exact ⟨_, _, .pair hne hv hs hrest, Nat.le_refl _⟩
    · obtain ⟨items', pairs', hc, hle⟩ := ih hq
      exact ⟨items', pairs', hc, Nat.le_succ_of_le hle⟩

/-- **No pair comes twice.** The rest of the row would be the whole row. -/
theorem Chain.nodup (hc : h.Chain nil p items pairs) : pairs.Nodup := by
  induction hc with
  | nil => exact List.nodup_nil
  | pair hne hv hs hrest ih =>
    refine List.nodup_cons.mpr ⟨fun hmem => ?_, ih⟩
    obtain ⟨_, pairs', hagain, hle⟩ := hrest.of_mem hmem
    rw [((Chain.pair hne hv hs hrest).unique hagain).2, List.length_cons] at hle
    omega

theorem Chain.exists_view (hc : h.Chain nil p items pairs) (hq : q ∈ pairs) :
    ∃ v, h.view? q = some v := by
  induction hc with
  | nil => cases hq
  | pair _ hv _ _ ih =>
    rcases List.mem_cons.mp hq with rfl | hq
    · exact ⟨_, hv⟩
    · exact ih hq

theorem Chain.eq_nil_iff (hc : h.Chain nil p items pairs) : p = nil ↔ items = [] := by
  cases hc with
  | nil => exact ⟨fun _ => rfl, fun _ => rfl⟩
  | pair hne => exact ⟨fun e => absurd e hne, nofun⟩

/-- The row is there as long as its pairs are seen as they are. -/
theorem Chain.congr (hc : h.Chain nil p items pairs)
    (hv : ∀ q ∈ pairs, h'.view? q = h.view? q) : h'.Chain nil p items pairs := by
  induction hc with
  | nil => exact .nil
  | pair hne hv' hs _ ih =>
    exact .pair hne ((hv _ List.mem_cons_self).trans hv') hs
      (ih fun q hq => hv q (List.mem_cons_of_mem _ hq))

/-- The pairs are reached from the first one. -/
theorem Chain.live {m : Mutator} (hf : h.Formed) (hc : h.Chain nil p items pairs)
    (hp : h.isAllocated p = true → h.Live m.tracer p) : ∀ q ∈ pairs, h.Live m.tracer q := by
  induction hc with
  | nil => exact List.forall_mem_nil _
  | pair _ hv hs _ ih =>
    have hlive := hp ((isAllocated_iff_view? hf).mpr ⟨_, hv⟩)
    refine List.forall_mem_cons.mpr ⟨hlive, ih fun ha => .step hlive ?_ ha⟩
    rw [refsOf, hv]
    exact List.mem_append_left _ (hs.mem_refs (by simp [Node.refs]))

end Chain

end Heap

namespace Mutator

variable {m m' : Mutator} {p list item rest : ObjRef} {items last pairs : List ObjRef}

theorem listItemsFrom_of_chain (hc : m.heap.Chain m.nil p items pairs) {steps : Nat}
    (hs : pairs.length < steps) : m.listItemsFrom steps p = .ok items := by
  induction hc generalizing steps with
  | nil =>
    obtain ⟨steps, rfl⟩ := Nat.exists_eq_succ_of_ne_zero (Nat.ne_of_gt hs)
    simp [listItemsFrom, pure, Except.pure]
  | @pair p rest item items pairs v hne hv hshows _ ih =>
    obtain ⟨steps, rfl⟩ := Nat.exists_eq_succ_of_ne_zero (Nat.ne_of_gt (Nat.zero_lt_of_lt hs))
    have hcar : m.car p = .ok item := Heap.readRef_of_view? hv (hshows.refs 0 item rfl)
    have hcdr : m.cdr p = .ok rest := Heap.readRef_of_view? hv (hshows.refs 1 rest rfl)
    have hrest : m.listItemsFrom steps rest = .ok items := ih (Nat.lt_of_succ_lt_succ hs)
    simp [listItemsFrom, hne, hcar, hcdr, hrest, Except.mapError, bind, Except.bind, pure,
      Except.pure]

/-- **A walk along a list** comes to its end, and finds the items. -/
theorem listItems_of_chain (hf : m.heap.Formed) (hc : m.heap.Chain m.nil p items pairs) :
    m.listItems p = .ok items := by
  refine listItemsFrom_of_chain hc (Nat.lt_succ_of_le (Heap.length_le_slotCount hc.nodup ?_))
  intro q hq
  exact hf.isAllocated_iff_lookup.mp ((Heap.isAllocated_iff_view? hf).mpr (hc.exists_view hq))

/-! ## Building a list -/

/-- With more roots, more is guarded. -/
theorem guarded_mono {h : Heap} (hroots : ∀ p ∈ m.tracer.roots, p ∈ m'.tracer.roots)
    (hp : h.Guarded m.tracer p) : h.Guarded m'.tracer p := by
  refine hp.imp_left fun hl => ?_
  clear hp
  induction hl with
  | root hr ha => exact .root (hroots _ hr) ha
  | step _ hr ha ih => exact .step ih hr ha

/-- How far a list is built: its pairs spell the last items, and what
was guarded at first is seen as before. -/
structure Strung (m : Mutator) (items last : List ObjRef) (list : ObjRef) (m' : Mutator) :
    Prop where
  built : m.Built items list m'
  saves : m.heap.Saves (m.Guards items) m'.heap
  chain : ∃ pairs, m'.heap.Chain m.nil list last pairs

/-- What is left of the heap if a request on the way is refused. -/
def Unstrung (m : Mutator) (items : List ObjRef) (e : HeapError) (h' : Heap) : Prop :=
  e.OfSize ∧ h'.WellFormed ∧ m.heap.Saves (m.Guards items) h'

theorem strung_nil (hr : m.Ready) (hk : ∀ p ∈ items, m.heap.Proper p) :
    m.Strung items [] m.nil (m.pushed items) :=
  ⟨built_nil hr.serves hr.nil hk, .refl _ _, [], .nil⟩

/-- A mutator on the way to a list is as ready as before. -/
theorem Strung.ready (hs : m.Strung items last list m') (hr : m.Ready) : m'.Ready := by
  have hserves := hs.built.serves
  have hsuited := hr.suited.congr hs.saves.setting
  obtain ⟨above, h', rfl, _⟩ := hs.built
  exact ⟨⟨hr.nil, hserves, hr.named, hr.tabled⟩, hsuited⟩

/-- What was guarded at first is guarded by the next pair. -/
theorem Strung.guards (hs : m.Strung items last rest m') (hr : m.Ready)
    (hp : m.Guards items p) (kept : List ObjRef) : m'.Guards kept p := by
  have hguarded := hs.saves.guarded hr.serves.formed hs.built.serves.formed hp
  obtain ⟨above, h', rfl, _⟩ := hs.built
  refine guarded_mono (fun q hq => ?_) hguarded
  exact mem_pushed_roots.mpr (Or.inr (mem_pushed_append (List.mem_append.mpr
    (mem_pushed_roots.mp hq))))

/-- **One more pair** in front of those that are there. -/
theorem Strung.rootedPair (hs : m.Strung items last rest m') (hr : m.Ready) (hi : item ∈ items) :
    Ends (Mutator.rootedPair item rest m') (m.Strung items (item :: last))
      (fun e m'' => ∃ above h', m'' = (m.pushed above).withHeap h' ∧ m.Unstrung items e h')
      (fun _ => False) := by
  have hf' := hs.built.serves.formed
  have hfirst : ∀ {h'' : Heap}, m'.heap.Saves (m'.Guards [item, rest]) h'' →
      m.heap.Saves (m.Guards items) h'' := fun hsaves =>
    hs.saves.trans hsaves fun p hp => hs.guards hr hp _
  have hseen : Ends (Mutator.rootedPair item rest m')
      (fun obj m'' => m.heap.Saves (m.Guards items) m''.heap ∧
        ∃ pairs, m''.heap.Chain m.nil obj (item :: last) pairs)
      (fun e m'' => ∃ above h', m'' = (m.pushed above).withHeap h' ∧ m.Unstrung items e h')
      (fun _ => False) := by
    refine Ends.bind ((pair_shows (hs.ready hr) (hs.built.proper hi)).mono (fun _ _ hd => hd)
      (fun e m'' hd => ?_) fun _ hf => hf) fun obj m'' hd => ?_
    · obtain ⟨he, h'', rfl, hw, hsaves⟩ := hd
      obtain ⟨above, h', rfl, _⟩ := hs.built
      exact ⟨_, h'', rfl, he, hw, hfirst hsaves⟩
    · obtain ⟨v, ⟨h'', rfl, _, hsaves, hnew, hv⟩, hshows⟩ := hd
      obtain ⟨pairs, hchain⟩ := hs.chain
      refine ⟨hfirst hsaves, obj :: pairs, .pair (fun e => hnew (Or.inr (e.trans hr.nil))) hv
        hshows (hchain.congr fun q hq => hsaves.views q (Or.inl ?_))⟩
      refine hchain.live (m := m'.pushed [item, rest]) hf' (fun ha => ?_) q hq
      exact .root (mem_pushed_roots.mpr (Or.inl (by simp))) ha
  exact ((hs.built.rootedPair hi).and hseen).mono (fun _ _ hd => ⟨hd.1, hd.2.1, hd.2.2⟩)
    (fun _ _ hd => hd.2) fun _ hf => hf.2

/-- **A list that is built** spells its items, and what was guarded is seen
as before; so it is if the list is refused. -/
theorem list_shows (hr : m.Ready) (hk : ∀ p ∈ items, m.heap.Proper p) :
    Ends (Mutator.list items m)
      (fun list m' => m.Saved items m' ∧ ∃ pairs, m'.heap.Chain m.nil list items pairs)
      (m.Short items) (fun _ => False) := by
  -- Induction on the items from the back, as the list is strung. The items are all
  -- on the stack by then, so that a collection spares them and the pairs made so far.
  have hstrung : ∀ last : List ObjRef, (∀ p ∈ last, p ∈ items) →
      Ends ((last.foldrM Mutator.rootedPair m.nil : MutatorM ObjRef) (m.pushed items))
        (m.Strung items last)
        (fun e m'' => ∃ above h', m'' = (m.pushed above).withHeap h' ∧ m.Unstrung items e h')
        (fun _ => False) := by
    intro last
    induction last with
    | nil => exact fun _ => strung_nil hr hk
    | cons item last ih =>
      intro hl
      rw [List.foldrM_cons]
      refine Ends.bind (ih fun p hp => hl p (List.mem_cons_of_mem _ hp)) fun rest m₁ hs => ?_
      exact hs.rootedPair hr (hl item List.mem_cons_self)
  have hends : Ends (Mutator.list items m)
      (fun list m' => ∃ h', m' = m.withHeap h' ∧ h'.WellFormed ∧ m.heap.Saves (m.Guards items) h' ∧
        ∃ pairs, h'.Chain m.nil list items pairs)
      (fun e m' => ∃ h', m' = m.withHeap h' ∧ m.Unstrung items e h') (fun _ => False) := by
    unfold Mutator.list
    refine restoringRoots_ends (Ends.bind_of_eq (pushRoots_eq items m) (Ends.get_bind ?_))
    refine (hstrung items fun _ hp => hp).imp fun list m' hs => ?_
    have hw := hs.built.serves.wellFormed
    obtain ⟨⟨above, h', rfl, _⟩, hsaves, hchain⟩ := hs
    exact ⟨_, h', rfl, hw, hsaves, hchain⟩
  refine hends.mono (fun list m' hd => ?_) (fun e m' hd => ?_) fun _ hf => hf
  · obtain ⟨h', rfl, hw, hsaves, hchain⟩ := hd
    exact ⟨⟨h', rfl, hw, hsaves⟩, hchain⟩
  · obtain ⟨h', rfl, he, hw, hsaves⟩ := hd
    exact ⟨he, h', rfl, hw, hsaves⟩

/-! ## Building and walking -/

/-- What making a list of the items leaves, whether it succeeds or not. -/
structure Spares (m : Mutator) (items : List ObjRef) (m' : Mutator) : Prop where
  stack : m'.stack = m.stack
  isAllocated : ∀ p ∈ items, p ≠ .null → m'.heap.isAllocated p = true
  /-- The items, and what they and the roots lead to, are seen as before. -/
  seen : ∀ p, m.Guards items p → m'.heap.view? p = m.heap.view? p

theorem Saved.spares (hs : m.Saved items m') (hf : m.heap.Formed)
    (hk : ∀ p ∈ items, m.heap.Proper p) : m.Spares items m' := by
  obtain ⟨h', rfl, hw, hsaves⟩ := hs
  refine ⟨rfl, fun p hp hne => ?_, hsaves.views⟩
  exact hsaves.isAllocated hf hw.toFormed (guards_kept hk p hp hne) ((hk p hp).resolve_left hne)

/-- **A list is built and walked along without loss.** Whatever collections
come in between, the items stay allocated, and a walk along the list comes
to its end and finds them in order; the list is nil exactly if it is empty.
A refused list leaves the items alone as well. Neither this nor any other
constructor leaves another root stack than it found. -/
theorem list_invertible (hr : m.Reached) (hk : ∀ p ∈ items, m.heap.Proper p) :
    Ends (Mutator.list items m)
      (fun list m' => m.Spares items m' ∧ m'.listItems list = .ok items ∧
        (list = m'.nil ↔ items = []))
      (fun e m' => e.OfSize ∧ m.Spares items m') (fun _ => False) ∧
    ∀ (c : Command) (m₀ : Mutator), c.constructs = true → (after c.run m₀).stack = m₀.stack := by
  have hready := hr.ready
  have hf := hready.serves.formed
  refine ⟨(list_shows hready hk).mono (fun list m' hd => ?_) (fun e m' hd => ?_) fun _ hf => hf,
    fun c m₀ hc => (still_construct hc m₀).symm⟩
  · obtain ⟨hsaved, pairs, hchain⟩ := hd
    have hspares := hsaved.spares hf hk
    obtain ⟨h', rfl, hw, _⟩ := hsaved
    exact ⟨hspares, listItems_of_chain (m := m.withHeap h') hw.toFormed hchain, hchain.eq_nil_iff⟩
  · exact ⟨hd.1, hd.2.spares hf hk⟩

/-- A mutator that collects before each allocation. -/
def busyMutator : Mutator :=
  (create { Heap.smallConfig with policy := ⟨1, 2, 2⟩ } .standard).toOption.get
    (by decide +kernel)

theorem reached_busyMutator : busyMutator.Reached :=
  have hc : create { Heap.smallConfig with policy := ⟨1, 2, 2⟩ } .standard = .ok busyMutator :=
    eq_ok_of_toOption (Option.some_get _).symm
  .create hc

/-- A pair that no root leads to is an item twice, between nil, null and a
symbol. Collections at all levels come in between, and take it to
generation two. -/
theorem list_invertible_unrooted : ∃ (m m' : Mutator) (pair sym list : ObjRef),
    m.Reached ∧ (m.tracer.roots, m.heap.generationOf pair) = ([sym], .ok .zero) ∧
      Mutator.list [⟨0⟩, pair, .null, pair, sym] m = .ok list m' ∧
      (m'.heap.metrics.collections, m'.heap.generationOf pair) = (⟨4, 2, 1⟩, .ok .two) ∧
      m'.listItems list = .ok [⟨0⟩, pair, .null, pair, sym] := by
  have hbefore : (perform [.symbol 3, .pair ⟨0⟩ ⟨0⟩] busyMutator).map (fun m =>
      ((m.tracer.roots, m.heap.generationOf ⟨128⟩),
        [(⟨0⟩ : ObjRef), ⟨128⟩, ⟨64⟩].all fun p => m.heap.isAllocated p)) =
      some (([⟨64⟩], .ok .zero), true) := by
    decide +kernel
  have hafter : (perform [.symbol 3, .pair ⟨0⟩ ⟨0⟩] busyMutator).map (fun m =>
      let build := Mutator.list [⟨0⟩, ⟨128⟩, .null, ⟨128⟩, ⟨64⟩]
      let h' := (after build m).heap
      (returned build m, (h'.metrics.collections, h'.generationOf ⟨128⟩))) =
      some (some ⟨133⟩, (⟨4, 2, 1⟩, .ok .two)) := by
    decide +kernel
  obtain ⟨m, hm, hfacts⟩ := Option.map_eq_some_iff.mp hbefore
  rw [hm, Option.map_some, Option.some_inj] at hafter
  rw [Prod.mk.injEq] at hfacts hafter
  have hr : m.Reached := reached_busyMutator.perform hm
  have hallocated := List.all_eq_true.mp hfacts.2
  have hproper : ∀ p ∈ [(⟨0⟩ : ObjRef), ⟨128⟩, .null, ⟨128⟩, ⟨64⟩], m.heap.Proper p := by
    intro p hp
    by_cases hnull : p = .null
    · exact Or.inl hnull
    · refine Or.inr (hallocated p ?_)
      simp only [List.mem_cons, List.not_mem_nil, or_false] at hp ⊢
      tauto
  have hrun := eq_ok_of_returned hafter.1
  have hends := (list_invertible hr hproper).1.of_ok hrun
  exact ⟨m, _, ⟨128⟩, ⟨64⟩, ⟨133⟩, hr, hfacts.1, hrun, hafter.2, hends.2.1⟩

end Mutator

end SegmentedHeap
