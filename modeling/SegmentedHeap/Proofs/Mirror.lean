/-
SegmentedHeap.Proofs.Mirror — a mutator does what a graph does.

A mutator mirrors a graph if each node in reach stands for an object of
its own that shows it, and the roots are the same. Collections keep that:
what is in reach of the graph is live in the heap, since the objects show
the references that lead there. A new object is none of those that other
nodes stand for, and a store changes the one object that the node stands
for.

* `Mutator.Mirrors` — the invariant.
* `Mirrors.guards` — what is in reach is live, or nil.
* `Mirrors.saved`, `Mirrors.grown`, `Mirrors.rerooted`, `Mirrors.stored`
  — **the four ways that an operation goes**.
-/
import Mathlib.Logic.Function.Basic
import SegmentedHeap.Proofs.Graph

namespace SegmentedHeap

open Model

namespace NodeRef

variable {f g : Nat → ObjRef} {r : NodeRef} {n : Nat}

@[simp] theorem image_some : image f (some n) = f n := rfl

theorem image_congr (h : ∀ n, r = some n → g n = f n) : r.image g = r.image f := by
  cases r with
  | none => rfl
  | some n => exact h n rfl

end NodeRef

/-- What the nodes stand for once the next one stands for a result, if
there is one. -/
def Graph.learn (g : Graph) (f : Nat → ObjRef) (r : Option ObjRef) : Nat → ObjRef :=
  Function.update f g.nodes.length (r.getD .null)

theorem Graph.learn_self {g : Graph} {f : Nat → ObjRef} {p : ObjRef} :
    g.learn f (some p) g.nodes.length = p := Function.update_self ..

theorem Graph.learn_of_lt {g : Graph} {f : Nat → ObjRef} {r : Option ObjRef} {n : Nat}
    (hn : n < g.nodes.length) : g.learn f r n = f n :=
  Function.update_of_ne (Nat.ne_of_lt hn) ..

namespace Mutator

/-- The nodes in reach stand for different objects, which show them, and
the roots are those of the graph. -/
structure Mirrors (m : Mutator) (g : Graph) (f : Nat → ObjRef) : Prop where
  suited : m.heap.Suited
  nil : g.nodes[0]? = some .nil ∧ f 0 = m.nil
  stack : m.stack.toList = g.stack.map (NodeRef.image f)
  symbols : m.symbols = g.symbols.map fun s => f s.2
  interned : ∀ id, m.interned.lookup id = (g.symbols.lookup id).map f
  shows : ∀ n, g.InReach n → ∃ node v, g.nodes[n]? = some node ∧
    m.heap.view? (f n) = some v ∧ v.Shows (node.map (NodeRef.image f))
  injective : ∀ n k, g.InReach n → g.InReach k → f n = f k → n = k

variable {m m' : Mutator} {g g' : Graph} {f f' : Nat → ObjRef} {kept : List NodeRef}
  {node : Node NodeRef} {obj : ObjRef} {r : NodeRef} {n i : Nat}

namespace Mirrors

theorem lt (hm : m.Mirrors g f) (hn : g.InReach n) : n < g.nodes.length := by
  obtain ⟨node, _, hnode, _⟩ := hm.shows n hn
  exact (List.getElem?_eq_some_iff.mp hnode).1

/-- Operands have the names that they had, if the nodes have. -/
theorem image_eq (hm : m.Mirrors g f) (hf : ∀ n, n < g.nodes.length → f' n = f n)
    (hr : g.Operand r) : r.image f' = r.image f :=
  NodeRef.image_congr fun n e => hf n (hm.lt (hr n e))

theorem map_eq (hm : m.Mirrors g f) (hf : ∀ n, n < g.nodes.length → f' n = f n)
    (hr : ∀ r ∈ node.refs, g.Operand r) :
    node.map (NodeRef.image f') = node.map (NodeRef.image f) :=
  Node.map_congr fun r hmem => hm.image_eq hf (hr r hmem)

theorem operand_of_mem_refs (hn : g.InReach n) (hnode : g.nodes[n]? = some node) :
    ∀ r ∈ node.refs, g.Operand r := fun _ hr _ e => .step hn hnode (e ▸ hr)

theorem symbols_eq (hm : m.Mirrors g f) (hf : ∀ n, n < g.nodes.length → f' n = f n) :
    (g.symbols.map fun s => f' s.2) = g.symbols.map fun s => f s.2 :=
  List.map_congr_left fun s hs => hf s.2 (hm.lt (Graph.operand_of_symbol hs s.2 rfl))

theorem lookup_eq (hm : m.Mirrors g f) (hf : ∀ n, n < g.nodes.length → f' n = f n) (id : UInt64) :
    (g.symbols.lookup id).map f' = (g.symbols.lookup id).map f :=
  Option.map_congr fun n hl => hf n (hm.lt (Graph.operand_of_lookup hl n rfl))

theorem stack_eq (hm : m.Mirrors g f) (hf : ∀ n, n < g.nodes.length → f' n = f n) :
    g.stack.map (NodeRef.image f') = g.stack.map (NodeRef.image f) :=
  List.map_congr_left fun _ hr => hm.image_eq hf (Graph.operand_of_mem_stack hr)

/-- What numbers without a node stand for does not matter. -/
theorem rename (hm : m.Mirrors g f) (hf : ∀ n, n < g.nodes.length → f' n = f n) :
    m.Mirrors g f' where
  suited := hm.suited
  nil := ⟨hm.nil.1, (hf 0 (List.getElem?_eq_some_iff.mp hm.nil.1).1).trans hm.nil.2⟩
  stack := hm.stack.trans (hm.stack_eq hf).symm
  symbols := hm.symbols.trans (hm.symbols_eq hf).symm
  interned id := (hm.interned id).trans (hm.lookup_eq hf id).symm
  shows n hn := by
    obtain ⟨node, v, hnode, hv, hs⟩ := hm.shows n hn
    refine ⟨node, v, hnode, (hf n (hm.lt hn)).symm ▸ hv, ?_⟩
    rw [hm.map_eq hf (operand_of_mem_refs hn hnode)]
    exact hs
  injective n k hn hk e := by
    rw [hf n (hm.lt hn), hf k (hm.lt hk)] at e
    exact hm.injective n k hn hk e

theorem isAllocated (hm : m.Mirrors g f) (hf : m.heap.Formed) (hn : g.InReach n) :
    m.heap.isAllocated (f n) = true := by
  obtain ⟨_, v, _, hv, _⟩ := hm.shows n hn
  exact (Heap.isAllocated_iff_view? hf).mpr ⟨v, hv⟩

/-- A node does not stand for null. -/
theorem ne_null (hm : m.Mirrors g f) (hf : m.heap.Formed) (hn : g.InReach n) : f n ≠ .null := by
  obtain ⟨x, hx⟩ := hf.isAllocated_iff_lookup.mp (hm.isAllocated hf hn)
  exact hf.ne_null_of_lookup hx

theorem proper (hm : m.Mirrors g f) (hf : m.heap.Formed) (hr : g.Operand r) :
    m.heap.Proper (r.image f) := by
  cases r with
  | none => exact Or.inl rfl
  | some n => exact Or.inr (hm.isAllocated hf (hr n rfl))

theorem proper_kept (hm : m.Mirrors g f) (hf : m.heap.Formed) (hk : ∀ r ∈ kept, g.Operand r) :
    ∀ p ∈ kept.map (NodeRef.image f), m.heap.Proper p := by
  intro p hp
  obtain ⟨r, hr, rfl⟩ := List.mem_map.mp hp
  exact hm.proper hf (hk r hr)

/-! ## What is in reach is guarded -/

/-- The roots of a graph stand for roots. -/
theorem mem_roots (hm : m.Mirrors g f) (hn : some n ∈ kept ++ g.standing) :
    n = 0 ∨ f n ∈ (m.pushed (kept.map (NodeRef.image f))).tracer.roots := by
  rw [mem_pushed_roots, mem_tracer_roots, hm.stack, hm.symbols]
  rcases List.mem_append.mp hn with hn | hn
  · exact Or.inr (Or.inl (List.mem_map.mpr ⟨some n, hn, rfl⟩))
  · rcases List.mem_cons.mp hn with e | hn
    · exact Or.inl (Option.some.inj e)
    · rcases List.mem_append.mp hn with hn | hn
      · exact Or.inr (Or.inr (Or.inl (List.mem_map.mpr ⟨some n, hn, rfl⟩)))
      · obtain ⟨s, hs, e⟩ := List.mem_map.mp hn
        exact Or.inr (Or.inr (Or.inr (List.mem_map.mpr ⟨s, hs, congrArg f (Option.some.inj e)⟩)))

/-- **What the roots of a graph lead to is live**, or nil. -/
theorem guards (hm : m.Mirrors g f) (hc : m.Consistent) (hk : ∀ r ∈ kept, g.Operand r)
    (hn : Graph.Reaches g.nodes (kept ++ g.standing) n) :
    m.Guards (kept.map (NodeRef.image f)) (f n) := by
  have hf := hc.serves.formed
  have hreach : ∀ {k}, Graph.Reaches g.nodes (kept ++ g.standing) k → g.InReach k := fun hk' =>
    hk'.inReach (Graph.operand_kept hk)
  induction hn with
  | root hr =>
    rcases hm.mem_roots hr with rfl | hroot
    · exact Or.inr (hm.nil.2.trans hc.nil)
    · exact Or.inl (.root hroot (hm.isAllocated hf (hreach (.root hr))))
  | @step n k node hk' hnode hr ih =>
    obtain ⟨_, v, hnode', hv, hs⟩ := hm.shows k (hreach hk')
    rw [hnode] at hnode'
    cases hnode'
    rcases ih with hl | e
    · refine Or.inl (.step hl ?_ (hm.isAllocated hf (hreach (.step hk' hnode hr))))
      rw [Heap.refsOf, hv]
      refine List.mem_append_left _ (hs.mem_refs ?_)
      rw [Node.refs_map]
      exact List.mem_map.mpr ⟨some n, hr, rfl⟩
    · -- nil leads nowhere
      have hzero := hm.injective k 0 (hreach hk') (Graph.operand_nil 0 rfl)
        (e.trans (hm.nil.2.trans hc.nil).symm)
      rw [hzero, hm.nil.1] at hnode
      cases hnode
      cases hr

/-! ## The ways that operations go -/

/-- **Collections**: what was guarded is seen as before. -/
theorem saved (hm : m.Mirrors g f) (hc : m.Consistent) (hk : ∀ r ∈ kept, g.Operand r)
    (hs : m.Saved (kept.map (NodeRef.image f)) m') : m'.Mirrors g.forget f := by
  obtain ⟨h', rfl, _, hsaves⟩ := hs
  have hreach : ∀ n, g.forget.InReach n → Graph.Reaches g.nodes (kept ++ g.standing) n := by
    refine fun n hn => hn.within (fun n hn => .root ?_) fun k node n hk hnode hn =>
      .step hk hnode hn
    exact List.mem_append_right _ ((List.mem_cons.mp hn).resolve_left nofun)
  have hold : ∀ n, g.forget.InReach n → g.InReach n := fun n hn =>
    (hreach n hn).inReach (Graph.operand_kept hk)
  exact {
    suited := hm.suited.congr hsaves.setting
    nil := hm.nil
    stack := hm.stack
    symbols := hm.symbols
    interned := hm.interned
    shows := by
      intro n hn
      obtain ⟨node, v, hnode, hv, hshows⟩ := hm.shows n (hold n hn)
      exact ⟨node, v, hnode, (hsaves.views _ (hm.guards hc hk (hreach n hn))).trans hv, hshows⟩
    injective := fun n k hn hk => hm.injective n k (hold n hn) (hold k hk) }

/-- **A constructor**: there is one object more. -/
theorem grown (node : Node NodeRef) (hm : m.Mirrors g f) (hc : m.Consistent)
    (hk : ∀ r ∈ kept, g.Operand r)
    (hrefs : ∀ r ∈ node.refs, r ∈ kept ++ g.standing)
    (hd : m.Constructs (kept.map (NodeRef.image f)) (node.map (NodeRef.image f)) obj m') :
    m'.Mirrors (g.add node) (g.learn f (some obj)) := by
  obtain ⟨v, ⟨h', rfl, hw', hsaves, hnew, hv⟩, hshows⟩ := hd
  have hf : ∀ n, n < g.nodes.length → g.learn f (some obj) n = f n := fun n hn =>
    Graph.learn_of_lt hn
  have hreach : ∀ {n}, Graph.Reaches g.nodes (kept ++ g.standing) n → g.InReach n := fun hn =>
    hn.inReach (Graph.operand_kept hk)
  -- what is in reach afterwards is the new object, or was in reach before
  have hcases : ∀ {n}, (g.add node).InReach n →
      n = g.nodes.length ∨ Graph.Reaches g.nodes (kept ++ g.standing) n :=
    Graph.inReach_add hrefs fun k hk => hm.lt (hreach hk)
  have hname : ∀ {n}, Graph.Reaches g.nodes (kept ++ g.standing) n →
      g.learn f (some obj) n = f n := fun hn => hf _ (hm.lt (hreach hn))
  -- what was in reach is guarded, and the new object was not
  have hother : ∀ {n}, Graph.Reaches g.nodes (kept ++ g.standing) n → f n ≠ obj := by
    rintro n hn rfl
    exact hnew (hm.guards hc hk hn)
  have hzero := (List.getElem?_eq_some_iff.mp hm.nil.1).1
  exact {
    suited := hm.suited.congr hsaves.setting
    nil := ⟨(List.getElem?_append_left hzero).trans hm.nil.1, (hf 0 hzero).trans hm.nil.2⟩
    stack := hm.stack.trans (hm.stack_eq hf).symm
    symbols := hm.symbols.trans (hm.symbols_eq hf).symm
    interned := fun id => (hm.interned id).trans (hm.lookup_eq hf id).symm
    shows := by
      intro n hn
      rcases hcases hn with rfl | hn
      · refine ⟨node, v, List.getElem?_concat_length .., Graph.learn_self.symm ▸ hv, ?_⟩
        rw [hm.map_eq hf fun r hr => Graph.operand_kept hk r (hrefs r hr)]
        exact hshows
      · obtain ⟨old, u, hold, hu, hs⟩ := hm.shows n (hreach hn)
        refine ⟨old, u, (List.getElem?_append_left (hm.lt (hreach hn))).trans hold, ?_, ?_⟩
        · rw [hname hn]
          exact (hsaves.views _ (hm.guards hc hk hn)).trans hu
        · rw [hm.map_eq hf (operand_of_mem_refs (hreach hn) hold)]
          exact hs
    injective := by
      intro n k hn hk e
      rcases hcases hn with rfl | hn <;> rcases hcases hk with rfl | hk
      · rfl
      · rw [Graph.learn_self, hname hk] at e
        exact absurd e.symm (hother hk)
      · rw [Graph.learn_self, hname hn] at e
        exact absurd e (hother hn)
      · rw [hname hn, hname hk] at e
        exact hm.injective n k (hreach hn) (hreach hk) e }

/-- **Other roots**, which were in reach. -/
theorem rerooted (hm : m.Mirrors g f) (hnodes : g'.nodes = g.nodes) (hheap : m'.heap = m.heap)
    (hnil : m'.nil = m.nil) (hstack : m'.stack.toList = g'.stack.map (NodeRef.image f))
    (hsymbols : m'.symbols = g'.symbols.map fun s => f s.2)
    (hinterned : ∀ id, m'.interned.lookup id = (g'.symbols.lookup id).map f)
    (hroots : ∀ r ∈ g'.roots, g.Operand r) : m'.Mirrors g' f := by
  have hreach : ∀ n, g'.InReach n → g.InReach n := fun n hn =>
    Graph.inReach_of_roots hnodes hroots hn
  exact {
    suited := hheap ▸ hm.suited
    nil := ⟨hnodes ▸ hm.nil.1, hnil ▸ hm.nil.2⟩
    stack := hstack
    symbols := hsymbols
    interned := hinterned
    shows := by
      intro n hn
      rw [hnodes, hheap]
      exact hm.shows n (hreach n hn)
    injective := fun n k hn hk => hm.injective n k (hreach n hn) (hreach k hk) }

/-- Another root stack. -/
theorem restacked (stack : Array ObjRef) (roots : List NodeRef) (hm : m.Mirrors g f)
    (hs : stack.toList = roots.map (NodeRef.image f)) (ho : ∀ r ∈ roots, g.Operand r) :
    ({ m with stack } : Mutator).Mirrors { g with stack := roots } f :=
  hm.rerooted rfl rfl rfl hs hm.symbols hm.interned
    (Graph.operand_of_parts Graph.operand_last ho fun _ hs => Graph.operand_of_symbol hs)

/-- A new symbol is interned. -/
theorem interning {id : UInt64} (hm : m.Mirrors (g.add (.symbol id (some 0))) f)
    (hl : g.symbols.lookup id = none) :
    (m.intern id (f g.nodes.length)).Mirrors (g.intern id) f := by
  have hsymbols : m.symbols ++ [f g.nodes.length] =
      (g.symbols ++ [(id, g.nodes.length)]).map fun s => f s.2 := by
    rw [List.map_append, hm.symbols]
    rfl
  have hlookup : ∀ id', (m.intern id (f g.nodes.length)).interned.lookup id' =
      ((g.symbols ++ [(id, g.nodes.length)]).lookup id').map f := by
    intro id'
    rw [lookup_intern, hm.interned, lookup_concat]
    split
    · next e => rw [e, hl, Option.none_or, Option.map_some]
    · rw [Option.or_none]
      rfl
  refine hm.rerooted rfl rfl rfl hm.stack hsymbols hlookup (Graph.operand_of_parts
    Graph.operand_last (fun _ hr => Graph.operand_of_mem_stack hr) fun s hs => ?_)
  rcases List.mem_append.mp hs with hs | hs
  · exact Graph.operand_of_symbol hs
  · rw [List.mem_singleton.mp hs]
    exact Graph.operand_last

/-- **A store** in the object that a node stands for. -/
theorem stored {h' : Heap} {v : ObjectView} (hm : m.Mirrors g f) (hn : g.InReach n)
    (hnode : g.nodes[n]? = some node)
    (hshows : v.Shows (node.map (NodeRef.image f))) (hi : i < node.refs.length)
    (hr : g.Operand r) (hd : m.heap.Seen (f n) (v.setRef i (r.image f)) h') :
    (m.withHeap h').Mirrors (g.store n i r) f := by
  have hreach : ∀ k, (g.store n i r).InReach k → g.InReach k := fun k hk =>
    Graph.inReach_store hr hk
  exact {
    suited := hm.suited.congr hd.setting
    nil := by
      refine ⟨?_, hm.nil.2⟩
      rw [Graph.getElem?_store, hm.nil.1]
      exact congrArg some (ite_self _)
    stack := hm.stack
    symbols := hm.symbols
    interned := hm.interned
    shows := by
      intro k hk
      rw [Graph.getElem?_store]
      by_cases e : n = k
      · subst e
        refine ⟨node.withRef i r, _, by rw [hnode]; simp, hd.self, ?_⟩
        rw [Node.map_withRef]
        exact hshows.setRef (by simpa using hi) _
      · obtain ⟨old, u, hold, hu, hs⟩ := hm.shows k (hreach k hk)
        refine ⟨old, u, by rw [hold]; simp [e], (hd.others _ fun e' => e ?_).trans hu, hs⟩
        exact (hm.injective k n (hreach k hk) hn e').symm
    injective := fun n k hn hk => hm.injective n k (hreach n hn) (hreach k hk) }

end Mirrors

end Mutator

end SegmentedHeap
