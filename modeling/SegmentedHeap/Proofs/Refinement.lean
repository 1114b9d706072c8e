/-
SegmentedHeap.Proofs.Refinement — an operation does what it means.

An operation that a program may do next is done to the mutator as it is
done to the graph, and the next node stands for the object that it made.
It may be refused for want of room, whatever the graph says, or because
the graph refuses it too; then the mutator is as it was, but for what a
collection may have dropped out of reach. There is no third way.

* `Does`, `Declines` — how an operation goes.
* `Mirrors.made_ends`, `Mirrors.symbol_ends`, `Mirrors.store_ends` —
  constructors and stores.
* `Mirrors.run_ends` — **one operation**.
-/
import SegmentedHeap.Proofs.Mirror

namespace SegmentedHeap

open Model

namespace Mutator

variable {m m' : Mutator} {g g' : Graph} {f : Nat → ObjRef} {kept : List NodeRef}
  {node : Node NodeRef} {r : NodeRef} {n i : Nat} {op : Operation}

/-! ## How each operation goes -/

/-- The operation did what it does to the graph, and its reply is what the
reply of the graph stands for. -/
def Does (g : Graph) (f : Nat → ObjRef) (op : Operation) (result : Option ObjRef) (m' : Mutator) :
    Prop :=
  ∃ reply g', g.step op = some (reply, g') ∧
    result = reply.map (NodeRef.image (g.learn f result)) ∧ m'.Mirrors g' (g.learn f result)

/-- The operation was refused: it may have needed room, or the graph
refuses it too. -/
def Declines (g : Graph) (f : Nat → ObjRef) (op : Operation) (m' : Mutator) : Prop :=
  m'.Mirrors (g.refused op) f ∧ (op.allocates = true ∨ g.step op = none)

namespace Mirrors

/-- An operation without a new node, which replies with what is in reach. -/
theorem does (op : Operation) {reply : Option NodeRef} (hm : m.Mirrors g f) (hd : m'.Mirrors g' f)
    (hlength : g'.nodes.length = g.nodes.length) (hstep : g.step op = some (reply, g'))
    (hreply : ∀ r, reply = some r → g.Operand r) :
    Does g f op (reply.map (NodeRef.image f)) m' := by
  refine ⟨reply, g', hstep, ?_, hd.rename fun n hn => Graph.learn_of_lt (hlength ▸ hn)⟩
  cases reply with
  | none => rfl
  | some r =>
    exact congrArg some (hm.image_eq (fun n hn => Graph.learn_of_lt hn) (hreply r rfl)).symm

/-- The same without a reply. -/
theorem does_quietly (op : Operation) (hm : m.Mirrors g f) (hd : m'.Mirrors g' f)
    (hlength : g'.nodes.length = g.nodes.length) (hstep : g.step op = some (none, g')) :
    Does g f op none m' :=
  hm.does op hd hlength hstep fun _ e => by cases e

/-- **A constructor**, of which something has to be kept until its object
holds it. -/
theorem made_ends {act : MutatorM ObjRef} (node : Node NodeRef) (hm : m.Mirrors g f)
    (hc : m.Consistent) (hk : ∀ r ∈ kept, g.Operand r)
    (hrefs : ∀ r ∈ node.refs, r ∈ kept ++ g.standing)
    (halloc : op.allocates = true)
    (hstep : g.step op = some (some (some g.nodes.length), g.add node))
    (hact : Ends (act m)
      (m.Constructs (kept.map (NodeRef.image f)) (node.map (NodeRef.image f)))
      (m.Short (kept.map (NodeRef.image f))) fun _ => False) :
    Ends ((do return some (← act)) m) (Does g f op) (fun _ => Declines g f op)
      fun _ => False := by
  refine Ends.bind (hact.mono (fun _ _ h => h) (fun _ m' hs => ⟨?_, Or.inl halloc⟩)
    fun _ h => h) fun obj m' hd => ?_
  · rw [Graph.refused, if_pos halloc]
    exact hm.saved hc hk hs.2
  · exact ⟨_, _, hstep, congrArg some Graph.learn_self.symm, hm.grown node hc hk hrefs hd⟩

/-- **A store in a field** of a node. -/
theorem store_ends (hm : m.Mirrors g f) (hc : m.Consistent) (hn : g.InReach n)
    (hnode : g.nodes[n]? = some node) (hi : i < node.refs.length) (hr : g.Operand r) :
    Ends (onHeap (Heap.writeRef (f n) i (r.image f)) m)
      (fun _ m' => m'.Mirrors (g.store n i r) f) (fun _ _ => False) (fun _ => False) := by
  obtain ⟨_, v, hnode', hv, hs⟩ := hm.shows n hn
  rw [hnode] at hnode'
  cases hnode'
  have hroom := hs.room (i := i) (by simpa using hi)
  refine (onHeap_ends (Heap.writeRef_seen hc.serves.wellFormed hv hroom
    (hm.proper hc.serves.formed hr))).mono (fun _ m' hd => ?_)
    (fun _ _ hd => hd.elim fun _ hd => hd.2) fun _ h => h
  obtain ⟨h', rfl, hd⟩ := hd
  exact hm.stored hn hnode hs hi hr hd

theorem length_store : (g.store n i r).nodes.length = g.nodes.length := List.length_modify ..

theorem set_ends {type : ModelType} (hm : m.Mirrors g f) (hc : m.Consistent)
    (ht : g.Target type n) (hi : ∀ node : Node NodeRef, node.type = type → i < node.refs.length)
    (hr : g.Operand r) (hstep : g.step op = some (none, g.store n i r)) :
    Ends ((do onHeap (Heap.writeRef (f n) i (r.image f)); return none) m) (Does g f op)
      (fun _ => Declines g f op) fun _ => False := by
  obtain ⟨hn, node, hnode, htype⟩ := ht
  exact Ends.bind (hm.store_ends hc hn hnode (hi node htype) hr).widen fun _ m' hd =>
    hm.does_quietly _ hd length_store hstep

theorem vectorSet_ends (hm : m.Mirrors g f) (hc : m.Consistent) (ht : g.Target .vector n)
    (hr : g.Operand r) (index : Nat) :
    Ends ((do Mutator.vectorSet (f n) index (r.image f); return none) m)
      (Does g f (.vectorSet n index r)) (fun _ => Declines g f (.vectorSet n index r))
      fun _ => False := by
  obtain ⟨hn, node, hnode, htype⟩ := ht
  cases node with
  | vector elements =>
    obtain ⟨_, v, hnode', hv, hs⟩ := hm.shows n hn
    rw [hnode] at hnode'
    cases hnode'
    have hlen : m.vectorLength (f n) = .ok elements.length := by
      have h := (agrees_of_shows hc.serves.formed hv hs).answers.1
      rw [List.length_map] at h
      exact h
    have hstep : g.step (.vectorSet n index r) =
        if index < elements.length then some (none, g.store n index r) else none := by
      rw [Graph.step, hnode]
    refine Ends.bind (?_ : Ends _ (fun _ => Does g f (.vectorSet n index r) none)
      (fun _ => Declines g f (.vectorSet n index r)) fun _ => False) fun _ _ hd => hd
    rw [vectorSet_eq hlen]
    by_cases hi : index < elements.length
    · rw [if_neg (Nat.not_le.mpr hi)]
      rw [if_pos hi] at hstep
      exact ((hm.store_ends hc hn hnode hi hr).imp fun _ m' hd =>
        hm.does_quietly _ hd length_store hstep).widen
    · rw [if_pos (Nat.le_of_not_lt hi)]
      rw [if_neg hi] at hstep
      exact ⟨hm, Or.inr hstep⟩
  | nil => cases htype
  | symbol id value => cases htype
  | intVec values => cases htype
  | pair car cdr => cases htype
  | cell value n => cases htype

theorem symbol_ends (hm : m.Mirrors g f) (hc : m.Consistent) (id : UInt64) :
    Ends ((do return some (← Mutator.symbol id)) m) (Does g f (.symbol id))
      (fun _ => Declines g f (.symbol id)) fun _ => False := by
  refine Ends.bind ((symbol_shows ⟨hc, hm.suited⟩ id).mono (fun _ _ h => h)
    (fun _ m' hd => ⟨?_, Or.inl rfl⟩) fun _ h => h) fun sym m' hd => ?_
  · exact hm.saved hc Graph.operands_nil hd.2.2
  · rw [hm.interned] at hd
    cases hl : g.symbols.lookup id with
    | some n =>
      have hstep : g.step (.symbol id) = some (some (some n), g) := by rw [Graph.step, hl]
      rw [hl] at hd
      obtain ⟨rfl, e⟩ := hd.resolve_right fun hd => nomatch hd.1
      rw [← Option.some.inj e]
      refine hm.does _ hm rfl hstep fun r e => ?_
      exact Option.some.inj e ▸ Graph.operand_of_lookup hl
    | none =>
      have hstep : g.step (.symbol id) = some (some (some g.nodes.length), g.intern id) := by
        rw [Graph.step, hl]
      rw [hl] at hd
      obtain ⟨_, m'', hmade, rfl⟩ := hd.resolve_left fun hd => nomatch hd.2
      rw [← hm.nil.2] at hmade
      have hgrown := (hm.grown (.symbol id (some 0)) hc Graph.operands_nil
        (fun r hr => List.mem_singleton.mp hr ▸ List.mem_cons_self) hmade).interning hl
      rw [Graph.learn_self] at hgrown
      exact ⟨_, _, hstep, congrArg some Graph.learn_self.symm, hgrown⟩

/-- **One operation** does to the mutator what it does to the graph, or is
refused. -/
theorem run_ends (hm : m.Mirrors g f) (hc : m.Consistent) (hl : g.Legal op) :
    Ends (op.run f m) (Does g f op) (fun _ => Declines g f op) fun _ => False := by
  have hready : m.Ready := ⟨hc, hm.suited⟩
  have hf := hc.serves.formed
  cases op with
  | symbol id => exact hm.symbol_ends hc id
  | intVec values =>
    exact hm.made_ends (.intVec values) hc Graph.operands_nil (List.forall_mem_nil _) rfl rfl
      (intVec_shows hready values)
  | pair car cdr =>
    have hl : g.Operand car ∧ g.Operand cdr := hl
    have hk : ∀ r ∈ [car, cdr], g.Operand r := by simpa using hl
    exact hm.made_ends (.pair car cdr) hc hk (fun r hr => List.mem_append_left _ hr) rfl rfl
      (pair_shows hready (hm.proper_kept hf hk))
  | cell value n =>
    have hl : g.Operand value := hl
    have hk : ∀ r ∈ [value], g.Operand r := by simpa using hl
    exact hm.made_ends (.cell value n) hc hk (fun r hr => List.mem_append_left _ hr) rfl rfl
      (cell_shows hready (hm.proper_kept hf hk) n)
  | vector length =>
    have hnils : (Node.vector (List.replicate length (some 0))).map (NodeRef.image f) =
        .vector (List.replicate length m.nil) := by
      rw [Node.map, List.map_replicate, NodeRef.image_some, hm.nil.2]
    refine hm.made_ends _ hc Graph.operands_nil (fun r hr => ?_) rfl rfl
      (hnils ▸ vector_shows hready length)
    exact List.eq_of_mem_replicate hr ▸ List.mem_cons_self
  -- every node of the type that the target has to be of has the field
  | setCar n value =>
    exact hm.set_ends hc hl.1 (fun node h => by simp [node.length_refs, h]) hl.2 rfl
  | setCdr n value =>
    exact hm.set_ends hc hl.1 (fun node h => by simp [node.length_refs, h]) hl.2 rfl
  | setCellValue n value =>
    exact hm.set_ends hc hl.1 (fun node h => by simp [node.length_refs, h]) hl.2 rfl
  | setSymbolValue n value =>
    exact hm.set_ends hc hl.1 (fun node h => by simp [node.length_refs, h]) hl.2 rfl
  | vectorSet n index value => exact hm.vectorSet_ends hc hl.1 hl.2 index
  | pushRoot r =>
    refine hm.does_quietly (.pushRoot r) (hm.restacked _ (g.stack ++ [r]) ?_ fun q hq => ?_) rfl rfl
    · rw [Array.toList_push, hm.stack, List.map_append]
      rfl
    · rcases List.mem_append.mp hq with hq | hq
      · exact Graph.operand_of_mem_stack hq
      · exact List.mem_singleton.mp hq ▸ hl
  | popRoot =>
    have hreply : m.stack.back? = g.stack.getLast?.map (NodeRef.image f) := by
      rw [← Array.getLast?_toList, hm.stack, List.getLast?_map]
    have hpop : ({ m with stack := m.stack.pop } : Mutator).Mirrors
        { g with stack := g.stack.dropLast } f := by
      refine hm.restacked _ _ ?_ fun q hq => Graph.operand_of_mem_stack (List.dropLast_subset _ hq)
      rw [Array.toList_pop, hm.stack, List.map_dropLast]
    have hd := hm.does .popRoot hpop rfl rfl fun r hr =>
      Graph.operand_of_mem_stack (List.mem_of_getLast? hr)
    rw [← hreply] at hd
    exact hd
  | setRoot index r =>
    have hindex : index < m.stack.size := by
      rw [← Array.length_toList, hm.stack, List.length_map]
      exact hl.1
    have hd := hm.does_quietly (.setRoot index r)
      (hm.restacked (m.stack.setIfInBounds index (r.image f)) (g.stack.set index r) ?_
        fun q hq => ?_) rfl rfl
    · exact Ends.bind_of_eq (setRoot_of_lt _ hindex) hd
    · rw [Array.toList_setIfInBounds, hm.stack, List.map_set]
    · rcases List.mem_or_eq_of_mem_set hq with hq | rfl
      · exact Graph.operand_of_mem_stack hq
      · exact hl.2
  | truncateRoots depth =>
    refine hm.does_quietly (.truncateRoots depth) (hm.restacked _ (g.stack.take depth) ?_
      fun q hq => Graph.operand_of_mem_stack (List.mem_of_mem_take hq)) rfl rfl
    rw [Array.toList_shrink, hm.stack, List.map_take]
  | setAutoCollect autoCollect =>
    exact hm.does_quietly (.setAutoCollect autoCollect) (hm.rerooted rfl rfl rfl hm.stack hm.symbols
      hm.interned fun _ hr => Graph.operand_of_mem_roots hr) rfl rfl
  | collect level =>
    refine Ends.bind (collect_saves hc.serves level).widen fun _ m' hd => ?_
    exact hm.does_quietly (.collect level) (hm.saved hc Graph.operands_nil hd) rfl rfl

end Mirrors

end Mutator

end SegmentedHeap
