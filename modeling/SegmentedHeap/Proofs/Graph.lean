/-
SegmentedHeap.Proofs.Graph — the object model without a heap.

A graph is a store of nodes that are numbered as they are made, with the
roots of a program: nothing is ever freed, there is always room, and a
node is changed in one field at a time. It says what the operations of a
mutator mean. A program that keeps to what it can reach, and roots a
result before it allocates or collects again, cannot tell a mutator from
a graph but by the allocations that are refused.

* `Graph` — nodes, roots, and the last result.
* `Operation`, `Graph.step` — what an operation does to a graph.
* `Graph.InReach`, `Graph.Legal` — what a program may do next.
* `Operation.run` — the same operation on a mutator.
-/
import SegmentedHeap.Proofs.Nodes

namespace SegmentedHeap

open Model

/-- Null, or the number of a node. -/
abbrev NodeRef := Option Nat

/-- The object that a reference stands for, if each node stands for one. -/
def NodeRef.image (f : Nat → ObjRef) (r : NodeRef) : ObjRef := r.elim .null f

structure Graph where
  nodes : List (Node NodeRef)
  /-- The root stack, its top last. -/
  stack : List NodeRef := []
  /-- The symbols by their ids, in order of creation. -/
  symbols : List (UInt64 × Nat) := []
  /-- The last result, as long as nothing was allocated or collected since. -/
  last : NodeRef := none

/-- What a program can do, with objects named by their nodes. -/
inductive Operation where
  | symbol (id : UInt64)
  | intVec (values : List Int64)
  | pair (car cdr : NodeRef)
  | cell (value : NodeRef) (n : Int64)
  | vector (length : Nat)
  | setCar (pair : Nat) (value : NodeRef)
  | setCdr (pair : Nat) (value : NodeRef)
  | setCellValue (cell : Nat) (value : NodeRef)
  | setSymbolValue (symbol : Nat) (value : NodeRef)
  | vectorSet (vector : Nat) (index : Nat) (value : NodeRef)
  | pushRoot (r : NodeRef)
  | popRoot
  | setRoot (index : Nat) (r : NodeRef)
  | truncateRoots (depth : Nat)
  | setAutoCollect (autoCollect : Bool)
  | collect (level : Generation)

/-- Whether an operation may need room. -/
def Operation.allocates : Operation → Bool
  | .symbol _ | .intVec _ | .pair _ _ | .cell _ _ | .vector _ => true
  | .setCar _ _ | .setCdr _ _ | .setCellValue _ _ | .setSymbolValue _ _ | .vectorSet _ _ _
  | .pushRoot _ | .popRoot | .setRoot _ _ | .truncateRoots _ | .setAutoCollect _
  | .collect _ => false

namespace Graph

/-- Nil, the node of number zero, and nothing else. -/
def start : Graph where
  nodes := [.nil]

/-- The graph with a new node, which is the last result. -/
def add (g : Graph) (node : Node NodeRef) : Graph :=
  { g with nodes := g.nodes ++ [node], last := some g.nodes.length }

/-- The graph with a new symbol. -/
def intern (g : Graph) (id : UInt64) : Graph :=
  { g.add (.symbol id (some 0)) with symbols := g.symbols ++ [(id, g.nodes.length)] }

/-- The graph with another reference in a field of a node. -/
def store (g : Graph) (n i : Nat) (r : NodeRef) : Graph :=
  { g with nodes := g.nodes.modify n (Node.withRef i r) }

/-- The graph after a collection: what was not rooted is out of reach. -/
def forget (g : Graph) : Graph := { g with last := none }

/-! ## Operations -/

/-- What an operation replies, if it replies with a reference, and the
graph that it leaves; none if it is refused. -/
def step (g : Graph) : Operation → Option (Option NodeRef × Graph)
  | .symbol id =>
    match g.symbols.lookup id with
    | some n => some (some (some n), g)
    | none => some (some (some g.nodes.length), g.intern id)
  | .intVec values => some (some (some g.nodes.length), g.add (.intVec values))
  | .pair car cdr => some (some (some g.nodes.length), g.add (.pair car cdr))
  | .cell value n => some (some (some g.nodes.length), g.add (.cell value n))
  | .vector length =>
    some (some (some g.nodes.length), g.add (.vector (List.replicate length (some 0))))
  | .setCar n value | .setCellValue n value | .setSymbolValue n value =>
    some (none, g.store n 0 value)
  | .setCdr n value => some (none, g.store n 1 value)
  | .vectorSet n index value =>
    match g.nodes[n]? with
    | some (.vector elements) =>
      if index < elements.length then some (none, g.store n index value) else none
    | _ => none
  | .pushRoot r => some (none, { g with stack := g.stack ++ [r] })
  | .popRoot => some (g.stack.getLast?, { g with stack := g.stack.dropLast })
  | .setRoot index r => some (none, { g with stack := g.stack.set index r })
  | .truncateRoots depth => some (none, { g with stack := g.stack.take depth })
  | .setAutoCollect _ => some (none, g)
  | .collect _ => some (none, g.forget)

/-- The graph after an operation that was refused. -/
def refused (g : Graph) (op : Operation) : Graph := if op.allocates then g.forget else g

/-! ## What a program can reach -/

/-- The nodes that some references lead to. -/
inductive Reaches (nodes : List (Node NodeRef)) (roots : List NodeRef) : Nat → Prop where
  | root {n : Nat} : some n ∈ roots → Reaches nodes roots n
  | step {n k : Nat} {node : Node NodeRef} : Reaches nodes roots k → nodes[k]? = some node →
      some n ∈ node.refs → Reaches nodes roots n

/-- Nil, and what the program has rooted. -/
def standing (g : Graph) : List NodeRef := some 0 :: (g.stack ++ g.symbols.map fun s => some s.2)

def roots (g : Graph) : List NodeRef := g.last :: g.standing

def InReach (g : Graph) (n : Nat) : Prop := Reaches g.nodes g.roots n

/-- A reference that the program may hand over. -/
def Operand (g : Graph) (r : NodeRef) : Prop := ∀ n, r = some n → g.InReach n

/-- A node of a type that the program may store in. -/
def Target (g : Graph) (type : ModelType) (n : Nat) : Prop :=
  g.InReach n ∧ ∃ node, g.nodes[n]? = some node ∧ node.type = type

/-- What a program may do next: it hands over what it can reach, stores in
nodes of the right type, and replaces roots that there are. -/
def Legal (g : Graph) : Operation → Prop
  | .pair car cdr => g.Operand car ∧ g.Operand cdr
  | .cell value _ => g.Operand value
  | .setCar n value | .setCdr n value => g.Target .pair n ∧ g.Operand value
  | .setCellValue n value => g.Target .cell n ∧ g.Operand value
  | .setSymbolValue n value => g.Target .symbol n ∧ g.Operand value
  | .vectorSet n _ value => g.Target .vector n ∧ g.Operand value
  | .pushRoot r => g.Operand r
  | .setRoot index r => index < g.stack.length ∧ g.Operand r
  | .symbol _ | .intVec _ | .vector _ | .popRoot | .truncateRoots _ | .setAutoCollect _
  | .collect _ => True

section

variable {g : Graph} {nodes : List (Node NodeRef)} {from' kept : List NodeRef} {n k i : Nat}
  {r : NodeRef} {node : Node NodeRef}

/-- A set of nodes that is closed under references and has the roots has
all that these lead to. -/
theorem Reaches.within {P : Nat → Prop} (hr : Reaches nodes from' n)
    (hroot : ∀ n, some n ∈ from' → P n)
    (hstep : ∀ k node n, P k → nodes[k]? = some node → some n ∈ node.refs → P n) : P n := by
  induction hr with
  | root hr => exact hroot _ hr
  | step _ hk hn ih => exact hstep _ _ _ ih hk hn

/-- Operands lead nowhere that is out of reach. -/
theorem Reaches.inReach (hr : Reaches g.nodes from' n) (ho : ∀ r ∈ from', g.Operand r) :
    g.InReach n :=
  hr.within (fun n hn => ho _ hn n rfl) fun _ _ _ hk hnode hn => .step hk hnode hn

theorem operand_of_mem_roots (hr : r ∈ g.roots) : g.Operand r := fun _ e => .root (e ▸ hr)

theorem operand_of_mem_standing (hr : r ∈ g.standing) : g.Operand r :=
  operand_of_mem_roots (List.mem_cons_of_mem _ hr)

theorem operand_of_mem_stack (hr : r ∈ g.stack) : g.Operand r :=
  operand_of_mem_standing (List.mem_cons_of_mem _ (List.mem_append_left _ hr))

theorem operand_null : g.Operand none := nofun

theorem operand_nil : g.Operand (some 0) := operand_of_mem_standing List.mem_cons_self

theorem operands_nil : ∀ r ∈ ([] : List NodeRef), g.Operand r := nofun

theorem operand_kept (hk : ∀ r ∈ kept, g.Operand r) :
    ∀ r ∈ kept ++ g.standing, g.Operand r := fun r hr =>
  (List.mem_append.mp hr).elim (hk r) operand_of_mem_standing

theorem operand_of_symbol {s : UInt64 × Nat} (hs : s ∈ g.symbols) : g.Operand (some s.2) :=
  operand_of_mem_standing (List.mem_cons_of_mem _ (List.mem_append_right _
    (List.mem_map.mpr ⟨s, hs, rfl⟩)))

theorem operand_of_lookup {id : UInt64} {n : Nat} (hl : g.symbols.lookup id = some n) :
    g.Operand (some n) := by
  obtain ⟨before, after, e, _⟩ := List.lookup_eq_some_iff.mp hl
  exact operand_of_symbol (s := (id, n)) (e ▸ List.mem_append_right _ List.mem_cons_self)

theorem operand_last : g.Operand g.last := operand_of_mem_roots List.mem_cons_self

/-- Roots that are operands in another graph, part by part. -/
theorem operand_of_parts {g' : Graph} (hl : g.Operand g'.last)
    (hstack : ∀ r ∈ g'.stack, g.Operand r) (hsymbols : ∀ s ∈ g'.symbols, g.Operand (some s.2)) :
    ∀ r ∈ g'.roots, g.Operand r := by
  intro r hr
  rcases List.mem_cons.mp hr with rfl | hr
  · exact hl
  · rcases List.mem_cons.mp hr with rfl | hr
    · exact operand_nil
    · rcases List.mem_append.mp hr with hr | hr
      · exact hstack r hr
      · obtain ⟨s, hs, rfl⟩ := List.mem_map.mp hr
        exact hsymbols s hs

/-- After an operation on the roots no more is in reach than was. -/
theorem inReach_of_roots {g' : Graph} (hnodes : g'.nodes = g.nodes)
    (hr : ∀ r ∈ g'.roots, g.Operand r) (hn : g'.InReach n) : g.InReach n := by
  rw [InReach, hnodes] at hn
  exact hn.inReach hr

/-- A new node leads to what its references lead to. -/
theorem inReach_add (hrefs : ∀ r ∈ node.refs, r ∈ kept ++ g.standing)
    (hlt : ∀ k, Reaches g.nodes (kept ++ g.standing) k → k < g.nodes.length)
    (hn : (g.add node).InReach n) :
    n = g.nodes.length ∨ Reaches g.nodes (kept ++ g.standing) n := by
  refine hn.within (P := fun n => n = g.nodes.length ∨ Reaches g.nodes (kept ++ g.standing) n)
    (fun n hn => ?_) fun k old n hk hold hn => ?_
  · rcases List.mem_cons.mp hn with e | hn
    · exact Or.inl (Option.some.inj e)
    · exact Or.inr (.root (List.mem_append_right _ hn))
  · have hold : (g.nodes ++ [node])[k]? = some old := hold
    rcases hk with rfl | hk
    · rw [List.getElem?_concat_length] at hold
      cases hold
      exact Or.inr (.root (hrefs _ hn))
    · rw [List.getElem?_append_left (hlt k hk)] at hold
      exact Or.inr (.step hk hold hn)

theorem getElem?_store : (g.store n i r).nodes[k]? =
    (g.nodes[k]?).map fun node => if n = k then node.withRef i r else node :=
  List.getElem?_modify ..

/-- Storing what is in reach puts nothing else there. -/
theorem inReach_store (hr : g.Operand r) (hk : (g.store n i r).InReach k) : g.InReach k := by
  refine hk.within (fun k hk => .root hk) fun j old k hj hold hk => ?_
  rw [getElem?_store] at hold
  obtain ⟨node, hnode, rfl⟩ := Option.map_eq_some_iff.mp hold
  split at hk
  · rw [Node.refs_withRef] at hk
    rcases List.mem_or_eq_of_mem_set hk with hk | e
    · exact .step hj hnode hk
    · exact hr k e.symm
  · exact .step hj hnode hk

end

end Graph

/-! ## The operations of a mutator -/

/-- The operation on a mutator in which the nodes stand for objects. -/
def Operation.run (f : Nat → ObjRef) : Operation → MutatorM (Option ObjRef)
  | .symbol id => do return some (← Mutator.symbol id)
  | .intVec values => do return some (← Mutator.intVec values)
  | .pair car cdr => do return some (← Mutator.pair (car.image f) (cdr.image f))
  | .cell value n => do return some (← Mutator.cell (value.image f) n)
  | .vector length => do return some (← Mutator.vector length)
  | .setCar n value => do
    Mutator.setCar (f n) (value.image f)
    return none
  | .setCdr n value => do
    Mutator.setCdr (f n) (value.image f)
    return none
  | .setCellValue n value => do
    Mutator.setCellValue (f n) (value.image f)
    return none
  | .setSymbolValue n value => do
    Mutator.setSymbolValue (f n) (value.image f)
    return none
  | .vectorSet n index value => do
    Mutator.vectorSet (f n) index (value.image f)
    return none
  | .pushRoot r => do
    Mutator.pushRoot (r.image f)
    return none
  | .popRoot => Mutator.popRoot
  | .setRoot index r => do
    Mutator.setRoot index (r.image f)
    return none
  | .truncateRoots depth => do
    Mutator.truncateRoots depth
    return none
  | .setAutoCollect autoCollect => do
    Mutator.setAutoCollect autoCollect
    return none
  | .collect level => do
    let _ ← Mutator.collect level
    return none

end SegmentedHeap
