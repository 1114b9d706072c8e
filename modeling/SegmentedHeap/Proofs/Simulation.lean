/-
SegmentedHeap.Proofs.Simulation — programs cannot tell the collector is
there.

A run is followed on a graph: each operation that a mutator does is done
to the graph, and the next node stands for the object that was returned.
A program that keeps to what it can reach gets the answers that the graph
gives, whatever the configuration and whenever a collection comes; what
it may meet instead is an allocation that is refused, which leaves all
that it can reach as it was.

* `Follows` — a mutator, the graph that it follows, and what the nodes
  stand for.
* `Simulates` — what a program can see of that.
* `refines` — **in all runs** a mutator simulates its graph.
-/
import SegmentedHeap.Proofs.Refinement

namespace SegmentedHeap

open Model

/-- The command that an operation is. -/
def Operation.command (f : Nat → ObjRef) : Operation → Mutator.Command
  | .symbol id => .symbol id
  | .intVec values => .intVec values
  | .pair car cdr => .pair (car.image f) (cdr.image f)
  | .cell value n => .cell (value.image f) n
  | .vector length => .vector length
  | .setCar n value => .setCar (f n) (value.image f)
  | .setCdr n value => .setCdr (f n) (value.image f)
  | .setCellValue n value => .setCellValue (f n) (value.image f)
  | .setSymbolValue n value => .setSymbolValue (f n) (value.image f)
  | .vectorSet n index value => .vectorSet (f n) index (value.image f)
  | .pushRoot r => .pushRoot (r.image f)
  | .popRoot => .popRoot
  | .setRoot index r => .setRoot index (r.image f)
  | .truncateRoots depth => .truncateRoots depth
  | .setAutoCollect autoCollect => .setAutoCollect autoCollect
  | .collect level => .collect level

theorem Operation.leaves_command {op : Operation} {f : Nat → ObjRef} {m m' : Mutator}
    (hl : Leaves (op.run f) m m') : Leaves (op.command f).run m m' := by
  cases op with
  | setCar | setCdr | setCellValue | setSymbolValue | vectorSet | pushRoot | setRoot
  | truncateRoots | setAutoCollect => exact leaves_map.mp hl
  | popRoot => exact leaves_map.mpr hl
  | symbol | intVec | pair | cell | vector | collect => exact leaves_map.mpr (leaves_map.mp hl)

namespace Mutator

variable {m m' : Mutator} {g g' : Graph} {f : Nat → ObjRef} {op : Operation}

/-! ## Runs -/

/-- A mutator that did what a program asked for, the graph to which the
same was done, and what the nodes stand for. A run goes on after an
operation that was refused. -/
inductive Follows : Mutator → Graph → (Nat → ObjRef) → Prop where
  | create {config : Config} {system : System} {m : Mutator} :
      create config system = .ok m → Follows m .start fun _ => m.nil
  | returned {m m' : Mutator} {g g' : Graph} {f : Nat → ObjRef} {op : Operation}
      {result : Option ObjRef} {reply : Option NodeRef} :
      Follows m g f → g.Legal op → op.run f m = .ok result m' → g.step op = some (reply, g') →
      Follows m' g' (g.learn f result)
  | refused {m m' : Mutator} {g : Graph} {f : Nat → ObjRef} {op : Operation} {e : HeapError} :
      Follows m g f → g.Legal op → op.run f m = .error (.refused e) m' →
      Follows m' (g.refused op) f

/-- What is handed over names an object, or is null. -/
theorem Mirrors.proper_args (hm : m.Mirrors g f) (hf : m.heap.Formed) (hl : g.Legal op) :
    ∀ p ∈ (op.command f).args, m.heap.Proper p := by
  have htarget : ∀ {type n}, g.Target type n → m.heap.Proper (f n) := fun ht =>
    Or.inr (hm.isAllocated hf ht.1)
  intro p hp
  cases op with
  | pair car cdr =>
    rcases List.mem_cons.mp hp with rfl | hp
    · exact hm.proper hf hl.1
    · exact List.mem_singleton.mp hp ▸ hm.proper hf hl.2
  | setCar | setCdr | setCellValue | setSymbolValue | vectorSet =>
    rcases List.mem_cons.mp hp with rfl | hp
    · exact htarget hl.1
    · exact List.mem_singleton.mp hp ▸ hm.proper hf hl.2
  | cell | pushRoot => exact List.mem_singleton.mp hp ▸ hm.proper hf hl
  | setRoot => exact List.mem_singleton.mp hp ▸ hm.proper hf hl.2
  | symbol | intVec | vector | popRoot | truncateRoots | setAutoCollect | collect => cases hp

theorem Mirrors.consistent (hm : m.Mirrors g f) (hc : m.Consistent) (hl : g.Legal op)
    (hleaves : Leaves (op.run f) m m') : m'.Consistent :=
  (hc.run_ends _ (hm.proper_args hc.serves.formed hl)).leaves (Operation.leaves_command hleaves)

/-- At the start nothing but nil is in reach. -/
theorem eq_zero_of_inReach_start {n : Nat} (hn : Graph.start.InReach n) : n = 0 := by
  refine hn.within (P := (· = 0)) (fun n hn => ?_) fun k node n hk hnode hn => ?_
  · rcases List.mem_cons.mp hn with e | hn
    · cases e
    · exact Option.some.inj (List.mem_singleton.mp hn)
  · subst hk
    cases hnode
    cases hn

/-- **A new mutator** mirrors the graph that has nil only. -/
theorem mirrors_create {config : Config} {system : System} (hc : create config system = .ok m) :
    m.Mirrors .start fun _ => m.nil := by
  obtain ⟨h, h', obj, hh, hr, rfl⟩ := create_eq_ok hc
  have ha := (Heap.alloc_ends (Heap.wellFormed_create hh).1 ModelType.nil.tag 0).of_ok hr
  obtain ⟨hsuited, hsuited'⟩ := Heap.suited_first hh ha
  obtain ⟨v, hv, hb⟩ := ha.blank hsuited
  have hshows : v.Shows .nil :=
    ⟨hb.tag, hb.length, fun _ _ hr => (by cases hr), fun _ _ hw => (by cases hw)⟩
  exact {
    suited := hsuited'
    nil := ⟨rfl, rfl⟩
    stack := rfl
    symbols := rfl
    interned := fun _ => rfl
    shows := by
      intro n hn
      rw [eq_zero_of_inReach_start hn]
      exact ⟨.nil, v, rfl, hv, hshows⟩
    injective := by
      intro n k hn hk _
      rw [eq_zero_of_inReach_start hn, eq_zero_of_inReach_start hk] }

/-- **Every run** keeps both invariants. -/
theorem Follows.mirrors (hr : m.Follows g f) : m.Consistent ∧ m.Mirrors g f := by
  induction hr with
  | create hc => exact ⟨consistent_create hc, mirrors_create hc⟩
  | @returned _ m' _ _ _ _ result _ _ hl hrun hstep ih =>
    obtain ⟨hc, hm⟩ := ih
    refine ⟨hm.consistent hc hl (Or.inl ⟨_, hrun⟩), ?_⟩
    obtain ⟨_, _, hstep', _, hd⟩ := (hm.run_ends hc hl).of_ok hrun
    rw [hstep] at hstep'
    cases hstep'
    exact hd
  | refused _ hl hrun ih =>
    obtain ⟨hc, hm⟩ := ih
    exact ⟨hm.consistent hc hl (Or.inr ⟨_, hrun⟩), ((hm.run_ends hc hl).of_refused hrun).1⟩

/-- The program may do these operations in a row. -/
def Lawful : List Operation → Graph → Prop
  | [], _ => True
  | op :: ops, g => g.Legal op ∧
    match g.step op with
    | some (_, g) => Lawful ops g
    | none => False

/-- Some operations in a row, unless one is refused. -/
def follow : List Operation → Mutator → Graph → (Nat → ObjRef) →
    Option (Mutator × Graph × (Nat → ObjRef))
  | [], m, g, f => some (m, g, f)
  | op :: ops, m, g, f =>
    match op.run f m, g.step op with
    | .ok result m, some (_, g') => follow ops m g' (g.learn f result)
    | _, _ => none

theorem Follows.follow {ops : List Operation} {f' : Nat → ObjRef} (hr : m.Follows g f)
    (hl : Lawful ops g) (hf : Mutator.follow ops m g f = some (m', g', f')) : m'.Follows g' f' := by
  induction ops generalizing m g f with
  | nil =>
    cases hf
    exact hr
  | cons op ops ih =>
    obtain ⟨hlegal, hl⟩ := hl
    rw [Mutator.follow] at hf
    split at hf
    · next result m₁ _ g₁ hrun hstep =>
      rw [hstep] at hl
      exact ih (.returned hr hlegal hrun hstep) hl hf
    · cases hf

/-! ## What a program can see -/

/-- The roots of the mutator are those of the graph; different operands
are different references; and every question about a node in reach is
answered by the object that it stands for as the node says. -/
structure Simulates (m : Mutator) (g : Graph) (f : Nat → ObjRef) : Prop where
  nil : f 0 = m.nil
  stack : m.stack.toList = g.stack.map (NodeRef.image f)
  symbols : m.symbols = g.symbols.map fun s => f s.2
  interned : ∀ id, m.interned.lookup id = (g.symbols.lookup id).map f
  injective : ∀ r s, g.Operand r → g.Operand s → r.image f = s.image f → r = s
  agrees : ∀ n, g.InReach n → ∃ node, g.nodes[n]? = some node ∧
    m.Agrees (f n) (node.map (NodeRef.image f))

theorem Mirrors.simulates (hm : m.Mirrors g f) (hf : m.heap.Formed) : m.Simulates g f where
  nil := hm.nil.2
  stack := hm.stack
  symbols := hm.symbols
  interned := hm.interned
  injective r s hr hs e := by
    cases r with
    | none =>
      cases s with
      | none => rfl
      | some k => exact absurd e.symm (hm.ne_null hf (hs k rfl))
    | some n =>
      cases s with
      | none => exact absurd e (hm.ne_null hf (hr n rfl))
      | some k => exact congrArg some (hm.injective n k (hr n rfl) (hs k rfl) e)
  agrees n hn := by
    obtain ⟨node, v, hnode, hv, hs⟩ := hm.shows n hn
    exact ⟨node, hnode, agrees_of_shows hf hv hs⟩

/-- **A mutator refines its graph**: in all runs it simulates it, and what
a program may do next returns what the graph replies, or is refused and
leaves what nodes stand for. -/
theorem refines (hr : m.Follows g f) : m.Simulates g f ∧ ∀ op, g.Legal op →
    Ends (op.run f m)
      (fun result m' => ∃ reply g', g.step op = some (reply, g') ∧
        result = reply.map (NodeRef.image (g.learn f result)) ∧
        m'.Simulates g' (g.learn f result))
      (fun _ m' => m'.Simulates (g.refused op) f ∧ (op.allocates = true ∨ g.step op = none))
      fun _ => False := by
  obtain ⟨hc, hm⟩ := hr.mirrors
  refine ⟨hm.simulates hc.serves.formed, fun op hl => ?_⟩
  have hends := hm.run_ends hc hl
  cases hrun : op.run f m with
  | ok result m' =>
    have hc' := hm.consistent hc hl (Or.inl ⟨_, hrun⟩)
    obtain ⟨reply, g', hstep, hreply, hd⟩ := hends.of_ok hrun
    exact ⟨reply, g', hstep, hreply, hd.simulates hc'.serves.formed⟩
  | error e m' =>
    cases e with
    | refused e =>
      have hc' := hm.consistent hc hl (Or.inr ⟨_, hrun⟩)
      obtain ⟨hd, hwhy⟩ := hends.of_refused hrun
      exact ⟨hd.simulates hc'.serves.formed, hwhy⟩
    | fault x => exact hends.of_fault hrun

/-- A pair in the slot of one that was dropped. The pair before it holds
the cell that it was made of, and any collection leaves that as it is. -/
theorem refines_reused : ∃ m g f, m.Follows g f ∧ g.stack = [some 2, some 4] ∧ f 4 = f 3 ∧
    m.car (f 2) = .ok (f 1) ∧ m.cellInt (f 1) = .ok 5 ∧ m.Simulates g f ∧
    ∀ level, ∃ m', (Operation.collect level).run f m = .ok none m' ∧
      m'.Simulates g.forget (g.learn f none) := by
  let program : List Operation := [.cell none 5, .pushRoot (some 1), .pair (some 1) (some 0),
    .setRoot 0 (some 2), .pair none (some 2), .collect .zero, .pair (some 0) (some 2),
    .pushRoot (some 4)]
  have hlawful : Lawful program .start :=
    ⟨Graph.operand_null, Graph.operand_of_mem_roots (by decide),
      ⟨Graph.operand_of_mem_roots (by decide), Graph.operand_nil⟩,
      ⟨by decide, Graph.operand_of_mem_roots (by decide)⟩,
      ⟨Graph.operand_null, Graph.operand_of_mem_roots (by decide)⟩, trivial,
      ⟨Graph.operand_nil, Graph.operand_of_mem_roots (by decide)⟩,
      Graph.operand_of_mem_roots (by decide), trivial⟩
  have hrun : (match create Heap.smallConfig .standard with
      | .error _ => false
      | .ok m =>
        match follow program m .start fun _ => m.nil with
        | none => false
        | some (m, g, f) => decide (g.stack = [some 2, some 4] ∧ f 4 = f 3 ∧
            m.car (f 2) = .ok (f 1) ∧ m.cellInt (f 1) = .ok 5)) = true := by
    decide +kernel
  cases hc : create Heap.smallConfig .standard with
  | error e =>
    rw [hc] at hrun
    cases hrun
  | ok m₀ =>
    simp only [hc] at hrun
    split at hrun
    · cases hrun
    · next m g f hfollow =>
      have hr := (Follows.create hc).follow hlawful hfollow
      obtain ⟨hstack, hslot, hcar, hint⟩ := of_decide_eq_true hrun
      obtain ⟨hs, hops⟩ := refines hr
      refine ⟨m, g, f, hr, hstack, hslot, hcar, hint, hs, fun level => ?_⟩
      obtain ⟨result, m', hcollect, _, _, hstep, hnone, hs'⟩ :=
        ((hops (.collect level) trivial).mono (fun _ _ h => h)
          (fun _ _ h => h.2.elim nofun nofun) fun _ h => h).returns
      cases hstep
      obtain rfl : result = none := hnone
      exact ⟨m', hcollect, hs'⟩

end Mutator

end SegmentedHeap
