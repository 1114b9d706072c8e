/-
SegmentedHeap.Proofs.MutatorRuns — all that a program does with a mutator.

A program makes objects of the model, stores references in them, moves
its roots, collects, and turns the collections before allocations on and
off, in any order; each reference that it hands over is null or names an
object at that time. Commands that are refused leave a mutator as well.
Whatever the configuration, the heap serves the mutator then: no root and
no object that is allocated, reachable or not, holds a reference that
dangles, so that no collection ever meets one.

* `Command`, `Reached` — the runs.
* `Consistent.run_ends` — **one command keeps the invariant**.
* `sound_of_reached` — **what holds in all runs**.
-/
import SegmentedHeap.Proofs.Constructors

namespace SegmentedHeap

namespace Mutator

open Model

variable {m m' : Mutator}

/-! ## Runs -/

/-- What a program can ask of a mutator. -/
inductive Command where
  | symbol (id : UInt64)
  | intVec (values : List Int64)
  | pair (car cdr : ObjRef)
  | cell (value : ObjRef) (n : Int64)
  | vector (length : Nat)
  | list (items : List ObjRef)
  | setCar (pair value : ObjRef)
  | setCdr (pair value : ObjRef)
  | setCellValue (cell value : ObjRef)
  | setSymbolValue (sym value : ObjRef)
  | vectorSet (vector : ObjRef) (index : Nat) (value : ObjRef)
  | pushRoot (obj : ObjRef)
  | popRoot
  | setRoot (index : Nat) (obj : ObjRef)
  | truncateRoots (depth : Nat)
  | setAutoCollect (autoCollect : Bool)
  | collect (level : Generation)

namespace Command

/-- The references that the program hands over. -/
def args : Command → List ObjRef
  | .pair first second => [first, second]
  | .cell value _ => [value]
  | .list items => items
  | .setCar obj value | .setCdr obj value => [obj, value]
  | .setCellValue obj value | .setSymbolValue obj value => [obj, value]
  | .vectorSet obj _ value => [obj, value]
  | .pushRoot obj | .setRoot _ obj => [obj]
  | .symbol _ | .intVec _ | .vector _ | .popRoot | .truncateRoots _ | .setAutoCollect _
  | .collect _ => []

/-- The command, for what it does to the mutator. -/
def run : Command → MutatorM Unit
  | .symbol id => do let _ ← Mutator.symbol id
  | .intVec values => do let _ ← Mutator.intVec values
  | .pair first second => do let _ ← Mutator.pair first second
  | .cell value n => do let _ ← Mutator.cell value n
  | .vector length => do let _ ← Mutator.vector length
  | .list items => do let _ ← Mutator.list items
  | .setCar obj value => Mutator.setCar obj value
  | .setCdr obj value => Mutator.setCdr obj value
  | .setCellValue obj value => Mutator.setCellValue obj value
  | .setSymbolValue obj value => Mutator.setSymbolValue obj value
  | .vectorSet obj index value => Mutator.vectorSet obj index value
  | .pushRoot obj => Mutator.pushRoot obj
  | .popRoot => do let _ ← Mutator.popRoot
  | .setRoot index obj => Mutator.setRoot index obj
  | .truncateRoots depth => Mutator.truncateRoots depth
  | .setAutoCollect autoCollect => Mutator.setAutoCollect autoCollect
  | .collect level => do let _ ← Mutator.collect level

end Command

/-- The mutators of the runs of a program, in which each reference that is
handed over is proper. -/
inductive Reached : Mutator → Prop where
  | create {config : Config} {system : System} {m : Mutator} :
      create config system = .ok m → Reached m
  | step {m m' : Mutator} (c : Command) : Reached m → (∀ p ∈ c.args, m.heap.Proper p) →
      Leaves c.run m m' → Reached m'

/-- Some commands in a row, unless one is handed a reference that dangles,
or is not done. -/
def perform : List Command → Mutator → Option Mutator
  | [], m => some m
  | c :: cs, m =>
    if ∀ p ∈ c.args, m.heap.Proper p then
      match c.run m with
      | .ok () m => perform cs m
      | .error _ _ => none
    else none

theorem Reached.perform {cs : List Command} (hr : Reached m) (hp : perform cs m = some m') :
    Reached m' := by
  induction cs generalizing m with
  | nil =>
    cases hp
    exact hr
  | cons c cs ih =>
    rw [Mutator.perform] at hp
    split at hp
    · next hall =>
      split at hp
      · next m₁ hrun => exact ih (.step c hr hall (Or.inl ⟨_, hrun⟩)) hp
      · cases hp
    · cases hp

/-! ## What each command keeps -/

/-- The heap serves the mutator, whose nil is in the first slot; every
interned symbol has a name, and what an id is looked up for is one. -/
structure Consistent (m : Mutator) : Prop where
  nil : m.nil = ⟨0⟩
  serves : m.heap.Serves m.tracer.roots m.symbols
  named : ∀ p ∈ m.symbols, p ≠ .null
  tabled : ∀ id sym, m.interned.lookup id = some sym → sym ∈ m.symbols

/-- Another heap is as good, if it serves the same roots. -/
theorem Consistent.withHeap {h' : Heap} (hc : m.Consistent)
    (hs : h'.Serves m.tracer.roots m.symbols) : (m.withHeap h').Consistent :=
  ⟨hc.nil, hs, hc.named, hc.tabled⟩

theorem Retains.consistent {kept : List ObjRef} (hc : m.Consistent)
    (hr : m.Retains kept m.symbols m') : m'.Consistent := by
  obtain ⟨h', rfl, hs⟩ := hr
  exact hc.withHeap (hs.mono (fun p hp => List.mem_append_right _ hp) fun _ hp => hp)

/-- Other roots are as good, if they are proper. -/
theorem Consistent.withStack (hc : m.Consistent) {stack : Array ObjRef}
    (hp : ∀ p ∈ stack.toList, m.heap.Proper p) : ({ m with stack } : Mutator).Consistent := by
  refine ⟨hc.nil, ⟨hc.serves.toModelled, fun p hr => ?_, hc.serves.interned⟩, hc.named, hc.tabled⟩
  rcases List.mem_append.mp hr with hr | hr
  · exact hp p hr
  · exact hc.serves.proper p (m.mem_roots_of_symbol p hr)

theorem Consistent.proper_of_mem_stack (hc : m.Consistent) {p : ObjRef} (hp : p ∈ m.stack.toList) :
    m.heap.Proper p :=
  hc.serves.proper p (m.mem_tracer_roots.mpr (Or.inl hp))

/-- Every interned symbol is there. -/
theorem Consistent.isAllocated_symbol (hc : m.Consistent) {p : ObjRef} (hp : p ∈ m.symbols) :
    m.heap.isAllocated p = true :=
  (hc.serves.proper p (m.mem_roots_of_symbol p hp)).resolve_left (hc.named p hp)

/-- A new symbol is interned. -/
theorem Consistent.withSymbol (hc : m.Consistent) (id : UInt64) {sym : ObjRef} {h' : Heap}
    (hs : h'.Serves (sym :: m.tracer.roots) (sym :: m.symbols)) (hsym : h'.IsOf .symbol sym) :
    ((m.withHeap h').intern id sym).Consistent := by
  have hsymbols : ∀ p, p ∈ sym :: m.symbols ↔ p ∈ m.symbols ++ [sym] := fun p => by simp [or_comm]
  refine ⟨hc.nil, hs.mono (fun p hp => ?_) fun p hp => (hsymbols p).mp hp, fun p hp => ?_,
    fun id' p hl => (hsymbols p).mp ?_⟩
  · rcases List.mem_append.mp hp with hp | hp
    · exact List.mem_cons_of_mem _ (m.mem_tracer_roots.mpr (Or.inl hp))
    · rcases List.mem_cons.mp ((hsymbols p).mpr hp) with rfl | hp
      · exact List.mem_cons_self
      · exact List.mem_cons_of_mem _ (m.mem_roots_of_symbol p hp)
  · rcases List.mem_cons.mp ((hsymbols p).mpr hp) with rfl | hp
    · obtain ⟨x, _, hx, _⟩ := hsym
      exact hs.formed.ne_null_of_lookup hx
    · exact hc.named p hp
  · rw [lookup_intern] at hl
    split at hl
    · exact Option.some.inj hl ▸ List.mem_cons_self
    · exact List.mem_cons_of_mem _ (hc.tabled id' p hl)

/-- A command that makes an object. -/
theorem ends_made {α : Type} {act : MutatorM α} {kept : List ObjRef} (hc : m.Consistent)
    (h : Ends (act m) (fun _ m' => ∃ kept, m.Retains kept m.symbols m')
      (fun _ => m.Retains kept m.symbols) NoStray) :
    Ends ((act >>= fun _ => pure ()) m) (fun _ => Consistent) (fun _ => Consistent) NoStray := by
  refine Ends.bind (h.mono (fun _ m' hd => ?_) (fun _ _ hd => hd.consistent hc) fun _ h => h)
    fun _ _ hc' => hc'
  obtain ⟨kept, hd⟩ := hd
  exact hd.consistent hc

/-- A command that stores a reference. -/
theorem ends_stored (hc : m.Consistent) {source target : ObjRef} (ht : m.heap.Proper target)
    (field : Nat) :
    Ends (onHeap (Heap.writeRef source field target) m) (fun _ => Consistent)
      (fun _ => Consistent) NoStray := by
  refine (storeRef_ends hc.serves ht source field).mono (fun _ m' hd => ?_) (fun _ m' hd => ?_)
    fun _ h => h
  · obtain ⟨h', rfl, hs, _⟩ := hd
    exact hc.withHeap hs
  · rw [hd.1]
    exact hc

/-- **One command keeps the invariant**, and meets no stray reference. -/
theorem Consistent.run_ends (hc : m.Consistent) (c : Command)
    (ha : ∀ p ∈ c.args, m.heap.Proper p) :
    Ends (c.run m) (fun _ => Consistent) (fun _ => Consistent) NoStray := by
  -- what a command stores or puts on the stack is an argument, or was there before
  cases c with
  | symbol id =>
    refine Ends.bind ((symbol_ends hc.serves hc.nil id).mono (fun sym m' hd => ?_)
      (fun _ _ hd => hd.consistent hc) fun _ h => h) fun _ _ hc' => hc'
    rcases hd with ⟨rfl, _⟩ | ⟨_, m'', ⟨h', rfl, hs, hsym⟩, rfl⟩
    · exact hc
    · exact hc.withSymbol id hs hsym
  | intVec values =>
    exact ends_made hc ((intVec_ends hc.serves values).imp fun _ _ hm => ⟨_, hm.retains⟩)
  | pair car cdr =>
    exact ends_made hc ((pair_ends hc.serves ha).imp fun _ _ hm => ⟨_, hm.retains⟩)
  | cell value n =>
    exact ends_made hc ((cell_ends hc.serves ha n).imp fun _ _ hm => ⟨_, hm.retains⟩)
  | vector length =>
    exact ends_made hc ((vector_ends hc.serves hc.nil length).imp fun _ _ hm => ⟨_, hm.retains⟩)
  | list items =>
    exact ends_made hc ((list_ends hc.serves hc.nil ha).imp fun _ _ hm => ⟨_, hm⟩)
  | setCar pair value => exact ends_stored hc (ha value (by simp [Command.args])) 0
  | setCdr pair value => exact ends_stored hc (ha value (by simp [Command.args])) 1
  | setCellValue cell value => exact ends_stored hc (ha value (by simp [Command.args])) 0
  | setSymbolValue sym value => exact ends_stored hc (ha value (by simp [Command.args])) 0
  | vectorSet vector index value =>
    refine (vectorSet_ends hc.serves (ha value (by simp [Command.args])) index).mono
      (fun _ m' hd => ?_) (fun _ m' hd => ?_) fun _ h => h
    · obtain ⟨h', rfl, hs⟩ := hd
      exact hc.withHeap hs
    · rw [hd]
      exact hc
  | pushRoot obj =>
    refine hc.withStack fun p hp => ?_
    rw [Array.toList_push, List.mem_append, List.mem_singleton] at hp
    rcases hp with hp | rfl
    · exact hc.proper_of_mem_stack hp
    · exact ha p (by simp [Command.args])
  | popRoot =>
    refine hc.withStack fun p hp => ?_
    rw [Array.toList_pop] at hp
    exact hc.proper_of_mem_stack ((List.dropLast_subset _) hp)
  | setRoot index obj =>
    refine (m.setRoot_ends index obj).mono (fun _ m' hd => ?_) (fun _ _ hn => hn.elim)
      fun f e p => e ▸ nofun
    rw [hd]
    refine hc.withStack fun p hp => ?_
    rw [Array.toList_setIfInBounds] at hp
    rcases List.mem_or_eq_of_mem_set hp with hp | rfl
    · exact hc.proper_of_mem_stack hp
    · exact ha p (by simp [Command.args])
  | truncateRoots depth =>
    refine hc.withStack fun p hp => ?_
    rw [Array.toList_shrink] at hp
    exact hc.proper_of_mem_stack (List.mem_of_mem_take hp)
  | setAutoCollect autoCollect => exact ⟨hc.nil, hc.serves, hc.named, hc.tabled⟩
  | collect level =>
    refine Ends.bind ((collect_ends hc.serves level).mono (fun _ m' hd => ?_)
      (fun _ _ hn => hn.elim) fun _ hn => hn.elim) fun _ _ hc' => hc'
    obtain ⟨h', rfl, hs⟩ := hd
    exact hc.withHeap hs

/-! ## The invariant in all runs -/

/-- What a new mutator is: a new heap, and the object that was allocated
first. -/
theorem create_eq_ok {config : Config} {system : System} (hc : create config system = .ok m) :
    ∃ h h' obj, Heap.create config (layout config.chunkBytes) system = .ok h ∧
      Heap.alloc ModelType.nil.tag 0 h = .ok obj h' ∧ m = { heap := h', nil := obj } := by
  unfold create at hc
  cases hh : Heap.create config (layout config.chunkBytes) system with
  | error e =>
    rw [hh] at hc
    cases hc
  | ok h =>
    rw [hh] at hc
    cases hr : Heap.alloc ModelType.nil.tag 0 h with
    | error e h' =>
      simp only [hr, Except.mapError, bind, Except.bind] at hc
      cases hc
    | ok obj h' =>
      simp only [hr, Except.mapError, bind, Except.bind] at hc
      cases hc
      exact ⟨h, h', obj, rfl, hr, rfl⟩

/-- A new mutator. -/
theorem consistent_create {config : Config} {system : System}
    (hc : create config system = .ok m) : m.Consistent := by
  obtain ⟨h, h', obj, hh, hr, rfl⟩ := create_eq_ok hc
  obtain ⟨hw, hempty, _⟩ := Heap.wellFormed_create hh
  have ha := (Heap.alloc_ends hw ModelType.nil.tag 0).of_ok hr
  obtain ⟨hm, hzero⟩ := Heap.modelled_first hh ha
  refine ⟨hzero, ⟨hm, nofun, fun p hp => ?_⟩, nofun, nofun⟩
  obtain ⟨x, spec, hx, hspec, ht⟩ := id hp
  by_cases e : p = obj
  · cases ha.isOf.unique (e ▸ hp)
  · rw [ha.others p e, hempty] at hx
    cases hx

/-- **Every run keeps the invariant.** -/
theorem Reached.consistent (hr : Reached m) : m.Consistent := by
  induction hr with
  | create hc => exact consistent_create hc
  | step c _ ha hl ih => exact (ih.run_ends c ha).leaves hl

/-- No reference that matters dangles, nor does a collection miss an object
or meet a reference that names nothing. -/
structure Sound (m : Mutator) : Prop where
  roots : ∀ p ∈ m.stack.toList ++ m.symbols, m.heap.Proper p
  yields : ∀ p q, q ∈ m.heap.refsOf m.tracer p → m.heap.Proper q
  complete : m.heap.BarrierComplete m.tracer
  collects : ∀ level, ∃ report m', collect level m = .ok report m'
  /-- Nor does a command in a collection of its own. -/
  noStray : ∀ c : Command, (∀ p ∈ c.args, m.heap.Proper p) →
    ∀ p m', c.run m ≠ .error (.fault (.strayReference p)) m'

theorem Consistent.sound (hc : m.Consistent) : m.Sound where
  roots := hc.serves.proper
  yields := (hc.serves.closed.retrace rfl rfl : m.heap.Closed m.tracer).yields
  complete := (hc.serves.closed.retrace rfl rfl : m.heap.Closed m.tracer).complete
  collects level := by
    obtain ⟨report, m', hrun, _⟩ := (collect_ends hc.serves level).returns
    exact ⟨report, m', hrun⟩
  noStray c ha p m' he := by
    have hends := hc.run_ends c ha
    rw [he] at hends
    exact hends p rfl

/-- **In all runs** every root is proper, as is every reference that an
allocated object yields, and whatever yields a younger object is in the
old-to-new set; so no collection meets a stray reference. -/
theorem sound_of_reached (hr : Reached m) : m.Sound := hr.consistent.sound

/-- A pair is collected, and its slot used again for one that a symbol
keeps. The mutator collects by itself only in the second half. -/
theorem sound_after_reuse : ∃ m : Mutator, m.Reached ∧ m.symbols = [⟨128⟩] ∧
    m.stack.toList = [⟨64⟩] ∧ m.heap.generationOf ⟨65⟩ = .ok .one ∧ m.Sound := by
  have hrun : (match create Heap.smallConfig .standard with
      | .error _ => none
      | .ok m => (perform [.setAutoCollect false, .pair ⟨0⟩ ⟨0⟩, .pushRoot ⟨64⟩, .pair ⟨0⟩ ⟨0⟩,
          .symbol 3, .collect .zero, .setAutoCollect true, .pair ⟨64⟩ ⟨0⟩,
          .setSymbolValue ⟨128⟩ ⟨65⟩, .setCar ⟨64⟩ ⟨65⟩, .collect .zero] m).map fun m =>
            (m.symbols, m.stack.toList, m.heap.generationOf ⟨65⟩)) =
      some ([⟨128⟩], [⟨64⟩], .ok .one) := by
    decide +kernel
  cases hc : create Heap.smallConfig .standard with
  | error e =>
    rw [hc] at hrun
    cases hrun
  | ok m₀ =>
    simp only [hc] at hrun
    obtain ⟨m, hm, he⟩ := Option.map_eq_some_iff.mp hrun
    have hr : m.Reached := (Reached.create hc).perform hm
    exact ⟨m, hr, congrArg Prod.fst he, congrArg (fun e => e.2.1) he,
      congrArg (fun e => e.2.2) he, sound_of_reached hr⟩

end Mutator

end SegmentedHeap
