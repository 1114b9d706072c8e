/-
SegmentedHeap.Proofs.Adequacy — the size classes of the model are
adequate.

The sizes of kinds are such that every object has room for its data. To a
program that comes to three things. Its constructors are refused for want
of room or for a size only; if no reference that it hands over dangles
they meet no fault either. Every object, whatever its bytes are, shows a
node of its type, and so answers all questions for that type. And each of
its fields takes any reference.

* `Blank.shows` — an object shows a node.
* `ends_constructor` — constructors where no reference dangles.
* `Takes` — stores in fields.
* `size_classes_adequate` — **all of it together**.
-/
import SegmentedHeap.Proofs.Fitting
import SegmentedHeap.Proofs.Lists

namespace SegmentedHeap

open Model

/-! ## Objects and the nodes that they show -/

/-- What holds at the one place of a list. -/
theorem forall_singleton {α : Type} {a : α} {P : Nat → α → Prop} (h : P 0 a) (i : Nat) (b : α)
    (hb : [a][i]? = some b) : P i b := by
  cases i with
  | zero =>
    cases hb
    exact h
  | succ i => cases hb

/-- What holds at each place of a list that is counted out. -/
theorem forall_map_range {α : Type} {n : Nat} {f : Nat → α} {P : Nat → α → Prop}
    (h : ∀ i, i < n → P i (f i)) (i : Nat) (b : α)
    (hb : ((List.range n).map f)[i]? = some b) : P i b := by
  obtain ⟨hlt, rfl⟩ := List.getElem?_eq_some_iff.mp hb
  rw [List.length_map, List.length_range] at hlt
  rw [List.getElem_map, List.getElem_range]
  exact h i hlt

namespace ObjectView

variable {v : ObjectView} {type : ModelType} {n i : Nat}

theorem Blank.exists_ref (hb : v.Blank type n) (hi : i < type.fieldCount (type.lengthOf n)) :
    ∃ r, v.ref? i = some r :=
  Heap.ref?_eq_some.mpr (hb.fieldRoom (hb.length ▸ hi))

theorem exists_word (start : Nat) (h : start + 8 ≤ v.capacity) : ∃ w, v.word? start = some w :=
  ⟨_, if_pos h⟩

/-- **An object shows a node of its type**, whatever its bytes are. -/
theorem Blank.shows (hb : v.Blank type n) :
    ∃ node : Node ObjRef, node.type = type ∧ v.Shows node := by
  cases type with
  | nil =>
    exact ⟨.nil, rfl, hb.tag, hb.length, fun _ _ h => (by cases h), fun _ _ h => (by cases h)⟩
  | symbol =>
    obtain ⟨r, hr⟩ := hb.exists_ref (i := 0) Nat.one_pos
    obtain ⟨w, hw⟩ := exists_word numberOffset hb.room
    exact ⟨.symbol w r, rfl, hb.tag, hb.length, forall_singleton hr, forall_singleton hw⟩
  | cell =>
    obtain ⟨r, hr⟩ := hb.exists_ref (i := 0) Nat.one_pos
    obtain ⟨w, hw⟩ := exists_word numberOffset hb.room
    refine ⟨.cell r w.toInt64, rfl, hb.tag, hb.length, forall_singleton hr, forall_singleton ?_⟩
    rw [UInt64.toUInt64_toInt64]
    exact hw
  | pair =>
    obtain ⟨car, hcar⟩ := hb.exists_ref (i := 0) Nat.two_pos
    obtain ⟨cdr, hcdr⟩ := hb.exists_ref (i := 1) Nat.one_lt_two
    refine ⟨.pair car cdr, rfl, hb.tag, hb.length, fun i r hi => ?_, fun _ _ h => (by cases h)⟩
    match i with
    | 0 =>
      cases hi
      exact hcar
    | 1 =>
      cases hi
      exact hcdr
    | i + 2 => cases hi
  | vector =>
    refine ⟨.vector ((List.range n).map fun i => (v.ref? i).getD .null), rfl, hb.tag, ?_,
      forall_map_range fun i hi => ?_, fun _ _ h => (by cases h)⟩
    · rw [hb.length]
      simp [Node.length, Node.type]
    · obtain ⟨r, hr⟩ := hb.exists_ref (i := i) hi
      rw [hr, Option.getD_some]
  | intVec =>
    have hroom : n * 8 ≤ v.capacity := hb.payload_le
    refine ⟨.intVec ((List.range n).map fun i => ((v.word? (i * 8)).getD 0).toInt64), rfl, hb.tag,
      ?_, fun _ _ h => (by cases h), ?_⟩
    · rw [hb.length]
      simp [Node.length, Node.type]
    · rw [Node.words, List.map_map]
      refine forall_map_range fun i hi => ?_
      obtain ⟨w, hw⟩ := exists_word (v := v) (i * 8) (by omega)
      rw [show (Node.intVec _ : Node ObjRef).type.wordsAt = 0 from rfl, Nat.zero_add, hw]
      simp [hw]

end ObjectView

namespace Mutator

variable {m m' : Mutator} {p target : ObjRef} {type : ModelType} {v : ObjectView}
  {node : Node ObjRef}

/-! ## Stores -/

/-- The store takes any reference, unless not even its segment is there. -/
def Stores (m : Mutator) (store : ObjRef → MutatorM Unit) : Prop :=
  ∀ target, Ends (store target m) (fun _ _ => True) (fun _ _ => False)
    fun f => f = .unreserved target.segment ∧ ¬ m.heap.Proper target

/-- All the stores for a type take references. -/
def Takes (m : Mutator) (p : ObjRef) (node : Node ObjRef) : Prop :=
  match node with
  | .nil | .intVec _ => True
  | .symbol _ _ => m.Stores (setSymbolValue p)
  | .pair _ _ => m.Stores (setCar p) ∧ m.Stores (setCdr p)
  | .cell _ _ => m.Stores (setCellValue p)
  | .vector elements => ∀ i, i < elements.length → m.Stores (vectorSet p i)

theorem stores_of_shows (hg : m.Grounded) (hv : m.heap.view? p = some v) (hs : v.Shows node)
    {i : Nat} (hi : i < node.refs.length) :
    m.Stores fun target => onHeap (Heap.writeRef p i target) := by
  intro target
  obtain ⟨x, _, hx, _, rfl⟩ := (Heap.view?_eq_some hg.reachable.wellFormed.toFormed).mp hv
  have hf : Furnishing p x.bytes.length m := ⟨hg, x, hx, Nat.le_refl _⟩
  exact (hf.storeRef (hs.room hi) target).imp fun _ _ _ => trivial

/-- **An object takes references** in all fields of the node that it
shows. -/
theorem takes_of_shows (hg : m.Grounded) (hv : m.heap.view? p = some v) (hs : v.Shows node) :
    m.Takes p node := by
  have hstores : ∀ i, i < node.refs.length →
      m.Stores fun target => onHeap (Heap.writeRef p i target) := fun _ hi =>
    stores_of_shows hg hv hs hi
  cases node with
  | nil | intVec => trivial
  | symbol => exact hstores 0 Nat.one_pos
  | cell => exact hstores 0 Nat.one_pos
  | pair => exact ⟨hstores 0 Nat.two_pos, hstores 1 Nat.one_lt_two⟩
  | vector elements =>
    intro i hi target
    have hlength : m.vectorLength p = .ok elements.length :=
      (agrees_of_shows hg.reachable.wellFormed.toFormed hv hs).answers.1
    rw [vectorSet_eq hlength, if_neg (Nat.not_le.mpr hi)]
    exact hstores i hi target

/-! ## Constructors where no reference dangles -/

/-- **A constructor that is handed proper references** returns, or is
refused for a size. -/
theorem ends_constructor (hr : m.Ready) {c : Command} (hc : c.constructs = true)
    (ha : ∀ p ∈ c.args, m.heap.Proper p) :
    Ends (c.run m) (fun _ _ => True) (fun e _ => e.OfSize) (fun _ => False) := by
  have hmake : ∀ {act : MutatorM ObjRef} {kept : List ObjRef} {node : Node ObjRef},
      Ends (act m) (m.Constructs kept node) (m.Short kept) (fun _ => False) →
      Ends ((do let _ ← act : MutatorM Unit) m) (fun _ _ => True) (fun e _ => e.OfSize)
        (fun _ => False) := fun h =>
    Ends.bind (h.mono (fun _ _ h => h) (fun _ _ h => h.1) fun _ h => h) fun _ _ _ => trivial
  cases c with
  | symbol id =>
    exact Ends.bind ((symbol_shows hr id).mono (fun _ _ h => h) (fun _ _ h => h.2.1) fun _ h => h)
      fun _ _ _ => trivial
  | intVec values => exact hmake (intVec_shows hr values)
  | pair car cdr => exact hmake (pair_shows hr ha)
  | cell value n => exact hmake (cell_shows hr ha n)
  | vector length => exact hmake (vector_shows hr length)
  | list items =>
    exact Ends.bind ((list_shows hr ha).mono (fun _ _ h => h) (fun _ _ h => h.1) fun _ h => h)
      fun _ _ _ => trivial
  | setCar | setCdr | setCellValue | setSymbolValue | vectorSet => cases hc
  | pushRoot | popRoot | setRoot | truncateRoots | setAutoCollect | collect => cases hc

/-! ## All together -/

/-- What adequate sizes come to for a mutator. -/
structure Fitted (m : Mutator) : Prop where
  /-- A new object has the chunks of its kind, and with these room for its
  data. Another length than the one that all objects of a type have is
  refused as such, and any other request for its size only. -/
  allocates : ∀ type length kept, Ends (alloc type length kept m)
    (fun obj m' => ∃ v, m'.heap.view? obj = some v ∧
      v.Housed m.heap.config.chunkBytes type length ∧ type.payload length ≤ v.capacity)
    (fun e _ => (∀ n, type.lengthRule = .constant n → length = n) → e.OfSize) Fault.Stale
  /-- A constructor is refused for a size only, whatever it is given, and
  does not go past its object. -/
  constructs : ∀ c : Command, c.constructs = true →
    Ends (c.run m) (fun _ _ => True) (fun e _ => e.OfSize) Fault.Stale
  /-- It meets no fault if the program never hands over what dangles. -/
  returns : m.Reached → ∀ c : Command, c.constructs = true →
    (∀ p ∈ c.args, m.heap.Proper p) →
    Ends (c.run m) (fun _ _ => True) (fun e _ => e.OfSize) (fun _ => False)
  /-- An object has a type, and for that type it answers every question
  and takes every store. -/
  objects : ∀ p, m.heap.isAllocated p = true → ∃ node, m.Agrees p node ∧ m.Takes p node

theorem Driven.fitted (hd : m.Driven) : m.Fitted := by
  have hg := hd.grounded
  refine ⟨fun type length kept => ?_, fun c hc => ?_, fun hr c hc ha => ?_, fun p hp => ?_⟩
  · refine (alloc_housed hg type length kept).imp fun obj m' hnew => ?_
    obtain ⟨_, v, hv, hhoused⟩ := hnew
    exact ⟨v, hv, hhoused, hhoused.payload_le⟩
  · exact (fits_run hg hc).imp fun _ _ _ => trivial
  · exact ends_constructor hr.ready hc ha
  · have hf := hg.reachable.wellFormed.toFormed
    obtain ⟨v, hv⟩ := (Heap.isAllocated_iff_view? hf).mp hp
    obtain ⟨type, n, hb⟩ := hg.shaped p v hv
    obtain ⟨node, _, hs⟩ := hb.shows
    exact ⟨node, agrees_of_shows hf hv hs, takes_of_shows hg hv hs⟩

/-- **The size classes are adequate.** For all chunks of eight bytes or
more the layout gives every type and length a kind of that type, of the
least size that is enough, with no less room for a longer object. And so
no constructor of a mutator goes past what it allocates, nor does any
question about an object or any store to it go past the object. -/
theorem size_classes_adequate {chunkBytes : Nat} (hmin : 8 ≤ chunkBytes) (hd : m.Driven) :
    Adequate chunkBytes ∧ m.Fitted :=
  ⟨adequate hmin, hd.fitted⟩

/-- A cell takes two chunks of eight bytes, and a vector of twenty elements
is a big object. -/
theorem size_classes_adequate_small : ∃ m : Mutator, m.Driven ∧
    m.heap.typeOf ⟨64⟩ = .ok ModelType.cell.tag ∧ m.heap.capacity ⟨64⟩ = .ok 16 ∧
    m.heap.typeOf ⟨128⟩ = .ok ModelType.vector.tag ∧ m.heap.capacity ⟨128⟩ = .ok 80 ∧
    Adequate 8 ∧ m.Fitted := by
  have hrun : ((create Heap.smallConfig .standard).toOption.bind
      (perform [.cell ⟨0⟩ (-5), .vector 20])).map (fun m => (m.heap.typeOf ⟨64⟩,
        m.heap.capacity ⟨64⟩, m.heap.typeOf ⟨128⟩, m.heap.capacity ⟨128⟩)) =
      some (.ok ModelType.cell.tag, .ok 16, .ok ModelType.vector.tag, .ok 80) := by
    decide +kernel
  obtain ⟨m, hm, hfacts⟩ := Option.map_eq_some_iff.mp hrun
  obtain ⟨m₀, hcreate, hperform⟩ := Option.bind_eq_some_iff.mp hm
  simp only [Prod.mk.injEq] at hfacts
  obtain ⟨hcell, hsixteen, hvector, height⟩ := hfacts
  have hr : m.Reached :=
    (Reached.create (eq_ok_of_toOption hcreate)).perform hperform
  exact ⟨m, hr.driven, hcell, hsixteen, hvector, height,
    size_classes_adequate (by decide) hr.driven⟩

end Mutator

end SegmentedHeap
