/-
SegmentedHeap.Proofs.GuardedMutator — a mutator that asks before it
touches an object.

The operations are written once more so that each asks for an object to be
there whenever a reference to it is used: read, made a root, stored to or
stored. A constructor asks again after its allocation, which may have
collected, and so does every store after the first. Handed references to
objects, each operation comes to the same as the one that does not ask:
what is pinned is still there when it is stored.

* `demand` — the question.
* `guardedPair`, … — the operations with the questions.
* `Holding` — what the questions rest on between two stores.
* `guardedPair_eq`, … — **asking makes no difference**.
-/
import SegmentedHeap.Proofs.Nodes

namespace SegmentedHeap

namespace Mutator

open Model

/-! ## Operations that ask -/

/-- A fault unless the reference names an object. -/
def demand (obj : ObjRef) : MutatorM Unit := do
  if !(← get).heap.isAllocated obj then throw (.fault .unallocated)

def guardedStore (source : ObjRef) (field : Nat) (target : ObjRef) : MutatorM Unit := do
  demand source
  demand target
  onHeap (Heap.writeRef source field target)

def guardedFill (obj : ObjRef) (start : Nat) (bytes : List UInt8) : MutatorM Unit := do
  demand obj
  onHeap (Heap.setBytes obj start bytes)

/-- The allocation makes roots of what is pinned. -/
def guardedAlloc (type : ModelType) (length : Nat) (pinned : List ObjRef) : MutatorM ObjRef := do
  pinned.forM demand
  alloc type length pinned

def guardedPair (car cdr : ObjRef) : MutatorM ObjRef := do
  let obj ← guardedAlloc .pair 0 [car, cdr]
  guardedStore obj 0 car
  guardedStore obj 1 cdr
  return obj

def guardedCell (value : ObjRef) (n : Int64) : MutatorM ObjRef := do
  let obj ← guardedAlloc .cell 0 [value]
  guardedStore obj 0 value
  guardedFill obj numberOffset (LittleEndian.encode 8 n.toUInt64.toNat)
  return obj

def guardedIntVec (values : List Int64) : MutatorM ObjRef := do
  let obj ← guardedAlloc .intVec values.length []
  guardedFill obj 0 (values.flatMap fun v => LittleEndian.encode 8 v.toUInt64.toNat)
  return obj

def guardedVector (length : Nat) : MutatorM ObjRef := do
  let obj ← guardedAlloc .vector length []
  let nil := (← get).nil
  (List.range length).forM fun i => guardedStore obj i nil
  return obj

/-- An interned symbol is a root. -/
def guardedSymbol (id : UInt64) : MutatorM ObjRef := do
  match (← get).interned.lookup id with
  | some sym =>
    demand sym
    return sym
  | none =>
    let sym ← guardedAlloc .symbol 1 []
    guardedStore sym 0 (← get).nil
    guardedFill sym numberOffset (LittleEndian.encode 8 id.toNat)
    demand sym
    modify (·.intern id sym)
    return sym

/-- The check of the index reads the length. -/
def guardedVectorSet (vector : ObjRef) (index : Nat) (value : ObjRef) : MutatorM Unit := do
  demand vector
  match (← get).checkIndex vector index with
  | .error e => throw e
  | .ok () => guardedStore vector index value

def guardedPushRoot (obj : ObjRef) : MutatorM Unit := do
  demand obj
  pushRoot obj

def guardedSetRoot (index : Nat) (obj : ObjRef) : MutatorM Unit := do
  demand obj
  setRoot index obj

def guardedRoot (index : Nat) : MutatorM ObjRef := do
  let obj ← ask (·.root index)
  demand obj
  return obj

def guardedTypeOf (obj : ObjRef) : MutatorM TypeTag := do
  demand obj
  ask (·.heap.typeOf obj)

def guardedVectorLength (vector : ObjRef) : MutatorM Nat := do
  demand vector
  ask (·.vectorLength vector)

/-! ## What is asked for is there -/

variable {α : Type} {m m' : Mutator} {kept objs : List ObjRef} {obj p source target : ObjRef}
  {v : ObjectView} {node : Node ObjRef}

theorem demand_eq (ha : m.heap.isAllocated obj = true) : demand obj m = .ok () m := by
  rw [demand, get_bind_eq, ha]
  rfl

theorem demand_bind {f : Unit → MutatorM α} (ha : m.heap.isAllocated obj = true) :
    (demand obj >>= f) m = f () m :=
  bind_of_ok (demand_eq ha)

theorem demand_forM (ha : ∀ p ∈ objs, m.heap.isAllocated p = true) :
    (objs.forM demand : MutatorM Unit) m = .ok () m := by
  induction objs with
  | nil => rfl
  | cons p objs ih =>
    exact (demand_bind (ha p List.mem_cons_self)).trans
      (ih fun q hq => ha q (List.mem_cons_of_mem p hq))

theorem guardedAlloc_eq (hk : ∀ p ∈ kept, m.heap.isAllocated p = true) (type : ModelType)
    (length : Nat) : guardedAlloc type length kept m = alloc type length kept m :=
  bind_of_ok (demand_forM hk)

theorem guardedStore_eq (hs : m.heap.isAllocated source = true)
    (ht : m.heap.isAllocated target = true) (field : Nat) :
    guardedStore source field target m = onHeap (Heap.writeRef source field target) m := by
  rw [guardedStore, demand_bind hs, demand_bind ht]

theorem guardedFill_eq (ha : m.heap.isAllocated obj = true) (start : Nat) (bytes : List UInt8) :
    guardedFill obj start bytes m = onHeap (Heap.setBytes obj start bytes) m :=
  demand_bind ha

/-- The objects are there. -/
structure Holding (objs : List ObjRef) (m : Mutator) : Prop where
  wellFormed : m.heap.WellFormed
  isAllocated : ∀ p ∈ objs, m.heap.isAllocated p = true

theorem Holding.sameObjects {h' : Heap} (hm : Holding objs m) (hw : h'.WellFormed)
    (hs : Heap.SameObjects m.heap h') : Holding objs (m.withHeap h') := by
  refine ⟨hw, fun p hp => ?_⟩
  obtain ⟨x, hx⟩ := hm.wellFormed.isAllocated_iff_lookup.mp (hm.isAllocated p hp)
  exact hw.isAllocated_iff_lookup.mpr (hs.isSome hx)

/-- No object goes by a store. -/
theorem Holding.store (hm : Holding objs m) (source : ObjRef) (field : Nat) (target : ObjRef) :
    Ends (onHeap (Heap.writeRef source field target) m) (fun _ => Holding objs) (fun _ _ => True)
      fun _ => True :=
  (onHeap_ends (Heap.writeRef_ends hm.wellFormed source field target)).mono
    (fun _ _ hd => by
      obtain ⟨h', rfl, hd⟩ := hd
      exact hm.sameObjects hd.wellFormed hd.sameObjects)
    (fun _ _ _ => trivial) fun _ _ => trivial

theorem Holding.fill (hm : Holding objs m) (obj : ObjRef) (start : Nat) (bytes : List UInt8) :
    Ends (onHeap (Heap.setBytes obj start bytes) m) (fun _ => Holding objs) (fun _ _ => True)
      fun _ => True :=
  (onHeap_ends (Heap.setBytes_ends hm.wellFormed obj start bytes)).mono
    (fun _ _ hd => by
      obtain ⟨h', rfl, x, hx, _, hw, hd, _⟩ := hd
      exact hm.sameObjects hw (hd.sameObjects hx rfl))
    (fun _ _ _ => trivial) fun _ _ => trivial

/-- What is guarded is there after an allocation, and the new object. -/
theorem Making.holding (hm : m.Making kept obj v m') (hf : m.heap.Formed)
    (hg : ∀ p ∈ objs, m.Guards kept p ∧ m.heap.isAllocated p = true) :
    Holding (obj :: objs) m' := by
  obtain ⟨h', rfl, hw', hsaves, _, hv⟩ := hm
  refine ⟨hw', List.forall_mem_cons.mpr ⟨?_, fun p hp => ?_⟩⟩
  · exact (Heap.isAllocated_iff_view? hw'.toFormed).mpr ⟨v, hv⟩
  · exact hsaves.isAllocated hf hw'.toFormed (hg p hp).1 (hg p hp).2

theorem guards_of_root (ha : m.heap.isAllocated p = true) (hp : p ∈ (m.pushed kept).tracer.roots) :
    m.Guards kept p := Or.inl (.root hp ha)

/-- Nil is there. -/
theorem Consistent.isAllocated_nil (hc : m.Consistent) : m.heap.isAllocated m.nil = true := by
  obtain ⟨x, _, hx, _⟩ := hc.serves.nil
  rw [hc.nil]
  exact hc.serves.wellFormed.isAllocated_iff_lookup.mpr ⟨x, hx⟩

theorem Consistent.isAllocated_of_lookup (hc : m.Consistent) {id : UInt64} {sym : ObjRef}
    (hl : m.interned.lookup id = some sym) : m.heap.isAllocated sym = true :=
  hc.isAllocated_symbol (hc.tabled id sym hl)

/-- What an allocation leaves for the stores after it. -/
theorem alloc_holding (hr : m.Ready) (hk : ∀ p ∈ kept, m.heap.isAllocated p = true)
    (type : ModelType) (length : Nat) (hlength : ∀ n, type.lengthRule = .constant n → length = n) :
    Ends (alloc type length kept m)
      (fun obj m' => Holding (obj :: m.nil :: kept) m' ∧ m'.nil = m.nil)
      (fun _ _ => True) fun _ => True := by
  refine (alloc_saves hr.serves hr.suited (fun p hp => Or.inr (hk p hp)) type length hlength).mono
    (fun obj m' hd => ?_) (fun _ _ _ => trivial) fun _ _ => trivial
  obtain ⟨v, hmade, _⟩ := hd
  refine ⟨hmade.holding hr.serves.formed (List.forall_mem_cons.mpr
    ⟨⟨Or.inr hr.nil, hr.isAllocated_nil⟩, fun p hp =>
      ⟨guards_of_root (hk p hp) (mem_pushed_roots.mpr (Or.inl hp)), hk p hp⟩⟩), ?_⟩
  obtain ⟨h', rfl, _⟩ := hmade
  rfl

/-! ## Constructors -/

section

variable (hr : m.Ready)
include hr

theorem guardedPair_eq {car cdr : ObjRef} (hk : ∀ p ∈ [car, cdr], m.heap.isAllocated p = true) :
    guardedPair car cdr m = pair car cdr m := by
  refine (alloc_holding hr hk .pair 0 nofun).bind_congr (guardedAlloc_eq hk _ _)
    fun obj m₁ hm₁ => ?_
  obtain ⟨hm₁, _⟩ := hm₁
  refine (hm₁.store obj 0 car).bind_congr
    (guardedStore_eq (hm₁.isAllocated obj (by simp)) (hm₁.isAllocated car (by simp)) 0)
    fun _ m₂ hm₂ => ?_
  exact (hm₂.store obj 1 cdr).bind_congr
    (guardedStore_eq (hm₂.isAllocated obj (by simp)) (hm₂.isAllocated cdr (by simp)) 1)
    fun _ _ _ => rfl

theorem guardedCell_eq {value : ObjRef} (hk : ∀ p ∈ [value], m.heap.isAllocated p = true)
    (n : Int64) : guardedCell value n m = cell value n m := by
  refine (alloc_holding hr hk .cell 0 nofun).bind_congr (guardedAlloc_eq hk _ _)
    fun obj m₁ hm₁ => ?_
  obtain ⟨hm₁, _⟩ := hm₁
  refine (hm₁.store obj 0 value).bind_congr
    (guardedStore_eq (hm₁.isAllocated obj (by simp)) (hm₁.isAllocated value (by simp)) 0)
    fun _ m₂ hm₂ => ?_
  exact bind_congr_left (guardedFill_eq (hm₂.isAllocated obj (by simp)) _ _)

theorem guardedIntVec_eq (values : List Int64) : guardedIntVec values m = intVec values m := by
  have hk : ∀ p ∈ [], m.heap.isAllocated p = true := List.forall_mem_nil _
  refine (alloc_holding hr hk .intVec values.length nofun).bind_congr (guardedAlloc_eq hk _ _)
    fun obj m₁ hm₁ => ?_
  exact bind_congr_left (guardedFill_eq (hm₁.1.isAllocated obj (by simp)) _ _)

theorem guardedVector_eq (length : Nat) : guardedVector length m = vector length m := by
  have hk : ∀ p ∈ [], m.heap.isAllocated p = true := List.forall_mem_nil _
  refine (alloc_holding hr hk .vector length nofun).bind_congr (guardedAlloc_eq hk _ _)
    fun obj m₁ hm₁ => ?_
  obtain ⟨hm₁, hnil⟩ := hm₁
  rw [get_bind_eq, get_bind_eq, hnil]
  refine bind_congr_left (Ends.forM_congr hm₁ (fun i m₂ hm₂ => hm₂.store obj i m.nil)
    fun i _ m₂ hm₂ => ?_)
  exact guardedStore_eq (hm₂.isAllocated obj (by simp)) (hm₂.isAllocated m.nil (by simp)) i

theorem guardedSymbol_eq (id : UInt64) : guardedSymbol id m = symbol id m := by
  rw [guardedSymbol, symbol, get_bind_eq, get_bind_eq]
  cases hl : m.interned.lookup id with
  | some sym => exact demand_bind (hr.isAllocated_of_lookup hl)
  | none =>
    have hk : ∀ p ∈ [], m.heap.isAllocated p = true := List.forall_mem_nil _
    refine (alloc_holding hr hk .symbol 1 fun _ e => LengthRule.constant.inj e).bind_congr
      (guardedAlloc_eq hk _ _) fun sym m₁ hm₁ => ?_
    obtain ⟨hm₁, hnil⟩ := hm₁
    rw [get_bind_eq, get_bind_eq, hnil]
    refine (hm₁.store sym 0 m.nil).bind_congr
      (guardedStore_eq (hm₁.isAllocated sym (by simp)) (hm₁.isAllocated m.nil (by simp)) 0)
      fun _ m₂ hm₂ => ?_
    refine (hm₂.fill sym _ _).bind_congr (guardedFill_eq (hm₂.isAllocated sym (by simp)) _ _)
      fun _ m₃ hm₃ => ?_
    exact demand_bind (hm₃.isAllocated sym (by simp))

end

/-! ## Stores and roots -/

theorem guardedVectorSet_eq (hv : m.heap.isAllocated source = true)
    (ht : m.heap.isAllocated target = true) (index : Nat) :
    guardedVectorSet source index target m = vectorSet source index target m := by
  rw [guardedVectorSet, demand_bind hv, vectorSet, get_bind_eq, get_bind_eq]
  cases m.checkIndex source index with
  | error e => rfl
  | ok _ => exact guardedStore_eq hv ht index

theorem guardedPushRoot_eq (ha : m.heap.isAllocated obj = true) :
    guardedPushRoot obj m = pushRoot obj m := demand_bind ha

theorem guardedSetRoot_eq (ha : m.heap.isAllocated obj = true) (index : Nat) :
    guardedSetRoot index obj m = setRoot index obj m := demand_bind ha

theorem guardedRoot_eq {index : Nat} (hroot : m.root index = .ok obj)
    (ha : m.heap.isAllocated obj = true) : guardedRoot index m = ask (·.root index) m := by
  have hask : ask (·.root index) m = .ok obj m := by simp only [ask, hroot]
  rw [guardedRoot, bind_of_ok hask, demand_bind ha, hask]
  rfl

theorem guardedTypeOf_eq (ha : m.heap.isAllocated obj = true) :
    guardedTypeOf obj m = ask (·.heap.typeOf obj) m := demand_bind ha

theorem guardedVectorLength_eq (ha : m.heap.isAllocated obj = true) :
    guardedVectorLength obj m = ask (·.vectorLength obj) m := demand_bind ha

end Mutator

end SegmentedHeap
