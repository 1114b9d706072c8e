/-
SegmentedHeap.Proofs.Constructors — making objects and storing in them.

After its allocation a constructor only stores: references that it kept
as roots, or nil, and numbers past the fields that hold references. No
object comes or goes by a store, so all that the heap served it still
serves. A list is built from its end, each pair being a root from then
on.

* `storeRef_ends`, `storeBytes_ends` — the stores.
* `pair_ends`, `cell_ends`, `intVec_ends`, `vector_ends`, `symbol_ends`,
  `list_ends` — **the constructors**.
* `vectorSet_ends` — the one store whose index is checked.
-/
import SegmentedHeap.Proofs.Mutator

namespace SegmentedHeap

namespace Mutator

open Model

variable {m m' : Mutator} {kept roots symbols : List ObjRef} {obj source target : ObjRef}
  {type : ModelType} {field : Nat}

/-! ## Stores -/

/-- **A proper reference is stored**, unless there is no such field. -/
theorem storeRef_ends (hs : m.heap.Serves roots symbols) (ht : m.heap.Proper target)
    (source : ObjRef) (field : Nat) :
    Ends (onHeap (Heap.writeRef source field target) m)
      (fun _ m' => ∃ h', m' = m.withHeap h' ∧ h'.Serves roots symbols ∧
        Heap.SameObjects m.heap h')
      (fun _ m' => m' = m ∧
        ∀ x, m.heap.lookup source = some x → x.bytes.length < field * refBytes + refBytes)
      NoStray := by
  refine (onHeap_ends (Heap.writeRef_ends hs.wellFormed source field target)).mono
    (fun _ m' hd => ?_) (fun _ m' hd => ?_) fun f hf p e => ?_
  · obtain ⟨h', rfl, hw⟩ := hd
    have hsame := hw.sameObjects
    exact ⟨h', rfl, hs.sameObjects (hs.toModelled.written ht hw) hsame, hsame⟩
  · obtain ⟨h', rfl, rfl, hn⟩ := hd
    exact ⟨rfl, hn⟩
  · rw [hf.1] at e
    cases e

/-- **Bytes are stored** past the fields of an object. -/
theorem storeBytes_ends (hs : m.heap.Serves roots symbols) (hobj : m.heap.IsOf type obj)
    {start : Nat} (hstart : ∀ length, type.fieldCount length * refBytes ≤ start)
    (bytes : List UInt8) :
    Ends (onHeap (Heap.setBytes obj start bytes) m)
      (fun _ m' => ∃ h', m' = m.withHeap h' ∧ h'.Serves roots symbols ∧
        Heap.SameObjects m.heap h')
      (fun _ _ => False) NoStray := by
  refine (onHeap_ends (Heap.setBytes_ends hs.wellFormed obj start bytes)).mono
    (fun _ m' hd => ?_) (fun _ _ hd => ?_) fun f hf p e => ?_
  · obtain ⟨h', rfl, x, hx, hroom, hw, hd, _⟩ := hd
    have hm := hs.toModelled.overwritten hobj hstart hx hroom hw hd
    exact ⟨h', rfl, hs.sameObjects hm (hd.sameObjects hx rfl), hd.sameObjects hx rfl⟩
  · obtain ⟨_, _, hn⟩ := hd
    exact hn
  · rcases hf with ⟨hf, _⟩ | ⟨hf, _⟩ <;> rw [hf] at e <;> cases e

theorem Made.proper {p : ObjRef} (hm : m.Made kept symbols type obj m') (hp : p ∈ obj :: kept) :
    m'.heap.Proper p := by
  obtain ⟨h', rfl, hs, _⟩ := hm
  exact hs.proper p (List.mem_append_left m.tracer.roots hp)

theorem Made.proper_nil (hm : m.Made kept symbols type obj m') (hn : m.nil = ⟨0⟩) :
    m'.heap.Proper m.nil := by
  obtain ⟨h', rfl, hs, _⟩ := hm
  exact hn ▸ hs.proper_nil

/-- A constructor stores a reference. -/
theorem Made.storeRef (hm : m.Made kept m.symbols type obj m') (ht : m'.heap.Proper target)
    (field : Nat) :
    Ends (onHeap (Heap.writeRef obj field target) m') (fun _ => m.Made kept m.symbols type obj)
      (fun _ => m.Retains kept m.symbols) NoStray := by
  have hfailed := hm.failed
  obtain ⟨h', rfl, hs, hobj⟩ := hm
  refine (storeRef_ends hs ht obj field).mono
    (fun _ m'' hd => ?_) (fun _ m'' hd => ?_) fun _ hf => hf
  · obtain ⟨h₂, rfl, hs₂, hsame⟩ := hd
    exact ⟨h₂, rfl, hs₂, hsame.isOf_iff.mpr hobj⟩
  · rw [hd.1]
    exact hfailed

/-- A constructor stores a number. -/
theorem Made.storeBytes (hm : m.Made kept symbols type obj m') {start : Nat}
    (hstart : ∀ length, type.fieldCount length * refBytes ≤ start) (bytes : List UInt8) :
    Ends (onHeap (Heap.setBytes obj start bytes) m') (fun _ => m.Made kept symbols type obj)
      (fun _ _ => False) NoStray := by
  obtain ⟨h', rfl, hs, hobj⟩ := hm
  refine (storeBytes_ends hs hobj hstart bytes).imp fun _ m'' hd => ?_
  obtain ⟨h₂, rfl, hs₂, hsame⟩ := hd
  exact ⟨h₂, rfl, hs₂, hsame.isOf_iff.mpr hobj⟩

/-! ## Constructors -/

theorem pair_ends {car cdr : ObjRef} (hs : m.heap.Serves m.tracer.roots m.symbols)
    (hk : ∀ p ∈ [car, cdr], m.heap.Proper p) :
    Ends (pair car cdr m) (m.Made [car, cdr] m.symbols .pair)
      (fun _ => m.Retains [car, cdr] m.symbols) NoStray := by
  unfold pair
  refine Ends.bind (alloc_ends hs hk .pair 0) fun obj m₁ hm₁ => ?_
  have hm₁ : m.Made [car, cdr] m.symbols .pair obj m₁ := hm₁
  refine Ends.bind (hm₁.storeRef (hm₁.proper (by simp)) 0) fun _ m₂ hm₂ => ?_
  exact Ends.bind (hm₂.storeRef (hm₂.proper (by simp)) 1) fun _ m₃ hm₃ => hm₃

theorem cell_ends {value : ObjRef} (hs : m.heap.Serves m.tracer.roots m.symbols)
    (hk : ∀ p ∈ [value], m.heap.Proper p) (n : Int64) :
    Ends (cell value n m) (m.Made [value] m.symbols .cell)
      (fun _ => m.Retains [value] m.symbols) NoStray := by
  unfold cell
  refine Ends.bind (alloc_ends hs hk .cell 0) fun obj m₁ hm₁ => ?_
  have hm₁ : m.Made [value] m.symbols .cell obj m₁ := hm₁
  refine Ends.bind (hm₁.storeRef (hm₁.proper (by simp)) 0) fun _ m₂ hm₂ => ?_
  have hstart : 1 * refBytes ≤ numberOffset := by decide
  exact Ends.bind (hm₂.storeBytes (fun _ => hstart) _).unrefused fun _ m₃ hm₃ => hm₃

theorem intVec_ends (hs : m.heap.Serves m.tracer.roots m.symbols) (values : List Int64) :
    Ends (intVec values m) (m.Made [] m.symbols .intVec) (fun _ => m.Retains [] m.symbols)
      NoStray := by
  unfold intVec
  refine Ends.bind (alloc_ends hs (by simp) .intVec values.length) fun obj m₁ hm₁ => ?_
  have hm₁ : m.Made [] m.symbols .intVec obj m₁ := hm₁
  exact Ends.bind (hm₁.storeBytes (fun _ => Nat.le_of_eq (Nat.zero_mul _)) _).unrefused
    fun _ m₂ hm₂ => hm₂

theorem vector_ends (hs : m.heap.Serves m.tracer.roots m.symbols) (hn : m.nil = ⟨0⟩)
    (length : Nat) :
    Ends (vector length m) (m.Made [] m.symbols .vector) (fun _ => m.Retains [] m.symbols)
      NoStray := by
  unfold vector
  refine Ends.bind (alloc_ends hs (by simp) .vector length) fun obj m₁ hm₁ => ?_
  have hm₁ : m.Made [] m.symbols .vector obj m₁ := hm₁
  have hnil : m₁.nil = m.nil := by
    obtain ⟨h', rfl, _⟩ := hm₁
    rfl
  refine Ends.get_bind ?_
  refine Ends.bind (Ends.forM (P := m.Made [] m.symbols .vector obj) hm₁ fun i m₂ hm₂ => ?_)
    fun _ m₃ hm₃ => hm₃
  rw [hnil]
  exact hm₂.storeRef (hm₂.proper_nil hn) i

/-- The symbol of an id is new or the one that was there. -/
theorem symbol_ends (hs : m.heap.Serves m.tracer.roots m.symbols) (hn : m.nil = ⟨0⟩)
    (id : UInt64) :
    Ends (symbol id m)
      (fun sym m' => (m' = m ∧ m.interned.lookup id = some sym) ∨
        (m.interned.lookup id = none ∧ ∃ m'', m.Made [] (sym :: m.symbols) .symbol sym m'' ∧
          m' = m''.intern id sym))
      (fun _ => m.Retains [] m.symbols) NoStray := by
  unfold symbol
  refine Ends.get_bind ?_
  cases hl : m.interned.lookup id with
  | some sym => exact Or.inl ⟨rfl, rfl⟩
  | none =>
    refine Ends.bind (alloc_ends hs (by simp) .symbol 1) fun sym m₁ hm₁ => ?_
    have hm₁ : m.Made [] (sym :: m.symbols) .symbol sym m₁ := hm₁
    have hnil := hm₁.proper_nil hn
    obtain ⟨h₁, rfl, hs₁, hsym⟩ := hm₁
    refine Ends.get_bind (Ends.bind ((storeRef_ends hs₁ hnil sym 0).mono (fun _ _ h => h)
      (fun _ m' hd => ?_) fun _ hf => hf) fun _ m₂ hd => ?_)
    · -- a symbol has room for its value
      obtain ⟨x, _, hx, _⟩ := hsym
      have hroom := Nat.le_trans hs₁.room (hs₁.formed.chunkBytes_le_length hx)
      exact absurd (hd.2 x hx) (by omega)
    · obtain ⟨h₂, rfl, hs₂, hsame⟩ := hd
      have hm₂ : m.Made [] (sym :: m.symbols) .symbol sym (m.withHeap h₂) :=
        ⟨h₂, rfl, hs₂, hsame.isOf_iff.mpr hsym⟩
      have hstart : 1 * refBytes ≤ numberOffset := by decide
      refine Ends.bind (hm₂.storeBytes (fun _ => hstart) _).unrefused fun _ m₃ hm₃ => ?_
      obtain ⟨h₃, rfl, hrest⟩ := hm₃
      exact Or.inr ⟨rfl, m.withHeap h₃, ⟨h₃, rfl, hrest⟩, rfl⟩

/-! ## Lists -/

/-- What is pushed on the stack is a root. -/
theorem Made.pushed {above : List ObjRef} {h : Heap}
    (hm : ((m.pushed above).withHeap h).Made kept m.symbols type obj m') :
    ∃ h', { m' with stack := m'.stack.push obj } = (m.pushed (above ++ [obj])).withHeap h' ∧
      h'.Serves (obj :: (m.pushed (above ++ [obj])).tracer.roots) m.symbols := by
  obtain ⟨h', rfl, hs, _⟩ := hm
  refine ⟨h', ?_, hs.mono (fun p hp => ?_) fun _ hp => hp⟩
  · simp [Mutator.pushed, withHeap]
  · rw [List.mem_cons, mem_pushed_roots, List.mem_append, List.mem_singleton] at hp
    rw [List.mem_cons, List.mem_append, tracer_withHeap, mem_pushed_roots]
    rcases hp with rfl | (hp | rfl) | hp
    · exact Or.inl rfl
    · exact Or.inr (Or.inr (Or.inl hp))
    · exact Or.inl rfl
    · exact Or.inr (Or.inr (Or.inr hp))

/-- Items that were pushed first are roots. -/
theorem mem_pushed_append {items above : List ObjRef} {p : ObjRef}
    (hp : p ∈ items ++ m.tracer.roots) : p ∈ (m.pushed (items ++ above)).tracer.roots := by
  rw [mem_pushed_roots, List.mem_append]
  exact (List.mem_append.mp hp).imp_left Or.inl

/-- How far a list is built: its pairs are on the stack, above the items. -/
def Built (m : Mutator) (items : List ObjRef) (list : ObjRef) (m' : Mutator) : Prop :=
  ∃ above h', m' = (m.pushed (items ++ above)).withHeap h' ∧
    h'.Serves (list :: (m.pushed (items ++ above)).tracer.roots) m.symbols

/-- At first it is nil. -/
theorem built_nil {items : List ObjRef} (hs : m.heap.Serves m.tracer.roots m.symbols)
    (hn : m.nil = ⟨0⟩) (hk : ∀ p ∈ items, m.heap.Proper p) :
    m.Built items m.nil (m.pushed items) := by
  refine ⟨[], m.heap, ?_, ?_⟩
  · rw [List.append_nil]
    rfl
  · rw [List.append_nil]
    have hitems := (hs.append hk).mono
      (fun p hp => List.mem_append.mpr (mem_pushed_roots.mp hp)) fun _ hp => hp
    exact hitems.cons (hn ▸ hs.proper_nil)

/-- What the next pair is made of is proper. -/
theorem Built.proper {items : List ObjRef} {item rest : ObjRef} (hb : m.Built items rest m')
    (hi : item ∈ items) : ∀ p ∈ [item, rest], m'.heap.Proper p := by
  obtain ⟨above, h', rfl, hs⟩ := hb
  intro p hp
  refine hs.proper p ?_
  simp only [List.mem_cons, List.not_mem_nil, or_false] at hp
  rcases hp with rfl | rfl
  · exact List.mem_cons_of_mem _ (mem_pushed_append (List.mem_append_left _ hi))
  · exact List.mem_cons_self

/-- The heap serves the roots, with what is built among them. -/
theorem Built.serves {items : List ObjRef} {list : ObjRef} (hb : m.Built items list m') :
    m'.heap.Serves m'.tracer.roots m'.symbols := by
  obtain ⟨above, h', rfl, hs⟩ := hb
  exact hs.mono (fun p hp => List.mem_cons_of_mem _ hp) fun _ hp => hp

/-- **One more pair.** -/
theorem Built.rootedPair {items : List ObjRef} {item rest : ObjRef} (hb : m.Built items rest m')
    (hi : item ∈ items) :
    Ends (Mutator.rootedPair item rest m') (m.Built items)
      (fun _ m'' => ∃ above h', m'' = (m.pushed above).withHeap h' ∧
        h'.Serves (items ++ m.tracer.roots) m.symbols) NoStray := by
  have hk := hb.proper hi
  have hs := hb.serves
  obtain ⟨above, h', rfl, _⟩ := hb
  have hitems : ∀ p, p ∈ items ++ m.tracer.roots → p ∈ (m.pushed (items ++ above)).tracer.roots :=
    fun p hp => mem_pushed_append hp
  unfold Mutator.rootedPair
  refine Ends.bind ((pair_ends hs hk).mono
    (fun _ _ h => h) (fun e m'' hd => ?_) fun _ h => h) fun obj m'' hm => ?_
  · obtain ⟨h₂, rfl, hs₂⟩ := hd
    exact ⟨_, h₂, rfl, hs₂.mono (fun p hp => List.mem_append_right _ (hitems p hp)) fun _ hp => hp⟩
  · obtain ⟨h₂, e, hs₂⟩ := hm.pushed
    refine ⟨above ++ [obj], h₂, ?_, ?_⟩
    · rw [← List.append_assoc]
      exact e
    · rw [← List.append_assoc]
      exact hs₂

/-- **A list** is built, or not; either way its items are still proper. -/
theorem list_ends {items : List ObjRef} (hs : m.heap.Serves m.tracer.roots m.symbols)
    (hn : m.nil = ⟨0⟩) (hk : ∀ p ∈ items, m.heap.Proper p) :
    Ends (list items m) (fun obj => m.Retains (obj :: items) m.symbols)
      (fun _ => m.Retains items m.symbols) NoStray := by
  have hbuilt : ∀ last : List ObjRef, (∀ p ∈ last, p ∈ items) →
      Ends ((last.foldrM rootedPair m.nil : MutatorM ObjRef) (m.pushed items))
        (m.Built items)
        (fun _ m'' => ∃ above h', m'' = (m.pushed above).withHeap h' ∧
          h'.Serves (items ++ m.tracer.roots) m.symbols) NoStray := by
    intro last
    induction last with
    | nil => exact fun _ => built_nil hs hn hk
    | cons item last ih =>
      intro hl
      rw [List.foldrM_cons]
      refine Ends.bind (ih fun p hp => hl p (List.mem_cons_of_mem _ hp)) fun rest m₁ hb => ?_
      exact hb.rootedPair (hl item List.mem_cons_self)
  unfold list
  refine restoringRoots_ends (Ends.bind_of_eq (pushRoots_eq items m) (Ends.get_bind ?_))
  refine (hbuilt items fun _ hp => hp).imp fun obj m' hb => ?_
  obtain ⟨above, h', rfl, hs'⟩ := hb
  refine ⟨_, h', rfl, hs'.mono (fun p hp => ?_) fun _ hp => hp⟩
  rcases List.mem_cons.mp hp with rfl | hp
  · exact List.mem_cons_self
  · exact List.mem_cons_of_mem _ (mem_pushed_append hp)

/-! ## Elements of vectors -/

theorem error_of_bind {ε α β : Type} {x : Except ε α} {g : α → Except ε β} {e : ε}
    (h : (x >>= g) = .error e) : x = .error e ∨ ∃ a, x = .ok a ∧ g a = .error e := by
  cases x with
  | error _ =>
    cases h
    exact Or.inl rfl
  | ok a => exact Or.inr ⟨a, rfl, h⟩

/-- Asking for a length meets no collection. -/
theorem noStray_of_lengthOf {h : Heap} {p : ObjRef} {f : Fault} (hf : h.lengthOf p = .error f) :
    NoStray f := by
  have hseg : ∀ {f}, h.segment p = .error f → f = .unreserved p.segment := by
    intro f hf
    unfold Heap.segment Store.segment at hf
    split at hf <;> cases hf
    rfl
  have hspec : h.specOf p = .error f → f = .unreserved p.segment ∨ f = .outOfBounds := by
    intro hf
    rcases error_of_bind hf with hf | ⟨k, _, hf⟩
    · rcases error_of_bind hf with hf | ⟨_, _, hf⟩
      · exact Or.inl (hseg hf)
      · cases hf
    · unfold KindTable.get at hf
      split at hf <;> cases hf
      exact Or.inr rfl
  have hlength : f = .unreserved p.segment ∨ f = .outOfBounds := by
    rcases error_of_bind hf with hf | ⟨spec, _, hf⟩
    · exact hspec hf
    · split at hf
      · cases hf
      · rcases error_of_bind hf with hf | ⟨s, _, hf⟩
        · exact Or.inl (hseg hf)
        · unfold Segment.storedLength at hf
          split at hf
          · cases hf
          · split at hf <;> cases hf
            exact Or.inr rfl
      · cases hf
  intro q e
  rcases hlength with hl | hl <;> rw [hl] at e <;> cases e

/-- The faults of a check of an index are those of asking for the length. -/
theorem noStray_of_checkIndex {vector : ObjRef} {index : Nat} {f : Fault}
    (hf : m.checkIndex vector index = .error (.fault f)) : NoStray f := by
  rcases error_of_bind hf with hf | ⟨_, _, hf⟩
  · unfold vectorLength at hf
    cases hl : m.heap.lengthOf vector with
    | ok n =>
      rw [hl] at hf
      cases hf
    | error f' =>
      rw [hl] at hf
      cases hf
      exact noStray_of_lengthOf hl
  · split at hf <;> cases hf

theorem vectorSet_ends {vector value : ObjRef} (hs : m.heap.Serves roots symbols)
    (ht : m.heap.Proper value) (index : Nat) :
    Ends (vectorSet vector index value m)
      (fun _ m' => ∃ h', m' = m.withHeap h' ∧ h'.Serves roots symbols) (fun _ m' => m' = m)
      NoStray := by
  unfold vectorSet
  refine Ends.get_bind ?_
  cases hc : m.checkIndex vector index with
  | ok _ =>
    refine (storeRef_ends hs ht vector index).mono (fun _ m' hd => ?_) (fun _ _ hd => hd.1)
      fun _ h => h
    obtain ⟨h', rfl, hs', _⟩ := hd
    exact ⟨h', rfl, hs'⟩
  | error e =>
    cases e with
    | refused e => rfl
    | fault f => exact noStray_of_checkIndex hc

end Mutator

end SegmentedHeap
