/-
SegmentedHeap.Proofs.Nodes — objects of the model by what they hold.

A node is what an object of the model stands for: its type, and what was
put in it. `ObjectView.Shows` says that the view of an object spells a
node, reference by reference and number by number; every question that a
program can ask of the object is answered from the node then. The
constructors make objects that show what they were given, and a store
makes the object show the node with one reference replaced.

* `Node`, `ObjectView.Shows` — nodes, and views that spell them.
* `Shows.setRef` — **a store**.
* `pair_shows`, `cell_shows`, `intVec_shows`, `vector_shows`,
  `symbol_shows` — **the constructors**.
* `agrees_of_shows` — **the questions**.
-/
import SegmentedHeap.Proofs.MutatorRuns
import SegmentedHeap.Proofs.Saving

namespace SegmentedHeap

open Model

/-- What an object of the model holds, with references of some kind. -/
inductive Node (α : Type) where
  | nil
  | symbol (id : UInt64) (value : α)
  | intVec (values : List Int64)
  | pair (car cdr : α)
  | cell (value : α) (n : Int64)
  | vector (elements : List α)
deriving DecidableEq

namespace Node

variable {α β : Type}

def type : Node α → ModelType
  | .nil => .nil
  | .symbol _ _ => .symbol
  | .intVec _ => .intVec
  | .pair _ _ => .pair
  | .cell _ _ => .cell
  | .vector _ => .vector

/-- The references in its fields, the first one first. -/
def refs : Node α → List α
  | .symbol _ value | .cell value _ => [value]
  | .pair car cdr => [car, cdr]
  | .vector elements => elements
  | .nil | .intVec _ => []

/-- The 64-bit numbers after these. -/
def words : Node α → List UInt64
  | .symbol id _ => [id]
  | .cell _ n => [n.toUInt64]
  | .intVec values => values.map Int64.toUInt64
  | .nil | .pair _ _ | .vector _ => []

/-- The length that is asked for when it is made. -/
def length : Node α → Nat
  | .symbol _ _ => 1
  | .intVec values => values.length
  | .vector elements => elements.length
  | .nil | .pair _ _ | .cell _ _ => 0

/-- The node with another reference in a field. -/
def withRef (i : Nat) (r : α) : Node α → Node α
  | .symbol id value => .symbol id (if i = 0 then r else value)
  | .cell value n => .cell (if i = 0 then r else value) n
  | .pair car cdr => .pair (if i = 0 then r else car) (if i = 1 then r else cdr)
  | .vector elements => .vector (elements.set i r)
  | .nil => .nil
  | .intVec values => .intVec values

/-- The node with other names for the references. -/
def map (f : α → β) : Node α → Node β
  | .nil => .nil
  | .symbol id value => .symbol id (f value)
  | .intVec values => .intVec values
  | .pair car cdr => .pair (f car) (f cdr)
  | .cell value n => .cell (f value) n
  | .vector elements => .vector (elements.map f)

section

variable (f : α → β) (node : Node α) (i : Nat) (r : α)

@[simp] theorem refs_map : (node.map f).refs = node.refs.map f := by cases node <;> rfl

@[simp] theorem type_withRef : (node.withRef i r).type = node.type := by cases node <;> rfl

@[simp] theorem words_withRef : (node.withRef i r).words = node.words := by cases node <;> rfl

@[simp] theorem length_withRef : (node.withRef i r).length = node.length := by
  cases node <;> simp [length, withRef]

@[simp] theorem refs_withRef : (node.withRef i r).refs = node.refs.set i r := by
  cases node with
  | nil => rfl
  | intVec values => rfl
  | vector elements => rfl
  | symbol id value => cases i <;> simp [refs, withRef]
  | cell value n => cases i <;> simp [refs, withRef]
  | pair car cdr =>
    match i with
    | 0 => rfl
    | 1 => rfl
    | i + 2 => simp [refs, withRef]

/-- The type settles how many references there are, but for vectors. -/
theorem length_refs : node.refs.length = match node.type with
    | .pair => 2
    | .cell | .symbol => 1
    | .vector => node.length
    | .nil | .intVec => 0 := by
  cases node <;> rfl

theorem map_withRef : (node.withRef i r).map f = (node.map f).withRef i (f r) := by
  cases node <;> simp [withRef, map, apply_ite f, List.map_set]

end

/-- Names for the references that a node does not have do not matter. -/
theorem map_congr {f g : α → β} {node : Node α} (h : ∀ r ∈ node.refs, g r = f r) :
    node.map g = node.map f := by
  cases node with
  | nil => rfl
  | intVec values => rfl
  | symbol id value => simp [map, h value (by simp [refs])]
  | cell value n => simp [map, h value (by simp [refs])]
  | pair car cdr => simp [map, h car (by simp [refs]), h cdr (by simp [refs])]
  | vector elements => exact congrArg Node.vector (List.map_congr_left h)

end Node

/-- Where the numbers of an object of a type start. -/
def Model.ModelType.wordsAt : ModelType → Nat
  | .intVec => 0
  | .nil | .symbol | .pair | .cell | .vector => numberOffset

/-- Numbers come after the references. -/
theorem Node.refs_le_wordsAt {α : Type} {node : Node α} {j : Nat} {w : UInt64}
    (hw : node.words[j]? = some w) : node.refs.length * refBytes ≤ node.type.wordsAt := by
  cases node with
  | nil => cases hw
  | pair car cdr => cases hw
  | vector elements => cases hw
  | intVec values => exact Nat.le_of_eq (Nat.zero_mul _)
  | symbol id value => exact (by decide : 1 * refBytes ≤ numberOffset)
  | cell value n => exact (by decide : 1 * refBytes ≤ numberOffset)

/-- The view spells the node. -/
structure ObjectView.Shows (v : ObjectView) (node : Node ObjRef) : Prop where
  tag : v.tag = node.type.tag
  length : v.length = node.type.lengthOf node.length
  refs : ∀ i r, node.refs[i]? = some r → v.ref? i = some r
  words : ∀ i w, node.words[i]? = some w → v.word? (node.type.wordsAt + i * 8) = some w

section

variable {v : ObjectView} {node : Node ObjRef}

/-- An object has the fields of the node that it shows. -/
theorem ObjectView.Shows.room (hs : v.Shows node) {i : Nat} (hi : i < node.refs.length) :
    i * refBytes + refBytes ≤ v.capacity :=
  Heap.ref?_eq_some.mp ⟨_, hs.refs i _ (List.getElem?_eq_getElem hi)⟩

/-- The tracer of the model sees the references of the node. -/
theorem ObjectView.Shows.mem_refs (hs : v.Shows node) {r : ObjRef} (hr : r ∈ node.refs) :
    r ∈ Mutator.refs v := by
  have hcount : Mutator.fields v = node.refs.length := by
    rw [Mutator.fields_eq hs.tag, hs.length]
    cases node <;> rfl
  obtain ⟨i, hi, rfl⟩ := List.getElem_of_mem hr
  rw [Mutator.refs_eq, hcount]
  refine List.mem_filterMap.mpr
    ⟨i, List.mem_range.mpr ?_, hs.refs i _ (List.getElem?_eq_getElem hi)⟩
  have hroom := hs.room hi
  rw [ObjectView.refCapacity]
  unfold refBytes at hroom ⊢
  omega

/-- **A reference is stored** in a field. -/
theorem ObjectView.Shows.setRef (hs : v.Shows node) {i : Nat} (hi : i < node.refs.length)
    (r : ObjRef) : (v.setRef i r).Shows (node.withRef i r) where
  tag := by
    rw [Node.type_withRef]
    exact hs.tag
  length := by
    rw [Node.type_withRef, Node.length_withRef]
    exact hs.length
  refs j q hq := by
    rw [Node.refs_withRef, List.getElem?_set] at hq
    by_cases e : j = i
    · subst e
      rw [if_pos rfl, if_pos hi] at hq
      rw [ref?_setRef_self (hs.room hi), ← hq]
    · rw [if_neg (Ne.symm e)] at hq
      rw [ref?_setRef_other e]
      exact hs.refs j q hq
  words j w hw := by
    rw [Node.words_withRef] at hw
    have hle := Node.refs_le_wordsAt hw
    rw [Node.type_withRef, word?_setRef]
    · exact hs.words j w hw
    · have hfield := Nat.mul_le_mul_right refBytes hi
      rw [Nat.succ_mul] at hfield
      omega

/-- A reference, and a number after it. -/
theorem ObjectView.Blank.shows_put (node : Node ObjRef) (hb : v.Blank node.type node.length)
    {r : ObjRef} {w : UInt64} (hrefs : node.refs = [r]) (hwords : node.words = [w])
    (hat : node.type.wordsAt = numberOffset) (hroom : numberOffset + 8 ≤ v.capacity) :
    ((v.setRef 0 r).put numberOffset (LittleEndian.encode 8 w.toNat)).Shows node := by
  have hbytes : LittleEndian.encode 8 w.toNat = encodeWords [w] := by simp [encodeWords]
  refine ⟨hb.tag, hb.length, fun i q hq => ?_, fun i u hu => ?_⟩
  · rw [hrefs] at hq
    obtain ⟨rfl, rfl⟩ : i = 0 ∧ q = r := by
      cases i with
      | zero => exact ⟨rfl, (Option.some.inj hq).symm⟩
      | succ i => cases hq
    rw [ref?_put (by decide), ref?_setRef_self (Nat.le_trans (by decide) hroom)]
  · rw [hwords] at hu
    obtain ⟨rfl, rfl⟩ : i = 0 ∧ u = w := by
      cases i with
      | zero => exact ⟨rfl, (Option.some.inj hu).symm⟩
      | succ i => cases hu
    rw [hat, hbytes]
    exact word?_put (v := v.setRef 0 r) (i := 0) [u] hroom rfl

end

/-! ## Constructors -/

namespace Mutator

variable {m m' : Mutator} {kept : List ObjRef} {obj target : ObjRef} {v : ObjectView}

/-- A root is guarded, if it is not null. -/
theorem guards_of_mem {p : ObjRef} (hp : m.heap.Proper p) (hmem : p ∈ (m.pushed kept).tracer.roots)
    (hne : p ≠ .null) : m.Guards kept p := Or.inl (.root hmem (hp.resolve_left hne))

/-- A store in the new object is seen nowhere else. -/
theorem Making.seen {h' h₂ : Heap} {v' : ObjectView}
    (hm : m.Making kept obj v (m.withHeap h')) (hd : h'.Seen obj v' h₂) :
    m.Making kept obj v' (m.withHeap h₂) := by
  obtain ⟨h₁, e, _, hsaves, hnew, _⟩ := hm
  obtain rfl : h' = h₁ := congrArg Mutator.heap e
  refine ⟨h₂, rfl, hd.wellFormed, hsaves.trans ⟨hd.setting, fun p hp => hd.others p ?_⟩
    fun _ hp => hp, hnew, hd.self⟩
  rintro rfl
  exact hnew hp

/-- A constructor stores a reference that is kept. -/
theorem Making.storeRef (hm : m.Making kept obj v m') (hw : m.heap.WellFormed) {field : Nat}
    (hroom : field * refBytes + refBytes ≤ v.capacity) (hp : m.heap.Proper target)
    (hg : target ≠ .null → m.Guards kept target) :
    Ends (onHeap (Heap.writeRef obj field target) m')
      (fun _ => m.Making kept obj (v.setRef field target)) (fun _ _ => False) (fun _ => False) := by
  obtain ⟨h', rfl, hw', hsaves, _, hv⟩ := id hm
  refine (onHeap_ends (m := m.withHeap h') (Heap.writeRef_seen hw' hv hroom
    (hsaves.proper hw.toFormed hw'.toFormed hg hp))).mono (fun _ _ hd => ?_)
    (fun _ _ hd => hd.elim fun _ hd => hd.2) fun _ hf => hf
  obtain ⟨h₂, rfl, hd⟩ := hd
  exact hm.seen hd

/-- A constructor stores bytes. -/
theorem Making.storeBytes (hm : m.Making kept obj v m') {start : Nat} {bytes : List UInt8}
    (hroom : start + bytes.length ≤ v.capacity) :
    Ends (onHeap (Heap.setBytes obj start bytes) m')
      (fun _ => m.Making kept obj (v.put start bytes)) (fun _ _ => False) (fun _ => False) := by
  obtain ⟨h', rfl, hw', _, _, hv⟩ := id hm
  refine (onHeap_ends (m := m.withHeap h') (Heap.setBytes_seen hw' hv hroom)).mono
    (fun _ _ hd => ?_) (fun _ _ hd => hd.elim fun _ hd => hd.2) fun _ hf => hf
  obtain ⟨h₂, rfl, hd⟩ := hd
  exact hm.seen hd

/-- A new object shows the node, and what was guarded is seen as before. -/
def Constructs (m : Mutator) (kept : List ObjRef) (node : Node ObjRef) (obj : ObjRef)
    (m' : Mutator) : Prop := ∃ v, m.Making kept obj v m' ∧ v.Shows node

/-- What a constructor can count on. -/
structure Ready (m : Mutator) : Prop extends Consistent m where
  suited : m.heap.Suited

theorem guards_kept (hk : ∀ p ∈ kept, m.heap.Proper p) :
    ∀ p ∈ kept, p ≠ .null → m.Guards kept p := fun p hp =>
  guards_of_mem (hk p hp) (mem_pushed_roots.mpr (Or.inl hp))

section

variable (hr : m.Ready)
include hr

theorem pair_shows {car cdr : ObjRef} (hk : ∀ p ∈ [car, cdr], m.heap.Proper p) :
    Ends (pair car cdr m) (m.Constructs [car, cdr] (.pair car cdr))
      (m.Short [car, cdr]) (fun _ => False) := by
  have hw := hr.serves.wellFormed
  have hg := guards_kept hk
  unfold pair
  refine Ends.bind (alloc_saves hr.serves hr.suited hk .pair 0 nofun) fun obj m₁ hm₁ => ?_
  obtain ⟨v, hm₁, hb⟩ := hm₁
  have hroom : 1 * refBytes + refBytes ≤ v.capacity := Nat.le_trans (by decide) hb.room
  refine Ends.bind (hm₁.storeRef hw (Nat.le_trans (by decide) hroom) (hk car (by simp))
    (hg car (by simp))).widen fun _ m₂ hm₂ => ?_
  refine Ends.bind (hm₂.storeRef hw hroom (hk cdr (by simp)) (hg cdr (by simp))).widen
    fun _ m₃ hm₃ => ?_
  refine ⟨_, hm₃, hb.tag, hb.length, fun i r hi => ?_, fun i w hi => by cases hi⟩
  match i with
  | 0 =>
    cases hi
    rw [ObjectView.ref?_setRef_other (by decide),
      ObjectView.ref?_setRef_self (Nat.le_trans (by decide) hroom)]
  | 1 =>
    cases hi
    exact ObjectView.ref?_setRef_self hroom _
  | i + 2 => cases hi

theorem cell_shows {value : ObjRef} (hk : ∀ p ∈ [value], m.heap.Proper p) (n : Int64) :
    Ends (cell value n m) (m.Constructs [value] (.cell value n))
      (m.Short [value]) (fun _ => False) := by
  have hw := hr.serves.wellFormed
  have hg := guards_kept hk
  unfold cell
  refine Ends.bind (alloc_saves hr.serves hr.suited hk .cell 0 nofun) fun obj m₁ hm₁ => ?_
  obtain ⟨v, hm₁, hb⟩ := hm₁
  have hroom : numberOffset + 8 ≤ v.capacity := hb.room
  refine Ends.bind (hm₁.storeRef hw (Nat.le_trans (by decide) hroom) (hk value (by simp))
    (hg value (by simp))).widen fun _ m₂ hm₂ => ?_
  refine Ends.bind (hm₂.storeBytes (by rw [LittleEndian.length_encode]; exact hroom)).widen
    fun _ m₃ hm₃ => ?_
  exact ⟨_, hm₃, ObjectView.Blank.shows_put (.cell value n) hb rfl rfl rfl hroom⟩

theorem intVec_shows (values : List Int64) :
    Ends (intVec values m) (m.Constructs [] (.intVec values)) (m.Short [])
      (fun _ => False) := by
  have hbytes : (values.flatMap fun v => LittleEndian.encode 8 v.toUInt64.toNat) =
      encodeWords (values.map Int64.toUInt64) := by rw [encodeWords, List.flatMap_map]
  unfold intVec
  refine Ends.bind (alloc_saves hr.serves hr.suited (by simp) .intVec values.length
    fun _ e => by cases e)
    fun obj m₁ hm₁ => ?_
  obtain ⟨v, hm₁, hb⟩ := hm₁
  have hroom : 0 + (values.map Int64.toUInt64).length * 8 ≤ v.capacity := by
    have hle := hb.bounded rfl
    have hbytes := hb.room
    simp only [bytesFor, Word.limit, Word.max32] at hle hbytes
    rw [List.length_map]
    omega
  rw [hbytes]
  refine Ends.bind (hm₁.storeBytes (by rw [length_encodeWords]; exact hroom)).widen
    fun _ m₂ hm₂ => ?_
  exact ⟨_, hm₂, hb.tag, hb.length, fun i r hi => (by cases hi),
    fun i w hi => ObjectView.word?_put _ hroom hi⟩

theorem vector_shows (length : Nat) :
    Ends (vector length m) (m.Constructs [] (.vector (List.replicate length m.nil)))
      (m.Short []) (fun _ => False) := by
  have hw := hr.serves.wellFormed
  have hnil : m.heap.Proper m.nil := hr.nil ▸ hr.serves.proper_nil
  unfold vector
  refine Ends.bind (alloc_saves hr.serves hr.suited (by simp) .vector length nofun)
    fun obj m₁ hm₁ => ?_
  obtain ⟨v, hm₁, hb⟩ := hm₁
  have hroom : length * refBytes ≤ v.capacity := by
    have hle := hb.bounded rfl
    have hbytes := hb.room
    simp only [bytesFor, Word.limit, Word.max32] at hle hbytes
    simp only [refBytes]
    omega
  have hsame : m₁.nil = m.nil := by
    obtain ⟨h', rfl, _⟩ := hm₁
    rfl
  refine Ends.get_bind ?_
  rw [hsame]
  -- round by round one more element is nil
  refine Ends.bind (Ends.forM_range
    (P := fun i m' => ∃ u, m.Making [] obj u m' ∧ u.tag = v.tag ∧ u.length = v.length ∧
      u.capacity = v.capacity ∧ ∀ j, j < i → u.ref? j = some m.nil)
    ⟨v, hm₁, rfl, rfl, rfl, fun _ hj => absurd hj (Nat.not_lt_zero _)⟩
    fun i m₂ hi hm₂ => ?_).widen fun _ m₃ hm₃ => ?_
  · obtain ⟨u, hm₂, htag, hlength, hcap, hrefs⟩ := hm₂
    have hfield : i * refBytes + refBytes ≤ u.capacity := by
      have hmul := Nat.mul_le_mul_right refBytes hi
      rw [Nat.succ_mul] at hmul
      omega
    refine (hm₂.storeRef hw hfield hnil fun _ => Or.inr hr.nil).imp fun _ m₃ hm₃ => ?_
    refine ⟨_, hm₃, htag, hlength, hcap, fun j hj => ?_⟩
    by_cases e : j = i
    · rw [e, ObjectView.ref?_setRef_self hfield]
    · rw [ObjectView.ref?_setRef_other e]
      exact hrefs j (by omega)
  · obtain ⟨u, hm₃, htag, hlength, _, hrefs⟩ := hm₃
    refine ⟨u, hm₃, htag.trans hb.tag, ?_, fun i r hi => ?_, fun i w hi => by cases hi⟩
    · rw [hlength, hb.length]
      simp [Node.length, Node.type]
    · rw [Node.refs, List.getElem?_replicate] at hi
      split at hi
      · next hlt => rw [hrefs i hlt, ← hi]
      · cases hi

/-- A new object becomes the symbol of an id. Nothing goes wrong. -/
theorem Making.intern {sym : ObjRef} {m₁ : Mutator} (hm₁ : m.Making [] sym v m₁)
    (hb : v.Blank .symbol 1) (id : UInt64) :
    Ends ((do
        onHeap (Heap.writeRef sym 0 (← get).nil)
        onHeap (Heap.setBytes sym numberOffset (LittleEndian.encode 8 id.toNat))
        modify (·.intern id sym)
        return sym : MutatorM ObjRef) m₁)
      (fun obj m' => obj = sym ∧ ∃ m'', m.Constructs [] (.symbol id m.nil) sym m'' ∧
        m' = m''.intern id sym)
      (fun _ _ => False) (fun _ => False) := by
  have hw := hr.serves.wellFormed
  have hnil : m.heap.Proper m.nil := hr.nil ▸ hr.serves.proper_nil
  have hroom : numberOffset + 8 ≤ v.capacity := hb.room
  have hsame : m₁.nil = m.nil := by
    obtain ⟨h', rfl, _⟩ := hm₁
    rfl
  refine Ends.get_bind ?_
  rw [hsame]
  refine Ends.bind (hm₁.storeRef hw (Nat.le_trans (by decide) hroom) hnil
    fun _ => Or.inr hr.nil) fun _ m₂ hm₂ => ?_
  refine Ends.bind (hm₂.storeBytes (by rw [LittleEndian.length_encode]; exact hroom))
    fun _ m₃ hm₃ => ?_
  refine ⟨rfl, m₃, ⟨_, hm₃, ?_⟩, rfl⟩
  exact ObjectView.Blank.shows_put (.symbol id m.nil) hb rfl rfl rfl hroom

/-- What an allocation leaves for a new symbol. -/
theorem alloc_symbol :
    Ends (alloc .symbol 1 [] m) (fun sym m' => ∃ v, m.Making [] sym v m' ∧ v.Blank .symbol 1)
      (m.Short []) (fun _ => False) :=
  alloc_saves hr.serves hr.suited (by simp) .symbol 1 fun _ e => LengthRule.constant.inj e

/-- The symbol of an id is the one that was there, or a new one. -/
theorem symbol_shows (id : UInt64) :
    Ends (symbol id m)
      (fun sym m' => (m' = m ∧ m.interned.lookup id = some sym) ∨
        (m.interned.lookup id = none ∧ ∃ m'', m.Constructs [] (.symbol id m.nil) sym m'' ∧
          m' = m''.intern id sym))
      (fun e m' => m.interned.lookup id = none ∧ m.Short [] e m') (fun _ => False) := by
  unfold symbol
  refine Ends.get_bind ?_
  cases hl : m.interned.lookup id with
  | some sym => exact Or.inl ⟨rfl, rfl⟩
  | none =>
    refine Ends.bind ((alloc_symbol hr).mono (fun _ _ h => h) (fun _ _ h => ⟨rfl, h⟩) fun _ h => h)
      fun sym m₁ hm₁ => ?_
    obtain ⟨v, hm₁, hb⟩ := hm₁
    refine ((hm₁.intern hr hb id).imp fun obj m' hd => ?_).widen
    obtain ⟨rfl, hd⟩ := hd
    exact Or.inr ⟨rfl, hd⟩

end

/-! ## Questions -/

/-- Every question about the object is answered from the node. -/
structure Agrees (m : Mutator) (p : ObjRef) (node : Node ObjRef) : Prop where
  isAllocated : m.heap.isAllocated p = true
  typeOf : m.heap.typeOf p = .ok node.type.tag
  lengthOf : m.heap.lengthOf p = .ok (node.type.lengthOf node.length)
  answers : match node with
    | .nil => True
    | .symbol id value => m.symbolId p = .ok id ∧ m.symbolValue p = .ok value
    | .intVec values => m.intVecValues p = .ok values
    | .pair car cdr => m.car p = .ok car ∧ m.cdr p = .ok cdr
    | .cell value n => m.cellValue p = .ok value ∧ m.cellInt p = .ok n
    | .vector elements => m.vectorLength p = .ok elements.length ∧ ∀ i, m.vectorGet p i =
        match elements[i]? with
        | some r => .ok r
        | none => .error (.refused (.fieldOutOfRange p i (elements.length * refBytes)))

/-- Questions that are all answered, in a row. -/
theorem mapM_range_eq_ok {ε α : Type} {f : Nat → Except ε α} {g : Nat → α} {n : Nat}
    (h : ∀ i, i < n → f i = .ok (g i)) : (List.range n).mapM f = .ok ((List.range n).map g) := by
  have hall : ∀ l : List Nat, (∀ i ∈ l, i < n) → l.mapM f = .ok (l.map g) := by
    intro l hl
    induction l with
    | nil => rfl
    | cons i l ih =>
      rw [List.mapM_cons, h i (hl i List.mem_cons_self),
        ih fun j hj => hl j (List.mem_cons_of_mem i hj)]
      rfl
  exact hall _ fun _ hi => List.mem_range.mp hi

/-- The check of an index of a vector. -/
theorem checkIndex_eq {p : ObjRef} {n i : Nat} (hl : m.vectorLength p = .ok n) :
    m.checkIndex p i =
      if n ≤ i then .error (.refused (.fieldOutOfRange p i (n * refBytes))) else .ok () := by
  rw [checkIndex, hl]
  rfl

/-- A store at an index of a vector, once the check of it is gone through. -/
theorem vectorSet_eq {p value : ObjRef} {n i : Nat} (hl : m.vectorLength p = .ok n) :
    vectorSet p i value m =
      if n ≤ i then .error (.refused (.fieldOutOfRange p i (n * refBytes))) m
      else onHeap (Heap.writeRef p i value) m := by
  rw [vectorSet, get_bind_eq, checkIndex_eq hl]
  split <;> rfl

/-- **An object that shows a node** agrees with it. -/
theorem agrees_of_shows {p : ObjRef} {node : Node ObjRef} (hf : m.heap.Formed)
    (hv : m.heap.view? p = some v) (hs : v.Shows node) : m.Agrees p node := by
  have hlength := Heap.lengthOf_of_view? hf hv
  have hread : ∀ i r, node.refs[i]? = some r → m.heap.readRef p i = .ok r := fun i r hi =>
    Heap.readRef_of_view? hv (hs.refs i r hi)
  have hword : ∀ i w, node.words[i]? = some w →
      m.heap.word64 p (node.type.wordsAt + i * 8) = .ok w := fun i w hi =>
    Heap.word64_of_view? hv (hs.words i w hi)
  refine ⟨(Heap.isAllocated_iff_view? hf).mpr ⟨v, hv⟩, hs.tag ▸ Heap.typeOf_of_view? hf hv,
    hs.length ▸ hlength, ?_⟩
  rw [hs.length] at hlength
  cases node with
  | nil => trivial
  | symbol id value => exact ⟨hword 0 id rfl, hread 0 value rfl⟩
  | pair car cdr => exact ⟨hread 0 car rfl, hread 1 cdr rfl⟩
  | cell value n =>
    refine ⟨hread 0 value rfl, ?_⟩
    have hn : m.heap.word64 p numberOffset = .ok n.toUInt64 := hword 0 n.toUInt64 rfl
    rw [cellInt, hn]
    exact congrArg Except.ok (Int64.toInt64_toUInt64 n)
  | intVec values =>
    have ha := (Heap.isAllocated_iff_view? hf).mpr ⟨v, hv⟩
    have hvalue : ∀ i, i < values.length →
        (do return (← m.heap.word64 p (i * 8)).toInt64) = Except.ok (values.getD i 0) := by
      intro i hi
      have hw := hword i values[i].toUInt64 (by simp [Node.words, hi])
      rw [show (Node.intVec values : Node ObjRef).type.wordsAt = 0 from rfl, Nat.zero_add] at hw
      rw [hw, List.getD_eq_getElem?_getD, List.getElem?_eq_getElem hi]
      exact congrArg Except.ok (Int64.toInt64_toUInt64 values[i])
    have hall : (List.range values.length).map (values.getD · 0) = values :=
      List.ext_getElem (by simp) fun i hi hi' => by simp [hi']
    simp only [intVecValues, ha, hlength]
    exact (mapM_range_eq_ok hvalue).trans (congrArg Except.ok hall)
  | vector elements =>
    have hlen : m.vectorLength p = .ok elements.length := by
      rw [vectorLength, hlength]
      rfl
    refine ⟨hlen, fun i => ?_⟩
    rw [vectorGet, checkIndex_eq hlen]
    by_cases hi : i < elements.length
    · rw [if_neg (Nat.not_le.mpr hi), hread i elements[i] (List.getElem?_eq_getElem hi),
        List.getElem?_eq_getElem hi]
      rfl
    · rw [if_pos (Nat.le_of_not_lt hi), List.getElem?_eq_none (Nat.le_of_not_lt hi)]
      rfl

end Mutator

end SegmentedHeap
