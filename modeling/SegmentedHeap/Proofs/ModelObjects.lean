/-
SegmentedHeap.Proofs.ModelObjects — what tracing sees of the model.

The references of an object of the model are those of its first fields,
as many as its type and length say. So a tracer of the model goes by
fields; an object with zero bytes yields the first slot of all and
nothing else; and bytes after those fields do not matter. Of the kinds,
those of nil and of symbols are the only uncollected ones.

* `Mutator.fieldwise` — the tracer goes by fields.
* `Mutator.eq_zero_of_mem_refs`, `Mutator.refs_overwrite` — new objects,
  and other bytes.
* `Model.type_of_mem`, `Model.entry_of_kindFor`, `Model.fault_of_layout` —
  the layout.
-/
import SegmentedHeap.Model.Mutator
import SegmentedHeap.Proofs.Closure

namespace SegmentedHeap

/-! ## References in fields -/

namespace ObjectView

variable {v w : ObjectView} {n : Nat} {q : ObjRef}

/-- Only the bytes of the fields matter. -/
theorem refs_congr (hc : w.capacity = v.capacity)
    (hb : ∀ i, i < n * refBytes → w.byte i = v.byte i) :
    w.refs n = v.refs n := by
  have hrange : w.refCapacity = v.refCapacity := by rw [refCapacity, refCapacity, hc]
  rw [refs, refs, hrange]
  refine List.filterMap_congr fun i hi => ?_
  have hi : i < n := by
    have := List.mem_range.mp hi
    omega
  have hbytes : (List.range refBytes).map (fun j => w.byte (i * refBytes + j)) =
      (List.range refBytes).map fun j => v.byte (i * refBytes + j) := by
    refine List.map_congr_left fun j hj => hb _ ?_
    have hj := List.mem_range.mp hj
    calc i * refBytes + j < i * refBytes + refBytes := Nat.add_lt_add_left hj _
      _ = (i + 1) * refBytes := (Nat.succ_mul i refBytes).symm
      _ ≤ n * refBytes := Nat.mul_le_mul_right _ hi
  rw [ref?, ref?, hc, number, number, hbytes]

/-- Zero bytes spell the reference to the first slot. -/
theorem eq_zero_of_mem_refs (hz : ∀ i, v.byte i = 0) (hq : q ∈ v.refs n) : q = ⟨0⟩ := by
  obtain ⟨i, _, hr⟩ := List.mem_filterMap.mp hq
  have hbytes : (List.range refBytes).map (fun j => v.byte (i * refBytes + j)) =
      List.replicate refBytes 0 := by
    simp [hz, List.map_const']
  rw [ref?, number, hbytes] at hr
  split at hr
  · exact (Option.some.inj hr).symm
  · cases hr

end ObjectView

/-- How many fields of an object of a type hold references. -/
def Model.ModelType.fieldCount (type : ModelType) (length : Option Nat) : Nat :=
  match type with
  | .pair => 2
  | .cell | .symbol => 1
  | .vector => length.getD 0
  | .nil | .intVec => 0

namespace Mutator

open Model

variable {v : ObjectView} {q : ObjRef}

/-- How many of an object's first fields hold references. -/
def fields (v : ObjectView) : Nat :=
  match ModelType.ofTag? v.tag with
  | some type => type.fieldCount v.length
  | none => 0

theorem fields_eq {type : ModelType} (ht : v.tag = type.tag) :
    fields v = type.fieldCount v.length := by
  rw [fields, ht, ModelType.ofTag?_tag]

theorem refs_eq (v : ObjectView) : refs v = v.refs (fields v) := by
  have hnil : v.refs 0 = [] := by simp [ObjectView.refs]
  unfold refs fields
  cases ModelType.ofTag? v.tag with
  | none => exact hnil.symm
  | some type =>
    cases type with
    | nil => exact hnil.symm
    | intVec => exact hnil.symm
    | symbol => rfl
    | pair => rfl
    | cell => rfl
    | vector => rfl

/-- Nil yields nothing. -/
theorem refs_nil (ht : v.tag = ModelType.nil.tag) : refs v = [] := by
  rw [refs, ht, ModelType.ofTag?_tag]

/-- **A tracer of the model goes by fields.** -/
theorem fieldwise {σ : Type} {tracer : Tracer σ} (hr : tracer.refs = refs) : tracer.Fieldwise := by
  intro v field r hroom y hy
  rw [hr, refs_eq] at hy
  rw [hr, refs_eq]
  exact ObjectView.mem_refs_setRef hroom hy

/-- An object with zero bytes yields the first slot, if anything. -/
theorem eq_zero_of_mem_refs (hz : ∀ i, v.byte i = 0) (hq : q ∈ refs v) : q = ⟨0⟩ := by
  rw [refs_eq] at hq
  exact ObjectView.eq_zero_of_mem_refs hz hq

/-- Bytes after the fields may be anything. -/
theorem refs_overwrite {x : Object} {spec : Kind} {start : Nat} {new : List UInt8}
    (hroom : start + new.length ≤ x.bytes.length) (hs : fields (x.view spec) * refBytes ≤ start) :
    refs (({ x with bytes := overwrite x.bytes start new } : Object).view spec) =
      refs (x.view spec) := by
  rw [refs_eq, refs_eq]
  refine ObjectView.refs_congr (length_overwrite hroom) fun i hi => ?_
  have hi : i < fields (x.view spec) * refBytes := hi
  show (overwrite x.bytes start new).getD i 0 = x.bytes.getD i 0
  rw [List.getD_eq_getElem?_getD, List.getD_eq_getElem?_getD, getElem?_overwrite hroom, if_neg]
  omega

end Mutator

/-! ## The layout -/

namespace Model

theorem ModelType.tag_injective {s t : ModelType} (h : s.tag = t.tag) : s = t := by
  have e := ModelType.ofTag?_tag s
  rw [h, ModelType.ofTag?_tag] at e
  exact (Option.some.inj e).symm

/-- The chunks of an object, for chunks of some size. -/
theorem chunksFor_eq {chunkBytes : Nat} (h : chunkBytes ≠ 0) (t : TypeTag) (length : Nat) :
    ∃ n, chunksFor chunkBytes t length = .ok n := by
  simp [chunksFor, ceilDiv, h, bind, Except.bind, pure, Except.pure]

/-- Where the length of an object of a type is kept. -/
def ModelType.lengthRule : ModelType → LengthRule
  | .nil => .constant 0
  | .symbol => .constant 1
  | .intVec | .vector => .stored
  | .pair | .cell => .untracked

theorem mem_sizedKinds {type : ModelType} {spec : Kind} (hs : spec ∈ sizedKinds type) :
    spec.tag = type.tag ∧ spec.length = .stored ∧ spec.uncollected = false := by
  rcases List.mem_append.mp hs with hs | hs
  · obtain ⟨_, _, rfl⟩ := List.mem_map.mp hs
    exact ⟨rfl, rfl, rfl⟩
  · rw [List.mem_singleton.mp hs]
    exact ⟨rfl, rfl, rfl⟩

/-- The kinds of the model, by the chunks of symbols, pairs and cells. -/
def kindList (symbol pair cell : Nat) : List Kind :=
  [{ tag := ModelType.nil.tag, size := .fixed 1, uncollected := true, length := .constant 0 },
    { tag := ModelType.symbol.tag, size := .fixed symbol, uncollected := true,
      length := .constant 1 }]
    ++ sizedKinds .intVec
    ++ [{ tag := ModelType.pair.tag, size := .fixed pair },
      { tag := ModelType.cell.tag, size := .fixed cell }]
    ++ sizedKinds .vector

/-- There are kinds for all chunks that have a size. -/
theorem kinds_eq {chunkBytes : Nat} (hz : chunkBytes ≠ 0) : ∃ symbol pair cell,
    chunksFor chunkBytes ModelType.symbol.tag 0 = .ok symbol ∧
    chunksFor chunkBytes ModelType.pair.tag 0 = .ok pair ∧
    chunksFor chunkBytes ModelType.cell.tag 0 = .ok cell ∧
    kinds chunkBytes = .ok (kindList symbol pair cell) := by
  obtain ⟨symbol, hs⟩ := chunksFor_eq hz ModelType.symbol.tag 0
  obtain ⟨pair, hp⟩ := chunksFor_eq hz ModelType.pair.tag 0
  obtain ⟨cell, hc⟩ := chunksFor_eq hz ModelType.cell.tag 0
  refine ⟨symbol, pair, cell, hs, hp, hc, ?_⟩
  simp only [kinds, hs, hp, hc, bind, Except.bind, pure, Except.pure, kindList]

/-- There are none for chunks without a size. -/
theorem ne_zero_of_kinds {chunkBytes : Nat} {list : List Kind} (hk : kinds chunkBytes = .ok list) :
    chunkBytes ≠ 0 := by
  rintro rfl
  cases hk

/-- What the kinds of a type have in common. -/
theorem type_of_mem {chunkBytes : Nat} {list : List Kind} {spec : Kind}
    (hk : kinds chunkBytes = .ok list) (hs : spec ∈ list) :
    ∃ type : ModelType, spec.tag = type.tag ∧ spec.length = type.lengthRule ∧
      (spec.uncollected = true ↔ type = .nil ∨ type = .symbol) ∧
      (spec.size = .big → type.lengthRule = .stored) := by
  obtain ⟨_, _, _, _, _, _, hlist⟩ := kinds_eq (ne_zero_of_kinds hk)
  cases hk.symm.trans hlist
  simp only [kindList, List.mem_append, List.mem_cons, List.not_mem_nil, or_false] at hs
  rcases hs with (((rfl | rfl) | hs) | (rfl | rfl)) | hs
  · exact ⟨.nil, rfl, rfl, by simp, nofun⟩
  · exact ⟨.symbol, rfl, rfl, by simp, nofun⟩
  · obtain ⟨ht, hl, hu⟩ := mem_sizedKinds hs
    exact ⟨.intVec, ht, hl, by simp [hu], fun _ => rfl⟩
  · exact ⟨.pair, rfl, rfl, by simp, nofun⟩
  · exact ⟨.cell, rfl, rfl, by simp, nofun⟩
  · obtain ⟨ht, hl, hu⟩ := mem_sizedKinds hs
    exact ⟨.vector, ht, hl, by simp [hu], fun _ => rfl⟩

/-- Only nil and symbols are of kinds that are never collected. -/
theorem uncollected_iff_of_mem {chunkBytes : Nat} {list : List Kind} {spec : Kind}
    (hk : kinds chunkBytes = .ok list) (hs : spec ∈ list) :
    spec.uncollected = true ↔ spec.tag = ModelType.nil.tag ∨ spec.tag = ModelType.symbol.tag := by
  obtain ⟨type, ht, _, hu, _⟩ := type_of_mem hk hs
  have hinj : ∀ t : ModelType, type.tag = t.tag ↔ type = t := fun t =>
    ⟨ModelType.tag_injective, fun e => congrArg ModelType.tag e⟩
  rw [hu, ht, hinj, hinj]

/-- The length of an object is kept as the rule of its type says. -/
theorem lengthRule_of_mem {chunkBytes : Nat} {list : List Kind} {spec : Kind} {type : ModelType}
    (hk : kinds chunkBytes = .ok list) (hs : spec ∈ list) (ht : spec.tag = type.tag) :
    spec.length = type.lengthRule := by
  obtain ⟨t, ht', hl, _⟩ := type_of_mem hk hs
  rw [hl, ModelType.tag_injective (ht'.symm.trans ht)]

theorem sizeClass_le (chunks : Nat) : sizeClass chunks ≤ sizeClasses.length := by
  unfold sizeClass
  cases hi : sizeClasses.findIdx? (chunks ≤ ·) with
  | none => exact Nat.le_refl _
  | some i =>
    obtain ⟨hlt, _⟩ := List.findIdx?_eq_some_iff_getElem.mp hi
    exact Nat.le_of_lt hlt

/-- The size of a class, the big one coming last. -/
def classSize (i : Nat) : ObjectSize :=
  match sizeClasses[i]? with
  | some chunks => .fixed chunks
  | none => .big

/-- The size of the kind that a type has for so many chunks. -/
def ModelType.sizeFor (type : ModelType) (needed : Nat) : ObjectSize :=
  match type with
  | .nil => .fixed 1
  | .symbol | .pair | .cell => .fixed needed
  | .intVec | .vector => classSize (sizeClass needed)

/-- Lengths that need as many bytes need as many chunks. -/
theorem chunksFor_congr {chunkBytes length length' : Nat} {type : ModelType}
    (h : bytesFor type length = bytesFor type length') :
    chunksFor chunkBytes type.tag length = chunksFor chunkBytes type.tag length' := by
  simp only [chunksFor, ModelType.ofTag?_tag, h]

/-- **The kind that the layout gives to a type** is in the table, of that
type, and of the size for the chunks that are needed. -/
theorem entry_of_kindFor {chunkBytes : Nat} {list : List Kind} {type : ModelType}
    {length needed : Nat} {k : KindId} (hk : kinds chunkBytes = .ok list)
    (hn : chunksFor chunkBytes type.tag length = .ok needed)
    (hfor : kindFor chunkBytes type.tag length = .ok k) :
    ∃ spec, list[k]? = some spec ∧ spec.tag = type.tag ∧ spec.size = type.sizeFor needed := by
  obtain ⟨_, _, _, hsymbol, hpair, hcell, hlist⟩ := kinds_eq (ne_zero_of_kinds hk)
  cases hk.symm.trans hlist
  have hclass : sizeClass needed ≤ 4 := sizeClass_le needed
  simp only [kindFor, ModelType.ofTag?_tag, hn, bind, Except.bind, pure, Except.pure] at hfor
  cases type with
  | nil =>
    cases hfor
    exact ⟨_, rfl, rfl, rfl⟩
  | symbol =>
    cases hfor
    cases (hn.symm.trans (chunksFor_congr rfl)).trans hsymbol
    exact ⟨_, rfl, rfl, rfl⟩
  | pair =>
    cases hfor
    cases (hn.symm.trans (chunksFor_congr rfl)).trans hpair
    exact ⟨_, rfl, rfl, rfl⟩
  | cell =>
    cases hfor
    cases (hn.symm.trans (chunksFor_congr rfl)).trans hcell
    exact ⟨_, rfl, rfl, rfl⟩
  | intVec | vector =>
    -- one kind for each of the sizes
    cases hfor
    simp only [ModelType.sizeFor]
    generalize sizeClass needed = i at hclass
    match i, hclass with
    | 0, _ | 1, _ | 2, _ | 3, _ | 4, _ => exact ⟨_, rfl, rfl, rfl⟩

/-- The layout gives every type a kind of that type. -/
theorem kind_of_kindFor {chunkBytes : Nat} {list : List Kind} {type : ModelType} {length : Nat}
    {k : KindId} (hk : kinds chunkBytes = .ok list)
    (hfor : kindFor chunkBytes type.tag length = .ok k) :
    ∃ spec, list[k]? = some spec ∧ spec.tag = type.tag := by
  obtain ⟨n, hn⟩ := chunksFor_eq (ne_zero_of_kinds hk) type.tag length
  obtain ⟨spec, hspec, ht, _⟩ := entry_of_kindFor hk hn hfor
  exact ⟨spec, hspec, ht⟩

/-- The one fault of the layout. -/
theorem fault_of_layout {chunkBytes : Nat} {t : TypeTag} {length : Nat} {f : Fault} :
    ((layout chunkBytes).kindFor t length = .error f → f = .divisionByZero) ∧
      ((layout chunkBytes).chunksFor t length = .error f → f = .divisionByZero) := by
  by_cases hz : chunkBytes = 0
  · subst hz
    refine ⟨fun he => ?_, fun he => (Except.error.inj he).symm⟩
    simp only [layout, kindFor, chunksFor, bind, Except.bind, pure, Except.pure] at he
    split at he <;> cases he <;> rfl
  · obtain ⟨n, hn⟩ := chunksFor_eq hz t length
    refine ⟨fun he => ?_, fun he => ?_⟩
    · simp only [layout, kindFor, hn, bind, Except.bind, pure, Except.pure] at he
      split at he <;> cases he
    · have he : chunksFor chunkBytes t length = .error f := he
      rw [hn] at he
      cases he

end Model

end SegmentedHeap
