/-
SegmentedHeap.Reference — how an object is named.

An object is named by one 32-bit word: the index of its segment in the
high 26 bits and the offset of its first chunk in the low 6. The word
with every bit set names no object.

* `Offset` — a chunk position inside a segment, below 64.
* `ObjRef` — the reference, with its two halves `segment` and `offset`.
* `ObjRef.ofSlot` — the reference of a slot; `segment_ofSlot` and `offset_ofSlot`
  read the halves back, so within the encoding's range distinct slots
  have distinct references.
-/

namespace SegmentedHeap

/-- Position of a segment in the segment table. -/
abbrev SegmentIndex := Nat

/-- Position of a chunk in its segment: a segment has at most 64. -/
abbrev Offset := Fin 64

/-- The offset of a segment's first slot. -/
abbrev Offset.lowest : Offset := 0

/-- Every offset, in increasing order. -/
def offsets : List Offset := List.finRange 64

theorem mem_offsets (o : Offset) : o ∈ offsets := List.mem_finRange o

/-- Most segments the encoding can tell apart. The index after the last
one is unusable: its offset 63 is the word that names no object. -/
def maxSegments : Nat := 0x3ffffff

/-- A reference to a heap object, or to none. -/
structure ObjRef where
  raw : UInt32
deriving DecidableEq

namespace ObjRef

/-- The reference that names no object. -/
def null : ObjRef := ⟨0xffffffff⟩

instance : Inhabited ObjRef := ⟨null⟩

/-- The slot at `offset` of segment `index`. -/
def ofSlot (index : SegmentIndex) (offset : Offset) : ObjRef :=
  ⟨UInt32.ofNat (index * 64 + offset.val)⟩

/-- The segment the reference points into. -/
def segment (r : ObjRef) : SegmentIndex := r.raw.toNat / 64

/-- The chunk of that segment it points to. -/
def offset (r : ObjRef) : Offset :=
  ⟨r.raw.toNat % 64, Nat.mod_lt _ (by decide)⟩

def isNull (r : ObjRef) : Bool := r == null

/-- The reference itself, unless it is null. -/
def get? (r : ObjRef) : Option ObjRef := if r.isNull then none else some r

/-- The written form: `#segment:offset`, or `#none`. -/
def text (r : ObjRef) : String :=
  if r.isNull then "#none" else s!"#{r.segment}:{r.offset.val}"

theorem ext_raw {r s : ObjRef} (h : r.raw = s.raw) : r = s := by
  cases r; cases s; simp_all

@[simp] theorem isNull_iff {r : ObjRef} : r.isNull = true ↔ r = null := by
  simp [isNull]

theorem raw_ofSlot {index : Nat} (h : index ≤ maxSegments) (offset : Offset) :
    (ObjRef.ofSlot index offset).raw.toNat = index * 64 + offset.val := by
  simp only [ObjRef.ofSlot, UInt32.toNat_ofNat', maxSegments] at *
  have := offset.isLt
  exact Nat.mod_eq_of_lt (by omega)

theorem segment_ofSlot {index : Nat} (h : index ≤ maxSegments) (offset : Offset) :
    (ObjRef.ofSlot index offset).segment = index := by
  have := offset.isLt
  show (ObjRef.ofSlot index offset).raw.toNat / 64 = index
  rw [raw_ofSlot h]
  omega

theorem offset_ofSlot {index : Nat} (h : index ≤ maxSegments) (offset : Offset) :
    (ObjRef.ofSlot index offset).offset = offset := by
  have := offset.isLt
  apply Fin.ext
  simp only [ObjRef.offset, raw_ofSlot h]
  omega

/-- A slot of a segment below the limit is never the null reference. -/
theorem ofSlot_ne_null {index : Nat} (h : index < maxSegments) (offset : Offset) :
    ObjRef.ofSlot index offset ≠ null := by
  intro e
  have hr := raw_ofSlot (Nat.le_of_lt h) offset
  rw [e] at hr
  have := offset.isLt
  have h32 : null.raw.toNat = 4294967295 := by decide
  simp only [maxSegments] at h
  omega

/-- A reference is the slot its two halves name. -/
theorem ofSlot_segment_offset (r : ObjRef) : ObjRef.ofSlot r.segment r.offset = r := by
  apply ext_raw
  apply UInt32.toNat_inj.mp
  have hlt : r.raw.toNat < 2 ^ 32 := r.raw.toNat_lt
  have hseg : r.raw.toNat / 64 ≤ maxSegments := by simp only [maxSegments]; omega
  have h := raw_ofSlot hseg r.offset
  simp only [segment, ObjRef.offset] at h ⊢
  omega

end ObjRef

end SegmentedHeap
