/-
SegmentedHeap.OffsetSet — sets of chunk offsets inside one segment.

All that a segment knows of its objects (where they start, which slots
are free, generations, marks, remembered objects) is membership of an
offset in a set, and a set is one 64-bit word. Each operation is
described by one lemma about membership, after which no proof has to
look at the bits: `mem_insert`, `mem_erase`, `mem_inter`, `mem_union`,
`mem_sdiff`, `mem_compl`, `mem_slotStarts`. Two sets with the same
members are equal (`OffsetSet.ext`).
-/
import SegmentedHeap.Fault
import SegmentedHeap.Text.Column

namespace SegmentedHeap

/-- A chunk position given as a number, which has to be below 64. -/
def Offset.check (n : Nat) : Except Fault Offset :=
  if h : n < 64 then .ok ⟨n, h⟩ else .error .outOfBounds

/-- A set of offsets; offset `o` is a member when bit `o` is set. -/
structure OffsetSet where
  bits : UInt64
deriving DecidableEq

namespace OffsetSet

/-- The word whose only set bit is that of `o`. -/
def bit (o : Offset) : UInt64 := 1 <<< UInt64.ofNat o.val

def contains (s : OffsetSet) (o : Offset) : Bool := s.bits &&& bit o != 0

instance : Membership Offset OffsetSet := ⟨fun s o => s.contains o = true⟩
instance (o : Offset) (s : OffsetSet) : Decidable (o ∈ s) :=
  inferInstanceAs (Decidable (s.contains o = true))

instance : EmptyCollection OffsetSet := ⟨⟨0⟩⟩
instance : Inhabited OffsetSet := ⟨∅⟩
instance : Inter OffsetSet := ⟨fun s t => ⟨s.bits &&& t.bits⟩⟩
instance : Union OffsetSet := ⟨fun s t => ⟨s.bits ||| t.bits⟩⟩
instance : Complement OffsetSet := ⟨fun s => ⟨~~~s.bits⟩⟩
instance : SDiff OffsetSet := ⟨fun s t => s ∩ ~~~t⟩
instance : Singleton Offset OffsetSet := ⟨fun o => ⟨bit o⟩⟩

def insert (s : OffsetSet) (o : Offset) : OffsetSet := ⟨s.bits ||| bit o⟩

def erase (s : OffsetSet) (o : Offset) : OffsetSet := ⟨s.bits &&& ~~~bit o⟩

def isEmpty (s : OffsetSet) : Bool := s == ∅

/-- The members, in increasing order. -/
def members (s : OffsetSet) : List Offset := offsets.filter s.contains

/-- The lowest member. -/
def first? (s : OffsetSet) : Option Offset := offsets.find? s.contains

def size (s : OffsetSet) : Nat := offsets.countP s.contains

/-- The set of the offsets that satisfy `p`. -/
def ofPred (p : Offset → Bool) : OffsetSet :=
  offsets.foldl (fun s o => if p o then s.insert o else s) ∅

/-- Where objects of `chunks` chunks start in a segment of `limit`
chunks: at each multiple that leaves room for a whole object. -/
def slotStarts (chunks limit : Nat) : OffsetSet :=
  ofPred fun o => o.val % chunks == 0 && o.val + chunks ≤ limit

/-- The same, for a layout that has to be possible: objects of at least
one chunk, in a segment of at most 64. -/
def slotStarts? (chunks limit : Nat) : Except Fault OffsetSet :=
  if 0 < chunks ∧ limit ≤ 64 then .ok (slotStarts chunks limit) else .error .badGeometry

/-- The word read with offset 0 as its highest bit. -/
def reversedBits (s : OffsetSet) : Nat :=
  offsets.foldl (fun n o => 2 * n + (s.contains o).toNat) 0

/-- The written form: sixteen hexadecimal digits, low offsets first. -/
def text (s : OffsetSet) : String := "0x" ++ Text.hexPadded 16 s.reversedBits

/-! ## Membership -/

theorem toBitVec_bit : ∀ o : Offset, (bit o).toBitVec = BitVec.twoPow 64 o.val := by
  decide +kernel

theorem contains_eq_getLsbD (s : OffsetSet) (o : Offset) :
    s.contains o = s.bits.toBitVec.getLsbD o.val := by
  have ho := o.isLt
  have hz : s.bits &&& bit o = 0 ↔ s.bits.toBitVec &&& BitVec.twoPow 64 o.val = 0#64 := by
    rw [← toBitVec_bit]
    constructor
    · intro h; simpa using congrArg UInt64.toBitVec h
    · intro h; apply UInt64.toBitVec_inj.mp; simpa using h
  have hp : BitVec.twoPow 64 o.val ≠ 0#64 := by
    intro e
    have := congrArg (fun v => v.getLsbD o.val) e
    simp [ho] at this
  rw [Bool.eq_iff_iff, contains, bne_iff_ne, ne_eq, hz, BitVec.and_twoPow]
  split <;> simp_all

@[simp] theorem contains_iff {s : OffsetSet} {o : Offset} : s.contains o = true ↔ o ∈ s := Iff.rfl

@[simp] theorem contains_eq_false_iff {s : OffsetSet} {o : Offset} :
    s.contains o = false ↔ ¬ o ∈ s := by
  rw [← contains_iff, Bool.not_eq_true]

theorem mem_iff_getLsbD {s : OffsetSet} {o : Offset} :
    o ∈ s ↔ s.bits.toBitVec.getLsbD o.val = true := by
  rw [← contains_eq_getLsbD]; exact Iff.rfl

/-- Sets with the same members are equal. -/
@[ext] theorem ext {s t : OffsetSet} (h : ∀ o, o ∈ s ↔ o ∈ t) : s = t := by
  obtain ⟨a⟩ := s
  obtain ⟨b⟩ := t
  congr 1
  apply UInt64.toBitVec_inj.mp
  apply BitVec.eq_of_getLsbD_eq
  intro i hi
  have := h ⟨i, hi⟩
  simp only [mem_iff_getLsbD] at this
  exact Bool.eq_iff_iff.mpr this

@[simp] theorem not_mem_empty (o : Offset) : ¬ o ∈ (∅ : OffsetSet) := by
  rw [mem_iff_getLsbD]
  show ¬ (0 : UInt64).toBitVec.getLsbD o.val = true
  simp

@[simp] theorem mem_inter {s t : OffsetSet} {o : Offset} : o ∈ s ∩ t ↔ o ∈ s ∧ o ∈ t := by
  simp only [mem_iff_getLsbD, Inter.inter]
  simp

@[simp] theorem mem_union {s t : OffsetSet} {o : Offset} : o ∈ s ∪ t ↔ o ∈ s ∨ o ∈ t := by
  simp only [mem_iff_getLsbD, Union.union]
  simp

@[simp] theorem mem_compl {s : OffsetSet} {o : Offset} : o ∈ ~~~s ↔ ¬ o ∈ s := by
  have ho := o.isLt
  rw [mem_iff_getLsbD, mem_iff_getLsbD]
  show (~~~s.bits).toBitVec.getLsbD o.val = true ↔ _
  rw [UInt64.toBitVec_not, BitVec.getLsbD_not]
  simp [ho]

@[simp] theorem mem_sdiff {s t : OffsetSet} {o : Offset} : o ∈ s \ t ↔ o ∈ s ∧ ¬ o ∈ t := by
  show o ∈ s ∩ ~~~t ↔ _
  simp

theorem bit_getLsbD (o p : Offset) : (bit o).toBitVec.getLsbD p.val = decide (o = p) := by
  rw [toBitVec_bit, BitVec.getLsbD_twoPow]
  simp [Fin.ext_iff]

@[simp] theorem mem_singleton {o p : Offset} : p ∈ ({o} : OffsetSet) ↔ o = p := by
  rw [mem_iff_getLsbD]
  show (bit o).toBitVec.getLsbD p.val = true ↔ _
  rw [bit_getLsbD, decide_eq_true_iff]

@[simp] theorem mem_insert {s : OffsetSet} {o p : Offset} : p ∈ s.insert o ↔ o = p ∨ p ∈ s := by
  have : s.insert o = s ∪ {o} := rfl
  rw [this, mem_union, mem_singleton]
  exact Or.comm

@[simp] theorem mem_erase {s : OffsetSet} {o p : Offset} : p ∈ s.erase o ↔ ¬ o = p ∧ p ∈ s := by
  have : s.erase o = s ∩ ~~~({o} : OffsetSet) := rfl
  rw [this, mem_inter, mem_compl, mem_singleton]
  exact And.comm

@[simp] theorem mem_members {s : OffsetSet} {o : Offset} : o ∈ s.members ↔ o ∈ s := by
  simp [members, mem_offsets]

theorem mem_ofPred {p : Offset → Bool} {o : Offset} : o ∈ ofPred p ↔ p o = true := by
  have key : ∀ (l : List Offset) (s : OffsetSet),
      o ∈ l.foldl (fun s o => if p o then s.insert o else s) s ↔ o ∈ s ∨ (o ∈ l ∧ p o = true) := by
    intro l
    induction l with
    | nil => simp
    | cons a l ih =>
      intro s
      rw [List.foldl_cons, ih]
      by_cases ha : p a = true
      · simp only [ha, if_true, mem_insert, List.mem_cons]
        grind
      · simp only [ha, List.mem_cons]
        grind
  simp [ofPred, key, mem_offsets]

@[simp] theorem mem_slotStarts {chunks limit : Nat} {o : Offset} :
    o ∈ slotStarts chunks limit ↔ o.val % chunks = 0 ∧ o.val + chunks ≤ limit := by
  simp [slotStarts, mem_ofPred]

theorem isEmpty_iff {s : OffsetSet} : s.isEmpty = true ↔ ∀ o, ¬ o ∈ s := by
  simp only [isEmpty, beq_iff_eq]
  constructor
  · rintro rfl; simp
  · intro h; ext o; simp [h o]

theorem size_eq_length_members (s : OffsetSet) : s.size = s.members.length :=
  List.countP_eq_length_filter

theorem mem_of_first? {s : OffsetSet} {o : Offset} (h : s.first? = some o) : o ∈ s :=
  List.find?_some h

theorem first?_eq_none_iff {s : OffsetSet} : s.first? = none ↔ s = ∅ := by
  simp only [first?, List.find?_eq_none]
  constructor
  · intro h; ext o; simpa using h o (mem_offsets o)
  · rintro rfl; simp

end OffsetSet

end SegmentedHeap
