/-
SegmentedHeap.Memory — bytes obtained from the system.

Memory is a row of regions, each with its own bytes, and an address is a
position in one of them: addresses in different regions are never the
same, and how regions lie to each other is not known. A region is kept
up to the highest byte written to it; the bytes past that read as zero.

* `Region.put`, `Region.get` — one byte, with `get_put` as their law.
* `Memory.read`, `write`, `fill`, `store`, `load` — bytes at an address.
* `System` — which requests for memory are granted.
-/
import SegmentedHeap.Word

namespace SegmentedHeap

/-- The bytes of one region. -/
structure Region where
  bytes : ByteArray
deriving Inhabited

namespace Region

def empty : Region := ⟨ByteArray.empty⟩

def get (r : Region) (i : Nat) : UInt8 :=
  if h : i < r.bytes.size then r.bytes[i] else 0

/-- `count` zero bytes after those that are kept. -/
def extend (bytes : ByteArray) : (count : Nat) → ByteArray
  | 0 => bytes
  | count + 1 => extend (bytes.push 0) count

/-- The region with byte `i` set to `b`. -/
def put (r : Region) (i : Nat) (b : UInt8) : Region :=
  if h : i < r.bytes.size then ⟨r.bytes.set i b⟩
  else if b = 0 then r
  else ⟨(extend r.bytes (i - r.bytes.size)).push b⟩

/-- The region with `count` bytes from `i` on set to `b`. -/
def fill (r : Region) (b : UInt8) (i : Nat) : (count : Nat) → Region
  | 0 => r
  | count + 1 => (r.put i b).fill b (i + 1) count

/-- The region with the bytes from `i` on set to `bytes`. -/
def store (r : Region) (i : Nat) : (bytes : List UInt8) → Region
  | [] => r
  | b :: bytes => (r.put i b).store (i + 1) bytes

/-! ## Reading what was written -/

theorem size_extend (bytes : ByteArray) (count : Nat) :
    (extend bytes count).size = bytes.size + count := by
  induction count generalizing bytes with
  | zero => rfl
  | succ n ih => rw [extend, ih, ByteArray.size_push]; omega

/-- A byte is the entry of the underlying array, or zero past its end. -/
theorem get_eq (r : Region) (i : Nat) : r.get i = (r.bytes.data[i]?).getD 0 := by
  unfold get
  split
  · next h =>
    rw [ByteArray.getElem_eq_getElem_data, Array.getElem?_eq_getElem h, Option.getD_some]
  · next h =>
    rw [Array.getElem?_eq_none (Nat.le_of_not_lt h), Option.getD_none]

theorem get_push (bytes : ByteArray) (b : UInt8) (j : Nat) :
    get ⟨bytes.push b⟩ j = if bytes.size = j then b else get ⟨bytes⟩ j := by
  simp only [get_eq, ByteArray.data_push, Array.getElem?_push, ByteArray.size_data]
  by_cases h : j = bytes.size
  · simp [h]
  · rw [if_neg h, if_neg (Ne.symm h)]

theorem get_extend (bytes : ByteArray) (count j : Nat) :
    get ⟨extend bytes count⟩ j = get ⟨bytes⟩ j := by
  induction count generalizing bytes with
  | zero => rfl
  | succ n ih =>
    rw [extend, ih, get_push]
    split
    · next h => simp [get_eq, ← h]
    · rfl

theorem get_put (r : Region) (i j : Nat) (b : UInt8) :
    (r.put i b).get j = if i = j then b else r.get j := by
  unfold put
  split
  · next h =>
    simp only [get_eq, ByteArray.data_set, Array.getElem?_set]
    by_cases hij : i = j
    · subst hij; simp
    · simp [hij]
  · next h =>
    have hz : r.get i = 0 := by simp [get, h]
    split
    · next hb =>
      by_cases hij : i = j
      · subst hij; simp [hb, hz]
      · simp [hij]
    · rw [get_push, get_extend, size_extend]
      by_cases hij : i = j
      · rw [if_pos (by omega), if_pos hij]
      · rw [if_neg (by omega), if_neg hij]

theorem get_fill (r : Region) (b : UInt8) (i count j : Nat) :
    (r.fill b i count).get j = if i ≤ j ∧ j < i + count then b else r.get j := by
  induction count generalizing r i with
  | zero => rw [fill, if_neg (by omega)]
  | succ n ih =>
    rw [fill, ih, get_put]
    by_cases h1 : i = j
    · simp [h1]
    · by_cases h2 : i ≤ j ∧ j < i + (n + 1)
      · rw [if_pos (by omega), if_pos h2]
      · rw [if_neg (by omega), if_neg h1, if_neg h2]

theorem get_store (r : Region) (i j : Nat) (bytes : List UInt8) :
    (r.store i bytes).get j =
      if i ≤ j then (bytes[j - i]?).getD (r.get j) else r.get j := by
  induction bytes generalizing r i with
  | nil => simp [store]
  | cons b bytes ih =>
    rw [store, ih, get_put]
    by_cases h1 : i = j
    · subst h1
      rw [if_neg (by omega)]
      simp
    · by_cases h2 : i ≤ j
      · obtain ⟨k, hk⟩ : ∃ k, j - i = k + 1 := ⟨j - i - 1, by omega⟩
        rw [if_pos (by omega), if_pos h2, if_neg h1, hk]
        have : j - (i + 1) = k := by omega
        simp [this]
      · rw [if_neg (by omega), if_neg h2, if_neg h1]

end Region

/-- A position in memory: a region and a byte of it. -/
structure Address where
  region : Nat
  offset : Nat
deriving DecidableEq, Inhabited

namespace Address

/-- The address `n` bytes further on. -/
def advance (a : Address) (n : Nat) : Address := { a with offset := a.offset + n }

/-- Whether a multiple of `n`. A region starts at a multiple of whatever
alignment it was asked for, so that only the position in it counts. -/
def isAligned (a : Address) (n : Nat) : Except Fault Bool :=
  if n = 0 then .error .divisionByZero else .ok (a.offset % n == 0)

/-- The bytes from `a` to `b`, which have to be in one region. -/
def distance (a b : Address) : Int := (b.offset : Int) - a.offset

end Address

/-- All regions; a region that was given back keeps its number and
holds nothing. -/
structure Memory where
  regions : Array Region := #[]
deriving Inhabited

namespace Memory

/-- A region that was never used before, and its number. -/
def reserve (m : Memory) : Nat × Memory := (m.regions.size, ⟨m.regions.push .empty⟩)

/-- Memory without the bytes of a region. -/
def release (m : Memory) (region : Nat) : Memory := ⟨m.regions.modify region fun _ => .empty⟩

def read (m : Memory) (a : Address) : UInt8 :=
  match m.regions[a.region]? with
  | some r => r.get a.offset
  | none => 0

def write (m : Memory) (a : Address) (b : UInt8) : Memory :=
  ⟨m.regions.modify a.region (·.put a.offset b)⟩

/-- `count` bytes from `a` on set to `b`. -/
def fill (m : Memory) (a : Address) (count : Nat) (b : UInt8) : Memory :=
  ⟨m.regions.modify a.region (·.fill b a.offset count)⟩

/-- The bytes from `a` on set to `bytes`. -/
def store (m : Memory) (a : Address) (bytes : List UInt8) : Memory :=
  ⟨m.regions.modify a.region (·.store a.offset bytes)⟩

/-- The `count` bytes from `a` on. -/
def load (m : Memory) (a : Address) (count : Nat) : List UInt8 :=
  (List.range count).map fun i => m.read (a.advance i)

theorem read_write (m : Memory) (a b : Address) (x : UInt8) (h : a.region < m.regions.size) :
    (m.write a x).read b = if a = b then x else m.read b := by
  obtain ⟨ar, ao⟩ := a
  obtain ⟨br, bo⟩ := b
  simp only [read, write, Array.getElem?_modify, Address.mk.injEq]
  by_cases hr : ar = br
  · subst hr
    simp [Array.getElem?_eq_getElem h, Region.get_put]
  · simp [hr]

theorem read_fill (m : Memory) (a b : Address) (count : Nat) (x : UInt8)
    (h : a.region < m.regions.size) :
    (m.fill a count x).read b =
      if a.region = b.region ∧ a.offset ≤ b.offset ∧ b.offset < a.offset + count then x
      else m.read b := by
  obtain ⟨ar, ao⟩ := a
  obtain ⟨br, bo⟩ := b
  simp only [read, fill, Array.getElem?_modify]
  by_cases hr : ar = br
  · subst hr
    simp [Array.getElem?_eq_getElem h, Region.get_fill]
  · simp [hr]

theorem read_store (m : Memory) (a b : Address) (bytes : List UInt8)
    (h : a.region < m.regions.size) :
    (m.store a bytes).read b =
      if a.region = b.region ∧ a.offset ≤ b.offset then
        (bytes[b.offset - a.offset]?).getD (m.read b)
      else m.read b := by
  obtain ⟨ar, ao⟩ := a
  obtain ⟨br, bo⟩ := b
  simp only [read, store, Array.getElem?_modify]
  by_cases hr : ar = br
  · subst hr
    simp [Array.getElem?_eq_getElem h, Region.get_store]
  · simp [hr]

/-- A new region changes nothing that could be read. -/
theorem read_reserve (m : Memory) (a : Address) : m.reserve.2.read a = m.read a := by
  simp only [read, reserve, Array.getElem?_push]
  by_cases h : a.region = m.regions.size
  · simp [h, Region.get, Region.empty]
  · simp [h]

/-- Giving a region back leaves the others alone. -/
theorem read_release (m : Memory) (region : Nat) (a : Address) (h : a.region ≠ region) :
    (m.release region).read a = m.read a := by
  simp [read, release, Array.getElem?_modify, Ne.symm h]

theorem length_load (m : Memory) (a : Address) (count : Nat) : (m.load a count).length = count := by
  simp [load]

end Memory

/-- The system, as far as a heap can tell: whether it grants a request
of a size and alignment to one who holds so many bytes already. All that
it grants lies in one address space. -/
structure System where
  grants : (held size align : Nat) → Bool
  bounded : ∀ held size align, grants held size align = true → held + size < Word.limit

/-- A system that refuses only what no machine has. -/
def System.standard : System where
  grants held size align :=
    size < 0x4000000000000 && align < 0x4000000000000 && held + size < Word.limit
  bounded _ _ _ h := of_decide_eq_true (Bool.and_eq_true_iff.mp h).2

instance : Inhabited System := ⟨.standard⟩

end SegmentedHeap
