/-
SegmentedHeap.Word — sizes held in 64-bit words.

Sizes and counts are natural numbers that stay below `2 ^ 64`. Where an
operation could leave that range, it says so: `Word.mul` reports the
overflow.
-/
import SegmentedHeap.Fault

namespace SegmentedHeap.Word

/-- The number of values of a word, `2 ^ 64`. -/
def limit : Nat := 0x10000000000000000

/-- The largest size of one object in memory. -/
def maxSize : Nat := 0x7fffffffffffffff

/-- The largest 32-bit number, the most that a stored length holds. -/
def max32 : Nat := 0xffffffff

/-- The product, unless it does not fit. -/
def mul (a b : Nat) : Except Fault Nat :=
  if a * b < limit then .ok (a * b) else .error .overflow

/-- The sum, however large. -/
def total (ns : List Nat) : Nat := ns.foldr (· + ·) 0

@[simp] theorem total_cons (n : Nat) (ns : List Nat) : total (n :: ns) = n + total ns := rfl

theorem total_append (ns ms : List Nat) : total (ns ++ ms) = total ns + total ms := by
  induction ns with
  | nil => exact (Nat.zero_add _).symm
  | cons n ns ih => rw [List.cons_append, total_cons, total_cons, ih, Nat.add_assoc]

theorem total_replicate (count n : Nat) : total (List.replicate count n) = count * n := by
  induction count with
  | zero => exact (Nat.zero_mul n).symm
  | succ count ih => rw [List.replicate_succ, total_cons, ih, Nat.succ_mul, Nat.add_comm]

/-- The sum, unless it does not fit. -/
def sum (ns : List Nat) : Except Fault Nat :=
  if total ns < limit then .ok (total ns) else .error .overflow

def isPowerOfTwo (n : Nat) : Bool := n == Nat.pow 2 n.log2

theorem isPowerOfTwo_iff {n : Nat} : isPowerOfTwo n = true ↔ ∃ k, n = Nat.pow 2 k := by
  simp only [isPowerOfTwo, beq_iff_eq]
  exact ⟨fun h => ⟨_, h⟩, fun ⟨k, h⟩ => by rw [h, Nat.pow_eq, Nat.log2_two_pow, Nat.pow_eq]⟩

/-- The number of zero bits below the lowest set bit of a word; all 64
of them for zero. -/
def trailingZeros (n : Nat) : Nat := ((List.range 64).find? n.testBit).getD 64

theorem trailingZeros_two_pow {k : Nat} (h : k < 64) : trailingZeros (Nat.pow 2 k) = k := by
  have hf : (List.range 64).find? (Nat.pow 2 k).testBit = some k := by
    rw [Nat.pow_eq, List.find?_range_eq_some]
    refine ⟨Nat.testBit_two_pow_self, by simpa using h, ?_⟩
    intro j hj
    simp [Nat.ne_of_gt hj]
  rw [trailingZeros, hf, Option.getD_some]

theorem trailingZeros_two_pow_of_le {k : Nat} (h : 64 ≤ k) : trailingZeros (Nat.pow 2 k) = 64 := by
  have hf : (List.range 64).find? (Nat.pow 2 k).testBit = none := by
    rw [Nat.pow_eq, List.find?_range_eq_none]
    intro j hj
    simp [Nat.ne_of_gt (Nat.lt_of_lt_of_le hj h)]
  rw [trailingZeros, hf, Option.getD_none]

theorem trailingZeros_le (n : Nat) : trailingZeros n ≤ 64 := by
  unfold trailingZeros
  cases hf : (List.range 64).find? n.testBit with
  | none => exact Nat.le_refl 64
  | some k => exact Nat.le_of_lt (List.mem_range.mp (List.mem_of_find?_eq_some hf))

/-- Powers of two below the limit divide it. -/
theorem dvd_limit {k : Nat} (h : k ≤ 64) : Nat.pow 2 k ∣ limit := Nat.pow_dvd_pow 2 h

end SegmentedHeap.Word
