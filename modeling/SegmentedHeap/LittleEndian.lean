/-
SegmentedHeap.LittleEndian — numbers as bytes, the lowest byte first.
-/

namespace SegmentedHeap.LittleEndian

/-- The number that the bytes spell. -/
def decode : List UInt8 → Nat
  | [] => 0
  | b :: rest => b.toNat + 256 * decode rest

/-- The lowest `count` bytes of a number. -/
def encode : (count : Nat) → Nat → List UInt8
  | 0, _ => []
  | count + 1, n => n.toUInt8 :: encode count (n / 256)

@[simp] theorem length_encode (count n : Nat) : (encode count n).length = count := by
  induction count generalizing n with
  | zero => rfl
  | succ c ih => simp [encode, ih]

theorem decode_lt (bytes : List UInt8) : decode bytes < Nat.pow 256 bytes.length := by
  induction bytes with
  | nil => simp [decode]
  | cons b rest ih =>
    have hb : b.toNat < 256 := b.toNat_lt
    simp only [decode, List.length_cons, Nat.pow_eq, Nat.pow_succ] at ih ⊢
    omega

/-- A number that fits is read back from its bytes. -/
theorem decode_encode (count n : Nat) : decode (encode count n) = n % Nat.pow 256 count := by
  induction count generalizing n with
  | zero => simp [encode, decode, Nat.mod_one]
  | succ c ih =>
    have hb : n.toUInt8.toNat = n % 256 := by simp [Nat.toUInt8]
    rw [encode, decode, ih, hb, Nat.pow_eq, Nat.pow_eq, Nat.pow_succ, Nat.mul_comm (256 ^ c) 256,
      Nat.mod_mul]

/-- Bytes are read back from the number that they spell. -/
theorem encode_decode (bytes : List UInt8) : encode bytes.length (decode bytes) = bytes := by
  induction bytes with
  | nil => rfl
  | cons b rest ih =>
    have hb : b.toNat < 256 := b.toNat_lt
    have h1 : (b.toNat + 256 * decode rest) / 256 = decode rest := by omega
    have h2 : (b.toNat + 256 * decode rest).toUInt8 = b := by
      apply UInt8.toNat_inj.mp
      simp only [Nat.toUInt8, UInt8.toNat_ofNat']
      omega
    rw [List.length_cons, encode, decode, h1, h2, ih]

end SegmentedHeap.LittleEndian
