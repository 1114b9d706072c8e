/-
SegmentedHeap.Text.Decimal — a float with a fixed number of places.

A finite float is an integer times a power of two, so its decimal text
is a matter of exact integer arithmetic: scale by the power of ten,
divide, round to nearest. A value exactly half way between two decimals
goes to the even one.
-/
import SegmentedHeap.Text.Column

namespace SegmentedHeap.Text

/-- The number `mantissa * 2 ^ exponent`. -/
structure Dyadic where
  mantissa : Nat
  exponent : Int
deriving DecidableEq

/-- The value of a finite float, its sign left out. -/
def Dyadic.ofFloat (x : Float) : Dyadic :=
  let bits : Nat := x.toBits.toNat
  let biased : Nat := bits / Nat.pow 2 52 % Nat.pow 2 11
  let fraction : Nat := bits % Nat.pow 2 52
  if biased = 0 then ⟨fraction, -1074⟩ else ⟨fraction + Nat.pow 2 52, (biased : Int) - 1075⟩

/-- `n / d` rounded to the nearest integer, a half to the even one. -/
def roundDiv (n d : Nat) : Nat :=
  let q := n / d
  let r := n % d
  if 2 * r < d ∨ (2 * r = d ∧ q % 2 = 0) then q else q + 1

/-- The value times `10 ^ places`, rounded to an integer. -/
def Dyadic.scaled (x : Dyadic) (places : Nat) : Nat :=
  if 0 ≤ x.exponent then x.mantissa * Nat.pow 2 x.exponent.toNat * Nat.pow 10 places
  else roundDiv (x.mantissa * Nat.pow 10 places) (Nat.pow 2 (-x.exponent).toNat)

/-- A finite float that is not negative, with `places` decimal places
(at least one). -/
def fixed (places : Nat) (x : Float) : String :=
  let n := (Dyadic.ofFloat x).scaled places
  toString (n / Nat.pow 10 places) ++ "." ++
    padLeft places '0' (toString (n % Nat.pow 10 places))

/-- Rounding errs by at most half a unit. -/
theorem roundDiv_near (n : Nat) {d : Nat} (hd : 0 < d) :
    2 * n ≤ 2 * (roundDiv n d * d) + d ∧ 2 * (roundDiv n d * d) ≤ 2 * n + d := by
  have h := Nat.div_add_mod n d
  have hr := Nat.mod_lt n hd
  have hq : n / d * d = d * (n / d) := Nat.mul_comm _ _
  have hs : (n / d + 1) * d = d * (n / d) + d := by rw [Nat.add_mul, hq, Nat.one_mul]
  unfold roundDiv
  simp only
  split
  · rw [hq]; omega
  · rw [hs]; omega

end SegmentedHeap.Text
