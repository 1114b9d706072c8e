/-
SegmentedHeap.Text.Column — padding a text to the width of a column,
and numbers and bytes in hexadecimal digits.
-/

namespace SegmentedHeap.Text

/-- `s` with copies of `c` before it, up to `width` characters. -/
def padLeft (width : Nat) (c : Char) (s : String) : String :=
  String.ofList (List.replicate (width - s.length) c) ++ s

/-- `s` with spaces after it, up to `width` characters. -/
def padRight (width : Nat) (s : String) : String :=
  s ++ String.ofList (List.replicate (width - s.length) ' ')

/-- A number set flush right in a column of `width` characters. -/
def column (width n : Nat) : String := padLeft width ' ' (toString n)

/-- The hexadecimal digits of `n`, in lower case. -/
def hex (n : Nat) : String := String.ofList (Nat.toDigits 16 n)

/-- The hexadecimal digits of `n`, with zeros before them up to `width`
digits. -/
def hexPadded (width n : Nat) : String := padLeft width '0' (hex n)

/-- Bytes as hexadecimal digits, two for each. -/
def hexBytes (bytes : List UInt8) : String :=
  String.join (bytes.map fun b => hexPadded 2 b.toNat)

/-- The value of a hexadecimal digit of either case. -/
def hexDigit? (c : Char) : Option Nat :=
  if '0' ≤ c ∧ c ≤ '9' then some (c.toNat - '0'.toNat)
  else if 'a' ≤ c ∧ c ≤ 'f' then some (c.toNat - 'a'.toNat + 10)
  else if 'A' ≤ c ∧ c ≤ 'F' then some (c.toNat - 'A'.toNat + 10)
  else none

/-- The bytes that hexadecimal digits spell, two for each. -/
def bytesOfHex? : List Char → Option (List UInt8)
  | [] => some []
  | [_] => none
  | high :: low :: rest => do
    return UInt8.ofNat (16 * (← hexDigit? high) + (← hexDigit? low)) :: (← bytesOfHex? rest)

end SegmentedHeap.Text
