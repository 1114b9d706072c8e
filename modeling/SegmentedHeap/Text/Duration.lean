/-
SegmentedHeap.Text.Duration — spans of time.

A duration is a number of nanoseconds. Its short text uses the largest
of the units s, ms, µs and ns that gives it a whole part, and drops the
zeros that end its fraction.
-/
import SegmentedHeap.Text.Decimal

namespace SegmentedHeap

/-- A span of time, in nanoseconds. -/
structure Duration where
  nanos : Nat
deriving DecidableEq, Inhabited

namespace Duration

/-- The fraction `part / 10 ^ places` behind a point, without the zeros
that end it; empty for zero. -/
def fraction (places part : Nat) : String :=
  let digits := (Text.padLeft places '0' (toString part)).toList
  let kept := (digits.reverse.dropWhile (· == '0')).reverse
  if part = 0 then "" else "." ++ String.ofList kept

/-- The short text, such as `1.5µs` or `2s`. -/
def text (d : Duration) : String :=
  let rest := d.nanos % 1000000000
  if d.nanos ≥ 1000000000 then s!"{d.nanos / 1000000000}" ++ fraction 9 rest ++ "s"
  else if rest ≥ 1000000 then s!"{rest / 1000000}" ++ fraction 6 (rest % 1000000) ++ "ms"
  else if rest ≥ 1000 then s!"{rest / 1000}" ++ fraction 3 (rest % 1000) ++ "µs"
  else s!"{rest}ns"

/-- The span in seconds, as a float: whole seconds and the rest are
converted apart and added. -/
def seconds (d : Duration) : Float :=
  (d.nanos / 1000000000).toUInt64.toFloat + (d.nanos % 1000000000).toUInt64.toFloat / 1000000000.0

end Duration

end SegmentedHeap
