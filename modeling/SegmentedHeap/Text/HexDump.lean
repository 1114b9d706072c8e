/-
SegmentedHeap.Text.HexDump — bytes laid out for reading.

A title with the length, then rows of sixteen bytes: the position of
the row's first byte, the bytes in four groups of four, and the
printable characters among them, a point standing for any other.
-/
import SegmentedHeap.Text.Column

namespace SegmentedHeap.Text

/-- The character of a printable ASCII byte; a point for any other. -/
def glyph (b : UInt8) : Char :=
  if 0x20 ≤ b ∧ b ≤ 0x7e then Char.ofNat b.toNat else '.'

/-- Bytes in groups of four, set apart by one space inside a group and
two between groups. -/
def groups (bytes : List UInt8) : String :=
  let group (g : List UInt8) := String.intercalate " " (g.map fun b => hexPadded 2 b.toNat)
  String.intercalate "  " ([bytes.take 4, (bytes.drop 4).take 4, (bytes.drop 8).take 4,
    (bytes.drop 12).take 4].filter (! ·.isEmpty) |>.map group)

/-- The characters that four full groups take. -/
def groupsWidth : Nat := 50

/-- The row that starts at byte `position`. -/
def row (position : Nat) (bytes : List UInt8) : String :=
  hexPadded 4 position ++ ":   " ++ padRight groupsWidth (groups bytes) ++ "   "
    ++ String.ofList (bytes.map glyph)

/-- The rows from `position` on; `count` is at least their number. -/
def rows : (count position : Nat) → List UInt8 → List String
  | 0, _, _ => []
  | _, _, [] => []
  | count + 1, position, bytes =>
    row position (bytes.take 16) :: rows count (position + 16) (bytes.drop 16)

/-- The whole dump. -/
def hexDump (bytes : List UInt8) : String :=
  s!"Length: {bytes.length} (0x{hex bytes.length}) bytes\n"
    ++ String.intercalate "\n" (rows bytes.length 0 bytes)

end SegmentedHeap.Text
