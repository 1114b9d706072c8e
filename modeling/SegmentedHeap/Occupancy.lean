/-
SegmentedHeap.Occupancy — the occupancy of a heap at one moment.
-/
import SegmentedHeap.Generation
import SegmentedHeap.Word

namespace SegmentedHeap

structure Occupancy where
  /-- Live objects of the kinds that are collected. -/
  objects : ByGeneration Nat := .replicate 0
  /-- Chunks that they hold. -/
  chunks : ByGeneration Nat := .replicate 0
  /-- Live objects of the other kinds. -/
  uncollected : Nat := 0
  uncollectedChunks : Nat := 0
  smallSegments : Nat := 0
  bigSegments : Nat := 0
  /-- Bytes obtained from the system. -/
  totalBytes : Nat := 0
  /-- Members of the old-to-new set. -/
  oldToNew : Nat := 0
deriving DecidableEq, Inhabited

namespace Occupancy

/-- Live objects of every kind. -/
def totalObjects (s : Occupancy) : Nat := s.objects.total + s.uncollected

/-- The same, which has to fit a word. -/
def totalObjects? (s : Occupancy) : Except Fault Nat :=
  Word.sum (s.objects.toList ++ [s.uncollected])

/-- Segments of either size; their number has to fit a word. -/
def segments? (s : Occupancy) : Except Fault Nat := Word.sum [s.smallSegments, s.bigSegments]

/-- The written form, two lines. -/
def text (s : Occupancy) : String :=
  let tier (g : Generation) := s!"gen{g.toNat}: {s.objects.get g} ({s.chunks.get g} chunks)"
  String.intercalate ", " (Generation.all.map tier) ++ s!", uncollected: {s.uncollected}\n"
    ++ s!"segments: {s.smallSegments} small, {s.bigSegments} big, {s.totalBytes} bytes, "
    ++ s!"old-to-new: {s.oldToNew}"

end Occupancy

end SegmentedHeap
