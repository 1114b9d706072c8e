/-
SegmentedHeap.Config — the fixed parameters of a heap.

The geometry (chunk and segment sizes, segments to a block, the limit on
segments) is checked once, by `Config.validate`; the first parameter out
of order is the one reported.
-/
import SegmentedHeap.Error
import SegmentedHeap.Word

namespace SegmentedHeap

/-- When the heap suggests a collection, and at what level. -/
structure Policy where
  /-- Allocations after which a collection is due. -/
  youngThreshold : Nat := 10000
  /-- One collection in so many is at level one or above. -/
  level1Every : Nat := 4
  /-- One of those in so many is at level two. -/
  level2Every : Nat := 4
deriving DecidableEq, Inhabited

structure Config where
  chunkBytes : Nat := 16
  /-- Chunks of a small segment. -/
  segmentChunks : Nat := 64
  /-- Most segments reserved at once, small and big. -/
  maxSegments : Nat := 0x100000
  /-- Small segments carved from one pool block. -/
  segmentsPerBlock : Nat := 16
  /-- Alignment promised for the start of every object. -/
  dataAlignment : Nat := 16
  /-- Overwrite objects that are released. -/
  debugFill : Bool := true
  /-- Check every reference that a tracer yields. -/
  checkRefs : Bool := false
  policy : Policy := {}
deriving DecidableEq, Inhabited

namespace Config

/-- Bytes of a small segment. -/
def segmentBytes (c : Config) : Except Fault Nat := Word.mul c.chunkBytes c.segmentChunks

/-- Bytes of a pool block. -/
def blockBytes (c : Config) : Except Fault Nat := do
  Word.mul (← c.segmentBytes) c.segmentsPerBlock

/-- The first parameter that is out of order, if any. -/
def error? (c : Config) : Option ConfigError :=
  if !Word.isPowerOfTwo c.chunkBytes || c.chunkBytes < 8 then
    some (.chunkSize c.chunkBytes)
  else if !Word.isPowerOfTwo c.segmentChunks || 64 < c.segmentChunks then
    some (.segmentChunks c.segmentChunks)
  else if !Word.isPowerOfTwo c.segmentsPerBlock then
    some (.segmentsPerBlock c.segmentsPerBlock)
  else if !Word.isPowerOfTwo c.dataAlignment || c.chunkBytes < c.dataAlignment then
    some (.alignment c.dataAlignment c.chunkBytes)
  else if SegmentedHeap.maxSegments < c.maxSegments then
    some (.tooManySegments c.maxSegments SegmentedHeap.maxSegments)
  else none

/-- Accepts a configuration whose every parameter is in order. -/
def validate (c : Config) : Except ConfigError Unit :=
  match c.error? with
  | some e => .error e
  | none => .ok ()

end Config

end SegmentedHeap
