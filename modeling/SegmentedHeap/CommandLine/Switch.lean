/-
SegmentedHeap.CommandLine.Switch — the switches of the command line.

A switch has a long name and perhaps a letter, and either takes a value
or does not. The table `Switch.all` lists them.
-/
import SegmentedHeap.Word

namespace SegmentedHeap.CommandLine

/-- A switch that takes a number. -/
inductive Setting where
  | seed
  | steps
  | live
  | bigLength
  | bigEvery
  | chunkBytes
  | segmentChunks
  | maxSegments
  | segmentsPerBlock
  | youngThreshold
  | level1Every
  | level2Every
deriving DecidableEq

/-- A switch that is either given or not. -/
inductive Flag where
  | debugFill
  | checkRefs
  | dumpHeap
  | statistics
deriving DecidableEq

inductive Switch where
  | setting (s : Setting)
  | flag (f : Flag)
  | help
  | version
deriving DecidableEq

namespace Switch

/-- Every switch, with its long name and its letter. -/
def all : List (Switch × String × Option Char) := [
  (.setting .seed, "seed", none),
  (.setting .steps, "steps", some 'n'),
  (.setting .live, "live", some 'l'),
  (.setting .bigLength, "big-length", none),
  (.setting .bigEvery, "big-every", none),
  (.setting .chunkBytes, "chunk-bytes", none),
  (.setting .segmentChunks, "segment-chunks", none),
  (.setting .maxSegments, "max-segments", none),
  (.setting .segmentsPerBlock, "segments-per-block", none),
  (.setting .youngThreshold, "young-threshold", none),
  (.setting .level1Every, "level1-every", none),
  (.setting .level2Every, "level2-every", none),
  (.flag .debugFill, "debug-fill", none),
  (.flag .checkRefs, "check-refs", none),
  (.flag .dumpHeap, "dump-heap", none),
  (.flag .statistics, "statistics", some 'S'),
  (.help, "help", some 'h'),
  (.version, "version", some 'V')]

def ofLong? (name : String) : Option Switch :=
  (all.find? fun (_, long, _) => long == name).map Prod.fst

def ofLetter? (c : Char) : Option Switch :=
  (all.find? fun (_, _, letter) => letter == some c).map Prod.fst

end Switch

/-- The number that decimal digits spell; there has to be a digit. -/
def digits? (s : List Char) : Option Nat :=
  if s.isEmpty then none
  else s.foldlM (fun n c =>
    if '0' ≤ c ∧ c ≤ '9' then some (10 * n + (c.toNat - '0'.toNat)) else none) 0

/-- A number below `limit`, written with digits and perhaps a plus. -/
def natural? (limit : Nat) (s : String) : Option Nat :=
  (match s.toList with
   | '+' :: rest => digits? rest
   | cs => digits? cs).filter (· < limit)

/-- The value of a setting. That of `bigEvery` has 32 bits, but is read as
a signed number first, so that zero may have a minus. -/
def Setting.value? (setting : Setting) (s : String) : Option Nat :=
  match setting with
  | .bigEvery =>
    match s.toList with
    | '-' :: rest => (digits? rest).filter (· = 0)
    | _ => natural? (Word.max32 + 1) s
  | _ => natural? Word.limit s

end SegmentedHeap.CommandLine
