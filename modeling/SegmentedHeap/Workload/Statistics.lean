/-
SegmentedHeap.Workload.Statistics — the account of a run.
-/
import SegmentedHeap.Metrics
import SegmentedHeap.Occupancy
import SegmentedHeap.Workload.Timings

namespace SegmentedHeap

structure Statistics where
  steps : Nat := 0
  allocations : Nat := 0
  mutations : Nat := 0
  /-- Most live objects seen. -/
  peakObjects : Nat := 0
  collections : ByGeneration Nat := .replicate 0
  freed : Nat := 0
  promoted : Nat := 0
  retries : Nat := 0
  /-- The occupancy of the heap at the end. -/
  heap : Option Occupancy := none
  timings : Timings := {}
deriving DecidableEq, Inhabited

namespace Statistics

def addSteps (s : Statistics) (n : Nat) : Statistics := { s with steps := s.steps + n }

def addAllocations (s : Statistics) (n : Nat) : Statistics :=
  { s with allocations := s.allocations + n }

def addMutations (s : Statistics) (n : Nat) : Statistics :=
  { s with mutations := s.mutations + n }

def notePeak (s : Statistics) (objects : Nat) : Statistics :=
  { s with peakObjects := max s.peakObjects objects }

/-- Takes over the totals of the collector and the final occupancy. -/
def conclude (s : Statistics) (metrics : Metrics) (heap : Occupancy) : Statistics :=
  { s with
    collections := metrics.collections
    freed := metrics.freed
    promoted := metrics.promoted
    retries := metrics.retries.attempts
    heap := some heap }

def time (s : Statistics) (name : String) (time : Duration) : Statistics :=
  { s with timings := s.timings.record name time }

/-- `conclude`, with the time that the collector took in all. -/
def concludeTimed (s : Statistics) (metrics : Metrics) (collector : Duration) (heap : Occupancy) :
    Statistics :=
  (s.conclude metrics heap).time "collector" collector

/-- The written form. The number of all collections has to fit a word. -/
def text (s : Statistics) : Except Fault String := do
  let total ← Word.sum s.collections.toList
  let line (name : String) (n : Nat) := Text.padRight 15 name ++ ": " ++ Text.column 10 n
  let c := s.collections
  return line "Steps" s.steps ++ "\n"
    ++ line "Allocations" s.allocations ++ "\n"
    ++ line "Mutations" s.mutations ++ "\n"
    ++ line "Peak objects" s.peakObjects ++ "\n"
    ++ line "Collections" total ++ s!" (gen0 {c.zero}, gen1 {c.one}, gen2 {c.two})\n"
    ++ line "Freed" s.freed ++ "\n"
    ++ line "Promoted" s.promoted ++ "\n"
    ++ line "Retries" s.retries ++ "\n"
    ++ (match s.heap with
        | some heap => "\n" ++ heap.text ++ "\n"
        | none => "")
    ++ "\n" ++ s.timings.text ++ "\n"

end Statistics

end SegmentedHeap
