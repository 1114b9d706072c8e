/-
SegmentedHeap.Main — the program: a random workload over a heap.

The arguments are read and the run is carried out by
`SegmentedHeap.CommandLine`; here the time is taken and the texts are
written.
-/
import SegmentedHeap.CommandLine.Execution
import SegmentedHeap.CommandLine.Usage

namespace SegmentedHeap.CommandLine

/-- Writes what an exit says, and gives its code. -/
def finish (exit : Exit) : IO UInt32 := do
  IO.eprint exit.errors
  return exit.code.toUInt32

/-- The program: answers a question for help or the version, or runs the
workload and takes its time. -/
def program (args : List String) : IO UInt32 := do
  match Options.parse args with
  | .error e =>
    if e.code = 0 then IO.print e.message else IO.eprint e.message
    return e.code.toUInt32
  | .ok o =>
    let start ← IO.monoNanosNow
    match o.run with
    | .error exit => finish exit
    | .ok ending =>
      let stop ← IO.monoNanosNow
      finish ((ending.timed ⟨stop - start⟩).exit o)

end SegmentedHeap.CommandLine

def main (args : List String) : IO UInt32 := SegmentedHeap.CommandLine.program args
