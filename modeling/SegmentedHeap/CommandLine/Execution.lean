/-
SegmentedHeap.CommandLine.Execution — a workload run from the command
line.

A run ends with an exit code and a text for the error stream: 2 if no
heap could be built, 1 if the workload was stopped by an error, 0 if it
ended. The heap is written out if that was asked for, then the error or
nothing, then the statistics if they were asked for, those of an empty
run after an error. A broken contract ends a run with code 101.
-/
import SegmentedHeap.CommandLine.Options
import SegmentedHeap.Heap.Text

namespace SegmentedHeap.CommandLine

/-- How a run ended. -/
structure Exit where
  code : Nat
  errors : String
deriving DecidableEq, Inhabited

/-- What a command line leads to. -/
inductive Outcome where
  /-- The arguments were not accepted, or no run was asked for. -/
  | usage (error : UsageError)
  | exit (exit : Exit)
deriving DecidableEq

/-- The exit code of a rejected command line; that of a question for help
or the version is 0. -/
def UsageError.code : UsageError → Nat
  | .displayHelp | .displayVersion => 0
  | _ => 2

def Exit.ofFault (f : Fault) : Exit where
  code := 101
  errors := (f.message?.getD "internal error") ++ "\n"

/-- The statistics under their title. -/
def report (s : Statistics) : Except Fault String := do
  return "\n~~~~~~~~~~\nSTATISTICS\n~~~~~~~~~~\n\n" ++ (← s.text) ++ "\n"

/-- A workload that came to an end: the heap that it left, and its
statistics or the error that stopped it. -/
structure Ending where
  heap : Heap
  result : Except HeapError Statistics

/-- The ending with the time that the workload took. -/
def Ending.timed (e : Ending) (elapsed : Duration) : Ending :=
  { e with result := e.result.map (·.time "workload" elapsed) }

/-- The exit after a workload that ended. -/
def Ending.exit (o : Options) (e : Ending) : Exit :=
  let dumped := if o.has .dumpHeap then e.heap.text ++ "\n" else ""
  let (code, message, statistics) := match e.result with
    | .ok statistics => (0, "", statistics)
    | .error e => (1, e.message ++ "\n", {})
  if o.has .statistics then
    match report statistics with
    | .ok text => { code, errors := dumped ++ message ++ text }
    | .error f => .ofFault f
  else { code, errors := dumped ++ message }

/-- Builds a heap and runs the workload over it, to its end or to an
early exit. -/
def Options.run (o : Options) : Except Exit Ending :=
  match Mutator.create o.heapConfig .standard with
  | .error (.refused e) => .error { code := 2, errors := e.message ++ "\n" }
  | .error (.fault f) => .error (.ofFault f)
  | .ok mutator =>
    match Workload.runSeeded o.workload mutator with
    | .ok statistics mutator => .ok { heap := mutator.heap, result := .ok statistics }
    | .error (.refused e) mutator => .ok { heap := mutator.heap, result := .error e }
    | .error (.fault f) _ => .error (.ofFault f)

/-- What some arguments lead to. -/
def outcome (args : List String) : Outcome :=
  match Options.parse args with
  | .error e => .usage e
  | .ok o => .exit (match o.run with
    | .ok ending => ending.exit o
    | .error exit => exit)

end SegmentedHeap.CommandLine
