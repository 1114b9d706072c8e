/-
SegmentedHeap.CommandLine.Usage — what is written instead of a run.

* `help` — the switches and what they are for.
* `UsageError.message` — the answer to a question for help or for the
  version, or why the arguments were not accepted.
-/
import SegmentedHeap.CommandLine.Options
import SegmentedHeap.Text.Column

namespace SegmentedHeap.CommandLine

def programName : String := "segheap"

def programVersion : String := "0.1.0"

namespace Switch

/-- What a switch is for. -/
def purpose : Switch → String
  | .setting .seed => "Seed for the workload's random choices [default: 0]"
  | .setting .steps => "Number of workload steps [default: 100000]"
  | .setting .live => "Number of root slots the workload keeps live [default: 256]"
  | .setting .bigLength =>
    "Integer vector length that forces the big object path [default: 512]"
  | .setting .bigEvery =>
    "Make one allocation in this many a big integer vector [default: 500]"
  | .setting .chunkBytes => "Bytes per chunk (power of two, at least 8)"
  | .setting .segmentChunks => "Chunks per small segment (power of two, at most 64)"
  | .setting .maxSegments => "Ceiling on reserved segments"
  | .setting .segmentsPerBlock => "Small segments per pool block"
  | .setting .youngThreshold => "Allocations between policy collections"
  | .setting .level1Every => "Collect generation one every this many collections"
  | .setting .level2Every => "Collect everything every this many generation one collections"
  | .flag .debugFill => "Overwrite freed objects with a fill pattern"
  | .flag .checkRefs => "Validate every reference the tracer yields"
  | .flag .dumpHeap => "Dump the heap to stderr after the run"
  | .flag .statistics => "Print statistics to stderr before exiting"
  | .help => "Print help"
  | .version => "Print version"

def takesValue : Switch → Bool
  | .setting _ => true
  | _ => false

/-- The line of one switch: its letter, its name, a place for its value,
and what it is for. -/
def helpLine (s : Switch) (long : String) (letter : Option Char) : String :=
  let short := match letter with
    | some c => "-" ++ c.toString ++ ", "
    | none => "    "
  let value := if s.takesValue then " <N>" else ""
  "  " ++ short ++ Text.padRight 28 ("--" ++ long ++ value) ++ s.purpose ++ "\n"

end Switch

def help : String :=
  "Exercise a segmented generational heap\n\nUsage: " ++ programName ++ " [OPTIONS]\n\nOptions:\n"
    ++ String.join (Switch.all.map fun (s, long, letter) => s.helpLine long letter)

def UsageError.message : UsageError → String
  | .unknownArgument => "error: unexpected argument\n"
  | .argumentConflict => "error: an argument cannot be used multiple times\n"
  | .invalidValue => "error: a value is required but none was supplied\n"
  | .valueValidation => "error: invalid value\n"
  | .tooManyValues => "error: unexpected value for an argument that takes none\n"
  | .displayHelp => help
  | .displayVersion => programName ++ " " ++ programVersion ++ "\n"

end SegmentedHeap.CommandLine
