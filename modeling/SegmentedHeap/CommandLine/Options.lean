/-
SegmentedHeap.CommandLine.Options — what the command line asks for.

Arguments are read from left to right. A long switch is spelled out
after two dashes, its value behind an equals sign or in the next
argument; letters follow one dash, several together if all but the last
take no value. A value in an argument of its own is only entered when
the next switch is met or the arguments end, so a wrong switch right
behind it is reported first.

* `Options` — the choices, and the configuration and the workload that
  they stand for.
* `Options.parse` — the choices of some arguments.
-/
import SegmentedHeap.CommandLine.Switch
import SegmentedHeap.Workload.Run

namespace SegmentedHeap.CommandLine

/-- Why the arguments were not accepted, or what was asked for instead of
a run. -/
inductive UsageError where
  /-- No such switch, or an argument that belongs to none. -/
  | unknownArgument
  /-- A switch given twice. -/
  | argumentConflict
  /-- A value is missing. -/
  | invalidValue
  /-- A value that is not a number of the right size. -/
  | valueValidation
  /-- A value for a switch that takes none. -/
  | tooManyValues
  | displayHelp
  | displayVersion
deriving DecidableEq

/-- The choices made. A number that was not given is absent. -/
structure Options where
  numbers : List (Setting × Nat) := []
  flags : List Flag := []
deriving DecidableEq, Inhabited

namespace Options

/-- The number given for a setting. -/
def get? (o : Options) (s : Setting) : Option Nat := o.numbers.lookup s

def has (o : Options) (f : Flag) : Bool := o.flags.contains f

/-- The configuration of the heap. -/
def heapConfig (o : Options) : Config :=
  let base : Config := {}
  let chunkBytes := (o.get? .chunkBytes).getD base.chunkBytes
  { chunkBytes
    segmentChunks := (o.get? .segmentChunks).getD base.segmentChunks
    maxSegments := (o.get? .maxSegments).getD base.maxSegments
    segmentsPerBlock := (o.get? .segmentsPerBlock).getD base.segmentsPerBlock
    dataAlignment := min base.dataAlignment chunkBytes
    debugFill := o.has .debugFill || base.debugFill
    checkRefs := o.has .checkRefs
    policy := {
      youngThreshold := (o.get? .youngThreshold).getD base.policy.youngThreshold
      level1Every := (o.get? .level1Every).getD base.policy.level1Every
      level2Every := (o.get? .level2Every).getD base.policy.level2Every } }

/-- The workload. It has at least one root slot. -/
def workload (o : Options) : Workload.Settings where
  seed := UInt64.ofNat ((o.get? .seed).getD 0)
  steps := (o.get? .steps).getD 100000
  live := max ((o.get? .live).getD 256) 1
  bigLength := (o.get? .bigLength).getD 512
  bigEvery := max ((o.get? .bigEvery).getD 500) 1

end Options

/-- The state of reading arguments: what was entered, and a setting that
still has to be, with its value if that was met already. -/
structure Reading where
  options : Options := {}
  pending : Option (Setting × Option String) := none
deriving DecidableEq, Inhabited

namespace Reading

/-- Enters a setting, which must not be given twice. -/
def enter (options : Options) (s : Setting) (value : String) : Except UsageError Options :=
  if (options.get? s).isSome then .error .argumentConflict
  else match s.value? value with
    | some n => .ok { options with numbers := (s, n) :: options.numbers }
    | none => .error .valueValidation

/-- Enters the setting that is still to be entered. -/
def settle (r : Reading) : Except UsageError Options :=
  match r.pending with
  | none => .ok r.options
  | some (_, none) => .error .invalidValue
  | some (s, some value) => enter r.options s value

/-- A setting with the value that came in the same argument, or one whose
value is still to come. -/
def setting (r : Reading) (s : Setting) (attached : Option String) : Except UsageError Reading := do
  let options ← r.settle
  match attached with
  | some value => return { options := ← enter options s value }
  | none => return { options, pending := some (s, none) }

/-- A flag, which must not be given twice. -/
def flag (r : Reading) (f : Flag) : Except UsageError Reading := do
  let options ← r.settle
  if options.has f then throw .argumentConflict
  return { options := { options with flags := f :: options.flags } }

/-- A switch without a value in the same argument. -/
def switch (r : Reading) : Switch → Except UsageError Reading
  | .setting s => r.setting s none
  | .flag f => r.flag f
  | .help => do let _ ← r.settle; throw .displayHelp
  | .version => do let _ ← r.settle; throw .displayVersion

/-- A long switch, the text after its dashes being `body`. -/
def long (r : Reading) (body : List Char) : Except UsageError Reading :=
  let name := String.ofList (body.takeWhile (· != '='))
  match Switch.ofLong? name, body.dropWhile (· != '=') with
  | none, _ => .error .unknownArgument
  | some (.setting s), _ :: value => r.setting s (some (String.ofList value))
  | some _, _ :: _ => .error .tooManyValues
  | some s, [] => r.switch s

/-- The letters after one dash. The rest of the argument behind a letter
that takes a value is its value, less an equals sign. -/
def letters (r : Reading) : List Char → Except UsageError Reading
  | [] => .ok r
  | c :: rest =>
    match Switch.ofLetter? c with
    | none => .error .unknownArgument
    | some (.setting s) =>
      r.setting s (match rest with
        | [] => none
        | '=' :: value => some (String.ofList value)
        | value => some (String.ofList value))
    | some s => do letters (← r.switch s) rest

/-- An argument that is no switch: the value that is still to come. -/
def plain (r : Reading) (arg : String) : Except UsageError Reading :=
  match r.pending with
  | some (s, none) => .ok { r with pending := some (s, some arg) }
  | _ => .error .unknownArgument

/-- One argument other than two dashes alone. -/
def argument (r : Reading) (arg : String) : Except UsageError Reading :=
  match arg.toList with
  | '-' :: '-' :: body => r.long body
  | '-' :: c :: rest => r.letters (c :: rest)
  | _ => r.plain arg

/-- All arguments. Behind two dashes alone only values without a switch
could follow, and there are none. -/
def arguments (r : Reading) : List String → Except UsageError Options
  | [] => r.settle
  | "--" :: rest => if rest.isEmpty then r.settle else .error .unknownArgument
  | arg :: rest => do arguments (← r.argument arg) rest

end Reading

/-- The choices of some arguments. -/
def Options.parse (args : List String) : Except UsageError Options := Reading.arguments {} args

end SegmentedHeap.CommandLine
