/-
SegmentedHeap.Workload.Timings — how long the parts of a run took.

Names keep the order in which they were first recorded; recording a name
again replaces its time.
-/
import SegmentedHeap.Text.Duration

namespace SegmentedHeap

structure Timings where
  entries : List (String × Duration) := []
deriving DecidableEq, Inhabited

namespace Timings

/-- The entries with the time of `name` set, at its place or at the end. -/
def put (name : String) (time : Duration) : List (String × Duration) → List (String × Duration)
  | [] => [(name, time)]
  | (other, t) :: rest =>
    if other = name then (other, time) :: rest else (other, t) :: put name time rest

def record (t : Timings) (name : String) (time : Duration) : Timings :=
  ⟨put name time t.entries⟩

def get? (t : Timings) (name : String) : Option Duration := t.entries.lookup name

/-- Both, the times of `u` replacing those of `t`. -/
def merge (t u : Timings) : Timings := u.entries.foldl (fun t (name, time) => t.record name time) t

/-- The width of the column of names: one more than the bytes of the
longest. -/
def width (t : Timings) : Nat :=
  t.entries.foldl (fun w (name, _) => max w name.utf8ByteSize) 0 + 1

/-- The written form, a line for each name with its time in seconds. -/
def text (t : Timings) : String :=
  String.join (t.entries.map fun (name, time) =>
    Text.padRight t.width name ++ ": " ++ Text.padLeft 14 ' ' (Text.fixed 9 time.seconds) ++ "s\n")

theorem lookup_put (name other : String) (time : Duration) (l : List (String × Duration)) :
    (put name time l).lookup other = if other = name then some time else l.lookup other := by
  induction l with
  | nil => simp only [put, List.lookup_cons, List.lookup_nil]; grind
  | cons e l ih =>
    obtain ⟨n, t⟩ := e
    simp only [put]
    split <;> simp only [List.lookup_cons] <;> grind

/-- What was recorded is what is found. -/
theorem get?_record (t : Timings) (name other : String) (time : Duration) :
    (t.record name time).get? other = if other = name then some time else t.get? other :=
  lookup_put name other time t.entries

end Timings

end SegmentedHeap
