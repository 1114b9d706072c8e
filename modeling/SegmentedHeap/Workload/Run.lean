/-
SegmentedHeap.Workload.Run — a random run over the object model.

A run keeps a number of root slots. Each step allocates an object into a
slot, links one rooted object to another, or clears a slot, as a random
source decides; the mutator's policy decides when to collect. A run ends
with a full collection.

* `Settings` — the parameters of a run.
* `step` — one step.
* `run` — a whole run and its statistics.
* `runAll` — several over the same mutator.
-/
import SegmentedHeap.Model.Mutator
import SegmentedHeap.Random.Source
import SegmentedHeap.Workload.Statistics

namespace SegmentedHeap.Workload

structure Settings where
  seed : UInt64 := 0
  steps : Nat := 10000
  /-- Root slots. -/
  live : Nat := 64
  /-- The length of the integer vectors that are to be big objects. -/
  bigLength : Nat := 512
  /-- One integer vector in so many is to be big. -/
  bigEvery : Nat := 500
deriving DecidableEq, Inhabited

/-- The state of a run over a source with states of type `σ`. -/
structure State (σ : Type) where
  mutator : Mutator
  source : σ
  statistics : Statistics := {}

/-- A part of a run. -/
abbrev RunM (σ : Type) := EStateM (Failure HeapError) (State σ)

variable {σ : Type}

def onMutator {α : Type} (act : MutatorM α) : RunM σ α := fun ⟨mutator, source, statistics⟩ =>
  match act mutator with
  | .ok a mutator => .ok a ⟨mutator, source, statistics⟩
  | .error e mutator => .error e ⟨mutator, source, statistics⟩

def draw {α : Type} (choice : σ → α × σ) : RunM σ α := fun ⟨mutator, source, statistics⟩ =>
  let (a, source) := choice source
  .ok a ⟨mutator, source, statistics⟩

def record (f : Statistics → Statistics) : RunM σ Unit :=
  modify fun s => { s with statistics := f s.statistics }

/-- A choice from so many values, of which there has to be one. -/
def below (source : Random.Source σ) (n : Nat) : RunM σ Nat := do
  if n = 0 then throw (.fault .emptyRange)
  draw (source.below64 n)

/-- The position of a random root slot; the slots start at `base`. -/
def pickSlot (source : Random.Source σ) (settings : Settings) (base : Nat) : RunM σ Nat := do
  return base + (← below source settings.live)

/-- The object in a random root slot. -/
def pick (source : Random.Source σ) (settings : Settings) (base : Nat) : RunM σ ObjRef := do
  let slot ← pickSlot source settings base
  onMutator (Mutator.ask (·.root slot))

/-- The length of the next integer vector. -/
def intVecLength (source : Random.Source σ) (settings : Settings) : RunM σ Nat := do
  if settings.bigEvery = 0 then throw (.fault .emptyRange)
  if ← draw (source.oneIn settings.bigEvery) then return settings.bigLength
  else below source 20

/-- A new object of a random type. The integers of a vector have to fit
in memory. -/
def create (source : Random.Source σ) (settings : Settings) (base : Nat) : RunM σ ObjRef := do
  match ← draw (source.below32 6) with
  | 0 =>
    let length ← intVecLength source settings
    if Word.maxSize < 8 * length then throw (.fault .overflow)
    onMutator (Mutator.intVec ((List.range length).map Int64.ofNat))
  | 1 | 2 =>
    let car ← pick source settings base
    let cdr ← pick source settings base
    onMutator (Mutator.pair car cdr)
  | 3 =>
    let value ← pick source settings base
    let n ← draw source.any64
    onMutator (Mutator.cell value n.toInt64)
  | 4 =>
    let length ← below source 12
    onMutator (Mutator.vector length)
  | _ =>
    let id ← below source 64
    onMutator (Mutator.symbol (UInt64.ofNat id))

/-- Allocates an object into a random slot. -/
def allocate (source : Random.Source σ) (settings : Settings) (base : Nat) : RunM σ Unit := do
  let slot ← pickSlot source settings base
  let obj ← create source settings base
  onMutator (Mutator.setRoot slot obj)

/-- Stores one rooted object in another, in a field that the type of the
other has; nothing is stored in an object without fields. -/
def link (source : Random.Source σ) (settings : Settings) (base : Nat) : RunM σ Unit := do
  let target ← pick source settings base
  let value ← pick source settings base
  let tag ← onMutator (Mutator.ask (·.heap.typeOf target))
  match Model.ModelType.ofTag? tag with
  | some .pair =>
    if ← draw source.coin then onMutator (Mutator.setCar target value)
    else onMutator (Mutator.setCdr target value)
  | some .cell => onMutator (Mutator.setCellValue target value)
  | some .symbol => onMutator (Mutator.setSymbolValue target value)
  | some .vector =>
    let length ← onMutator (Mutator.ask (·.vectorLength target))
    if 0 < length then
      let index ← below source length
      onMutator (Mutator.vectorSet target index value)
  | _ => return ()

/-- Notes how many objects are live. -/
def observe : RunM σ Unit := do
  let live := (← get).mutator.heap.occupancy.totalObjects
  record (·.notePeak live)

/-- Steps between two observations. -/
def observeEvery : Nat := 1024

def step (source : Random.Source σ) (settings : Settings) (base number : Nat) : RunM σ Unit := do
  record (·.addSteps 1)
  if number % observeEvery = 0 then observe
  let choice ← draw (source.below32 10)
  if choice ≤ 5 then
    allocate source settings base
    record (·.addAllocations 1)
  else if choice ≤ 8 then
    link source settings base
    record (·.addMutations 1)
  else
    let slot ← pickSlot source settings base
    let nil := (← get).mutator.nil
    onMutator (Mutator.setRoot slot nil)

/-- The steps of a run. The root slots, all nil at first, are on top of
the root stack, and stay there. -/
def mutate (source : Random.Source σ) (settings : Settings) (base : Nat) : RunM σ Unit := do
  let nil := (← get).mutator.nil
  onMutator (Mutator.pushRoots (List.replicate settings.live nil))
  settings.steps.forM fun number _ => step source settings base number

/-- The end of a run: a full collection, a last look at the heap, and the
root slots are dropped. -/
def settle (base : Nat) : RunM σ Unit := do
  let _ ← onMutator (Mutator.collect .two)
  observe
  let heap := (← get).mutator.heap
  record (·.conclude heap.metrics heap.occupancy)
  onMutator (Mutator.truncateRoots base)

/-- A whole run over a mutator. -/
def run (source : Random.Source σ) (settings : Settings) : RunM σ Statistics := do
  let base := (← get).mutator.stack.size
  mutate source settings base
  settle base
  return (← get).statistics

/-- A run whose choices are those of the stream of its seed. -/
def runSeeded (settings : Settings) : MutatorM Statistics := fun mutator =>
  match run Random.Source.chacha settings
      { mutator, source := Random.ChaCha.ofSeed settings.seed } with
  | .ok statistics s => .ok statistics s.mutator
  | .error e s => .error e s.mutator

/-- Runs one after another over one mutator, up to the first that meets a
fault: how each of them ended, and the mutator that it left. -/
def runAll (mutator : Mutator) : List Settings →
    List (Except (Failure HeapError) Statistics × Mutator)
  | [] => []
  | settings :: rest =>
    match runSeeded settings mutator with
    | .ok statistics mutator => (.ok statistics, mutator) :: runAll mutator rest
    | .error (.refused e) mutator => (.error (.refused e), mutator) :: runAll mutator rest
    | .error (.fault f) mutator => [(.error (.fault f), mutator)]

end SegmentedHeap.Workload
