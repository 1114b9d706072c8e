/-
SegmentedHeap.Model.Mutator — a program's side of the heap.

A mutator makes objects of the model and stores references in them.
Objects stay alive while they are reachable from its root stack or from
an interned symbol; a symbol is interned for good, so its value is a
global variable. Whatever a constructor is given is on the root stack
while it allocates, and the stack is as before when it is done, whether
it succeeds or not.

* `Mutator.create` — a mutator over an empty heap, with its nil.
* `MutatorM` — an operation on it; a failed one still yields the mutator
  it leaves behind.
* `symbol`, `intVec`, `pair`, `cell`, `vector`, `list` — constructors.
-/
import SegmentedHeap.Heap.Collect
import SegmentedHeap.Model.Layout

namespace SegmentedHeap

/-- A heap for the object model could not be built. -/
inductive ModelError where
  | config (error : ConfigError)
  | heap (error : HeapError)
deriving DecidableEq

def ModelError.message : ModelError → String
  | .config e => "invalid heap configuration: " ++ e.message
  | .heap e => e.message

structure Mutator where
  heap : Heap
  /-- The root stack, its top last. -/
  stack : Array ObjRef := #[]
  /-- The interned symbols, in order of creation. They are roots. -/
  symbols : List ObjRef := []
  /-- The symbol of each id that has one. -/
  interned : List (UInt64 × ObjRef) := []
  nil : ObjRef
  /-- Whether an allocation first runs the collection that is due. -/
  autoCollect : Bool := true

/-- An operation on the mutator. -/
abbrev MutatorM := EStateM (Failure HeapError) Mutator

namespace Mutator

open Model

def create (config : Config) (system : System) : Except (Failure ModelError) Mutator := do
  let heap ← (Heap.create config (layout config.chunkBytes) system).mapError (·.map .config)
  match Heap.alloc ModelType.nil.tag 0 heap with
  | .ok nil heap => return { heap, nil }
  | .error e _ => throw (e.map .heap)

/-! ## Roots -/

/-- The references in an object of the model. -/
def refs (v : ObjectView) : List ObjRef :=
  match ModelType.ofTag? v.tag with
  | some .pair => v.refs 2
  | some .cell | some .symbol => v.refs 1
  | some .vector => v.refs (v.length.getD 0)
  | _ => []

def tracer (m : Mutator) : Tracer Unit where
  roots := m.stack.toList ++ m.symbols
  refs := refs

def pushRoot (obj : ObjRef) : MutatorM Unit :=
  modify fun m => { m with stack := m.stack.push obj }

def pushRoots (objs : List ObjRef) : MutatorM Unit := objs.forM pushRoot

def popRoot : MutatorM (Option ObjRef) :=
  modifyGet fun m => (m.stack.back?, { m with stack := m.stack.pop })

/-- The mutator without the roots above `depth`. -/
def truncate (m : Mutator) (depth : Nat) : Mutator := { m with stack := m.stack.shrink depth }

def truncateRoots (depth : Nat) : MutatorM Unit := modify (·.truncate depth)

/-- Replaces the root at a position that has to be below the top. -/
def setRoot (index : Nat) (obj : ObjRef) : MutatorM Unit := do
  if (← get).stack.size ≤ index then throw (.fault .outOfBounds)
  modify fun m => { m with stack := m.stack.setIfInBounds index obj }

/-- The root at a position that has to be below the top. -/
def root (m : Mutator) (index : Nat) : Except Fault ObjRef :=
  match m.stack[index]? with
  | some obj => .ok obj
  | none => .error .outOfBounds

/-- Runs an operation and then drops the roots that it has added. -/
def restoringRoots {α : Type} (act : MutatorM α) : MutatorM α := fun m =>
  let depth := m.stack.size
  match act m with
  | .ok a m => .ok a (m.truncate depth)
  | .error e m => .error e (m.truncate depth)

/-- Turns the collections on or off that are run before an allocation. -/
def setAutoCollect (autoCollect : Bool) : MutatorM Unit := modify fun m => { m with autoCollect }

/-! ## Reaching the heap -/

def onHeap {α : Type} (act : HeapM α) : MutatorM α :=
  fun ⟨heap, stack, symbols, interned, nil, auto⟩ =>
    match act heap with
    | .ok a heap => .ok a ⟨heap, stack, symbols, interned, nil, auto⟩
    | .error e heap => .error e ⟨heap, stack, symbols, interned, nil, auto⟩

def ask {α : Type} (question : Mutator → Except Fault α) : MutatorM α := fun m =>
  match question m with
  | .ok a => .ok a m
  | .error f => .error (.fault f) m

def collect (level : Generation) : MutatorM CollectionReport := do
  let tracer := (← get).tracer
  let (report, ()) ← onHeap (Heap.collect tracer level ())
  return report

/-- Allocates with the roots as they are, and again after a full
collection if there is no room. The roots are gathered only for that. -/
def allocRetrying (type : ModelType) (length : Nat) : MutatorM ObjRef := do
  match ← onHeap (Heap.attempt (Heap.alloc type.tag length)) with
  | .ok obj => return obj
  | .error e =>
    if !e.isExhausted then throw (.refused e)
    let tracer := (← get).tracer
    match ← onHeap (Heap.allocAgain tracer type.tag length ()) with
    | (.ok obj, ()) => return obj
    | (.error e, ()) => throw (.refused e)

/-- Allocates while `pinned` are roots, after the collection that is due
if the mutator collects by itself. -/
def alloc (type : ModelType) (length : Nat) (pinned : List ObjRef) : MutatorM ObjRef :=
  restoringRoots do
    pushRoots pinned
    if (← get).autoCollect then
      if let some level := (← get).heap.dueLevel then
        let _ ← collect level
    allocRetrying type length

/-! ## Symbols -/

/-- The mutator with a symbol for an id: it is a root from now on, and
what the id is looked up for. -/
def intern (m : Mutator) (id : UInt64) (sym : ObjRef) : Mutator :=
  { m with symbols := m.symbols ++ [sym], interned := (id, sym) :: m.interned }

/-- The symbol with an id, created the first time it is asked for with
nil for its value. -/
def symbol (id : UInt64) : MutatorM ObjRef := do
  match (← get).interned.lookup id with
  | some sym => return sym
  | none =>
    let sym ← alloc .symbol 1 []
    onHeap (Heap.writeRef sym 0 (← get).nil)
    onHeap (Heap.setBytes sym numberOffset (LittleEndian.encode 8 id.toNat))
    modify (·.intern id sym)
    return sym

def symbolId (m : Mutator) (sym : ObjRef) : Except Fault UInt64 := m.heap.word64 sym numberOffset

def symbolValue (m : Mutator) (sym : ObjRef) : Except HeapError ObjRef := m.heap.readRef sym 0

def setSymbolValue (sym value : ObjRef) : MutatorM Unit := onHeap (Heap.writeRef sym 0 value)

/-! ## Integer vectors -/

def intVec (values : List Int64) : MutatorM ObjRef := do
  let obj ← alloc .intVec values.length []
  onHeap (Heap.setBytes obj 0 (values.flatMap fun v => LittleEndian.encode 8 v.toUInt64.toNat))
  return obj

/-- The elements of an integer vector, which has to be allocated. -/
def intVecValues (m : Mutator) (obj : ObjRef) : Except Fault (List Int64) := do
  if !m.heap.isAllocated obj then throw .unallocated
  let length := (← m.heap.lengthOf obj).getD 0
  (List.range length).mapM fun i => do return (← m.heap.word64 obj (i * 8)).toInt64

/-! ## Pairs and cells -/

def pair (car cdr : ObjRef) : MutatorM ObjRef := do
  let obj ← alloc .pair 0 [car, cdr]
  onHeap (Heap.writeRef obj 0 car)
  onHeap (Heap.writeRef obj 1 cdr)
  return obj

def car (m : Mutator) (pair : ObjRef) : Except HeapError ObjRef := m.heap.readRef pair 0

def cdr (m : Mutator) (pair : ObjRef) : Except HeapError ObjRef := m.heap.readRef pair 1

def setCar (pair value : ObjRef) : MutatorM Unit := onHeap (Heap.writeRef pair 0 value)

def setCdr (pair value : ObjRef) : MutatorM Unit := onHeap (Heap.writeRef pair 1 value)

def cell (value : ObjRef) (n : Int64) : MutatorM ObjRef := do
  let obj ← alloc .cell 0 [value]
  onHeap (Heap.writeRef obj 0 value)
  onHeap (Heap.setBytes obj numberOffset (LittleEndian.encode 8 n.toUInt64.toNat))
  return obj

def cellValue (m : Mutator) (cell : ObjRef) : Except HeapError ObjRef := m.heap.readRef cell 0

def cellInt (m : Mutator) (cell : ObjRef) : Except Fault Int64 := do
  return (← m.heap.word64 cell numberOffset).toInt64

def setCellValue (cell value : ObjRef) : MutatorM Unit := onHeap (Heap.writeRef cell 0 value)

/-! ## Vectors -/

/-- A vector of so many elements, all nil. -/
def vector (length : Nat) : MutatorM ObjRef := do
  let obj ← alloc .vector length []
  let nil := (← get).nil
  (List.range length).forM fun i => onHeap (Heap.writeRef obj i nil)
  return obj

def vectorLength (m : Mutator) (vector : ObjRef) : Except Fault Nat := do
  return (← m.heap.lengthOf vector).getD 0

/-- Refuses an index that is not below the length. -/
def checkIndex (m : Mutator) (vector : ObjRef) (index : Nat) :
    Except (Failure HeapError) Unit := do
  let length ← Failure.ofExcept (m.vectorLength vector)
  if length ≤ index then throw (.refused (.fieldOutOfRange vector index (length * refBytes)))

def vectorGet (m : Mutator) (vector : ObjRef) (index : Nat) :
    Except (Failure HeapError) ObjRef := do
  m.checkIndex vector index
  (m.heap.readRef vector index).mapError .refused

def vectorSet (vector : ObjRef) (index : Nat) (value : ObjRef) : MutatorM Unit := do
  match (← get).checkIndex vector index with
  | .error e => throw e
  | .ok () => onHeap (Heap.writeRef vector index value)

/-! ## Lists -/

/-- A pair that becomes a root. -/
def rootedPair (car cdr : ObjRef) : MutatorM ObjRef := do
  let obj ← pair car cdr
  pushRoot obj
  return obj

/-- A list of these elements: pairs that end in nil. What is built stays
rooted until the whole list is. -/
def list (items : List ObjRef) : MutatorM ObjRef :=
  restoringRoots do
    pushRoots items
    items.foldrM rootedPair (← get).nil

/-- The elements from `cursor` on, if nil is reached in so many steps. -/
def listItemsFrom (m : Mutator) : (steps : Nat) → (cursor : ObjRef) →
    Except (Failure HeapError) (List ObjRef)
  | 0, _ => .error (.fault .endless)
  | steps + 1, cursor => do
    if cursor == m.nil then return []
    let item ← (m.car cursor).mapError .refused
    let next ← (m.cdr cursor).mapError .refused
    return item :: (← m.listItemsFrom steps next)

/-- The elements of a list. A walk that is longer than there are slots
goes round for ever. -/
def listItems (m : Mutator) (list : ObjRef) : Except (Failure HeapError) (List ObjRef) :=
  m.listItemsFrom (m.heap.slotCount + 1) list

end Mutator

end SegmentedHeap
