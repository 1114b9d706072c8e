/-
SegmentedHeap.Model.Layout — a small object model, and its kinds.

    type      data                                    kinds
    nil       none                                    one, uncollected
    symbol    a reference and a 64-bit id             one, uncollected
    int-vec   64-bit integers                         four sizes and big
    pair      two references                          one
    cell      a reference and a 64-bit integer        one
    vector    references                              four sizes and big

An object of a type with several sizes gets the smallest that holds it.
-/
import SegmentedHeap.Kind.Layout

namespace SegmentedHeap.Model

/-- The types of the model. -/
inductive ModelType where
  | nil
  | symbol
  | intVec
  | pair
  | cell
  | vector
deriving DecidableEq, Inhabited

namespace ModelType

/-- The number by which the heap knows the type. -/
def tag : ModelType → TypeTag
  | .nil => 0
  | .symbol => 1
  | .intVec => 2
  | .pair => 3
  | .cell => 4
  | .vector => 5

def all : List ModelType := [.nil, .symbol, .intVec, .pair, .cell, .vector]

/-- The type with a number, if the model has one. -/
def ofTag? (t : TypeTag) : Option ModelType := all.find? (·.tag == t)

def name : ModelType → String
  | .nil => "nil"
  | .symbol => "symbol"
  | .intVec => "int-vec"
  | .pair => "pair"
  | .cell => "cell"
  | .vector => "vector"

theorem ofTag?_tag (t : ModelType) : ofTag? t.tag = some t := by
  cases t <;> decide

end ModelType

/-- The name of the type with a number. -/
def typeName (t : TypeTag) : String :=
  match ModelType.ofTag? t with
  | some m => m.name
  | none => "unknown"

/-- Chunks of the small sizes of a type with several. -/
def sizeClasses : List Nat := [1, 2, 4, 8]

/-- Where the 64-bit number of a symbol or a cell starts, after its
reference. -/
def numberOffset : Nat := 8

/-- The data bytes of an object, at most the largest word. -/
def bytesFor (type : ModelType) (length : Nat) : Nat :=
  match type with
  | .nil => 0
  | .symbol => numberOffset + 8
  | .intVec => min (Word.limit - 1) (length * 8)
  | .pair => 2 * 4
  | .cell => numberOffset + 8
  | .vector => min (Word.limit - 1) (length * 4)

/-- The chunks that an object needs, at least one. A type that the model
does not have has no data. -/
def chunksFor (chunkBytes : Nat) (t : TypeTag) (length : Nat) : Except Fault Nat := do
  let bytes := match ModelType.ofTag? t with
    | some type => bytesFor type length
    | none => 0
  return max (← ceilDiv bytes chunkBytes) 1

/-- The position of the smallest size that holds `chunks`, the big one
coming last. -/
def sizeClass (chunks : Nat) : Nat :=
  (sizeClasses.findIdx? (chunks ≤ ·)).getD sizeClasses.length

def kindFor (chunkBytes : Nat) (t : TypeTag) (length : Nat) : Except Fault KindId := do
  match ModelType.ofTag? t with
  | some .nil => return 0
  | some .symbol => return 1
  | some .intVec => return 2 + sizeClass (← chunksFor chunkBytes t length)
  | some .pair => return 7
  | some .cell => return 8
  | some .vector => return 9 + sizeClass (← chunksFor chunkBytes t length)
  | none => return maxKinds

/-- The kinds of a type with several sizes. -/
def sizedKinds (type : ModelType) : List Kind :=
  (sizeClasses.map fun chunks => { tag := type.tag, size := .fixed chunks, length := .stored })
    ++ [{ tag := type.tag, size := .big, length := .stored }]

def kinds (chunkBytes : Nat) : Except Fault (List Kind) := do
  let fixed (type : ModelType) : Except Fault ObjectSize := do
    return .fixed (← chunksFor chunkBytes type.tag 0)
  let symbol ← fixed .symbol
  let pair ← fixed .pair
  let cell ← fixed .cell
  let global (type : ModelType) (size : ObjectSize) (length : Nat) : Kind :=
    { tag := type.tag, size, uncollected := true, length := .constant length }
  return [global .nil (.fixed 1) 0, global .symbol symbol 1]
    ++ sizedKinds .intVec
    ++ [{ tag := ModelType.pair.tag, size := pair }, { tag := ModelType.cell.tag, size := cell }]
    ++ sizedKinds .vector

/-- The layout of the model for chunks of a size. -/
def layout (chunkBytes : Nat) : ObjectLayout where
  kinds := kinds chunkBytes
  kindFor := kindFor chunkBytes
  chunksFor := chunksFor chunkBytes

end SegmentedHeap.Model
