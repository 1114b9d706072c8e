/-
SegmentedHeap.Error — what can be refused, and in which words.

Only exhaustion is an ordinary outcome: a full collection may cure it.
Every other error reports a wrong configuration or a wrong call.

* `BlockError`, `StoreError` — memory or a segment could not be had.
* `ConfigError` — the heap's configuration or kind table is invalid.
* `HeapError` — an operation of the heap was refused.
-/
import SegmentedHeap.Kind
import SegmentedHeap.Reference
import SegmentedHeap.Text.Decimal

namespace SegmentedHeap

/-- Memory could not be obtained. -/
inductive BlockError where
  | badSize
  | outOfMemory
deriving DecidableEq

def BlockError.message : BlockError → String
  | .badSize => "block size must be a power of two"
  | .outOfMemory => "system allocator refused a block"

/-- A segment could not be reserved. -/
inductive StoreError where
  | segmentLimit (limit : Nat)
  | block (error : BlockError)
deriving DecidableEq

def StoreError.message : StoreError → String
  | .segmentLimit limit => s!"segment limit of {limit} reached"
  | .block e => e.message

/-- The configuration or the kind table of a heap is invalid. -/
inductive ConfigError where
  | chunkSize (bytes : Nat)
  | segmentChunks (chunks : Nat)
  | segmentsPerBlock (count : Nat)
  | alignment (alignment chunkBytes : Nat)
  | tooManySegments (requested limit : Nat)
  | kindTooLarge (kind : KindId) (chunks segmentChunks : Nat)
  | emptyKind (kind : KindId)
  | kindCount (limit : Nat)
deriving DecidableEq

def ConfigError.message : ConfigError → String
  | .chunkSize bytes => s!"chunk size {bytes} is not a power of two of at least 8 bytes"
  | .segmentChunks chunks =>
    s!"segment chunk count {chunks} is not a power of two between 1 and 64"
  | .segmentsPerBlock count => s!"segments per block {count} is not a non-zero power of two"
  | .alignment bytes chunkBytes =>
    s!"data alignment {bytes} must be a power of two no larger than the chunk size "
      ++ toString chunkBytes
  | .tooManySegments requested limit =>
    s!"maximum segment count {requested} exceeds the reference encoding limit {limit}"
  | .kindTooLarge kind chunks room =>
    s!"kind {kind} needs {chunks} chunks but segments hold {room}"
  | .emptyKind kind => s!"kind {kind} has a zero chunk count"
  | .kindCount limit => s!"kind table is empty or larger than {limit} entries"

/-- Occupancy of the heap when a request could not be met. -/
structure Shortage where
  /-- Segments reserved. -/
  segments : Nat
  segmentLimit : Nat
  /-- Big segments among those reserved. -/
  bigSegments : Nat
  /-- Live objects of all generations. -/
  objects : Nat
  /-- The kind requested, and the chunks. -/
  kind : KindId
  chunks : Nat
deriving DecidableEq

namespace Shortage

/-- The share of the segment limit in use, in percent. -/
def percent (c : Shortage) : Float :=
  if c.segmentLimit = 0 then 0.0
  else c.segments.toUInt64.toFloat / c.segmentLimit.toUInt64.toFloat * 100.0

def text (c : Shortage) : String :=
  s!"kind {c.kind} ({c.chunks} chunks) | heap: {c.segments}/{c.segmentLimit} segments ("
    ++ Text.fixed 1 c.percent ++ s!"%), {c.bigSegments} big, {c.objects} objects"

end Shortage

/-- An operation of the heap was refused. -/
inductive HeapError where
  /-- No slot is free and no segment can be reserved. -/
  | exhausted (shortage : Shortage)
  /-- The layout gave a type a kind outside the table. -/
  | unknownKind (tag : TypeTag) (kind : KindId)
  /-- The layout gave a type a kind of another type. -/
  | kindMismatch (tag : TypeTag) (kind : KindId) (kindTag : TypeTag)
  /-- Not the length that all objects of the kind share. -/
  | lengthMismatch (tag : TypeTag) (kind : KindId) (length expected : Nat)
  /-- More chunks than the kind holds, or more than can be addressed. -/
  | invalidSize (requested limit : Nat)
  /-- An explicit free of an object that is never collected. -/
  | notCollectable (obj : ObjRef)
  /-- The reference names no allocated object. -/
  | dangling (obj : ObjRef)
  /-- The field lies outside the object. -/
  | fieldOutOfRange (obj : ObjRef) (field capacity : Nat)
deriving DecidableEq

namespace HeapError

/-- The one error that a collection may cure. -/
def isExhausted : HeapError → Bool
  | .exhausted _ => true
  | _ => false

def message : HeapError → String
  | .exhausted shortage => "heap exhausted: " ++ shortage.text
  | .unknownKind tag kind => s!"layout mapped type {tag} to unknown kind {kind}"
  | .kindMismatch tag kind kindTag => s!"layout mapped type {tag} to kind {kind} of type {kindTag}"
  | .lengthMismatch tag kind length expected =>
    s!"type {tag} has constant length {expected} in kind {kind}, requested {length}"
  | .invalidSize requested limit =>
    s!"invalid allocation size: {requested} chunks exceeds maximum {limit}"
  | .notCollectable obj => "object " ++ obj.text ++ " is of an uncollected kind"
  | .dangling obj => "object " ++ obj.text ++ " is not allocated"
  | .fieldOutOfRange obj field capacity =>
    s!"field {field} is outside object " ++ obj.text ++ s!" ({capacity} bytes)"

end HeapError

end SegmentedHeap
