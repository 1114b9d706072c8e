/-
SegmentedHeap.Metrics — what a heap has done since it was built.

* `CollectionReport` — what a single collection did.
* `Metrics` — totals over collections, allocations, frees and retries.
-/
import SegmentedHeap.Generation
import SegmentedHeap.Text.Duration

namespace SegmentedHeap

structure CollectionReport where
  level : Generation
  /-- Collectable objects reached. -/
  marked : Nat
  /-- Objects swept, and the chunks that they held. -/
  freed : Nat
  freedChunks : Nat
  /-- Survivors whose generation changed. -/
  promoted : Nat
  /-- Small segments released because they became empty. -/
  released : Nat
  /-- Members of the old-to-new set afterwards. -/
  oldToNew : Nat
deriving DecidableEq, Inhabited

/-- The written form of a report on a collection that took `elapsed`. -/
def CollectionReport.text (r : CollectionReport) (elapsed : Duration) : String :=
  s!"level {r.level.toNat}: marked {r.marked}, freed {r.freed} ({r.freedChunks} chunks), "
    ++ s!"promoted {r.promoted}, released {r.released} segments, old-to-new {r.oldToNew}, "
    ++ elapsed.text

/-- How an allocation is counted. -/
inductive SizeClass where
  /-- One chunk. -/
  | single
  /-- More than one, in a shared segment. -/
  | small
  /-- A segment to itself. -/
  | big
deriving DecidableEq, Inhabited

def SizeClass.classify (chunks : Nat) (big : Bool) : SizeClass :=
  if big then .big else if chunks = 1 then .single else .small

def SizeClass.text : SizeClass → String
  | .single => "Single"
  | .small => "Small"
  | .big => "Big"

/-- Allocations, and the bytes that they took. -/
structure Tally where
  count : Nat := 0
  bytes : Nat := 0
deriving DecidableEq, Inhabited

def Tally.add (t : Tally) (bytes : Nat) : Tally := ⟨t.count + 1, t.bytes + bytes⟩

/-- Collections forced by an allocation that found no room. -/
structure Retries where
  attempts : Nat := 0
  successful : Nat := 0
  failed : Nat := 0
deriving DecidableEq, Inhabited

/-- The share of retries that found room. -/
def Retries.successRate (r : Retries) : Float :=
  if r.attempts = 0 then 0.0 else r.successful.toUInt64.toFloat / r.attempts.toUInt64.toFloat

structure Metrics where
  /-- Collections, by their level. -/
  collections : ByGeneration Nat := .replicate 0
  /-- Objects swept by all collections, and promotions. -/
  freed : Nat := 0
  promoted : Nat := 0
  /-- Small segments released by all collections. -/
  released : Nat := 0
  /-- Everything allocated. -/
  allocated : Tally := {}
  /-- Objects freed one by one. -/
  explicitFrees : Nat := 0
  /-- Everything allocated, by size class. -/
  single : Tally := {}
  small : Tally := {}
  big : Tally := {}
  retries : Retries := {}
deriving DecidableEq, Inhabited

namespace Metrics

def recordCollection (m : Metrics) (r : CollectionReport) : Metrics :=
  { m with
    collections := m.collections.modify (· + 1) r.level
    freed := m.freed + r.freed
    promoted := m.promoted + r.promoted
    released := m.released + r.released }

def recordAllocation (m : Metrics) (bytes : Nat) (sizeClass : SizeClass) : Metrics :=
  let m := { m with allocated := m.allocated.add bytes }
  match sizeClass with
  | .single => { m with single := m.single.add bytes }
  | .small => { m with small := m.small.add bytes }
  | .big => { m with big := m.big.add bytes }

def recordFree (m : Metrics) : Metrics := { m with explicitFrees := m.explicitFrees + 1 }

def recordRetry (m : Metrics) : Metrics :=
  { m with retries := { m.retries with attempts := m.retries.attempts + 1 } }

/-- Counts how a retry ended. -/
def recordRetried (m : Metrics) (success : Bool) : Metrics :=
  let r := m.retries
  { m with retries :=
      if success then { r with successful := r.successful + 1 }
      else { r with failed := r.failed + 1 } }

end Metrics

end SegmentedHeap
