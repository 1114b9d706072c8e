import SegmentedHeap.Block
import SegmentedHeap.CommandLine.Execution
import SegmentedHeap.CommandLine.Options
import SegmentedHeap.CommandLine.Switch
import SegmentedHeap.CommandLine.Usage
import SegmentedHeap.Config
import SegmentedHeap.Error
import SegmentedHeap.Fault
import SegmentedHeap.Generation
import SegmentedHeap.Heap.Alloc
import SegmentedHeap.Heap.Barrier
import SegmentedHeap.Heap.Basic
import SegmentedHeap.Heap.Collect
import SegmentedHeap.Heap.Data
import SegmentedHeap.Heap.Mark
import SegmentedHeap.Heap.Sweep
import SegmentedHeap.Heap.Text
import SegmentedHeap.Heap.Tracer
import SegmentedHeap.Kind
import SegmentedHeap.Kind.Layout
import SegmentedHeap.Kind.Table
import SegmentedHeap.LittleEndian
import SegmentedHeap.Main
import SegmentedHeap.Memory
import SegmentedHeap.Metrics
import SegmentedHeap.Model.Layout
import SegmentedHeap.Model.Mutator
import SegmentedHeap.Occupancy
import SegmentedHeap.OffsetSet
import SegmentedHeap.Proofs.Accounting
import SegmentedHeap.Proofs.Addresses
import SegmentedHeap.Proofs.Adequacy
import SegmentedHeap.Proofs.Allocation
import SegmentedHeap.Proofs.Books
import SegmentedHeap.Proofs.Bystanders
import SegmentedHeap.Proofs.Cadence
import SegmentedHeap.Proofs.Callbacks
import SegmentedHeap.Proofs.Change
import SegmentedHeap.Proofs.Checking
import SegmentedHeap.Proofs.Closure
import SegmentedHeap.Proofs.Collection
import SegmentedHeap.Proofs.Completeness
import SegmentedHeap.Proofs.Confluence
import SegmentedHeap.Proofs.Constructors
import SegmentedHeap.Proofs.Counters
import SegmentedHeap.Proofs.Counting
import SegmentedHeap.Proofs.Draining
import SegmentedHeap.Proofs.Exactness
import SegmentedHeap.Proofs.Exhaustion
import SegmentedHeap.Proofs.Fields
import SegmentedHeap.Proofs.Finalizing
import SegmentedHeap.Proofs.FiniteMap
import SegmentedHeap.Proofs.Fitting
import SegmentedHeap.Proofs.FreeLists
import SegmentedHeap.Proofs.Graph
import SegmentedHeap.Proofs.Guarded
import SegmentedHeap.Proofs.GuardedMutator
import SegmentedHeap.Proofs.Idempotence
import SegmentedHeap.Proofs.Interning
import SegmentedHeap.Proofs.Invariant
import SegmentedHeap.Proofs.Isolation
import SegmentedHeap.Proofs.Lists
import SegmentedHeap.Proofs.Marking
import SegmentedHeap.Proofs.Metadata
import SegmentedHeap.Proofs.Mirror
import SegmentedHeap.Proofs.ModelHeap
import SegmentedHeap.Proofs.ModelObjects
import SegmentedHeap.Proofs.Mutator
import SegmentedHeap.Proofs.MutatorHeap
import SegmentedHeap.Proofs.MutatorRuns
import SegmentedHeap.Proofs.Nodes
import SegmentedHeap.Proofs.Object
import SegmentedHeap.Proofs.Occupancy
import SegmentedHeap.Proofs.Outcome
import SegmentedHeap.Proofs.Overflow
import SegmentedHeap.Proofs.Pruning
import SegmentedHeap.Proofs.Queueing
import SegmentedHeap.Proofs.RandomRuns
import SegmentedHeap.Proofs.Reachable
import SegmentedHeap.Proofs.Refinement
import SegmentedHeap.Proofs.Refusals
import SegmentedHeap.Proofs.Release
import SegmentedHeap.Proofs.Remembering
import SegmentedHeap.Proofs.Repetition
import SegmentedHeap.Proofs.Requests
import SegmentedHeap.Proofs.Reservation
import SegmentedHeap.Proofs.Retention
import SegmentedHeap.Proofs.RootStacks
import SegmentedHeap.Proofs.RunRoots
import SegmentedHeap.Proofs.Segment
import SegmentedHeap.Proofs.SegmentSweep
import SegmentedHeap.Proofs.Shortage
import SegmentedHeap.Proofs.Simulation
import SegmentedHeap.Proofs.SizeClasses
import SegmentedHeap.Proofs.Sizes
import SegmentedHeap.Proofs.Slots
import SegmentedHeap.Proofs.StaleReferences
import SegmentedHeap.Proofs.Stock
import SegmentedHeap.Proofs.Store
import SegmentedHeap.Proofs.Survival
import SegmentedHeap.Proofs.Sweeping
import SegmentedHeap.Proofs.Transparency
import SegmentedHeap.Proofs.Upkeep
import SegmentedHeap.Proofs.Views
import SegmentedHeap.Proofs.Writing
import SegmentedHeap.Random.ChaCha
import SegmentedHeap.Random.Source
import SegmentedHeap.Reference
import SegmentedHeap.Segment
import SegmentedHeap.Store
import SegmentedHeap.Text.Column
import SegmentedHeap.Text.Decimal
import SegmentedHeap.Text.Duration
import SegmentedHeap.Text.HexDump
import SegmentedHeap.Word
import SegmentedHeap.Workload.Run
import SegmentedHeap.Workload.Statistics
import SegmentedHeap.Workload.Timings
