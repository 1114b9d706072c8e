/-
SegmentedHeap.Proofs.Counters — what each operation counts.

Beside its objects a heap keeps counters: those of the policy, and the
totals of what it has done. Most operations leave them alone, whatever
else they do and however they end; this needs no invariant, and goes
through an operation bind by bind. An allocation counts one object of
some bytes, a free one object, and a collection what its report says.

* `Counters` — the counters of a heap.
* `CountsBy`, `Uncounted` — how an operation changes them.
* `alloc_counters`, `free_counters`, `collect_counters` — the operations
  that count.
-/
import SegmentedHeap.Proofs.Reachable

namespace SegmentedHeap

/-- What a heap counts. -/
structure Counters where
  allocations : Nat
  youngCollections : Nat
  level1Collections : Nat
  metrics : Metrics

namespace Counters

/-- One more allocation. -/
def allocated (c : Counters) (bytes : Nat) (sizeClass : SizeClass) : Counters :=
  { c with
    allocations := c.allocations + 1
    metrics := c.metrics.recordAllocation bytes sizeClass }

/-- One more object freed by itself. -/
def freed (c : Counters) : Counters := { c with metrics := c.metrics.recordFree }

/-- One more collection. -/
def collected (c : Counters) (r : CollectionReport) : Counters where
  allocations := 0
  youngCollections := match r.level with
    | .zero => c.youngCollections + 1
    | _ => 0
  level1Collections := match r.level with
    | .zero => c.level1Collections
    | .one => c.level1Collections + 1
    | .two => 0
  metrics := c.metrics.recordCollection r

end Counters

namespace Heap

/-- The counters of a heap. -/
def counters (h : Heap) : Counters :=
  ⟨h.allocations, h.youngCollections, h.level1Collections, h.metrics⟩

section

variable {α β σ : Type} {R : Counters → Counters → Prop}

/-! ## Operations and counters -/

/-- How the operation changes the counters if it returns. A refused one
leaves them alone. -/
def CountsBy (act : HeapM α) (R : Counters → Counters → Prop) : Prop :=
  ∀ h, Ends (act h) (fun _ h' => R h.counters h'.counters)
    (fun _ h' => h'.counters = h.counters) fun _ => True

/-- The operation leaves the counters alone. -/
def Uncounted (act : HeapM α) : Prop := CountsBy act fun c c' => c' = c

theorem uncounted_pure (a : α) : Uncounted (pure a) := fun _ => rfl

theorem countsBy_throw (e : Failure HeapError) : CountsBy (throw e : HeapM α) R := by
  intro h
  cases e with
  | refused e => rfl
  | fault f => trivial

theorem uncounted_ask (question : Heap → Except Fault α) : Uncounted (ask question) := by
  intro h
  unfold ask
  cases question h with
  | ok a => rfl
  | error f => trivial

theorem uncounted_modify {g : Heap → Heap} (hg : ∀ h, (g h).counters = h.counters) :
    Uncounted (modify g) := hg

/-- The store does not count. -/
theorem uncounted_onStore (act : StoreM α) (explain : Heap → StoreError → HeapError) :
    Uncounted (onStore act explain) := by
  intro h
  unfold onStore
  simp only
  cases act h.store with
  | ok a s => rfl
  | error e s =>
    cases e with
    | refused e => rfl
    | fault f => trivial

/-- What comes before may count nothing. -/
theorem CountsBy.bind {x : HeapM α} {f : α → HeapM β} (hx : Uncounted x)
    (hf : ∀ a, CountsBy (f a) R) : CountsBy (x >>= f) R := by
  intro h
  refine Ends.bind (hx h) fun a h₁ e => ?_
  have hnext := hf a h₁
  rw [e] at hnext
  exact hnext

theorem CountsBy.get_bind {f : Heap → HeapM α} (hf : ∀ h, CountsBy (f h) R) :
    CountsBy (MonadState.get >>= f) R := fun h => hf h h

/-- A result that is only returned counts nothing. -/
theorem CountsBy.returning {x : HeapM α} (hx : CountsBy x R) (b : α → β) :
    CountsBy (x >>= fun a => pure (b a)) R := fun h =>
  Ends.bind (hx h) fun _ _ hr => hr

/-! ## Allocating -/

theorem uncounted_claimFrom (kind : KindId) (i : SegmentIndex) : Uncounted (claimFrom kind i) := by
  unfold claimFrom
  refine .bind (uncounted_ask _) fun s => ?_
  simp only
  split
  · exact .bind (uncounted_modify fun _ => rfl) fun _ => uncounted_pure _
  · exact .bind (uncounted_modify fun _ => rfl) fun _ => uncounted_pure _

theorem uncounted_claimQueued (kind : KindId) (queue : List SegmentIndex) :
    Uncounted (claimQueued kind queue) := by
  induction queue with
  | nil => exact uncounted_pure _
  | cons i rest ih =>
    refine .bind (uncounted_claimFrom kind i) fun taken => ?_
    cases taken with
    | none => exact ih
    | some obj => exact uncounted_pure _

theorem uncounted_claim (r : Request) : Uncounted (claim r) := by
  unfold claim
  split
  · unfold claimBig
    refine .bind (uncounted_onStore _ _) fun i => .bind (uncounted_ask _) fun s => ?_
    refine .bind (uncounted_modify fun _ => rfl) fun _ => ?_
    split
    · exact uncounted_pure _
    · exact countsBy_throw _
  · unfold claimSmall
    refine .get_bind fun h => .bind (uncounted_claimQueued _ _) fun taken => ?_
    cases taken with
    | some obj => exact uncounted_pure _
    | none =>
      refine .bind (uncounted_onStore _ _) fun i => ?_
      refine .bind (uncounted_modify fun _ => rfl) fun _ => ?_
      refine .bind (uncounted_claimFrom _ i) fun taken => ?_
      cases taken with
      | some obj => exact uncounted_pure _
      | none => exact countsBy_throw _

/-- One object of some bytes is counted. -/
def CountsObject (c c' : Counters) : Prop := ∃ bytes sizeClass, c' = c.allocated bytes sizeClass

theorem furnish_counters (r : Request) (obj : ObjRef) : CountsBy (furnish r obj) CountsObject := by
  have last : ∀ capacity, CountsBy (modify fun h : Heap => { h with
      allocations := h.allocations + 1
      metrics := h.metrics.recordAllocation capacity
        (.classify (capacity / h.store.chunkBytes) r.spec.isBig) }) CountsObject :=
    fun _ _ => ⟨_, _, rfl⟩
  unfold furnish
  refine .bind (uncounted_ask _) fun capacity => .bind (uncounted_ask _) fun address => ?_
  refine .bind (uncounted_modify fun _ => rfl) fun _ => ?_
  split
  · split
    · exact .bind (uncounted_modify fun _ => rfl) fun _ => .bind (uncounted_ask _) fun s =>
        .bind (uncounted_modify fun _ => rfl) fun _ => last _
    · exact .bind (uncounted_ask _) fun s => .bind (uncounted_modify fun _ => rfl) fun _ => last _
  · split
    · exact .bind (uncounted_modify fun _ => rfl) fun _ => last _
    · exact last _

/-- **An allocation counts one object**, and nothing if it is refused. -/
theorem alloc_counters (tag : TypeTag) (length : Nat) :
    CountsBy (alloc tag length) CountsObject := by
  unfold alloc
  refine .get_bind fun h => ?_
  split
  · exact countsBy_throw _
  · exact .bind (uncounted_claim _) fun obj => (furnish_counters _ obj).returning _

/-! ## Writing -/

theorem uncounted_setBytes (obj : ObjRef) (start : Nat) (bytes : List UInt8) :
    Uncounted (setBytes obj start bytes) := by
  unfold setBytes
  refine .get_bind fun h => ?_
  split
  · exact countsBy_throw _
  · refine .bind (uncounted_ask _) fun capacity => ?_
    simp only
    split
    · exact countsBy_throw _
    · exact .bind (uncounted_ask _) fun address => uncounted_modify fun _ => rfl

theorem uncounted_register (source target : ObjRef) : Uncounted (register source target) := by
  unfold register
  split
  · exact uncounted_pure _
  · refine .bind (uncounted_ask _) fun younger => .bind (uncounted_ask _) fun older => ?_
    split
    · exact uncounted_modify fun _ => rfl
    · exact uncounted_pure _

theorem uncounted_writeRef (source : ObjRef) (field : Nat) (target : ObjRef) :
    Uncounted (writeRef source field target) := by
  unfold writeRef
  refine .get_bind fun h => ?_
  split
  · exact countsBy_throw _
  · exact .bind (uncounted_setBytes _ _ _) fun _ => uncounted_register _ _

/-! ## Freeing -/

theorem counters_discard (h : Heap) (obj : ObjRef) : (h.discard obj).counters = h.counters := by
  unfold discard
  cases h.store.segment? obj.segment with
  | none => rfl
  | some s =>
    simp only
    split
    · split <;> rfl
    · split <;> rfl

theorem counters_enqueue (h : Heap) (i : SegmentIndex) : (h.enqueue i).counters = h.counters := by
  unfold enqueue
  cases h.store.segment? i with
  | none => rfl
  | some s =>
    simp only
    split <;> rfl

/-- **A free counts one object freed**, and nothing if it is refused. -/
theorem free_counters (obj : ObjRef) : CountsBy (free obj) fun c c' => c' = c.freed := by
  have last : CountsBy (modify fun h : Heap =>
      let h := h.discard obj
      let h := { h with metrics := h.metrics.recordFree }
      h.enqueue obj.segment) fun c c' => c' = c.freed := by
    intro h
    show (Heap.enqueue _ _).counters = _
    rw [counters_enqueue]
    show (h.discard obj).counters.freed = _
    rw [counters_discard]
  unfold free
  refine .get_bind fun h => ?_
  split
  · exact countsBy_throw _
  · refine .bind (uncounted_ask _) fun fixed => ?_
    simp only
    split
    · exact countsBy_throw _
    · exact last

/-! ## Collecting -/

/-- What each round of a fold leaves alone, the fold does. -/
theorem foldl_eq {γ δ : Type} {f : γ → δ → γ} {g : γ → Counters} (hf : ∀ c d, g (f c d) = g c)
    (l : List δ) (c : γ) : g (l.foldl f c) = g c := by
  induction l generalizing c with
  | nil => rfl
  | cons d l ih => exact (ih _).trans (hf c d)

theorem counters_sweep (h : Heap) (tracer : Tracer σ) (level : Generation) (log : σ) :
    (h.sweep tracer level log).heap.counters = h.counters := by
  have step : ∀ (s : Sweeping σ) (i : SegmentIndex),
      (s.segment tracer level i).heap.counters = s.heap.counters := by
    intro s i
    unfold Sweeping.segment
    cases s.heap.store.segment? i with
    | none => rfl
    | some t =>
      simp only
      cases s.heap.kinds.get? t.kind with
      | none => rfl
      | some spec =>
        simp only
        split
        · rfl
        · exact foldl_eq (g := counters) counters_discard _ s.heap
  exact foldl_eq (g := fun s : Sweeping σ => s.heap.counters) step h.store.indices
    { heap := h, log }

theorem counters_rebuildQueues (h : Heap) : h.rebuildQueues.1.counters = h.counters := by
  have step : ∀ (acc : Heap × Nat) (i : SegmentIndex),
      (fileSegment acc i).1.counters = acc.1.counters := by
    intro acc i
    obtain ⟨h, n⟩ := acc
    simp only [fileSegment]
    cases h.store.segment? i with
    | none => rfl
    | some s =>
      simp only
      split
      · rfl
      · split
        · rfl
        · split <;> rfl
  exact foldl_eq (g := fun acc : Heap × Nat => acc.1.counters) step h.store.indices _

/-- **A collection counts what it reports.** -/
theorem collect_counters {h : Heap} (hf : h.Formed) (tracer : Tracer σ) (level : Generation)
    (log : σ) :
    Ends (collect tracer level log h) (fun r h' => h'.counters = h.counters.collected r.1)
      (fun _ _ => False) fun _ => True := by
  have hm := marked hf tracer level
  have hmark : (h.mark tracer level).heap.counters = h.counters :=
    show (h.mark tracer level).heap.clearMarks.counters = h.clearMarks.counters by rw [hm.same]
  unfold collect
  generalize h.mark tracer level = m at hm hmark
  simp only
  split
  · trivial
  · have hs := (sweep_eq hm.formed tracer level log).1
    have hsweep := counters_sweep m.heap tracer level log
    simp only [reclaim, Ends]
    generalize m.heap.sweep tracer level log = swept at hs hsweep
    have hrenew := renewOldToNew_reckoned hs.formed tracer level swept.aged
    generalize swept.heap.renewOldToNew tracer level swept.aged = renewed at hrenew
    have hrenewed : renewed.counters = swept.heap.counters :=
      show renewed.clearOldToNew.counters = swept.heap.clearOldToNew.counters from
        congrArg counters hrenew.same
    have hqueues := counters_rebuildQueues renewed
    have hall : renewed.rebuildQueues.1.counters = h.counters := by
      rw [hqueues, hrenewed, hsweep, hmark]
    generalize renewed.rebuildQueues = filed at hall
    rw [← hall]
    cases level <;> rfl

end

end Heap

end SegmentedHeap
