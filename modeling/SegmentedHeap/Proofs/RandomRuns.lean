/-
SegmentedHeap.Proofs.RandomRuns — random runs are safe.

A run fills its root slots with nil, does its steps, collects everything
and drops the slots. It never uses a reference to an object that is not
there, whatever the source draws, and meets no fault but one of its own,
when the integers of a vector do not fit in memory. It may be refused for
want of room or because a vector is too long. If it returns, every object
that is left is of generation two.

* `chacha_inRange` — the choices of the stream are in range.
* `guardedRun` — a run that asks for each object it uses.
* `Settled` — what a run leaves.
* `run_safe` — **random runs**.
-/
import SegmentedHeap.Proofs.Exactness
import SegmentedHeap.Proofs.Occupancy
import SegmentedHeap.Proofs.Slots

namespace SegmentedHeap

open Model

namespace Heap

variable {σ : Type} {h h' : Heap} {tracer : Tracer σ} {report : CollectionReport} {p : ObjRef}

/-! ## Full collections -/

/-- What a full collection leaves is of generation two. -/
theorem Collected.generationOf_two (hw : h.WellFormed) (hc : Collected h tracer .two report h')
    (ha : h'.isAllocated p = true) : h'.generationOf p = .ok .two := by
  obtain ⟨x, _, hy⟩ := hc.survivor hw ha
  rw [hy, (movesTo_ne_zero .two x.generation).2 rfl]

/-- A full collection leaves nothing in the old-to-new set. -/
theorem Collected.oldToNew_nil (hc : Collected h tracer .two report h') : h'.oldToNew = [] := by
  refine List.eq_nil_iff_forall_not_mem.mpr fun p hp => ?_
  obtain ⟨y, hy, hr⟩ := (mem_oldToNew hc.wellFormed.toFormed).mp hp
  obtain ⟨x, hx, hg, _⟩ := hc.before hy
  obtain ⟨b, hy', hb⟩ := hc.survived p x hx hg
  cases hy.symm.trans hy'
  exact (hb.mp hr).1 rfl

end Heap

namespace Mutator

variable {m : Mutator} {objs : List ObjRef}

theorem pushed_nil (m : Mutator) : m.pushed [] = m := by simp [pushed]

theorem pushed_cons (m : Mutator) (p : ObjRef) (objs : List ObjRef) :
    m.pushed (p :: objs) = ({ m with stack := m.stack.push p } : Mutator).pushed objs := by
  simp [pushed]

/-- Proper references are pushed one by one. -/
theorem Reached.pushed (hr : m.Reached) (hp : ∀ p ∈ objs, m.heap.Proper p) :
    (m.pushed objs).Reached := by
  induction objs generalizing m with
  | nil => exact m.pushed_nil ▸ hr
  | cons p objs ih =>
    rw [pushed_cons]
    refine ih (hr.step (.pushRoot p) ?_ (Or.inl ⟨(), rfl⟩)) fun q hq =>
      hp q (List.mem_cons_of_mem p hq)
    exact fun q hq => List.mem_singleton.mp hq ▸ hp p List.mem_cons_self

theorem guardedPushRoots_eq (ha : ∀ p ∈ objs, m.heap.isAllocated p = true) :
    (objs.forM guardedPushRoot : MutatorM Unit) m = pushRoots objs m := by
  have hpush : ∀ (p : ObjRef) (m' : Mutator), m'.heap = m.heap → Ends (pushRoot p m')
      (fun _ m'' => m''.heap = m.heap) (fun _ _ => False) fun _ => False := fun p m' hm =>
    Ends.of_eq (s := { m' with stack := m'.stack.push p }) rfl hm
  exact Ends.forM_congr (P := fun m' => m'.heap = m.heap) rfl hpush fun p hp m' hm =>
    guardedPushRoot_eq (hm ▸ ha p hp)

end Mutator

namespace Random

/-! ## The choices of the stream -/

/-- The high half of a product is below the second factor. -/
theorem choose_lt {bits n : Nat} {draw : ChaCha → Nat × ChaCha} (hn : 0 < n)
    (hdraw : ∀ c, (draw c).1 < Nat.pow 2 bits) (draws : Nat) (c : ChaCha) :
    (choose bits n draw draws c).1 < n := by
  induction draws generalizing c with
  | zero => exact hn
  | succ draws ih =>
    rw [choose]
    simp only
    split
    · exact Nat.div_lt_of_lt_mul (Nat.mul_lt_mul_of_pos_right (hdraw c) hn)
    · exact ih _

/-- **The choices drawn from a stream are in range.** -/
theorem chacha_inRange : Source.chacha.InRange := fun _ c hn =>
  ⟨choose_lt hn (fun c => c.word32.1.toNat_lt) maxDraws c,
    choose_lt hn (fun c => c.word64.1.toNat_lt) maxDraws c⟩

end Random

namespace Workload

open Mutator

variable {σ : Type} {source : Random.Source σ} {settings : Settings} {m : Mutator} {s : State σ}

/-! ## Runs that ask -/

def guardedMutate (source : Random.Source σ) (settings : Settings) (base : Nat) : RunM σ Unit := do
  let nil := (← get).mutator.nil
  onMutator ((List.replicate settings.live nil).forM guardedPushRoot)
  settings.steps.forM fun number _ => guardedStep source settings base number

def guardedRun (source : Random.Source σ) (settings : Settings) : RunM σ Statistics := do
  let base := (← get).mutator.stack.size
  guardedMutate source settings base
  settle base
  return (← get).statistics

/-! ## The steps of a run -/

/-- A loop whose rounds do not read that they are below the bound. -/
theorem forM_eq_range {μ : Type → Type} [Monad μ] [LawfulMonad μ] (n : Nat) (f : Nat → μ Unit) :
    (n.forM fun i _ => f i) = (List.range n).forM f := by
  obtain ⟨loop, hloop, hzero, hsucc⟩ : ∃ loop : (i : Nat) → i ≤ n → μ Unit,
      (n.forM fun i _ => f i) = loop n (Nat.le_refl n) ∧ (∀ h, loop 0 h = pure ()) ∧
        ∀ i h, loop (i + 1) h = (f (n - i - 1) >>= fun _ => loop i (Nat.le_of_succ_le h)) :=
    ⟨_, rfl, fun _ => rfl, fun _ _ => rfl⟩
  have hrow : ∀ i h, loop i h = (List.range' (n - i) i).forM f := by
    intro i
    induction i with
    | zero => exact fun h => hzero h
    | succ i ih =>
      intro h
      rw [hsucc, ih, List.range'_succ, show n - (i + 1) + 1 = n - i by omega]
      exact congrArg (f · >>= fun _ => (List.range' (n - i) i).forM f) (by omega)
  rw [hloop, hrow, Nat.sub_self, List.range_eq_range']

/-- Rounds that go alike make loops that go alike. -/
theorem Goes.forM_range {P : Nat → State σ → Prop} {g f : Nat → RunM σ Unit} {n : Nat}
    (hs : P 0 s) (hstep : ∀ i s, P i s → Goes settings (g i) (f i) s fun _ => P (i + 1)) :
    Goes settings ((List.range n).forM g) ((List.range n).forM f) s fun _ => P n := by
  have hrow : ∀ k start s, P start s → Goes settings ((List.range' start k).forM g)
      ((List.range' start k).forM f) s fun _ => P (start + k) := by
    intro k
    induction k with
    | zero => exact fun _ _ hs => .pure hs
    | succ k ih =>
      intro start s hs
      refine (hstep start s hs).bind fun _ s' hs' => ?_
      rw [Nat.add_comm k 1, ← Nat.add_assoc]
      exact ih (start + 1) s' hs'
  have h := hrow n 0 s hs
  rw [Nat.zero_add, ← List.range_eq_range'] at h
  exact h

/-- **All steps of a run.** -/
theorem goes_mutate (hsource : source.InRange) (hlive : 0 < settings.live)
    (hbig : 0 < settings.bigEvery) (hr : s.mutator.Reached) (hs : s.statistics = {}) :
    Goes settings (guardedMutate source settings s.mutator.stack.size)
      (mutate source settings s.mutator.stack.size) s
      fun _ => Progress s.mutator.stack.toList settings.live settings.steps := by
  have hnil : ∀ p ∈ List.replicate settings.live s.mutator.nil,
      s.mutator.heap.isAllocated p = true := fun p hp =>
    List.eq_of_mem_replicate hp ▸ hr.consistent.isAllocated_nil
  refine .get_bind ?_
  have hpush : Goes settings
      (onMutator ((List.replicate settings.live s.mutator.nil).forM guardedPushRoot))
      (onMutator (pushRoots (List.replicate settings.live s.mutator.nil))) s
      fun _ => Progress s.mutator.stack.toList settings.live 0 := by
    refine ⟨by rw [onMutator_eq, onMutator_eq, guardedPushRoots_eq hnil], ?_⟩
    rw [onMutator_eq, pushRoots_eq]
    refine ⟨⟨hr.pushed fun p hp => Or.inr (hnil p hp), _, ?_, List.length_replicate, hnil⟩, ?_, ?_⟩
    · simp [pushed]
    · rw [hs]
    · rw [hs]
      exact Nat.le_refl 0
  refine hpush.bind fun _ s₁ hs₁ => ?_
  rw [forM_eq_range, forM_eq_range, ← Array.length_toList]
  exact Goes.forM_range hs₁ fun i s' hs' => goes_step hsource hlive hbig hs' i

/-! ## The end of a run -/

/-- What a run leaves: the stack that it started on, an account of its
steps, and objects of generation two, no more of them than it has seen. -/
structure Settled (settings : Settings) (m m' : Mutator) (statistics : Statistics) : Prop where
  stack : m'.stack = m.stack
  steps : statistics.steps = settings.steps
  account : statistics.allocations + statistics.mutations ≤ settings.steps
  live : Counts (fun p => m'.heap.isAllocated p = true) m'.heap.occupancy.totalObjects
  peak : m'.heap.occupancy.totalObjects ≤ statistics.peakObjects
  aged : ∀ p, m'.heap.isAllocated p = true → m'.heap.generationOf p = .ok .two
  oldToNew : m'.heap.oldToNew = []

/-- **The end of a run** is never refused. -/
theorem settle_ends
    (hs : Progress m.stack.toList settings.live settings.steps s) :
    Ends (settle m.stack.size s)
      (fun _ s' => s'.mutator.Reached ∧ Settled settings m s'.mutator s'.statistics)
      (fun _ _ => False) fun _ => False := by
  have hr := hs.standing.reached
  have hserves := hr.consistent.serves
  obtain ⟨report, _, hrun, h', rfl, hc⟩ := ((collect_collected hserves.wellFormed .two).mono
    (fun _ _ h => h) (fun _ _ h => h)
    (hserves.no_stray ⟨rfl, rfl⟩ s.mutator.mem_roots_of_symbol)).returns
  have hr₁ : (s.mutator.withHeap h').Reached :=
    hr.step (.collect .two) (List.forall_mem_nil _) (leaves_map.mpr (Or.inl ⟨report, hrun⟩))
  have hcollect : onMutator (Mutator.collect .two) s =
      .ok report { s with mutator := s.mutator.withHeap h' } := by
    rw [onMutator_eq, hrun]
  unfold settle
  refine Ends.bind_of_eq hcollect ?_
  -- what follows only looks at the heap, and drops the slots
  refine Ends.of_eq (a := ()) (s := {
    mutator := (s.mutator.withHeap h').truncate m.stack.size
    source := s.source
    statistics := (s.statistics.notePeak h'.occupancy.totalObjects).conclude h'.metrics
      h'.occupancy }) rfl ?_
  refine ⟨hr₁.step (.truncateRoots m.stack.size) (List.forall_mem_nil _) (Or.inl ⟨(), rfl⟩),
    ?_, hs.steps, hs.account, Heap.counts_all hc.wellFormed.toFormed, Nat.le_max_right _ _,
    fun p hp => hc.generationOf_two hserves.wellFormed hp, hc.oldToNew_nil⟩
  obtain ⟨slots, hstack, _⟩ := hs.standing.slots
  refine Array.toList_inj.mp ?_
  show (s.mutator.stack.shrink m.stack.size).toList = m.stack.toList
  rw [Array.toList_shrink, hstack, ← Array.length_toList, List.take_left]

/-- **Random runs are safe.** Whatever a source in range draws, a run over
any mutator of a program never uses a reference to an object that is not
there; it returns and leaves the mutator settled, or is refused for a
size, and meets no fault unless the integers of a big vector do not fit in
memory. -/
theorem run_safe (hsource : source.InRange) (hlive : 0 < settings.live)
    (hbig : 0 < settings.bigEvery) (hr : m.Reached) (start : σ) :
    guardedRun source settings { mutator := m, source := start } =
      run source settings { mutator := m, source := start } ∧
    Ends (run source settings { mutator := m, source := start })
      (fun statistics s' => s'.mutator.Reached ∧ Settled settings m s'.mutator statistics)
      (fun e s' => e.OfSize ∧ s'.mutator.Reached)
      fun f => f = .overflow ∧ Word.maxSize < 8 * settings.bigLength := by
  have hgoes : Goes settings (guardedRun source settings) (run source settings)
      { mutator := m, source := start } fun statistics s' =>
        s'.mutator.Reached ∧ Settled settings m s'.mutator statistics := by
    refine .get_bind ((goes_mutate hsource hlive hbig hr rfl).bind fun _ s₁ hs₁ => ?_)
    refine Goes.bind ⟨rfl, (settle_ends hs₁).widen⟩ fun _ s₂ hs₂ => ?_
    exact .get_bind (.pure hs₂)
  exact ⟨hgoes.same, hgoes.ends⟩

/-! ## A small run -/

/-- A mutator over segments of eight small chunks. -/
def smallMutator : Mutator :=
  (Mutator.create Heap.smallConfig .standard).toOption.get (by decide +kernel)

theorem reached_smallMutator : smallMutator.Reached :=
  have hc : Mutator.create Heap.smallConfig .standard = .ok smallMutator :=
    eq_ok_of_toOption (Option.some_get _).symm
  .create hc

/-- Three steps over one slot, with short vectors for the big ones. -/
def smallSettings : Settings where
  seed := 7
  steps := 3
  live := 1
  bigLength := 9
  bigEvery := 1

/-- Two of the steps make an object and one links one; one object is
collected. -/
theorem run_safe_small : ∃ statistics s',
    guardedRun .chacha smallSettings { mutator := smallMutator, source := .ofSeed 7 } =
      .ok statistics s' ∧
    (statistics.allocations, statistics.mutations, statistics.freed) = (2, 1, 1) ∧
    s'.mutator.Reached ∧ Settled smallSettings smallMutator s'.mutator statistics := by
  have hrun : (returned (run .chacha smallSettings)
      { mutator := smallMutator, source := .ofSeed 7 }).map (fun statistics =>
        (statistics.allocations, statistics.mutations, statistics.freed)) = some (2, 1, 1) := by
    decide +kernel
  have hsafe := run_safe Random.chacha_inRange (by decide : 0 < smallSettings.live)
    (by decide : 0 < smallSettings.bigEvery) reached_smallMutator (.ofSeed 7)
  obtain ⟨statistics, hreturned, hcounts⟩ := Option.map_eq_some_iff.mp hrun
  rw [eq_ok_of_returned hreturned] at hsafe
  obtain ⟨hsame, hreached, hsettled⟩ := hsafe
  exact ⟨statistics, _, hsame, hcounts, hreached, hsettled⟩

/-- The first object is a big vector: with more integers than fit in
memory, the run meets a fault. -/
theorem run_overflow_long : smallMutator.Reached ∧ Random.Source.chacha.InRange ∧ ∃ s',
    run .chacha { smallSettings with bigLength := 1152921504606846976 }
      { mutator := smallMutator, source := .ofSeed 7 } = .error (.fault .overflow) s' := by
  have hrun : met (run .chacha { smallSettings with bigLength := 1152921504606846976 })
      { mutator := smallMutator, source := .ofSeed 7 } = some .overflow := by
    decide +kernel
  exact ⟨reached_smallMutator, Random.chacha_inRange, error_of_met hrun⟩

end Workload

end SegmentedHeap
