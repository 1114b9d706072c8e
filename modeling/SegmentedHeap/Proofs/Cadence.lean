/-
SegmentedHeap.Proofs.Cadence — when the policy calls for a collection, and
of which level.

The policy keeps three counters: of the allocations since the last
collection, of the collections at level zero since the last one above it,
and of those at level one since the last full one. If a program collects
only when it is told to, and at the level that it is told, the last two
are the digits of the number of collections so far, in a system with two
places: the level is zero unless the lower digit is about to wrap, and two
if both are. The first counter does not depend on who asked for the
collections.

* `Policy.cadence` — the level of the n-th collection.
* `Paced` — runs with a record of what the policy counts.
* `InStep` — the two counters as digits, with `InStep.dueLevel` and
  `InStep.collected` for one collection.
* `policy_cadence` — **the cadence of a run**.
-/
import SegmentedHeap.Proofs.Accounting

namespace SegmentedHeap

namespace Policy

/-- One collection in so many is at level one or above. -/
def period1 (p : Policy) : Nat := max p.level1Every 1

/-- One of those in so many is at level two. -/
def period2 (p : Policy) : Nat := max p.level2Every 1

/-- The level of the n-th collection, from one on. -/
def cadence (p : Policy) (n : Nat) : Generation :=
  if ¬ p.period1 ∣ n then .zero else if ¬ p.period1 * p.period2 ∣ n then .one else .two

theorem period1_pos (p : Policy) : 0 < p.period1 := Nat.le_max_right _ 1

theorem period2_pos (p : Policy) : 0 < p.period2 := Nat.le_max_right _ 1

variable {p : Policy} {n : Nat}

theorem cadence_eq_two : p.cadence n = .two ↔ p.period1 * p.period2 ∣ n := by
  unfold cadence
  split
  · next hlow => exact iff_of_false nofun fun hn => hlow (Nat.dvd_trans (Nat.dvd_mul_right _ _) hn)
  · split
    · next hhigh => exact iff_of_false nofun hhigh
    · next hhigh => exact iff_of_true rfl (not_not.mp hhigh)

theorem cadence_eq_zero : p.cadence n = .zero ↔ ¬ p.period1 ∣ n := by
  unfold cadence
  split
  · next hlow => exact iff_of_true rfl hlow
  · next hlow => split <;> exact iff_of_false nofun hlow

theorem cadence_eq_one :
    p.cadence n = .one ↔ p.period1 ∣ n ∧ ¬ p.period1 * p.period2 ∣ n := by
  rw [← cadence_eq_two, ← not_not (a := p.period1 ∣ n), ← cadence_eq_zero]
  cases p.cadence n <;> decide

end Policy

/-! ## Digits that count -/

/-- A digit is about to wrap where the base divides the next number. -/
theorem mod_add_one_lt_iff {a n : Nat} (ha : 0 < a) : n % a + 1 < a ↔ ¬ a ∣ n + 1 := by
  obtain ⟨a, rfl⟩ : ∃ b, a = b + 1 := ⟨a - 1, by omega⟩
  have hlt := Nat.mod_lt n ha
  rw [Nat.dvd_iff_mod_eq_zero, Nat.succ_mod_succ_eq_zero_iff]
  omega

/-- Otherwise it goes up by one. -/
theorem add_one_mod_of_lt {a n : Nat} (h : n % a + 1 < a) : (n + 1) % a = n % a + 1 := by
  calc (n + 1) % a = (a * (n / a) + (n % a + 1)) % a := by
        rw [← Nat.add_assoc, Nat.div_add_mod]
    _ = n % a + 1 := by rw [Nat.mul_add_mod, Nat.mod_eq_of_lt h]

/-! ## Runs with a record -/

/-- What the policy counts: an allocation that succeeded, or a collection,
with the level that was called for when it was made. -/
inductive Beat where
  | allocation
  | collection (level : Generation) (due : Option Generation)
deriving DecidableEq

namespace Beat

/-- The allocations since the last collection, after one more. -/
def count (n : Nat) : Beat → Nat
  | allocation => n + 1
  | collection _ _ => 0

def level? : Beat → Option Generation
  | allocation => none
  | collection level _ => some level

end Beat

/-- The allocations of a record since its last collection. -/
def sinceCollection (beats : List Beat) : Nat := beats.foldl Beat.count 0

/-- The levels of the collections of a record, from the first on. -/
def levels (beats : List Beat) : List Generation := beats.filterMap Beat.level?

/-- Each collection was made when one was called for, and at that level. -/
def Suggested (beats : List Beat) : Prop :=
  ∀ level due, Beat.collection level due ∈ beats → due = some level

/-- What an attempt to allocate adds to a record. -/
def allocationBeats (r : Except HeapError ObjRef) : List Beat :=
  match r with
  | .ok _ => [.allocation]
  | .error _ => []

/-- What the collection inside an allocation with a retry adds. -/
def retryBeats (due : Option Generation) (reports : List CollectionReport) : List Beat :=
  reports.map fun report => .collection report.level due

namespace Heap

variable {σ : Type} {h h' : Heap} {tracer : Tracer σ} {level : Generation} {beats : List Beat}

/-- The heaps of the runs of a program, each with what the policy was to
count. -/
inductive Paced : Heap → List Beat → Prop where
  | create {config : Config} {layout : ObjectLayout} {system : System} {h : Heap} :
      create config layout system = .ok h → Paced h []
  | alloc {h h' : Heap} {beats : List Beat} {r : Except HeapError ObjRef} (tag : TypeTag)
      (length : Nat) : Paced h beats → attempt (alloc tag length) h = .ok r h' →
      Paced h' (beats ++ allocationBeats r)
  | allocRetrying {σ : Type} {h h' : Heap} {beats : List Beat} {r : Except HeapError ObjRef × σ}
      (tracer : Tracer σ) (tag : TypeTag) (length : Nat) (log : σ) : Paced h beats →
      allocRetrying tracer tag length log h = .ok r h' →
      Paced h' (beats ++ retryBeats h.dueLevel (retryReports tracer tag length log h) ++
        allocationBeats r.1)
  | free {h h' : Heap} {beats : List Beat} (obj : ObjRef) : Paced h beats →
      Leaves (free obj) h h' → Paced h' beats
  | setBytes {h h' : Heap} {beats : List Beat} (obj : ObjRef) (start : Nat)
      (bytes : List UInt8) : Paced h beats → Leaves (setBytes obj start bytes) h h' →
      Paced h' beats
  | register {h h' : Heap} {beats : List Beat} (source target : ObjRef) : Paced h beats →
      Leaves (register source target) h h' → Paced h' beats
  | writeRef {h h' : Heap} {beats : List Beat} (source : ObjRef) (field : Nat)
      (target : ObjRef) : Paced h beats → Leaves (writeRef source field target) h h' →
      Paced h' beats
  | collect {σ : Type} {h h' : Heap} {beats : List Beat} {r : CollectionReport × σ}
      (tracer : Tracer σ) (level : Generation) (log : σ) : Paced h beats →
      collect tracer level log h = .ok r h' → Paced h' (beats ++ [.collection level h.dueLevel])

/-- An attempt leaves what the operation leaves. -/
theorem leaves_of_attempt {α : Type} {act : HeapM α} {r : Except HeapError α}
    (he : attempt act h = .ok r h') : Leaves act h h' := by
  rcases of_attempt he with ⟨a, _, ha⟩ | ⟨e, _, ha⟩
  · exact Or.inl ⟨a, ha⟩
  · exact Or.inr ⟨e, ha⟩

theorem attempt_of_leaves {α : Type} {act : HeapM α} (hl : Leaves act h h') :
    ∃ r, attempt act h = .ok r h' := by
  rcases hl with ⟨a, ha⟩ | ⟨e, ha⟩
  · exact ⟨.ok a, by rw [attempt, ha]⟩
  · exact ⟨.error e, by rw [attempt, ha]⟩

/-- The same runs. -/
theorem Paced.reachable (hr : Paced h beats) : h.Reachable := by
  induction hr with
  | create hc => exact .create hc
  | alloc tag length _ he ih => exact .alloc tag length ih (leaves_of_attempt he)
  | allocRetrying tracer tag length log _ he ih =>
    exact .allocRetrying tracer tag length log ih (Or.inl ⟨_, he⟩)
  | free obj _ hl ih => exact .free obj ih hl
  | setBytes obj start bytes _ hl ih => exact .setBytes obj start bytes ih hl
  | register source target _ hl ih => exact .register source target ih hl
  | writeRef source field target _ hl ih => exact .writeRef source field target ih hl
  | collect tracer level log _ he ih => exact .collect tracer level log ih (Or.inl ⟨_, he⟩)

theorem Reachable.paced (hr : h.Reachable) : ∃ beats, Paced h beats := by
  induction hr with
  | create hc => exact ⟨_, .create hc⟩
  | alloc tag length _ hl ih =>
    obtain ⟨_, hp⟩ := ih
    obtain ⟨r, he⟩ := attempt_of_leaves hl
    exact ⟨_, .alloc tag length hp he⟩
  | allocRetrying tracer tag length log hr hl ih =>
    obtain ⟨_, hp⟩ := ih
    rcases hl with ⟨_, he⟩ | ⟨_, he⟩
    · exact ⟨_, .allocRetrying tracer tag length log hp he⟩
    · exact ((allocRetrying_ends hr.wellFormed tracer tag length log).of_refused he).elim
  | free obj _ hl ih => exact ih.imp fun _ hp => .free obj hp hl
  | setBytes obj start bytes _ hl ih => exact ih.imp fun _ hp => .setBytes obj start bytes hp hl
  | register source target _ hl ih => exact ih.imp fun _ hp => .register source target hp hl
  | writeRef source field target _ hl ih =>
    exact ih.imp fun _ hp => .writeRef source field target hp hl
  | collect tracer level log hr hl ih =>
    obtain ⟨_, hp⟩ := ih
    rcases hl with ⟨_, he⟩ | ⟨_, he⟩
    · exact ⟨_, .collect tracer level log hp he⟩
    · exact ((collect_ends hr.wellFormed tracer level log).of_refused he).elim

/-! ## The two digits -/

/-- The counters of collections are the digits of a number. -/
structure InStep (h : Heap) (n : Nat) : Prop where
  young : h.youngCollections = n % h.config.policy.period1
  level1 : h.level1Collections = n / h.config.policy.period1 % h.config.policy.period2

/-- **The level that is called for** is the next one of the cadence. -/
theorem InStep.dueLevel_eq {n : Nat} (hs : h.InStep n) (hd : h.dueLevel = some level) :
    level = h.config.policy.cadence (n + 1) := by
  have hlow := mod_add_one_lt_iff (n := n) h.config.policy.period1_pos
  have hhigh := mod_add_one_lt_iff (n := n / h.config.policy.period1) h.config.policy.period2_pos
  rw [← hs.young] at hlow
  rw [← hs.level1] at hhigh
  simp only [dueLevel] at hd
  rw [Policy.cadence]
  split at hd
  · cases hd
  · split at hd
    · next hyoung =>
      cases hd
      rw [if_pos (hlow.mp hyoung)]
    · next hyoung =>
      have hdvd : h.config.policy.period1 ∣ n + 1 :=
        Classical.byContradiction fun hn => hyoung (hlow.mpr hn)
      rw [← Nat.succ_div_of_dvd hdvd, Nat.dvd_div_iff_mul_dvd hdvd] at hhigh
      rw [if_neg (not_not_intro hdvd)]
      split at hd
      · next hlevel1 =>
        cases hd
        rw [if_pos (hhigh.mp hlevel1)]
      · next hlevel1 =>
        cases hd
        rw [if_neg fun hn => hlevel1 (hhigh.mpr hn)]

/-- **A collection at the level of the cadence** counts one further. -/
theorem InStep.collected {n : Nat} {report : CollectionReport} (hs : h.InStep n)
    (hlevel : report.level = h.config.policy.cadence (n + 1)) (hconfig : h'.config = h.config)
    (hc : h'.counters = h.counters.collected report) : h'.InStep (n + 1) := by
  have hyoung := congrArg Counters.youngCollections hc
  have hlevel1 := congrArg Counters.level1Collections hc
  simp only [Counters.collected, hlevel, Policy.cadence] at hyoung hlevel1
  have hlow := mod_add_one_lt_iff (n := n) h.config.policy.period1_pos
  have hhigh := mod_add_one_lt_iff (n := n / h.config.policy.period1) h.config.policy.period2_pos
  by_cases hdvd : h.config.policy.period1 ∣ n + 1
  · rw [if_neg (not_not_intro hdvd)] at hyoung hlevel1
    have hwrap : (n + 1) % h.config.policy.period1 = 0 := Nat.mod_eq_zero_of_dvd hdvd
    have hdiv := Nat.succ_div_of_dvd hdvd
    by_cases hfull : h.config.policy.period1 * h.config.policy.period2 ∣ n + 1
    · rw [if_neg (not_not_intro hfull)] at hyoung hlevel1
      refine ⟨by rw [hconfig, hwrap]; exact hyoung, ?_⟩
      rw [hconfig, Nat.mod_eq_zero_of_dvd ((Nat.dvd_div_iff_mul_dvd hdvd).mpr hfull)]
      exact hlevel1
    · rw [if_pos hfull] at hyoung hlevel1
      rw [← hdiv, Nat.dvd_div_iff_mul_dvd hdvd] at hhigh
      refine ⟨by rw [hconfig, hwrap]; exact hyoung, ?_⟩
      rw [hconfig, hdiv, add_one_mod_of_lt (hhigh.mpr hfull), ← hs.level1]
      exact hlevel1
  · rw [if_pos hdvd] at hyoung hlevel1
    refine ⟨?_, ?_⟩
    · rw [hconfig, add_one_mod_of_lt (hlow.mpr hdvd), ← hs.young]
      exact hyoung
    · rw [hconfig, Nat.succ_div_of_not_dvd hdvd, ← hs.level1]
      exact hlevel1

/-! ## Runs and the policy -/

/-- The counters of a heap agree with a record. -/
structure InTime (h : Heap) (beats : List Beat) : Prop where
  allocations : h.allocations = sinceCollection beats
  inStep : Suggested beats → h.InStep (levels beats).length
  cadence : Suggested beats → ∀ n level, (levels beats)[n]? = some level →
    level = h.config.policy.cadence (n + 1)

theorem inTime_create {config : Config} {layout : ObjectLayout} {system : System}
    (hc : create config layout system = .ok h) : h.InTime [] := by
  obtain ⟨_, _, _, _, _, rfl⟩ := create_eq_ok hc
  refine ⟨rfl, fun _ => ⟨(Nat.zero_mod _).symm, ?_⟩, fun _ n level hn => by cases hn⟩
  show 0 = 0 / _ % _
  rw [Nat.zero_div, Nat.zero_mod]

/-- What counts no collection keeps the digits. -/
theorem InTime.keep {beats' : List Beat} (ht : h.InTime beats) (hconfig : h'.config = h.config)
    (hyoung : h'.youngCollections = h.youngCollections)
    (hlevel1 : h'.level1Collections = h.level1Collections)
    (hallocations : h'.allocations = sinceCollection beats')
    (hlevels : levels beats' = levels beats) (hs : Suggested beats' → Suggested beats) :
    h'.InTime beats' := by
  refine ⟨hallocations, fun hs' => ?_, fun hs' => ?_⟩
  · have hin := ht.inStep (hs hs')
    rw [hlevels]
    exact ⟨by rw [hconfig, hyoung, hin.young], by rw [hconfig, hlevel1, hin.level1]⟩
  · rw [hlevels, hconfig]
    exact ht.cadence (hs hs')

theorem InTime.uncounted (ht : h.InTime beats) (hconfig : h'.config = h.config)
    (hc : h'.counters = h.counters) : h'.InTime beats :=
  ht.keep hconfig (congrArg Counters.youngCollections hc)
    (congrArg Counters.level1Collections hc)
    ((congrArg Counters.allocations hc).trans ht.allocations) rfl id

theorem InTime.withMetrics (ht : h.InTime beats) (metrics : Metrics) :
    (h.withMetrics metrics).InTime beats :=
  ht.keep rfl rfl rfl ht.allocations rfl id

theorem InTime.free {obj : ObjRef} (ht : h.InTime beats) (hw : h.WellFormed)
    (hl : Leaves (free obj) h h') : h'.InTime beats := by
  have hconfig := (steady_free hw hl).setting.config
  rcases (free_counters obj h).of_leaves hl with ⟨_, hc⟩ | ⟨_, hc⟩
  · exact ht.keep hconfig (congrArg Counters.youngCollections hc)
      (congrArg Counters.level1Collections hc)
      ((congrArg Counters.allocations hc).trans ht.allocations) rfl id
  · exact ht.uncounted hconfig hc

/-- **An attempt to allocate** counts if it succeeds. -/
theorem InTime.attempt {tag : TypeTag} {length : Nat} {r : Except HeapError ObjRef}
    (ht : h.InTime beats) (hw : h.WellFormed) (he : attempt (alloc tag length) h = .ok r h') :
    h'.InTime (beats ++ allocationBeats r) := by
  rcases of_attempt he with ⟨obj, rfl, ha⟩ | ⟨e, rfl, ha⟩
  · obtain ⟨bytes, sizeClass, hc⟩ := (alloc_counters tag length h).of_ok ha
    refine ht.keep ((alloc_ends hw tag length).of_ok ha).setting.config
      (congrArg Counters.youngCollections hc) (congrArg Counters.level1Collections hc) ?_ ?_ ?_
    · rw [sinceCollection, List.foldl_append, ← sinceCollection, ← ht.allocations]
      exact congrArg Counters.allocations hc
    · rw [levels, List.filterMap_append]
      exact List.append_nil _
    · exact fun hs level due hm => hs level due (List.mem_append_left _ hm)
  · rw [((alloc_ends hw tag length).of_refused ha).1]
    exact (List.append_nil beats).symm ▸ ht

/-- **A collection** ends the row of allocations. If it was called for, and
at its level, it is the next of the cadence. -/
theorem InTime.collect {r : CollectionReport × σ} {log : σ} (ht : h.InTime beats)
    (hw : h.WellFormed) (he : collect tracer level log h = .ok r h') :
    h'.InTime (beats ++ [.collection level h.dueLevel]) := by
  have hc := (collect_ends hw tracer level log).of_ok he
  have hcounters := (collect_counters hw.toFormed tracer level log).of_ok he
  have hlevels : levels (beats ++ [.collection level h.dueLevel]) = levels beats ++ [level] :=
    List.filterMap_append
  -- only a run that follows the suggestions has its next level given by the policy
  have hnext : ∀ hs : Suggested (beats ++ [.collection level h.dueLevel]),
      h.InStep (levels beats).length ∧
        level = h.config.policy.cadence ((levels beats).length + 1) := fun hs => by
    have hin := ht.inStep fun level due hm => hs level due (List.mem_append_left _ hm)
    exact ⟨hin, hin.dueLevel_eq (hs level h.dueLevel (by simp))⟩
  refine ⟨?_, fun hs => ?_, fun hs n l hn => ?_⟩
  · rw [sinceCollection, List.foldl_append]
    exact congrArg Counters.allocations hcounters
  · obtain ⟨hin, hlevel⟩ := hnext hs
    rw [hlevels, List.length_append]
    exact hin.collected (hc.level_eq.trans hlevel) hc.setting.config hcounters
  · rw [hlevels] at hn
    rw [hc.setting.config]
    by_cases hlt : n < (levels beats).length
    · rw [List.getElem?_append_left hlt] at hn
      exact ht.cadence (fun level due hm => hs level due (List.mem_append_left _ hm)) n l hn
    · obtain ⟨_, hlevel⟩ := hnext hs
      rw [List.getElem?_append_right (Nat.le_of_not_lt hlt)] at hn
      cases hk : n - (levels beats).length with
      | zero =>
        rw [hk] at hn
        cases hn
        rw [show n = (levels beats).length by omega]
        exact hlevel
      | succ k =>
        rw [hk] at hn
        cases hn

/-- **An allocation with a retry** counts what happens in it. -/
theorem InTime.allocRetrying {tag : TypeTag} {length : Nat} {r : Except HeapError ObjRef × σ}
    {log : σ} (ht : h.InTime beats) (hw : h.WellFormed)
    (he : allocRetrying tracer tag length log h = .ok r h') :
    h'.InTime (beats ++ retryBeats h.dueLevel (retryReports tracer tag length log h) ++
      allocationBeats r.1) := by
  cases tries_of_allocRetrying hw he with
  | once htry hkept =>
    rw [retryReports_of_once log htry hkept, retryBeats, List.map_nil, List.append_nil]
    exact ht.attempt hw htry
  | @twice e report log' r h₁ h₂ ha hex hcollect htry =>
    have hone : retryReports tracer tag length log h = [report] := by
      simp only [retryReports, ha, hex, if_true, hcollect]
    have hw₀ := hw.withMetrics h.metrics.recordRetry
    have hc := (collect_ends hw₀ tracer .two log).of_ok hcollect
    have ht₁ := (ht.withMetrics h.metrics.recordRetry).collect hw₀ hcollect
    rw [hone, retryBeats, List.map_singleton, hc.level_eq]
    exact (ht₁.attempt hc.wellFormed htry).withMetrics _

/-- **Each step of a run** counts as its record says. -/
theorem Paced.inTime (hr : Paced h beats) : h.InTime beats := by
  induction hr with
  | create hc => exact inTime_create hc
  | alloc tag length hr he ih => exact ih.attempt hr.reachable.wellFormed he
  | allocRetrying tracer tag length log hr he ih =>
    exact ih.allocRetrying hr.reachable.wellFormed he
  | free obj hr hl ih => exact ih.free hr.reachable.wellFormed hl
  | setBytes obj start bytes hr hl ih =>
    exact ih.uncounted (steady_setBytes hr.reachable.wellFormed hl).setting.config
      ((uncounted_setBytes obj start bytes _).leaves hl)
  | register source target hr hl ih =>
    exact ih.uncounted (steady_register hr.reachable.wellFormed hl).setting.config
      ((uncounted_register source target _).leaves hl)
  | writeRef source field target hr hl ih =>
    exact ih.uncounted (steady_writeRef hr.reachable.wellFormed hl).setting.config
      ((uncounted_writeRef source field target _).leaves hl)
  | collect tracer level log hr he ih => exact ih.collect hr.reachable.wellFormed he

/-- A collection is called for as soon as there were enough allocations. -/
theorem InTime.dueLevel_ne_none (ht : h.InTime beats) :
    h.dueLevel ≠ none ↔ h.config.policy.youngThreshold ≤ sinceCollection beats := by
  rw [← ht.allocations, ← Nat.not_lt]
  simp only [dueLevel]
  split
  · next hlt => exact iff_of_false (fun hn => hn rfl) (not_not_intro hlt)
  · next hlt =>
    refine iff_of_true ?_ hlt
    split
    · exact nofun
    · split <;> exact nofun

/-! ## A run that does as it is told -/

/-- Makes a pair, and then the collection that is called for, over and
over. This is `none` if anything fails or nothing is called for. -/
def playRounds (tracer : Tracer Unit) : Nat → Heap → Option (List Generation × Heap)
  | 0, h => some ([], h)
  | n + 1, h => do
    let _ ← returned (alloc Model.ModelType.pair.tag 0) h
    let h₁ := after (alloc Model.ModelType.pair.tag 0) h
    let level ← h₁.dueLevel
    let _ ← returned (collect tracer level ()) h₁
    let (levels, h') ← playRounds tracer n (after (collect tracer level ()) h₁)
    return (level :: levels, h')

/-- What such a run counts. -/
def roundBeats (levels : List Generation) : List Beat :=
  levels.flatMap fun level => [.allocation, .collection level (some level)]

theorem paced_playRounds {tracer : Tracer Unit} {n : Nat} {played : List Generation}
    (hr : Paced h beats) (hp : playRounds tracer n h = some (played, h')) :
    Paced h' (beats ++ roundBeats played) := by
  induction n generalizing h beats played with
  | zero =>
    cases hp
    rw [roundBeats, List.flatMap_nil, List.append_nil]
    exact hr
  | succ n ih =>
    simp only [playRounds, Option.bind_eq_bind, Option.bind_eq_some_iff] at hp
    obtain ⟨obj, halloc, level, hdue, r, hcollect, ⟨rest, h''⟩, hrest, hout⟩ := hp
    cases hout
    have htry : attempt (alloc Model.ModelType.pair.tag 0) h =
        .ok (.ok obj) (after (alloc Model.ModelType.pair.tag 0) h) := by
      rw [attempt, eq_ok_of_returned halloc]
    have hround := ih (.collect tracer level () (.alloc _ _ hr htry)
      (eq_ok_of_returned hcollect)) hrest
    rw [hdue, List.append_assoc, List.append_assoc] at hround
    exact hround

theorem suggested_roundBeats (levels : List Generation) : Suggested (roundBeats levels) := by
  intro level due hm
  obtain ⟨l, _, hbeat⟩ := List.mem_flatMap.mp hm
  rcases List.mem_pair.mp hbeat with h | h
  · cases h
  · cases h
    rfl

/-- **The cadence of a run.** In every state of a run a collection is called
for exactly if so many allocations have succeeded since the last one. And
if the collections were made when they were called for, and at the level
that was, the n-th is at level two if both periods divide n together, at
level one if only the first does, and at level zero otherwise. -/
theorem policy_cadence (hr : Paced h beats) :
    (h.dueLevel ≠ none ↔ h.config.policy.youngThreshold ≤ sinceCollection beats) ∧
    (Suggested beats → ∀ n level, (levels beats)[n]? = some level →
      (level = .two ↔ h.config.policy.period1 * h.config.policy.period2 ∣ n + 1) ∧
      (level = .one ↔ h.config.policy.period1 ∣ n + 1 ∧
        ¬ h.config.policy.period1 * h.config.policy.period2 ∣ n + 1) ∧
      (level = .zero ↔ ¬ h.config.policy.period1 ∣ n + 1)) := by
  have ht := hr.inTime
  refine ⟨ht.dueLevel_ne_none, fun hs n level hn => ?_⟩
  rw [ht.cadence hs n level hn]
  exact ⟨Policy.cadence_eq_two, Policy.cadence_eq_one, Policy.cadence_eq_zero⟩

/-- With both periods two, the fourth collection is the first full one. -/
theorem policy_cadence_four : ∃ (h : Heap) (beats : List Beat), Paced h beats ∧
    Suggested beats ∧ h.config.policy.period1 * h.config.policy.period2 = 4 ∧
    levels beats = [.zero, .one, .zero, .two] ∧ h.dueLevel = none ∧
    (h.dueLevel ≠ none ↔ h.config.policy.youngThreshold ≤ sinceCollection beats) ∧
    (Generation.two = .two ↔ h.config.policy.period1 * h.config.policy.period2 ∣ 3 + 1) := by
  let config : Config :=
    { smallConfig with policy := { youngThreshold := 1, level1Every := 2, level2Every := 2 } }
  let tracer : Tracer Unit := { roots := [], refs := fun v => v.refs 2 }
  have hrun : ((create config (Model.layout 8) .standard).toOption.bind
      (playRounds tracer 4)).map (fun out => (out.1, out.2.dueLevel,
        out.2.config.policy.period1 * out.2.config.policy.period2)) =
      some ([.zero, .one, .zero, .two], none, 4) := by decide +kernel
  obtain ⟨⟨played, h⟩, hout, hfacts⟩ := Option.map_eq_some_iff.mp hrun
  obtain ⟨h₀, hcreate, hplayed⟩ := Option.bind_eq_some_iff.mp hout
  simp only [Prod.mk.injEq] at hfacts
  obtain ⟨rfl, hdue, hperiods⟩ := hfacts
  have hp := paced_playRounds (.create (eq_ok_of_toOption hcreate)) hplayed
  have hs := suggested_roundBeats [.zero, .one, .zero, .two]
  exact ⟨h, _, hp, hs, hperiods, rfl, hdue, (policy_cadence hp).1,
    ((policy_cadence hp).2 hs 3 .two rfl).1⟩

end Heap

end SegmentedHeap
