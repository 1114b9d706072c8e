/-
SegmentedHeap.Proofs.Slots — one step of a random run.

A run works on what is in its root slots, the top of the root stack. That
stays allocated whatever the step does in between, since the slots are
roots, and every object has the fields of its type, so that a link always
finds the field it draws. The steps are written once more with an
operation that asks in place of each one that uses a reference: that makes
no difference, whatever the source draws.

* `Standing` — the root slots, each with an object in it.
* `guardedStep` — a step that asks.
* `Goes` — the step that asks goes as the other one does, and how.
* `goes_create`, `goes_link`, `goes_step` — **one step**.
-/
import SegmentedHeap.Proofs.GuardedMutator
import SegmentedHeap.Proofs.MutatorHeap
import SegmentedHeap.Workload.Run

namespace SegmentedHeap

open Model

namespace Mutator

variable {m m' : Mutator} {kept : List ObjRef} {node : Node ObjRef} {obj source target : ObjRef}
  {v : ObjectView} {type : ModelType} {n i : Nat}

/-! ## Roots that stay -/

/-- The stack is as before, and what it names is still there. -/
structure Carries (m m' : Mutator) : Prop where
  stack : m'.stack = m.stack
  isAllocated : ∀ p ∈ m.stack.toList, m.heap.isAllocated p = true → m'.heap.isAllocated p = true

theorem Constructs.carries (hf : m.heap.Formed) (hd : m.Constructs kept node obj m') :
    m.Carries m' ∧ m'.heap.isAllocated obj = true := by
  obtain ⟨v, hmade, _⟩ := hd
  have hheld : Holding [obj] m' := hmade.holding hf (List.forall_mem_nil _)
  refine ⟨⟨?_, fun p hp ha => ?_⟩, hheld.isAllocated obj List.mem_cons_self⟩
  · obtain ⟨h', rfl, _⟩ := hmade
    rfl
  · have hroot : p ∈ (m.pushed kept).tracer.roots :=
      mem_pushed_roots.mpr (Or.inr (m.mem_tracer_roots.mpr (Or.inl hp)))
    have hheld : Holding [obj, p] m' := hmade.holding hf fun q hq => by
      rw [List.mem_singleton.mp hq]
      exact ⟨guards_of_root ha hroot, ha⟩
    exact hheld.isAllocated p (List.mem_cons_of_mem _ List.mem_cons_self)

/-- A constructor, for the roots and for its object. -/
theorem made_carries {act : MutatorM ObjRef} (hf : m.heap.Formed)
    (hact : Ends (act m) (m.Constructs kept node) (m.Short kept) fun _ => False) :
    Ends (act m) (fun obj m' => m.Carries m' ∧ m'.heap.isAllocated obj = true)
      (fun e _ => e.OfSize) fun _ => False :=
  hact.mono (fun _ _ hd => hd.carries hf) (fun _ _ hd => hd.1) fun _ h => h

theorem symbol_carries (hr : m.Ready) (id : UInt64) :
    Ends (symbol id m) (fun sym m' => m.Carries m' ∧ m'.heap.isAllocated sym = true)
      (fun e _ => e.OfSize) fun _ => False := by
  refine (symbol_shows hr id).mono (fun sym m' hd => ?_) (fun _ _ hd => hd.2.1) fun _ h => h
  rcases hd with ⟨rfl, hl⟩ | ⟨_, m'', hd, rfl⟩
  · exact ⟨⟨rfl, fun _ _ ha => ha⟩, hr.isAllocated_of_lookup hl⟩
  · obtain ⟨hc, ha⟩ := hd.carries hr.serves.formed
    exact ⟨⟨hc.stack, hc.isAllocated⟩, ha⟩

/-- A store in a field that the object has. -/
theorem store_carries (hw : m.heap.WellFormed) (hv : m.heap.view? source = some v)
    (hb : v.Blank type n) (hi : i < type.fieldCount v.length)
    (ht : m.heap.isAllocated target = true) :
    Ends (onHeap (Heap.writeRef source i target) m) (fun _ => m.Carries) (fun _ _ => False)
      fun _ => False := by
  refine (onHeap_ends (Heap.writeRef_seen hw hv (hb.fieldRoom hi) (Or.inr ht))).mono
    (fun _ m' hd => ?_) (fun _ _ hd => hd.elim fun _ hd => hd.2) fun _ h => h
  obtain ⟨h', rfl, hd⟩ := hd
  refine ⟨rfl, fun p _ ha => ?_⟩
  obtain ⟨u, hu⟩ := (Heap.isAllocated_iff_view? hw.toFormed).mp ha
  refine (Heap.isAllocated_iff_view? hd.wellFormed.toFormed).mpr ?_
  by_cases e : p = source
  · exact ⟨_, e ▸ hd.self⟩
  · exact ⟨u, (hd.others p e).trans hu⟩

theorem vectorSet_carries (hw : m.heap.WellFormed) (hv : m.heap.view? source = some v)
    (hb : v.Blank .vector n) (hi : i < n) (ht : m.heap.isAllocated target = true) :
    Ends (vectorSet source i target m) (fun _ => m.Carries) (fun _ _ => False)
      fun _ => False := by
  have hlength : m.vectorLength source = .ok n := by
    rw [vectorLength, Heap.lengthOf_of_view? hw.toFormed hv, hb.length]
    rfl
  have hfield : i < ModelType.vector.fieldCount v.length := by
    rw [hb.length]
    exact hi
  rw [vectorSet_eq hlength, if_neg (Nat.not_le.mpr hi)]
  exact store_carries hw hv hb hfield ht

end Mutator

namespace Workload

open Mutator

variable {σ α β : Type} {source : Random.Source σ} {settings : Settings} {entry : List ObjRef}
  {live : Nat} {m m' : Mutator} {s s' : State σ} {obj : ObjRef}

/-! ## Root slots -/

/-- On top of what was there at the entry, the stack has so many slots with
an object in each. -/
structure Standing (entry : List ObjRef) (live : Nat) (m : Mutator) : Prop where
  reached : m.Reached
  slots : ∃ slots, m.stack.toList = entry ++ slots ∧ slots.length = live ∧
    ∀ p ∈ slots, m.heap.isAllocated p = true

namespace Standing

theorem carried (hs : Standing entry live m) (hr : m'.Reached) (hc : m.Carries m') :
    Standing entry live m' := by
  obtain ⟨slots, hstack, hlength, hall⟩ := hs.slots
  refine ⟨hr, slots, by rw [hc.stack, hstack], hlength, fun p hp => ?_⟩
  exact hc.isAllocated p (hstack ▸ List.mem_append_right _ hp) (hall p hp)

/-- There is an object in each slot. -/
theorem root (hs : Standing entry live m) {i : Nat} (hi : i < live) :
    ∃ obj, m.root (entry.length + i) = .ok obj ∧ m.heap.isAllocated obj = true := by
  obtain ⟨slots, hstack, rfl, hall⟩ := hs.slots
  refine ⟨slots[i], ?_, hall _ (List.getElem_mem hi)⟩
  have hget : m.stack[entry.length + i]? = some slots[i] := by
    rw [← Array.getElem?_toList, hstack, List.getElem?_append_right (Nat.le_add_right _ _),
      Nat.add_sub_cancel_left, List.getElem?_eq_getElem hi]
  rw [Mutator.root, hget]

/-- An object is put in a slot. -/
theorem setRoot (hs : Standing entry live m) {i : Nat} (hi : i < live)
    (ha : m.heap.isAllocated obj = true) :
    Ends (Mutator.setRoot (entry.length + i) obj m) (fun _ => Standing entry live)
      (fun _ _ => False) fun _ => False := by
  obtain ⟨slots, hstack, rfl, hall⟩ := hs.slots
  have hindex : entry.length + i < m.stack.size := by
    rw [← Array.length_toList, hstack, List.length_append]
    omega
  have hrun := setRoot_of_lt obj hindex
  refine Ends.of_eq hrun ⟨hs.reached.step (.setRoot (entry.length + i) obj) ?_ (Or.inl ⟨(), hrun⟩),
    slots.set i obj, ?_, List.length_set, fun p hp => ?_⟩
  · exact fun p hp => List.mem_singleton.mp hp ▸ Or.inr ha
  · rw [Array.toList_setIfInBounds, hstack, List.set_append_right _ _ (Nat.le_add_right _ _),
      Nat.add_sub_cancel_left]
  · rcases List.mem_or_eq_of_mem_set hp with hp | rfl
    · exact hall p hp
    · exact ha

end Standing

/-! ## Steps that ask -/

def guardedPick (source : Random.Source σ) (settings : Settings) (base : Nat) : RunM σ ObjRef := do
  let slot ← pickSlot source settings base
  onMutator (guardedRoot slot)

def guardedCreate (source : Random.Source σ) (settings : Settings) (base : Nat) :
    RunM σ ObjRef := do
  match ← draw (source.below32 6) with
  | 0 =>
    let length ← intVecLength source settings
    if Word.maxSize < 8 * length then throw (.fault .overflow)
    onMutator (guardedIntVec ((List.range length).map Int64.ofNat))
  | 1 | 2 =>
    let car ← guardedPick source settings base
    let cdr ← guardedPick source settings base
    onMutator (guardedPair car cdr)
  | 3 =>
    let value ← guardedPick source settings base
    let n ← draw source.any64
    onMutator (guardedCell value n.toInt64)
  | 4 =>
    let length ← below source 12
    onMutator (guardedVector length)
  | _ =>
    let id ← below source 64
    onMutator (guardedSymbol (UInt64.ofNat id))

def guardedAllocate (source : Random.Source σ) (settings : Settings) (base : Nat) :
    RunM σ Unit := do
  let slot ← pickSlot source settings base
  let obj ← guardedCreate source settings base
  onMutator (guardedSetRoot slot obj)

def guardedLink (source : Random.Source σ) (settings : Settings) (base : Nat) : RunM σ Unit := do
  let target ← guardedPick source settings base
  let value ← guardedPick source settings base
  let tag ← onMutator (guardedTypeOf target)
  match ModelType.ofTag? tag with
  | some .pair =>
    if ← draw source.coin then onMutator (guardedStore target 0 value)
    else onMutator (guardedStore target 1 value)
  | some .cell => onMutator (guardedStore target 0 value)
  | some .symbol => onMutator (guardedStore target 0 value)
  | some .vector =>
    let length ← onMutator (guardedVectorLength target)
    if 0 < length then
      let index ← below source length
      onMutator (guardedVectorSet target index value)
  | _ => return ()

def guardedStep (source : Random.Source σ) (settings : Settings) (base number : Nat) :
    RunM σ Unit := do
  record (·.addSteps 1)
  if number % observeEvery = 0 then observe
  let choice ← draw (source.below32 10)
  if choice ≤ 5 then
    guardedAllocate source settings base
    record (·.addAllocations 1)
  else if choice ≤ 8 then
    guardedLink source settings base
    record (·.addMutations 1)
  else
    let slot ← pickSlot source settings base
    let nil := (← get).mutator.nil
    onMutator (guardedSetRoot slot nil)

/-! ## How parts of a run go -/

/-- The integers of the big vectors do not fit in memory. -/
def TooLong (settings : Settings) (f : Fault) : Prop :=
  f = .overflow ∧ Word.maxSize < 8 * settings.bigLength

/-- `y` goes as `x` does. That returns with `ok` or is refused for a size,
unless the big vectors are too long. -/
structure Goes (settings : Settings) (y x : RunM σ α) (s : State σ) (ok : α → State σ → Prop) :
    Prop where
  same : y s = x s
  ends : Ends (x s) ok (fun e s' => e.OfSize ∧ s'.mutator.Reached) (TooLong settings)

namespace Goes

variable {y x : RunM σ α} {g f : α → RunM σ β} {ok ok' : α → State σ → Prop}
  {done : β → State σ → Prop}

theorem imp (h : Goes settings y x s ok) (hok : ∀ a s', ok a s' → ok' a s') :
    Goes settings y x s ok' := ⟨h.same, h.ends.imp hok⟩

theorem bind (h : Goes settings y x s ok)
    (hf : ∀ a s', ok a s' → Goes settings (g a) (f a) s' done) :
    Goes settings (y >>= g) (x >>= f) s done :=
  ⟨h.ends.bind_congr h.same fun a s' ha => (hf a s' ha).same,
    h.ends.bind fun a s' ha => (hf a s' ha).ends⟩

theorem get_bind {g f : State σ → RunM σ α} (h : Goes settings (g s) (f s) s ok) :
    Goes settings (MonadState.get >>= g) (MonadState.get >>= f) s ok := ⟨h.same, h.ends⟩

/-- A part without references is the same in both. -/
theorem of_eq {a : α} (e : x s = .ok a s') (h : ok a s') : Goes settings x x s ok :=
  ⟨rfl, Ends.of_eq e h⟩

theorem pure {a : α} (h : ok a s) : Goes settings (pure a) (pure a) s ok := of_eq rfl h

end Goes

/-- The source may have moved on, the rest is as before. -/
structure Same (s s' : State σ) : Prop where
  mutator : s'.mutator = s.mutator
  statistics : s'.statistics = s.statistics

theorem Same.trans {s'' : State σ} (h : Same s s') (h' : Same s' s'') : Same s s'' :=
  ⟨h'.mutator.trans h.mutator, h'.statistics.trans h.statistics⟩

theorem goes_draw (choice : σ → α × σ) :
    Goes settings (draw choice) (draw choice) s
      fun a s' => a = (choice s.source).1 ∧ Same s s' := .of_eq rfl ⟨rfl, rfl, rfl⟩

theorem onMutator_eq (act : MutatorM α) (s : State σ) :
    onMutator act s = match act s.mutator with
      | .ok a m => .ok a { s with mutator := m }
      | .error e m => .error e { s with mutator := m } := by
  cases s
  rfl

/-- A question of the mutator, asked either way. -/
theorem goes_ask {y : MutatorM α} {question : Mutator → Except Fault α} {a : α}
    (hy : y s.mutator = ask question s.mutator) (hq : question s.mutator = .ok a) :
    Goes settings (onMutator y) (onMutator (ask question)) s fun b s' => b = a ∧ Same s s' := by
  have hask : ask question s.mutator = .ok a s.mutator := by simp only [ask, hq]
  have hx : onMutator (ask question) s = .ok a s := by rw [onMutator_eq, hask]
  exact ⟨by rw [onMutator_eq, onMutator_eq, hy], Ends.of_eq hx ⟨rfl, rfl, rfl⟩⟩

/-- A command of the mutator, done either way. -/
theorem goes_command {y x : MutatorM α} {ok : α → Mutator → Prop} (c : Command)
    (hr : s.mutator.Reached) (hargs : ∀ p ∈ c.args, s.mutator.heap.Proper p)
    (hc : ∀ m', Leaves x s.mutator m' → Leaves c.run s.mutator m')
    (hy : y s.mutator = x s.mutator)
    (hx : Ends (x s.mutator) ok (fun e _ => e.OfSize) fun _ => False) :
    Goes settings (onMutator y) (onMutator x) s fun a s' =>
      s'.mutator.Reached ∧ ok a s'.mutator ∧ s'.statistics = s.statistics := by
  refine ⟨by rw [onMutator_eq, onMutator_eq, hy], ?_⟩
  rw [onMutator_eq]
  cases he : x s.mutator with
  | ok a m' => exact ⟨hr.step c hargs (hc m' (Or.inl ⟨a, he⟩)), hx.of_ok he, rfl⟩
  | error e m' =>
    cases e with
    | refused e => exact ⟨hx.of_refused he, hr.step c hargs (hc m' (Or.inr ⟨e, he⟩))⟩
    | fault f => exact (hx.of_fault he).elim

/-! ## Choices -/

theorem goes_below (hsource : source.InRange) {n : Nat} (hn : 0 < n) :
    Goes settings (below source n) (below source n) s fun i s' => i < n ∧ Same s s' := by
  have hdraw : below source n s = draw (source.below64 n) s := by
    rw [below, if_neg (Nat.ne_of_gt hn)]
  exact .of_eq hdraw ⟨(hsource n s.source hn).2, rfl, rfl⟩

theorem goes_pickSlot (hsource : source.InRange) (hlive : 0 < settings.live) (base : Nat) :
    Goes settings (pickSlot source settings base) (pickSlot source settings base) s
      fun slot s' => (∃ i, i < settings.live ∧ slot = base + i) ∧ Same s s' :=
  (goes_below hsource hlive).bind fun i _ hi => .pure ⟨⟨i, hi.1, rfl⟩, hi.2⟩

/-- **An object is picked.** -/
theorem goes_pick (hsource : source.InRange) (hlive : 0 < settings.live)
    (hs : Standing entry settings.live s.mutator) :
    Goes settings (guardedPick source settings entry.length) (pick source settings entry.length) s
      fun p s' => s.mutator.heap.isAllocated p = true ∧ Same s s' := by
  refine (goes_pickSlot hsource hlive _).bind fun slot s₁ hd => ?_
  obtain ⟨⟨i, hi, rfl⟩, hsame⟩ := hd
  obtain ⟨obj, hroot, ha⟩ := hs.root hi
  rw [← hsame.mutator] at hroot ha
  refine (goes_ask (guardedRoot_eq hroot ha) hroot).imp fun p s₂ hd => ?_
  obtain ⟨rfl, hsame₂⟩ := hd
  exact ⟨hsame.mutator ▸ ha, hsame.trans hsame₂⟩

/-- A vector is long if it is meant to be. -/
theorem goes_intVecLength (hsource : source.InRange) (hbig : 0 < settings.bigEvery) :
    Goes settings (intVecLength source settings) (intVecLength source settings) s
      fun length s' => (length = settings.bigLength ∨ length < 20) ∧ Same s s' := by
  unfold intVecLength
  rw [if_neg (Nat.ne_of_gt hbig)]
  refine (goes_draw _).bind fun big s₁ hd => ?_
  cases big with
  | true => exact .pure ⟨Or.inl rfl, hd.2⟩
  | false =>
    exact (goes_below hsource (n := 20) (by decide)).imp fun _ _ hl =>
      ⟨Or.inr hl.1, hd.2.trans hl.2⟩

/-! ## Allocations -/

/-- The slots stand, and the account is as before. -/
structure Settles (entry : List ObjRef) (live : Nat) (s s' : State σ) : Prop where
  standing : Standing entry live s'.mutator
  statistics : s'.statistics = s.statistics

variable {s₀ : State σ}

theorem Standing.settles (hs : Standing entry live s.mutator) (h : Same s s') :
    Settles entry live s s' := ⟨h.mutator ▸ hs, h.statistics⟩

theorem Settles.same (hs : Settles entry live s₀ s) (h : Same s s') :
    Settles entry live s₀ s' := ⟨h.mutator ▸ hs.standing, h.statistics.trans hs.statistics⟩

/-- **A constructor** leaves the slots, and returns an object. -/
theorem goes_made {y x : MutatorM ObjRef} (c : Command)
    (hs : Settles entry live s₀ s) (hargs : ∀ p ∈ c.args, s.mutator.heap.isAllocated p = true)
    (hc : ∀ m', Leaves x s.mutator m' → Leaves c.run s.mutator m')
    (hy : y s.mutator = x s.mutator)
    (hx : Ends (x s.mutator) (fun obj m' => s.mutator.Carries m' ∧ m'.heap.isAllocated obj = true)
      (fun e _ => e.OfSize) fun _ => False) :
    Goes settings (onMutator y) (onMutator x) s fun obj s' =>
      s'.mutator.heap.isAllocated obj = true ∧ Settles entry live s₀ s' :=
  (goes_command c hs.standing.reached (fun p hp => Or.inr (hargs p hp)) hc hy hx).imp
    fun _ _ hd => ⟨hd.2.1.2, hs.standing.carried hd.1 hd.2.1.1, hd.2.2.trans hs.statistics⟩

/-- A pair of what is in two slots. -/
theorem goes_createPair (hsource : source.InRange) (hlive : 0 < settings.live)
    (hs : Settles entry settings.live s₀ s) :
    Goes settings
      (do
        let car ← guardedPick source settings entry.length
        let cdr ← guardedPick source settings entry.length
        onMutator (guardedPair car cdr))
      (do
        let car ← pick source settings entry.length
        let cdr ← pick source settings entry.length
        onMutator (Mutator.pair car cdr))
      s fun obj s' =>
        s'.mutator.heap.isAllocated obj = true ∧ Settles entry settings.live s₀ s' := by
  refine (goes_pick hsource hlive hs.standing).bind fun car s₁ hcar => ?_
  have hs₁ := hs.same hcar.2
  refine (goes_pick hsource hlive hs₁.standing).bind fun cdr s₂ hcdr => ?_
  have hs₂ := hs₁.same hcdr.2
  have hr := hs₂.standing.reached.ready
  have hk : ∀ p ∈ [car, cdr], s₂.mutator.heap.isAllocated p = true := by
    rw [hcdr.2.mutator]
    simpa using ⟨hcar.2.mutator ▸ hcar.1, hcdr.1⟩
  exact goes_made (.pair car cdr) hs₂ hk (fun _ => leaves_map.mpr) (guardedPair_eq hr hk)
    (made_carries hr.serves.formed (pair_shows hr fun p hp => Or.inr (hk p hp)))

/-- A cell with what is in a slot. -/
theorem goes_createCell (hsource : source.InRange) (hlive : 0 < settings.live)
    (hs : Settles entry settings.live s₀ s) :
    Goes settings
      (do
        let value ← guardedPick source settings entry.length
        let n ← draw source.any64
        onMutator (guardedCell value n.toInt64))
      (do
        let value ← pick source settings entry.length
        let n ← draw source.any64
        onMutator (Mutator.cell value n.toInt64))
      s fun obj s' =>
        s'.mutator.heap.isAllocated obj = true ∧ Settles entry settings.live s₀ s' := by
  refine (goes_pick hsource hlive hs.standing).bind fun value s₁ hvalue => ?_
  refine (goes_draw _).bind fun n s₂ hn => ?_
  have hs₂ := (hs.same hvalue.2).same hn.2
  have hr := hs₂.standing.reached.ready
  have hk : ∀ p ∈ [value], s₂.mutator.heap.isAllocated p = true := by
    rw [hn.2.mutator, hvalue.2.mutator]
    simpa using hvalue.1
  exact goes_made (.cell value _) hs₂ hk (fun _ => leaves_map.mpr) (guardedCell_eq hr hk _)
    (made_carries hr.serves.formed (cell_shows hr (fun p hp => Or.inr (hk p hp)) _))

/-- A vector of integers that fit in memory. -/
theorem goes_createIntVec (hsource : source.InRange) (hbig : 0 < settings.bigEvery)
    (hs : Settles entry settings.live s₀ s) :
    Goes settings
      (do
        let length ← intVecLength source settings
        if Word.maxSize < 8 * length then throw (.fault .overflow)
        onMutator (guardedIntVec ((List.range length).map Int64.ofNat)))
      (do
        let length ← intVecLength source settings
        if Word.maxSize < 8 * length then throw (.fault .overflow)
        onMutator (Mutator.intVec ((List.range length).map Int64.ofNat)))
      s fun obj s' =>
        s'.mutator.heap.isAllocated obj = true ∧ Settles entry settings.live s₀ s' := by
  refine (goes_intVecLength hsource hbig).bind fun length s₁ hlength => ?_
  have hs₁ := hs.same hlength.2
  have hr := hs₁.standing.reached.ready
  by_cases hlong : Word.maxSize < 8 * length
  · rw [if_pos hlong, if_pos hlong]
    -- no other vector is that long
    have hbigLength : length = settings.bigLength := by
      refine hlength.1.resolve_right fun hlt => ?_
      simp only [Word.maxSize] at hlong
      omega
    exact ⟨rfl, rfl, hbigLength ▸ hlong⟩
  · rw [if_neg hlong, if_neg hlong]
    exact goes_made (.intVec _) hs₁ (List.forall_mem_nil _) (fun _ => leaves_map.mpr)
      (guardedIntVec_eq hr _) (made_carries hr.serves.formed (intVec_shows hr _))

/-- **An object is made**, of the type that is drawn. -/
theorem goes_create (hsource : source.InRange) (hlive : 0 < settings.live)
    (hbig : 0 < settings.bigEvery) (hs : Standing entry settings.live s.mutator) :
    Goes settings (guardedCreate source settings entry.length)
      (create source settings entry.length) s fun obj s' =>
        s'.mutator.heap.isAllocated obj = true ∧ Settles entry settings.live s s' := by
  refine (goes_draw _).bind fun choice s₁ hd => ?_
  have hs₁ := hs.settles hd.2
  rcases choice with _ | _ | _ | _ | _ | choice
  · exact goes_createIntVec hsource hbig hs₁
  · exact goes_createPair hsource hlive hs₁
  · exact goes_createPair hsource hlive hs₁
  · exact goes_createCell hsource hlive hs₁
  · refine (goes_below hsource (n := 12) (by decide)).bind fun length s₂ hlength => ?_
    have hs₂ := hs₁.same hlength.2
    have hr := hs₂.standing.reached.ready
    exact goes_made (.vector length) hs₂ (List.forall_mem_nil _) (fun _ => leaves_map.mpr)
      (guardedVector_eq hr _) (made_carries hr.serves.formed (vector_shows hr _))
  · refine (goes_below hsource (n := 64) (by decide)).bind fun id s₂ hid => ?_
    have hs₂ := hs₁.same hid.2
    have hr := hs₂.standing.reached.ready
    exact goes_made (.symbol _) hs₂ (List.forall_mem_nil _) (fun _ => leaves_map.mpr)
      (guardedSymbol_eq hr _) (symbol_carries hr _)

/-- An object is put in a slot, either way. -/
theorem goes_setRoot {i : Nat} (hs : Settles entry live s₀ s) (hi : i < live)
    (ha : s.mutator.heap.isAllocated obj = true) :
    Goes settings (onMutator (guardedSetRoot (entry.length + i) obj))
      (onMutator (Mutator.setRoot (entry.length + i) obj)) s fun _ => Settles entry live s₀ := by
  have hargs : ∀ p ∈ (Command.setRoot (entry.length + i) obj).args, s.mutator.heap.Proper p :=
    fun p hp => List.mem_singleton.mp hp ▸ Or.inr ha
  exact (goes_command (.setRoot (entry.length + i) obj) hs.standing.reached hargs (fun _ => id)
    (guardedSetRoot_eq ha _) (hs.standing.setRoot hi ha).widen).imp
      fun _ _ hd => ⟨hd.2.1, hd.2.2.trans hs.statistics⟩

/-- **An object is made and rooted.** -/
theorem goes_allocate (hsource : source.InRange) (hlive : 0 < settings.live)
    (hbig : 0 < settings.bigEvery) (hs : Standing entry settings.live s.mutator) :
    Goes settings (guardedAllocate source settings entry.length)
      (allocate source settings entry.length) s fun _ => Settles entry settings.live s := by
  refine (goes_pickSlot hsource hlive _).bind fun slot s₁ hd => ?_
  obtain ⟨⟨i, hi, rfl⟩, hsame⟩ := hd
  refine (goes_create hsource hlive hbig (hsame.mutator ▸ hs)).bind fun obj s₂ hd => ?_
  exact goes_setRoot ⟨hd.2.standing, hd.2.statistics.trans hsame.statistics⟩ hi hd.1

/-! ## Links -/

/-- Two objects are there, and what is seen of the first. -/
structure Linkable (m : Mutator) (target value : ObjRef) (type : ModelType) (n : Nat) : Prop where
  args : ∀ p ∈ [target, value], m.heap.isAllocated p = true
  shape : ∃ v, m.heap.view? target = some v ∧ v.Blank type n

variable {target value : ObjRef} {type : ModelType} {n : Nat}

/-- A store leaves the slots. -/
theorem goes_stored {y x : MutatorM Unit} (c : Command) (hs : Settles entry live s₀ s)
    (hl : Linkable s.mutator target value type n) (hargs : c.args = [target, value])
    (hc : c.run = x) (hy : y s.mutator = x s.mutator)
    (hx : Ends (x s.mutator) (fun _ => s.mutator.Carries) (fun _ _ => False) fun _ => False) :
    Goes settings (onMutator y) (onMutator x) s fun _ => Settles entry live s₀ :=
  (goes_command c hs.standing.reached (fun p hp => Or.inr (hl.args p (hargs ▸ hp)))
    (fun _ hl => hc ▸ hl) hy hx.widen).imp
      fun _ _ hd => ⟨hs.standing.carried hd.1 hd.2.1, hd.2.2.trans hs.statistics⟩

theorem goes_store {i : Nat} (c : Command) (hs : Settles entry live s₀ s)
    (hl : Linkable s.mutator target value type n) (hi : i < type.fieldCount (type.lengthOf n))
    (hargs : c.args = [target, value]) (hc : c.run = onHeap (Heap.writeRef target i value)) :
    Goes settings (onMutator (guardedStore target i value))
      (onMutator (onHeap (Heap.writeRef target i value))) s fun _ => Settles entry live s₀ := by
  obtain ⟨v, hv, hb⟩ := hl.shape
  exact goes_stored c hs hl hargs hc
    (guardedStore_eq (hl.args target (by simp)) (hl.args value (by simp)) i)
    (store_carries hs.standing.reached.ready.serves.wellFormed hv hb (hb.length ▸ hi)
      (hl.args value (by simp)))

/-- An element of a vector is drawn, if it has one. -/
theorem goes_vectorSet (hsource : source.InRange) (hs : Settles entry live s₀ s)
    (hl : Linkable s.mutator target value .vector n) :
    Goes settings
      (do
        let length ← onMutator (guardedVectorLength target)
        if 0 < length then
          let index ← below source length
          onMutator (guardedVectorSet target index value))
      (do
        let length ← onMutator (ask (·.vectorLength target))
        if 0 < length then
          let index ← below source length
          onMutator (Mutator.vectorSet target index value))
      s fun _ => Settles entry live s₀ := by
  have hw := hs.standing.reached.ready.serves.wellFormed
  obtain ⟨v, hv, hb⟩ := hl.shape
  have hlength : s.mutator.vectorLength target = .ok n := by
    rw [vectorLength, Heap.lengthOf_of_view? hw.toFormed hv, hb.length]
    rfl
  refine (goes_ask (guardedVectorLength_eq (hl.args target (by simp))) hlength).bind
    fun length s₁ hd => ?_
  obtain ⟨rfl, hsame₁⟩ := hd
  by_cases hpos : 0 < length
  · rw [if_pos hpos, if_pos hpos]
    -- drawing an index leaves the mutator as it was
    refine (goes_below hsource hpos).bind fun index s₂ hd => ?_
    obtain ⟨hindex, hsame₂⟩ := hd
    have hsame := hsame₁.trans hsame₂
    have hl₂ : Linkable s₂.mutator target value .vector length := hsame.mutator ▸ hl
    obtain ⟨v, hv, hb⟩ := hl₂.shape
    have hs₂ := hs.same hsame
    exact goes_stored (.vectorSet target index value) hs₂ hl₂ rfl rfl
      (guardedVectorSet_eq (hl₂.args target (by simp)) (hl₂.args value (by simp)) index)
      (vectorSet_carries hs₂.standing.reached.ready.serves.wellFormed hv hb hindex
        (hl₂.args value (by simp)))
  · rw [if_neg hpos, if_neg hpos]
    exact .pure (hs.same hsame₁)

/-- **One object is stored in another**, whatever type that is of. -/
theorem goes_link (hsource : source.InRange) (hlive : 0 < settings.live)
    (hs : Standing entry settings.live s.mutator) :
    Goes settings (guardedLink source settings entry.length) (link source settings entry.length) s
      fun _ => Settles entry settings.live s := by
  refine (goes_pick hsource hlive hs).bind fun target s₁ htarget => ?_
  refine (goes_pick hsource hlive (hs.settles htarget.2).standing).bind fun value s₂ hvalue => ?_
  have hsame₂ := htarget.2.trans hvalue.2
  have hw := hs.reached.ready.serves.wellFormed
  obtain ⟨v, hv⟩ := (Heap.isAllocated_iff_view? hw.toFormed).mp htarget.1
  obtain ⟨type, n, hb⟩ := hs.reached.grounded.shaped target v hv
  have hl : Linkable s.mutator target value type n := by
    refine ⟨?_, v, hv, hb⟩
    simpa using ⟨htarget.1, htarget.2.mutator ▸ hvalue.1⟩
  have htype : s.mutator.heap.typeOf target = .ok type.tag := by
    rw [Heap.typeOf_of_view? hw.toFormed hv, hb.tag]
  rw [← hsame₂.mutator] at htype hl
  refine (goes_ask (guardedTypeOf_eq (hl.args target (by simp))) htype).bind fun tag s₃ hd => ?_
  obtain ⟨rfl, hsame₃⟩ := hd
  have hs₃ := hs.settles (hsame₂.trans hsame₃)
  have hl₃ : Linkable s₃.mutator target value type n := hsame₃.mutator ▸ hl
  rw [ModelType.ofTag?_tag]
  cases type with
  | nil | intVec => exact .pure hs₃
  | pair =>
    refine (goes_draw _).bind fun first s₄ hd => ?_
    have hs₄ := hs₃.same hd.2
    have hl₄ : Linkable s₄.mutator target value .pair n := hd.2.mutator ▸ hl₃
    cases first with
    | true => exact goes_store (.setCar target value) hs₄ hl₄ Nat.two_pos rfl rfl
    | false => exact goes_store (.setCdr target value) hs₄ hl₄ Nat.one_lt_two rfl rfl
  | cell => exact goes_store (.setCellValue target value) hs₃ hl₃ Nat.one_pos rfl rfl
  | symbol => exact goes_store (.setSymbolValue target value) hs₃ hl₃ Nat.one_pos rfl rfl
  | vector => exact goes_vectorSet hsource hs₃ hl₃

/-! ## Steps -/

/-- So many steps are done, each of them at most one allocation or
mutation. -/
structure Progress (entry : List ObjRef) (live k : Nat) (s : State σ) : Prop where
  standing : Standing entry live s.mutator
  steps : s.statistics.steps = k
  account : s.statistics.allocations + s.statistics.mutations ≤ k

theorem goes_record (f : Statistics → Statistics) :
    Goes settings (record f) (record f) s
      fun _ s' => s' = { s with statistics := f s.statistics } :=
  .of_eq rfl rfl

/-- What a step does is decided by one choice of ten. -/
theorem goes_choice {k : Nat} (hsource : source.InRange) (hlive : 0 < settings.live)
    (hbig : 0 < settings.bigEvery) (hs : Standing entry settings.live s.mutator)
    (hsteps : s.statistics.steps = k)
    (haccount : s.statistics.allocations + s.statistics.mutations + 1 ≤ k) :
    Goes settings
      (do
        let choice ← draw (source.below32 10)
        if choice ≤ 5 then
          guardedAllocate source settings entry.length
          record (·.addAllocations 1)
        else if choice ≤ 8 then
          guardedLink source settings entry.length
          record (·.addMutations 1)
        else
          let slot ← pickSlot source settings entry.length
          let nil := (← get).mutator.nil
          onMutator (guardedSetRoot slot nil))
      (do
        let choice ← draw (source.below32 10)
        if choice ≤ 5 then
          allocate source settings entry.length
          record (·.addAllocations 1)
        else if choice ≤ 8 then
          link source settings entry.length
          record (·.addMutations 1)
        else
          let slot ← pickSlot source settings entry.length
          let nil := (← get).mutator.nil
          onMutator (Mutator.setRoot slot nil))
      s fun _ => Progress entry settings.live k := by
  refine (goes_draw _).bind fun choice s₁ hd => ?_
  have hs₁ : Standing entry settings.live s₁.mutator := hd.2.mutator ▸ hs
  have hstats := hd.2.statistics
  -- one of the two counters grows, or neither, and the number of steps stays
  split
  · refine (goes_allocate hsource hlive hbig hs₁).bind fun _ s₂ h₂ => ?_
    refine (goes_record _).imp fun _ s₃ e => ?_
    subst e
    refine ⟨h₂.standing, ?_, ?_⟩ <;>
      simp only [Statistics.addAllocations, h₂.statistics, hstats] <;> omega
  · split
    · refine (goes_link hsource hlive hs₁).bind fun _ s₂ h₂ => ?_
      refine (goes_record _).imp fun _ s₃ e => ?_
      subst e
      refine ⟨h₂.standing, ?_, ?_⟩ <;>
        simp only [Statistics.addMutations, h₂.statistics, hstats] <;> omega
    · refine (goes_pickSlot hsource hlive _).bind fun slot s₂ hslot => ?_
      obtain ⟨⟨i, hi, rfl⟩, hsame⟩ := hslot
      refine .get_bind ?_
      have hs₂ : Settles entry settings.live s₁ s₂ := ⟨hsame.mutator ▸ hs₁, hsame.statistics⟩
      refine (goes_setRoot hs₂ hi hs₂.standing.reached.consistent.isAllocated_nil).imp
        fun _ s₃ h₃ => ⟨h₃.standing, ?_, ?_⟩ <;>
      rw [h₃.statistics, hstats] <;> omega

theorem goes_observe : Goes settings observe observe s fun _ s' =>
    s'.mutator = s.mutator ∧ s'.statistics.steps = s.statistics.steps ∧
      s'.statistics.allocations = s.statistics.allocations ∧
      s'.statistics.mutations = s.statistics.mutations := .of_eq rfl ⟨rfl, rfl, rfl, rfl⟩

/-- **One step.** -/
theorem goes_step {k : Nat} (hsource : source.InRange) (hlive : 0 < settings.live)
    (hbig : 0 < settings.bigEvery) (hs : Progress entry settings.live k s) (number : Nat) :
    Goes settings (guardedStep source settings entry.length number)
      (step source settings entry.length number) s
      fun _ => Progress entry settings.live (k + 1) := by
  refine (goes_record _).bind fun _ s₁ e => ?_
  subst e
  have hsteps : (s.statistics.addSteps 1).steps = k + 1 := congrArg (· + 1) hs.steps
  have haccount : (s.statistics.addSteps 1).allocations + (s.statistics.addSteps 1).mutations + 1 ≤
      k + 1 := Nat.succ_le_succ hs.account
  by_cases ho : number % observeEvery = 0
  · rw [if_pos ho, if_pos ho]
    refine goes_observe.bind fun _ s₂ hd => ?_
    obtain ⟨hm, h₁, h₂, h₃⟩ := hd
    exact goes_choice hsource hlive hbig (hm ▸ hs.standing) (h₁.trans hsteps)
      (by rw [h₂, h₃]; exact haccount)
  · rw [if_neg ho, if_neg ho]
    exact goes_choice hsource hlive hbig hs.standing hsteps haccount

end Workload

end SegmentedHeap
