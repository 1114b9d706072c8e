/-
SegmentedHeap.Proofs.MutatorHeap — what a mutator does to its heap.

Whatever a program asks of a mutator, the heap goes through steps that a
program could have asked of the heap itself. So what each such step keeps
holds of the heaps of all mutators: they are heaps of a run and set up
for the model, and every object in them is of a type of the model and has
the bytes that its type and length need.

* `Heap.Steps` — some steps of a heap.
* `Heap.Shaped`, `Steps.shaped` — objects have room for their fields.
* `moving_run` — **the steps of a command**.
* `Reached.grounded` — **the heaps of a program's mutators**.
-/
import SegmentedHeap.Proofs.Addresses
import SegmentedHeap.Proofs.Nodes

namespace SegmentedHeap

open Model

/-- What an object is made for is seen of it for good. -/
theorem Object.SameMake.blank {x y : Object} {spec : Kind} {type : ModelType} {n : Nat}
    (hs : x.SameMake y) (hb : (x.view spec).Blank type n) : (y.view spec).Blank type n where
  tag := hb.tag
  length := by
    rw [← hb.length]
    show y.length spec = x.length spec
    rw [Object.length, Object.length, hs.stored]
  bounded := hb.bounded
  room := Nat.le_trans hb.room (Nat.le_of_eq hs.size.symm)

/-- An object has the fields of its type. -/
theorem ObjectView.Blank.fieldRoom {v : ObjectView} {type : ModelType} {n i : Nat}
    (hb : v.Blank type n) (hi : i < type.fieldCount v.length) :
    i * refBytes + refBytes ≤ v.capacity := by
  have hroom := hb.room
  have hbound := hb.bounded
  rw [hb.length] at hi
  cases type with
  | nil | intVec => exact absurd hi (Nat.not_lt_zero _)
  | symbol | pair | cell =>
    simp only [ModelType.fieldCount, bytesFor, numberOffset] at hi hroom
    simp only [refBytes]
    omega
  | vector =>
    have hlong := hbound rfl
    simp only [ModelType.fieldCount, ModelType.lengthOf, ModelType.lengthRule, Option.getD_some,
      bytesFor, Word.limit, Word.max32] at hi hroom hlong
    simp only [refBytes]
    omega

namespace Heap

variable {h h' : Heap} {p : ObjRef} {made : Option ObjRef} {tag : TypeTag} {length : Nat}

/-! ## Some steps of a heap -/

/-- The operations of a program, one after another. -/
def Steps : Heap → Heap → Prop := Relation.ReflTransGen fun h h' => ∃ made, Step h made h'

theorem Step.steps (hs : Step h made h') : h.Steps h' := .single ⟨made, hs⟩

theorem Step.steady (hs : Step h made h') (hw : h.WellFormed) : Steady h h' := by
  cases hs with
  | alloc tag length he => exact steady_alloc hw (Or.inl ⟨_, he⟩)
  | refused tag length he => exact steady_alloc hw (Or.inr ⟨_, he⟩)
  | allocRetrying tracer tag length log he => exact steady_allocRetrying hw (Or.inl ⟨_, he⟩)
  | free obj hl => exact steady_free hw hl
  | setBytes obj start bytes hl => exact steady_setBytes hw hl
  | register source target hl => exact steady_register hw hl
  | writeRef source field target hl => exact steady_writeRef hw hl
  | collect tracer level log hl => exact steady_collect hw hl

namespace Steps

theorem reachable (hm : h.Steps h') (hr : h.Reachable) : h'.Reachable := by
  induction hm with
  | refl => exact hr
  | tail _ hs ih => exact hs.elim fun _ hs => hs.reachable ih

theorem setting (hm : h.Steps h') (hr : h.Reachable) : SameSetting h h' := by
  induction hm with
  | refl => exact .refl h
  | tail hm hs ih =>
    exact ih.trans (hs.elim fun _ hs => hs.steady (reachable hm hr).wellFormed).setting

end Steps

/-! ## Objects with room for their fields -/

/-- Every object is of a type of the model, has a length that an object of
the type can have, and the bytes that these need. -/
def Shaped (h : Heap) : Prop := ∀ p v, h.view? p = some v → ∃ type n, v.Blank type n

/-- What is allocated is of a type of the model. -/
theorem Allocated.typed (hs : h.Suited) (ha : Allocated h tag length p h') :
    ∃ type : ModelType, tag = type.tag := by
  obtain ⟨r, _, hr, _⟩ := ha.object
  obtain ⟨hassigns, _⟩ := checks_of_request hr
  obtain ⟨list, hlist, htable⟩ := hs.kinds
  rw [hs.layout] at hlist
  obtain ⟨type, ht, _⟩ := type_of_mem hlist
    (List.mem_of_getElem? ((get?_ofList htable _).symm.trans hassigns.entry))
  exact ⟨type, hassigns.tag.symm.trans ht⟩

/-- What a step hands out was allocated in a heap that is set up alike. -/
theorem Step.allocated (hs : Step h (some p) h') (hw : h.WellFormed) :
    ∃ h₁ h₂ tag length metrics, SameSetting h h₁ ∧ Allocated h₁ tag length p h₂ ∧
      h' = h₂.withMetrics metrics := by
  generalize hmade : some p = made at hs
  cases hs with
  | alloc tag length he =>
    cases hmade
    exact ⟨h, h', tag, length, h'.metrics, .refl h, (alloc_ends hw tag length).of_ok he, rfl⟩
  | @allocRetrying _ _ _ r _ tracer tag length log he =>
    cases r with
    | error e => cases hmade
    | ok obj =>
      cases hmade
      rcases (allocRetrying_ends hw tracer tag length log).of_ok he with ht | ht
      · exact ⟨h, h', tag, length, h'.metrics, .refl h, ht, rfl⟩
      · obtain ⟨_, _, h₁, h₂, metrics, hc, ht, rfl⟩ := ht
        have hset := hc.setting
        exact ⟨h₁, h₂, tag, length, metrics,
          ⟨hset.config, hset.layout, hset.kinds, hset.geometry⟩, ht, rfl⟩
  | refused | free | setBytes | register | writeRef | collect => cases hmade

/-- **A step keeps every object in shape.** -/
theorem Step.shaped (hs : Step h made h') (hw : h.WellFormed) (hsuited : h.Suited)
    (hshaped : h.Shaped) : h'.Shaped := by
  intro p v hv
  have hsteady := hs.steady hw
  by_cases hmade : made = some p
  · subst hmade
    obtain ⟨h₁, h₂, tag, length, metrics, hset, ha, rfl⟩ := hs.allocated hw
    obtain ⟨type, rfl⟩ := ha.typed (hsuited.congr hset)
    obtain ⟨w, hw, hb⟩ := ha.blank (hsuited.congr hset)
    have hv : h₂.view? p = some v := hv
    cases hw.symm.trans hv
    exact ⟨type, length, hb⟩
  · obtain ⟨y, spec, hy, hspec, rfl⟩ := (view?_eq_some hsteady.wellFormed.toFormed).mp hv
    obtain ⟨x, hx, hsame⟩ := hs.sameMake hw hy hmade
    rw [hsteady.setting.kinds, hsame.kind] at hspec
    obtain ⟨type, n, hb⟩ := hshaped p _ (view?_of_lookup hw.toFormed hx hspec)
    exact ⟨type, n, hsame.blank hb⟩

theorem Steps.shaped (hm : h.Steps h') (hr : h.Reachable) (hs : h.Suited) (hshaped : h.Shaped) :
    h'.Shaped := by
  induction hm with
  | refl => exact hshaped
  | tail hm hstep ih =>
    obtain ⟨_, hstep⟩ := hstep
    exact hstep.shaped (Steps.reachable hm hr).wellFormed (hs.congr (Steps.setting hm hr)) ih

end Heap

namespace Mutator

variable {α β : Type} {m m' : Mutator}

/-! ## What each operation does to the heap -/

/-- However the operation ends, the heap has gone through some steps. -/
def Moving (act : MutatorM α) : Prop :=
  ∀ m, Ends (act m) (fun _ m' => m.heap.Steps m'.heap) (fun _ m' => m.heap.Steps m'.heap)
    fun _ => True

section

variable {act : MutatorM α} {f : α → MutatorM β}

theorem moving_pure (a : α) : Moving (pure a) := fun _ => Relation.ReflTransGen.refl

theorem moving_throw (e : Failure HeapError) : Moving (throw e : MutatorM α) := by
  intro m
  cases e with
  | refused e => exact Relation.ReflTransGen.refl
  | fault f => trivial

theorem moving_modify {g : Mutator → Mutator} (hg : ∀ m, (g m).heap = m.heap) :
    Moving (modify g) := by
  intro m
  show m.heap.Steps (g m).heap
  rw [hg]
  exact Relation.ReflTransGen.refl

theorem Moving.bind (ha : Moving act) (hf : ∀ a, Moving (f a)) : Moving (act >>= f) := fun m =>
  Ends.bind (ha m) fun a m' hm => (hf a m').mono (fun _ _ hm' => Relation.ReflTransGen.trans hm hm')
    (fun _ _ hm' => Relation.ReflTransGen.trans hm hm') fun _ h => h

theorem Moving.get_bind {f : Mutator → MutatorM α} (hf : ∀ m, Moving (f m)) :
    Moving (MonadState.get >>= f) := fun m => hf m m

/-- An operation of the heap is a step. -/
theorem moving_onHeap {act : HeapM α}
    (hact : ∀ h h', Leaves act h h' → ∃ made, Heap.Step h made h') : Moving (onHeap act) := by
  intro m
  rw [onHeap_eq]
  cases hr : act m.heap with
  | ok a h' => exact (hact _ h' (Or.inl ⟨a, hr⟩)).elim fun _ hs => hs.steps
  | error e h' =>
    cases e with
    | refused e => exact (hact _ h' (Or.inr ⟨e, hr⟩)).elim fun _ hs => hs.steps
    | fault f => trivial

theorem Moving.restoringRoots (ha : Moving act) : Moving (restoringRoots act) := fun m =>
  restoringRoots_of (ha m)

theorem moving_forM {γ : Type} {f : γ → MutatorM Unit} (hf : ∀ c, Moving (f c)) (l : List γ) :
    Moving (l.forM f) := by
  induction l with
  | nil => exact moving_pure _
  | cons c l ih => exact (hf c).bind fun _ => ih

end

theorem moving_writeRef (source : ObjRef) (field : Nat) (target : ObjRef) :
    Moving (onHeap (Heap.writeRef source field target)) :=
  moving_onHeap fun _ _ hl => ⟨_, .writeRef source field target hl⟩

theorem moving_setBytes (obj : ObjRef) (start : Nat) (bytes : List UInt8) :
    Moving (onHeap (Heap.setBytes obj start bytes)) :=
  moving_onHeap fun _ _ hl => ⟨_, .setBytes obj start bytes hl⟩

theorem moving_collect (level : Generation) : Moving (collect level) :=
  .get_bind fun m => (moving_onHeap fun _ _ hl => ⟨_, .collect m.tracer level () hl⟩).bind fun _ =>
    moving_pure _

/-! ## Allocations -/

theorem onHeap_of_ok {act : HeapM α} {a : α} {h : Heap} (hr : act m.heap = .ok a h) :
    onHeap act m = .ok a (m.withHeap h) := by
  rw [onHeap_eq, hr]

theorem onHeap_of_error {act : HeapM α} {e : Failure HeapError} {h : Heap}
    (hr : act m.heap = .error e h) : onHeap act m = .error e (m.withHeap h) := by
  rw [onHeap_eq, hr]

/-- The roots do not change between the two tries of an allocation, so that
these are one operation of the heap. -/
theorem allocRetrying_eq (type : ModelType) (length : Nat) (m : Mutator) :
    allocRetrying type length m =
      match Heap.allocRetrying m.tracer type.tag length () m.heap with
      | .ok (.ok obj, ()) h => .ok obj (m.withHeap h)
      | .ok (.error e, ()) h => .error (.refused e) (m.withHeap h)
      | .error e h => .error e (m.withHeap h) := by
  unfold allocRetrying Heap.allocRetrying
  cases ht : Heap.attempt (Heap.alloc type.tag length) m.heap with
  | error e h => rw [bind_of_error (onHeap_of_error ht), bind_of_error ht]
  | ok tried h =>
    rw [bind_of_ok (onHeap_of_ok ht), bind_of_ok ht]
    cases tried with
    | ok obj => rfl
    | error e =>
      cases he : e.isExhausted with
      | false =>
        simp only [he, Bool.not_false, if_true, Bool.false_eq_true, if_false]
        rfl
      | true =>
        simp only [he, Bool.not_true, Bool.false_eq_true, if_false, if_true]
        rw [get_bind_eq, tracer_withHeap]
        cases ha : Heap.allocAgain m.tracer type.tag length () h with
        | error e h' => rw [bind_of_error (onHeap_of_error (m := m.withHeap h) ha)]; rfl
        | ok retried h' =>
          rw [bind_of_ok (onHeap_of_ok (m := m.withHeap h) ha)]
          obtain ⟨r, ⟨⟩⟩ := retried
          cases r <;> rfl

/-- An attempt returns a refusal as its result. -/
theorem attempt_not_refused (act : HeapM α) (h : Heap) :
    Ends (Heap.attempt act h) (fun _ _ => True) (fun _ _ => False) fun _ => True := by
  unfold Heap.attempt
  cases act h with
  | ok a h' => trivial
  | error e h' => cases e <;> trivial

/-- So does an allocation with a retry. -/
theorem allocRetrying_not_refused {σ : Type} (tracer : Tracer σ) (tag : TypeTag) (length : Nat)
    (log : σ) (h : Heap) :
    Ends (Heap.allocRetrying tracer tag length log h) (fun _ _ => True) (fun _ _ => False)
      fun _ => True := by
  unfold Heap.allocRetrying
  refine Ends.bind (attempt_not_refused _ h) fun tried h₁ _ => ?_
  cases tried with
  | ok obj => trivial
  | error e =>
    simp only
    split
    · refine Ends.modify_bind (Ends.bind (?_ : Ends _ (fun _ _ => True) _ _) fun _ h₂ _ =>
        Ends.bind (attempt_not_refused _ h₂) fun _ _ _ => trivial)
      unfold Heap.collect
      simp only
      split <;> trivial
    · trivial

theorem moving_allocRetrying (type : ModelType) (length : Nat) :
    Moving (allocRetrying type length) := by
  intro m
  rw [allocRetrying_eq]
  have hends := allocRetrying_not_refused m.tracer type.tag length () m.heap
  cases hr : Heap.allocRetrying m.tracer type.tag length () m.heap with
  | ok r h =>
    obtain ⟨r, ⟨⟩⟩ := r
    have hs := Heap.Step.steps (.allocRetrying m.tracer type.tag length () hr)
    cases r <;> exact hs
  | error e h =>
    cases e with
    | refused e => exact (hends.of_refused hr).elim
    | fault f => trivial

theorem moving_pushRoot (obj : ObjRef) : Moving (pushRoot obj) := moving_modify fun _ => rfl

theorem moving_pushRoots (objs : List ObjRef) : Moving (pushRoots objs) :=
  moving_forM moving_pushRoot objs

theorem moving_alloc (type : ModelType) (length : Nat) (pinned : List ObjRef) :
    Moving (alloc type length pinned) := by
  refine ((moving_pushRoots pinned).bind fun _ => .get_bind fun m => ?_).restoringRoots
  split
  · refine .get_bind fun m => ?_
    split
    · exact (moving_collect _).bind fun _ => moving_allocRetrying type length
    · exact moving_allocRetrying type length
  · exact moving_allocRetrying type length

/-! ## Commands -/

theorem moving_symbol (id : UInt64) : Moving (symbol id) := by
  refine .get_bind fun m => ?_
  split
  · exact moving_pure _
  · exact (moving_alloc _ _ _).bind fun _ => .get_bind fun _ =>
      (moving_writeRef _ _ _).bind fun _ => (moving_setBytes _ _ _).bind fun _ =>
        .bind (moving_modify fun _ => rfl) fun _ => moving_pure _

theorem moving_pair (car cdr : ObjRef) : Moving (pair car cdr) :=
  (moving_alloc _ _ _).bind fun _ => (moving_writeRef _ _ _).bind fun _ =>
    (moving_writeRef _ _ _).bind fun _ => moving_pure _

theorem moving_vectorSet (vector : ObjRef) (index : Nat) (value : ObjRef) :
    Moving (vectorSet vector index value) := by
  refine .get_bind fun m => ?_
  split
  · exact moving_throw _
  · exact moving_writeRef vector index value

theorem moving_list (items : List ObjRef) : Moving (list items) := by
  refine ((moving_pushRoots items).bind fun _ => .get_bind fun m => ?_).restoringRoots
  show Moving (items.foldrM rootedPair m.nil)
  induction items with
  | nil => exact moving_pure _
  | cons item items ih =>
    rw [List.foldrM_cons]
    exact ih.bind fun rest => (moving_pair item rest).bind fun obj =>
      (moving_pushRoot obj).bind fun _ => moving_pure _

/-- **A command takes the heap through steps.** -/
theorem moving_run (c : Command) : Moving c.run := by
  cases c with
  | symbol id => exact (moving_symbol id).bind fun _ => moving_pure _
  | intVec values =>
    exact ((moving_alloc _ _ _).bind fun _ => (moving_setBytes _ _ _).bind fun _ =>
      moving_pure _).bind fun _ => moving_pure _
  | pair car cdr => exact (moving_pair car cdr).bind fun _ => moving_pure _
  | cell value n =>
    exact ((moving_alloc _ _ _).bind fun _ => (moving_writeRef _ _ _).bind fun _ =>
      (moving_setBytes _ _ _).bind fun _ => moving_pure _).bind fun _ => moving_pure _
  | vector length =>
    exact ((moving_alloc _ _ _).bind fun _ => .get_bind fun _ =>
      (moving_forM (fun _ => moving_writeRef _ _ _) _).bind fun _ => moving_pure _).bind fun _ =>
        moving_pure _
  | list items => exact (moving_list items).bind fun _ => moving_pure _
  | setCar | setCdr | setCellValue | setSymbolValue => exact moving_writeRef _ _ _
  | vectorSet vector index value => exact moving_vectorSet vector index value
  | pushRoot | truncateRoots | setAutoCollect => exact moving_modify fun _ => rfl
  | popRoot => exact fun m => Relation.ReflTransGen.refl
  | setRoot index obj =>
    refine .get_bind fun m => ?_
    split
    · exact (moving_throw _).bind fun _ => moving_modify fun _ => rfl
    · exact moving_modify fun _ => rfl
  | collect level => exact (moving_collect level).bind fun _ => moving_pure _

/-! ## The heaps of runs -/

/-- The heap is one of a run, set up for the model, and its objects are in
shape. -/
structure Grounded (m : Mutator) : Prop where
  reachable : m.heap.Reachable
  suited : m.heap.Suited
  shaped : m.heap.Shaped

theorem grounded_create {config : Config} {system : System} (hc : create config system = .ok m) :
    m.Grounded := by
  obtain ⟨h, h', obj, hh, hr, rfl⟩ := create_eq_ok hc
  obtain ⟨hw, hempty, _⟩ := Heap.wellFormed_create hh
  obtain ⟨hsuited, hsuited'⟩ := Heap.suited_first hh ((Heap.alloc_ends hw _ _).of_ok hr)
  have hstep : Heap.Step h (some obj) h' := .alloc _ _ hr
  refine ⟨hstep.reachable (.create hh), hsuited', hstep.shaped hw hsuited fun p v hv => ?_⟩
  rw [hw.toFormed.view?_of_none (hempty p)] at hv
  cases hv

/-- Only the heap matters. -/
theorem Grounded.congr (hg : m.Grounded) (h : m'.heap = m.heap) : m'.Grounded :=
  ⟨h ▸ hg.reachable, h ▸ hg.suited, h ▸ hg.shaped⟩

/-- Steps of the heap keep that. -/
theorem Grounded.steps (hg : m.Grounded) (hs : m.heap.Steps m'.heap) : m'.Grounded :=
  ⟨hs.reachable hg.reachable, hg.suited.congr (hs.setting hg.reachable),
    hs.shaped hg.reachable hg.suited hg.shaped⟩

/-- So does a command, whatever it is handed. -/
theorem Grounded.command (hg : m.Grounded) {c : Command} (hl : Leaves c.run m m') : m'.Grounded :=
  hg.steps ((moving_run c m).leaves (P := fun m' => m.heap.Steps m'.heap) hl)

/-- **In all runs of a program** the heap of its mutator is grounded. -/
theorem Reached.grounded (hr : Reached m) : m.Grounded := by
  induction hr with
  | create hc => exact grounded_create hc
  | step c _ _ hl ih => exact ih.command hl

theorem Reached.ready (hr : Reached m) : m.Ready := ⟨hr.consistent, hr.grounded.suited⟩

end Mutator

end SegmentedHeap
