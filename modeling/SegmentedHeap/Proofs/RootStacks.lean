/-
SegmentedHeap.Proofs.RootStacks — what operations do to the root stack.

A constructor has what it is given on the root stack while it works, and
takes it off again on every exit: when it returns, when it is refused, and
when it meets a fault. All else that it does is done to the heap. How an
operation changes a part of the state is a relation between that part
before and after; a reflexive and transitive one is carried along a row of
operations, wherever the row breaks off.

* `Turns` — how an operation changes a part of the state.
* `Turns.bind`, `turns_forM` — rows of operations.
* `Still`, `Grows` — operations that leave the root stack, or add to it.
* `still_restoringRoots` — what was added is dropped.
* `still_construct` — **every constructor leaves the root stack**.
-/
import Mathlib.Order.Defs.Unbundled
import SegmentedHeap.Proofs.Fitting

namespace SegmentedHeap

/-! ## Parts of a state -/

/-- On every exit, the operation has changed the part of the state so. -/
def Turns {ε σ τ α : Type} (part : σ → τ) (R : τ → τ → Prop) (act : EStateM (Failure ε) σ α) :
    Prop := ∀ s, R (part s) (part (after act s))

section Turns

variable {ε σ τ α β : Type} {part : σ → τ} {R : τ → τ → Prop} {act : EStateM (Failure ε) σ α}

theorem Turns.mono {Q : τ → τ → Prop} (ha : Turns part R act) (h : ∀ s t, R s t → Q s t) :
    Turns part Q act := fun s => h _ _ (ha s)

/-- What leaves a part alone changes it in no way. -/
theorem Turns.of_eq [Std.Refl R] (ha : Turns part Eq act) : Turns part R act :=
  ha.mono fun _ _ e => e ▸ Std.Refl.refl _

/-- The same, for an operation that returns or is refused. -/
theorem Turns.ends (ha : Turns part R act) (s : σ) :
    Ends (act s) (fun _ s' => R (part s) (part s')) (fun _ s' => R (part s) (part s'))
      fun _ => True := by
  have hs := ha s
  unfold after at hs
  cases hr : act s with
  | ok a s' =>
    rw [hr] at hs
    exact hs
  | error e s' =>
    rw [hr] at hs
    cases e with
    | refused e => exact hs
    | fault f => trivial

theorem turns_pure [Std.Refl R] (a : α) : Turns part R (pure a : EStateM (Failure ε) σ α) :=
  fun _ => Std.Refl.refl _

theorem turns_throw [Std.Refl R] (e : Failure ε) :
    Turns part R (throw e : EStateM (Failure ε) σ α) := fun _ => Std.Refl.refl _

theorem turns_modify {g : σ → σ} (hg : ∀ s, R (part s) (part (g s))) :
    Turns part R (modify g : EStateM (Failure ε) σ PUnit) := hg

theorem Turns.bind [IsTrans τ R] {f : α → EStateM (Failure ε) σ β} (ha : Turns part R act)
    (hf : ∀ a, Turns part R (f a)) : Turns part R (act >>= f) := by
  intro s
  have hs := ha s
  show R (part s) (part (after (EStateM.bind act f) s))
  unfold after EStateM.bind
  unfold after at hs
  cases hr : act s with
  | ok a t =>
    rw [hr] at hs
    exact IsTrans.trans _ _ _ hs (hf a t)
  | error e t =>
    rw [hr] at hs
    exact hs

theorem Turns.get_bind {f : σ → EStateM (Failure ε) σ α} (hf : ∀ s, Turns part R (f s)) :
    Turns part R (MonadState.get >>= f) := fun s => hf s s

theorem turns_forM [IsPreorder τ R] {γ : Type} {f : γ → EStateM (Failure ε) σ Unit}
    (hf : ∀ c, Turns part R (f c)) (l : List γ) : Turns part R (l.forM f) := by
  induction l with
  | nil => exact turns_pure _
  | cons c l ih => exact (hf c).bind fun _ => ih

end Turns

namespace Mutator

open Model

variable {α : Type} {act : MutatorM α}

/-! ## The root stack -/

/-- The operation leaves the root stack as it was. -/
abbrev Still (act : MutatorM α) : Prop := Turns stack Eq act

/-- The second stack has the first one at its bottom. -/
def Above (s t : Array ObjRef) : Prop := ∃ above, t = s ++ above

instance : IsPreorder (Array ObjRef) Above where
  refl s := ⟨#[], (Array.append_empty ..).symm⟩
  trans := by
    rintro s _ _ ⟨first, rfl⟩ ⟨second, rfl⟩
    exact ⟨first ++ second, Array.append_assoc ..⟩

/-- The operation takes no root off the stack. -/
abbrev Grows (act : MutatorM α) : Prop := Turns stack Above act

theorem still_onHeap (act : HeapM α) : Still (onHeap act) := by
  intro m
  unfold after
  rw [onHeap_eq]
  cases act m.heap <;> rfl

theorem still_ask (question : Mutator → Except Fault α) : Still (ask question) := by
  intro m
  unfold after ask
  cases question m <;> rfl

theorem grows_pushRoot (obj : ObjRef) : Grows (pushRoot obj) :=
  turns_modify fun _ => ⟨#[obj], Array.push_eq_append ..⟩

theorem grows_pushRoots (objs : List ObjRef) : Grows (pushRoots objs) :=
  turns_forM grows_pushRoot objs

/-- **What was added is dropped**, on every exit. -/
theorem still_restoringRoots (ha : Grows act) : Still (restoringRoots act) := by
  intro m
  obtain ⟨above, hstack⟩ := ha m
  have hdropped : (after (restoringRoots act) m).stack =
      ((after act m).truncate m.stack.size).stack := by
    unfold after restoringRoots
    cases act m <;> rfl
  rw [hdropped, truncate, hstack]
  simp

/-! ## Constructors -/

theorem still_collect (level : Generation) : Still (collect level) :=
  .get_bind fun _ => (still_onHeap _).bind fun _ => turns_pure _

theorem still_allocRetrying (type : ModelType) (length : Nat) :
    Still (allocRetrying type length) := by
  intro m
  unfold after
  rw [allocRetrying_eq]
  cases Heap.allocRetrying m.tracer type.tag length () m.heap with
  | ok tried h =>
    obtain ⟨tried, ⟨⟩⟩ := tried
    cases tried <;> rfl
  | error e h => rfl

theorem still_alloc (type : ModelType) (length : Nat) (pinned : List ObjRef) :
    Still (alloc type length pinned) := by
  refine still_restoringRoots ((grows_pushRoots pinned).bind fun _ => .get_bind fun m => ?_)
  split
  · refine .get_bind fun m => ?_
    split
    · exact ((still_collect _).bind fun _ => still_allocRetrying type length).of_eq
    · exact (still_allocRetrying type length).of_eq
  · exact (still_allocRetrying type length).of_eq

theorem still_symbol (id : UInt64) : Still (symbol id) := by
  refine .get_bind fun m => ?_
  split
  · exact turns_pure _
  · exact (still_alloc _ _ _).bind fun _ => .get_bind fun _ => (still_onHeap _).bind fun _ =>
      (still_onHeap _).bind fun _ => .bind (turns_modify fun _ => rfl) fun _ => turns_pure _

theorem still_intVec (values : List Int64) : Still (intVec values) :=
  (still_alloc _ _ _).bind fun _ => (still_onHeap _).bind fun _ => turns_pure _

theorem still_pair (car cdr : ObjRef) : Still (pair car cdr) :=
  (still_alloc _ _ _).bind fun _ => (still_onHeap _).bind fun _ => (still_onHeap _).bind fun _ =>
    turns_pure _

theorem still_cell (value : ObjRef) (n : Int64) : Still (cell value n) :=
  (still_alloc _ _ _).bind fun _ => (still_onHeap _).bind fun _ => (still_onHeap _).bind fun _ =>
    turns_pure _

theorem still_vector (length : Nat) : Still (vector length) :=
  (still_alloc _ _ _).bind fun _ => .get_bind fun _ =>
    (turns_forM (fun _ => still_onHeap _) _).bind fun _ => turns_pure _

theorem still_vectorSet (vector : ObjRef) (index : Nat) (value : ObjRef) :
    Still (vectorSet vector index value) := by
  refine .get_bind fun m => ?_
  split
  · exact turns_throw _
  · exact still_onHeap _

/-- What a list is made of is rooted while it is built. -/
theorem still_list (items : List ObjRef) : Still (list items) := by
  refine still_restoringRoots ((grows_pushRoots items).bind fun _ => .get_bind fun m => ?_)
  show Grows (items.foldrM rootedPair m.nil)
  induction items with
  | nil => exact turns_pure _
  | cons item items ih =>
    rw [List.foldrM_cons]
    exact ih.bind fun rest => (still_pair item rest).of_eq.bind fun obj =>
      (grows_pushRoot obj).bind fun _ => turns_pure _

/-- **A constructor leaves the root stack as it was**, on every exit and
whatever it is given. -/
theorem still_construct {c : Command} (hc : c.constructs = true) : Still c.run := by
  cases c with
  | symbol id => exact (still_symbol id).bind fun _ => turns_pure _
  | intVec values => exact (still_intVec values).bind fun _ => turns_pure _
  | pair car cdr => exact (still_pair car cdr).bind fun _ => turns_pure _
  | cell value n => exact (still_cell value n).bind fun _ => turns_pure _
  | vector length => exact (still_vector length).bind fun _ => turns_pure _
  | list items => exact (still_list items).bind fun _ => turns_pure _
  | setCar | setCdr | setCellValue | setSymbolValue | vectorSet => cases hc
  | pushRoot | popRoot | setRoot | truncateRoots | setAutoCollect | collect => cases hc

end Mutator

end SegmentedHeap
