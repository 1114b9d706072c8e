/-
SegmentedHeap.Proofs.Outcome — how an operation ends.

An operation on the store, the heap or a mutator returns, is refused, or
meets a fault. `Ends` states what holds in each of the three cases, and
`Ends.bind` carries it along a sequence of operations: what follows is
only looked at where the first part returned. `Leaves` is the step from
one state to the next in a run of operations.
-/
import SegmentedHeap.Fault

namespace SegmentedHeap

section

variable {ε σ α β : Type}

/-- The operation that gave `r` returned with `ok`, was refused with
`refused`, or met one of the faults in `faulted`. -/
def Ends (r : EStateM.Result (Failure ε) σ α) (ok : α → σ → Prop) (refused : ε → σ → Prop)
    (faulted : Fault → Prop) : Prop :=
  match r with
  | .ok a s => ok a s
  | .error (.refused e) s => refused e s
  | .error (.fault f) _ => faulted f

namespace Ends

variable {ok ok' : α → σ → Prop} {refused refused' : ε → σ → Prop}
  {faulted faulted' : Fault → Prop}

theorem mono {r : EStateM.Result (Failure ε) σ α} (h : Ends r ok refused faulted)
    (hok : ∀ a s, ok a s → ok' a s) (hr : ∀ e s, refused e s → refused' e s)
    (hf : ∀ f, faulted f → faulted' f) : Ends r ok' refused' faulted' := by
  match r with
  | .ok a s => exact hok a s h
  | .error (.refused e) s => exact hr e s h
  | .error (.fault f) _ => exact hf f h

/-- The same, where only the returned case changes. -/
theorem imp {r : EStateM.Result (Failure ε) σ α} (h : Ends r ok refused faulted)
    (hok : ∀ a s, ok a s → ok' a s) : Ends r ok' refused faulted :=
  h.mono hok (fun _ _ h => h) (fun _ h => h)

/-- The same, where more is known of the run if it returned. -/
theorem sharpen {r : EStateM.Result (Failure ε) σ α} (h : Ends r ok refused faulted)
    (hok : ∀ a s, r = .ok a s → ok' a s) : Ends r ok' refused faulted := by
  match r with
  | .ok a s => exact hok a s rfl
  | .error (.refused _) _ => exact h
  | .error (.fault _) _ => exact h

/-- Two accounts of one run hold together. -/
theorem and {r : EStateM.Result (Failure ε) σ α} (h : Ends r ok refused faulted)
    (h' : Ends r ok' refused' faulted') :
    Ends r (fun a s => ok a s ∧ ok' a s) (fun e s => refused e s ∧ refused' e s)
      fun f => faulted f ∧ faulted' f := by
  match r with
  | .ok _ _ => exact ⟨h, h'⟩
  | .error (.refused _) _ => exact ⟨h, h'⟩
  | .error (.fault _) _ => exact ⟨h, h'⟩

theorem bind {x : EStateM (Failure ε) σ α} {f : α → EStateM (Failure ε) σ β} {s : σ}
    {done : β → σ → Prop} (hx : Ends (x s) ok refused faulted)
    (hf : ∀ a s', ok a s' → Ends (f a s') done refused faulted) :
    Ends ((x >>= f) s) done refused faulted := by
  show Ends (EStateM.bind x f s) done refused faulted
  unfold EStateM.bind
  cases hr : x s with
  | ok a s' =>
    rw [hr] at hx
    exact hf a s' hx
  | error e s' =>
    rw [hr] at hx
    cases e <;> exact hx

theorem get_bind {f : σ → EStateM (Failure ε) σ α} {s : σ}
    (h : Ends (f s s) ok refused faulted) :
    Ends ((MonadState.get >>= f) s) ok refused faulted := h

theorem modify_bind {g : σ → σ} {f : PUnit → EStateM (Failure ε) σ α} {s : σ}
    (h : Ends (f ⟨⟩ (g s)) ok refused faulted) :
    Ends ((modify g >>= f) s) ok refused faulted := h

theorem of_eq {r : EStateM.Result (Failure ε) σ α} {a : α} {s : σ} (e : r = .ok a s)
    (h : ok a s) : Ends r ok refused faulted := by
  rw [e]
  exact h

/-- A first part that is known to return is gone through. -/
theorem bind_of_eq {x : EStateM (Failure ε) σ α} {f : α → EStateM (Failure ε) σ β} {s s' : σ}
    {a : α} {done : β → σ → Prop} (e : x s = .ok a s')
    (h : Ends (f a s') done refused faulted) : Ends ((x >>= f) s) done refused faulted := by
  show Ends (EStateM.bind x f s) done refused faulted
  rw [EStateM.bind, e]
  exact h

/-- What each round of a loop keeps, the loop keeps. -/
theorem forM {γ : Type} {P : σ → Prop} {f : γ → EStateM (Failure ε) σ Unit} {l : List γ} {s : σ}
    (hs : P s) (hf : ∀ c s, P s → Ends (f c s) (fun _ => P) refused faulted) :
    Ends (l.forM f s) (fun _ => P) refused faulted := by
  induction l generalizing s with
  | nil => exact hs
  | cons c l ih => exact (hf c s hs).bind fun _ _ hs' => ih hs'

/-- What each round of a counted loop makes of what the last one left, the
loop makes of what there was. -/
theorem forM_range {P : Nat → σ → Prop} {f : Nat → EStateM (Failure ε) σ Unit} {n : Nat} {s : σ}
    (hs : P 0 s) (hf : ∀ i s, i < n → P i s → Ends (f i s) (fun _ => P (i + 1)) refused faulted) :
    Ends ((List.range n).forM f s) (fun _ => P n) refused faulted := by
  have hrow : ∀ k start s, P start s → start + k ≤ n →
      Ends (((List.range' start k).forM f : EStateM (Failure ε) σ Unit) s)
        (fun _ => P (start + k)) refused faulted := by
    intro k
    induction k with
    | zero => exact fun _ _ hs _ => hs
    | succ k ih =>
      intro start s hs hle
      refine (hf start s (by omega) hs).bind fun _ s' hs' => ?_
      rw [Nat.add_comm k 1, ← Nat.add_assoc]
      exact ih (start + 1) s' hs' (by omega)
  rw [List.range_eq_range']
  have h := hrow n 0 s hs (by omega)
  rw [Nat.zero_add] at h
  exact h

/-- What follows only matters where the first part returns. -/
theorem bind_congr {x y : EStateM (Failure ε) σ α} {f g : α → EStateM (Failure ε) σ β} {s : σ}
    (hx : Ends (x s) ok refused faulted) (hxy : y s = x s)
    (hfg : ∀ a s', ok a s' → g a s' = f a s') : (y >>= g) s = (x >>= f) s := by
  show EStateM.bind y g s = EStateM.bind x f s
  rw [EStateM.bind, EStateM.bind, hxy]
  cases hr : x s with
  | ok a s' =>
    rw [hr] at hx
    exact hfg a s' hx
  | error e s' => rfl

/-- Rounds that keep what makes them alike make loops that are alike. -/
theorem forM_congr {γ : Type} {P : σ → Prop} {f g : γ → EStateM (Failure ε) σ Unit} {l : List γ}
    {s : σ} (hs : P s) (hf : ∀ c s, P s → Ends (f c s) (fun _ => P) refused faulted)
    (hfg : ∀ c ∈ l, ∀ s, P s → g c s = f c s) : l.forM g s = l.forM f s := by
  induction l generalizing s with
  | nil => rfl
  | cons c l ih =>
    exact (hf c s hs).bind_congr (hfg c List.mem_cons_self s hs) fun _ s' hs' =>
      ih hs' fun d hd => hfg d (List.mem_cons_of_mem c hd)

/-- An operation that ends in no other way returns. -/
theorem returns {r : EStateM.Result (Failure ε) σ α}
    (h : Ends r ok (fun _ _ => False) (fun _ => False)) : ∃ a s, r = .ok a s ∧ ok a s := by
  match r with
  | .ok a s => exact ⟨a, s, rfl, h⟩
  | .error (.refused _) _ => exact h.elim
  | .error (.fault _) _ => exact h.elim

/-- An operation that returns may stand where others are refused or meet
a fault. -/
theorem widen {r : EStateM.Result (Failure ε) σ α}
    (h : Ends r ok (fun _ _ => False) (fun _ => False)) : Ends r ok refused faulted :=
  h.mono (fun _ _ h => h) (fun _ _ h => h.elim) fun _ h => h.elim

/-- An operation that is not refused may stand where others are. -/
theorem unrefused {r : EStateM.Result (Failure ε) σ α}
    (h : Ends r ok (fun _ _ => False) faulted) : Ends r ok refused faulted :=
  h.mono (fun _ _ h => h) (fun _ _ h => h.elim) fun _ h => h

/-- What is known of all ends is known of a run that returned. -/
theorem of_ok {r : EStateM.Result (Failure ε) σ α} {a : α} {s : σ}
    (h : Ends r ok refused faulted) (e : r = .ok a s) : ok a s := by
  subst e
  exact h

/-- What is known of all ends is known of a run that was refused. -/
theorem of_refused {r : EStateM.Result (Failure ε) σ α} {e : ε} {s : σ}
    (h : Ends r ok refused faulted) (eq : r = .error (.refused e) s) : refused e s := by
  subst eq
  exact h

/-- What is known of all ends is known of a run that met a fault. -/
theorem of_fault {r : EStateM.Result (Failure ε) σ α} {f : Fault} {s : σ}
    (h : Ends r ok refused faulted) (eq : r = .error (.fault f) s) : faulted f := by
  subst eq
  exact h

end Ends

theorem get_bind_eq {f : σ → EStateM (Failure ε) σ α} {s : σ} :
    (MonadState.get >>= f) s = f s s := rfl

theorem bind_of_ok {x : EStateM (Failure ε) σ α} {f : α → EStateM (Failure ε) σ β} {s t : σ}
    {a : α} (e : x s = .ok a t) : (x >>= f) s = f a t := by
  show EStateM.bind x f s = _
  rw [EStateM.bind, e]

theorem bind_of_error {x : EStateM (Failure ε) σ α} {f : α → EStateM (Failure ε) σ β} {s t : σ}
    {e : Failure ε} (h : x s = .error e t) : (x >>= f) s = .error e t := by
  show EStateM.bind x f s = _
  rw [EStateM.bind, h]

/-- What follows is the same either way. -/
theorem bind_congr_left {x y : EStateM (Failure ε) σ α} {f : α → EStateM (Failure ε) σ β} {s : σ}
    (hxy : y s = x s) : (y >>= f) s = (x >>= f) s := by
  show EStateM.bind y f s = EStateM.bind x f s
  rw [EStateM.bind, EStateM.bind, hxy]

/-- Two operations that returned one after the other. -/
theorem bind_eq_ok {x : EStateM (Failure ε) σ α} {f : α → EStateM (Failure ε) σ β} {s s' : σ}
    {b : β} (e : (x >>= f) s = .ok b s') : ∃ a t, x s = .ok a t ∧ f a t = .ok b s' := by
  change EStateM.bind x f s = .ok b s' at e
  unfold EStateM.bind at e
  cases hx : x s with
  | ok a t =>
    rw [hx] at e
    exact ⟨a, t, rfl, e⟩
  | error e' t =>
    rw [hx] at e
    cases e

theorem eq_ok_of_toOption {x : Except ε α} {a : α} (h : x.toOption = some a) : x = .ok a := by
  cases x with
  | ok b => exact congrArg Except.ok (Option.some.inj h)
  | error e => cases h

/-- The operation leaves `s'` of `s`: it returned, or was refused. A fault
leaves nothing. -/
def Leaves (act : EStateM (Failure ε) σ α) (s s' : σ) : Prop :=
  (∃ a, act s = .ok a s') ∨ ∃ e, act s = .error (.refused e) s'

/-- What an operation leaves does not depend on what becomes of its
result. -/
theorem leaves_map {x : EStateM (Failure ε) σ α} {k : α → β} {s s' : σ} :
    Leaves (x >>= fun a => pure (k a)) s s' ↔ Leaves x s s' := by
  have hrun : (x >>= fun a => pure (k a)) s = match x s with
      | .ok a t => .ok (k a) t
      | .error e t => .error e t := by
    show EStateM.bind x (fun a => pure (k a)) s = _
    unfold EStateM.bind
    cases x s <;> rfl
  rw [Leaves, Leaves, hrun]
  cases x s <;> simp

/-- The state that an operation ends in. -/
def after (act : EStateM (Failure ε) σ α) (s : σ) : σ :=
  match act s with
  | .ok _ s' => s'
  | .error _ s' => s'

/-- Whether an operation returns. -/
def returnsFrom (act : EStateM (Failure ε) σ α) (s : σ) : Bool :=
  match act s with
  | .ok _ _ => true
  | .error _ _ => false

theorem ok_after {act : EStateM (Failure ε) σ α} {s : σ} (h : returnsFrom act s = true) :
    ∃ a, act s = .ok a (after act s) := by
  unfold after
  unfold returnsFrom at h
  cases he : act s with
  | ok a s' => exact ⟨a, rfl⟩
  | error e s' =>
    rw [he] at h
    cases h

theorem leaves_after {act : EStateM (Failure ε) σ α} {s : σ} (h : returnsFrom act s = true) :
    Leaves act s (after act s) := Or.inl (ok_after h)

/-- What an operation returns, if it does. -/
def returned (act : EStateM (Failure ε) σ α) (s : σ) : Option α :=
  match act s with
  | .ok a _ => some a
  | .error _ _ => none

theorem eq_ok_of_returned {act : EStateM (Failure ε) σ α} {s : σ} {a : α}
    (h : returned act s = some a) : act s = .ok a (after act s) := by
  unfold after
  unfold returned at h
  cases he : act s with
  | ok b s' =>
    rw [he] at h
    exact congrArg (EStateM.Result.ok · s') (Option.some.inj h)
  | error e s' =>
    rw [he] at h
    cases h

/-- The fault that an operation meets, if it does. -/
def met (act : EStateM (Failure ε) σ α) (s : σ) : Option Fault :=
  match act s with
  | .error (.fault f) _ => some f
  | _ => none

theorem error_of_met {act : EStateM (Failure ε) σ α} {s : σ} {f : Fault}
    (h : met act s = some f) : ∃ s', act s = .error (.fault f) s' := by
  unfold met at h
  cases he : act s with
  | ok a s' =>
    rw [he] at h
    cases h
  | error e s' =>
    rw [he] at h
    cases e with
    | refused e => cases h
    | fault f =>
      cases h
      exact ⟨s', rfl⟩

/-- How an operation is refused, if it is, and what it leaves then. -/
def refusal (act : EStateM (Failure ε) σ α) (s : σ) : Option (ε × σ) :=
  match act s with
  | .error (.refused e) s' => some (e, s')
  | _ => none

theorem error_of_refusal {act : EStateM (Failure ε) σ α} {s s' : σ} {e : ε}
    (h : refusal act s = some (e, s')) : act s = .error (.refused e) s' := by
  unfold refusal at h
  cases hr : act s with
  | ok a t =>
    rw [hr] at h
    cases h
  | error f t =>
    rw [hr] at h
    cases f with
    | refused e' =>
      cases h
      rfl
    | fault f => cases h

/-- What is left is what a run that returned, or one that was refused,
leaves. -/
theorem Ends.of_leaves {act : EStateM (Failure ε) σ α} {s s' : σ} {ok : α → σ → Prop}
    {refused : ε → σ → Prop} {faulted : Fault → Prop} (h : Ends (act s) ok refused faulted)
    (hl : Leaves act s s') : (∃ a, ok a s') ∨ ∃ e, refused e s' := by
  rcases hl with ⟨a, e⟩ | ⟨e, eq⟩
  · exact Or.inl ⟨a, h.of_ok e⟩
  · exact Or.inr ⟨e, h.of_refused eq⟩

/-- A property of what an operation leaves, however it does. -/
theorem Ends.leaves {act : EStateM (Failure ε) σ α} {s s' : σ} {P : σ → Prop}
    {faulted : Fault → Prop} (h : Ends (act s) (fun _ => P) (fun _ => P) faulted)
    (hl : Leaves act s s') : P s' := by
  rcases h.of_leaves hl with ⟨_, hp⟩ | ⟨_, hp⟩
  · exact hp
  · exact hp

end

end SegmentedHeap
