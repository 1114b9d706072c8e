/-
SegmentedHeap.Proofs.Refusals — what is refused leaves no trace.

A request fails one of its checks, or passes them all and finds no room:
the limit on segments is reached, or the system refuses the block of a
pool or that of a big object. A call that names an object is
refused for what the reference or the field is. Nothing is changed on the
way to a refusal, so the heap is the very one that was asked: its table,
its stacks and counters, its queues, its memory and its metrics.

* `Denies`, `denied_alloc` — why an allocation is refused.
* `denied_free`, `denied_read`, `writeRef_denied` — calls that name an
  object.
* `denied_unchanged` — **a refused operation changes nothing**.
-/
import SegmentedHeap.Proofs.Reachable

namespace SegmentedHeap.Heap

variable {h h' : Heap} {e : HeapError}

/-! ## Allocations -/

/-- Why an allocation is refused: the request fails a check, or it is in
order and the store has no segment for it. -/
inductive Denies (h : Heap) (tag : TypeTag) (length : Nat) : HeapError → Prop where
  | disallowed {e : HeapError} : h.Disallows tag length e → Denies h tag length e
  | noRoom {r : Request} {cause : StoreError} : h.request tag length = .ok r →
      reserveFor r h.store = .error (.refused cause) h.store →
      Denies h tag length (.exhausted (h.shortage r.kind r.chunks))

/-- An allocation whose request passes the checks is refused where no slot
can be claimed: what is claimed is furnished. -/
theorem claim_of_alloc_refused (hw : h.WellFormed) {tag : TypeTag} {length : Nat} {r : Request}
    (hr : h.request tag length = .ok r) (he : alloc tag length h = .error (.refused e) h') :
    claim r h = .error (.refused e) h' := by
  cases hc : claim r h with
  | ok obj h₁ =>
    obtain ⟨_, _, hdone⟩ := alloc_of_claim hw hr hc
    cases hdone.symm.trans he
  | error f h₁ =>
    have hrun : alloc tag length h = .error f h₁ := by
      rw [alloc, get_bind_eq, hr]
      exact bind_of_error hc
    cases hrun.symm.trans he
    rfl

theorem denied_alloc (hw : h.WellFormed) {tag : TypeTag} {length : Nat}
    (he : alloc tag length h = .error (.refused e) h') : h' = h ∧ h.Denies tag length e := by
  obtain ⟨hsame, hcause⟩ := (alloc_ends hw tag length).of_refused he
  refine ⟨hsame, ?_⟩
  rcases hcause with hreject | ⟨r, hr, _⟩
  · exact .disallowed (disallows_of_request hreject)
  · obtain ⟨hv, _⟩ := valid_of_request hr
    obtain ⟨_, rfl, cause, hstore⟩ :=
      (claim_ends hw.toFormed hw.toFiled hv).of_refused (claim_of_alloc_refused hw hr he)
    exact .noRoom hr hstore

/-! ## Calls that name an object -/

/-- A free is refused for want of an object, or because the object's kind
is not collected. -/
theorem denied_free (hw : h.WellFormed) {p : ObjRef} (he : free p h = .error (.refused e) h') :
    h' = h ∧ (e = .dangling p ∧ h.isAllocated p = false ∨
      e = .notCollectable p ∧ h.isUncollected p = .ok true) := by
  refine ⟨(free_ends hw p).of_refused he, ?_⟩
  cases ha : h.isAllocated p with
  | false =>
    unfold free at he
    rw [get_bind_eq, ha] at he
    cases he
    exact Or.inl ⟨rfl, rfl⟩
  | true =>
    obtain ⟨x, hx⟩ := hw.isAllocated_iff_lookup.mp ha
    obtain ⟨spec, hspec⟩ := hw.spec_of_lookup hx
    have hu := isUncollected_of_lookup hx hspec
    have hends : Ends (free p h) (fun _ _ => True)
        (fun e _ => e = .notCollectable p ∧ spec.uncollected = true) fun _ => False := by
      unfold free
      refine Ends.get_bind ?_
      rw [ha]
      refine Ends.ask_bind hu ?_
      cases hspec : spec.uncollected with
      | true => exact ⟨rfl, rfl⟩
      | false => trivial
    obtain ⟨rfl, hspec⟩ := hends.of_refused he
    exact Or.inr ⟨rfl, hspec ▸ hu⟩

/-- A field that is read is one of an object. -/
theorem lookup_of_readRef (hf : h.Formed) {p r : ObjRef} {field : Nat}
    (hr : h.readRef p field = .ok r) :
    ∃ x, h.lookup p = some x ∧ field * refBytes + refBytes ≤ x.bytes.length := by
  cases hx : h.lookup p with
  | none =>
    rw [hf.readRef_of_none hx] at hr
    cases hr
  | some x =>
    obtain ⟨spec, hspec⟩ := hf.spec_of_lookup hx
    rw [readRef_of_lookup hf hx hspec] at hr
    cases hv : (x.view spec).ref? field with
    | none =>
      rw [hv] at hr
      cases hr
    | some r' => exact ⟨x, rfl, ref?_eq_some.mp ⟨r', hv⟩⟩

/-- A field is not read for want of an object, or of the field. -/
theorem denied_read (hw : h.WellFormed) {p : ObjRef} {field : Nat}
    (he : h.readRef p field = .error e) :
    e = .dangling p ∧ h.isAllocated p = false ∨
      ∃ n, e = .fieldOutOfRange p field n ∧ h.capacity p = .ok n ∧
        n < field * refBytes + refBytes := by
  have hf := hw.toFormed
  cases hx : h.lookup p with
  | none =>
    rw [hf.readRef_of_none hx] at he
    cases he
    exact Or.inl ⟨rfl, hf.not_isAllocated_iff_lookup.mpr hx⟩
  | some x =>
    obtain ⟨spec, hspec⟩ := hf.spec_of_lookup hx
    rw [readRef_of_lookup hf hx hspec] at he
    cases hr : (x.view spec).ref? field with
    | some r =>
      rw [hr] at he
      cases he
    | none =>
      rw [hr] at he
      cases he
      refine Or.inr ⟨_, rfl, capacity_of_lookup hx, Nat.lt_of_not_le fun hle => ?_⟩
      obtain ⟨r, hr'⟩ := ref?_eq_some.mpr (show field * refBytes + refBytes ≤
        (x.view spec).capacity from hle)
      rw [hr] at hr'
      cases hr'

/-- A reference is not stored in a field that cannot be read, and in no
other case is the store refused. -/
theorem writeRef_denied (hw : h.WellFormed) (p : ObjRef) (field : Nat) (target : ObjRef) :
    writeRef p field target h = .error (.refused e) h' ↔
      h' = h ∧ h.readRef p field = .error e := by
  constructor
  · intro he
    obtain ⟨hsame, hroom⟩ := (writeRef_ends hw p field target).of_refused he
    refine ⟨hsame, ?_⟩
    cases hr : h.readRef p field with
    | error e₁ =>
      rw [writeRef, get_bind_eq, hr] at he
      cases he
      rfl
    | ok r =>
      obtain ⟨x, hx, hle⟩ := lookup_of_readRef hw.toFormed hr
      exact absurd hle (Nat.not_le.mpr (hroom x hx))
  · rintro ⟨rfl, hr⟩
    rw [writeRef, get_bind_eq, hr]
    rfl

/-! ## Every refusal -/

/-- The error with which an operation was refused. -/
def refusal {α : Type} (r : EStateM.Result (Failure HeapError) Heap α) : Option HeapError :=
  match r with
  | .error (.refused e) _ => some e
  | _ => none

theorem exists_of_refusal {α : Type} {r : EStateM.Result (Failure HeapError) Heap α}
    (hr : refusal r = some e) : ∃ h', r = .error (.refused e) h' := by
  unfold refusal at hr
  split at hr
  · cases hr
    exact ⟨_, rfl⟩
  · cases hr

/-- **A refused operation of a run changes nothing**: what is left is the
heap that was there, with all that it is made of. An allocation is refused
because its request fails a check or no segment is had for it, and the other
calls because of what their arguments name; reading is a question, which
leaves a heap alone whatever the answer. -/
theorem denied_unchanged (hr : h.Reachable) :
    (∀ tag length e h', alloc tag length h = .error (.refused e) h' →
      h' = h ∧ h.Denies tag length e) ∧
    (∀ p e h', free p h = .error (.refused e) h' →
      h' = h ∧ (e = .dangling p ∧ h.isAllocated p = false ∨
        e = .notCollectable p ∧ h.isUncollected p = .ok true)) ∧
    (∀ p field e, h.readRef p field = .error e →
      e = .dangling p ∧ h.isAllocated p = false ∨
        ∃ n, e = .fieldOutOfRange p field n ∧ h.capacity p = .ok n ∧
          n < field * refBytes + refBytes) ∧
    ∀ p field target e h', writeRef p field target h = .error (.refused e) h' ↔
      h' = h ∧ h.readRef p field = .error e :=
  ⟨fun _ _ _ _ => denied_alloc hr.wellFormed, fun _ _ _ => denied_free hr.wellFormed,
    fun _ _ _ => denied_read hr.wellFormed, fun p field target _ _ =>
      writeRef_denied hr.wellFormed p field target⟩

/-- A new heap for the objects of the model, under a system that grants no
block. -/
def poorHeap : Heap :=
  (create smallConfig (Model.layout 8) ⟨fun _ _ _ => false, nofun⟩).toOption.get
    (by decide +kernel)

theorem reachable_poorHeap : Reachable poorHeap :=
  .create (eq_ok_of_toOption (Option.some_get _).symm)

/-- It refuses a pair for want of a pool block and a long vector for want
of a block of its own, a symbol of a length that none has, and to free or
change what is not there. -/
theorem denied_unchanged_poorHeap :
    alloc Model.ModelType.pair.tag 0 poorHeap =
      .error (.refused (.exhausted (poorHeap.shortage 7 1))) poorHeap ∧
    alloc Model.ModelType.vector.tag 1000 poorHeap =
      .error (.refused (.exhausted (poorHeap.shortage 13 500))) poorHeap ∧
    alloc Model.ModelType.symbol.tag 2 poorHeap =
      .error (.refused (.lengthMismatch 1 1 2 1)) poorHeap ∧
    free .null poorHeap = .error (.refused (.dangling .null)) poorHeap ∧
    writeRef .null 0 .null poorHeap = .error (.refused (.dangling .null)) poorHeap := by
  obtain ⟨halloc, hfree, _, hwrite⟩ := denied_unchanged reachable_poorHeap
  have hrefused : refusal (alloc Model.ModelType.pair.tag 0 poorHeap) =
        some (.exhausted (poorHeap.shortage 7 1)) ∧
      refusal (alloc Model.ModelType.vector.tag 1000 poorHeap) =
        some (.exhausted (poorHeap.shortage 13 500)) ∧
      refusal (alloc Model.ModelType.symbol.tag 2 poorHeap) = some (.lengthMismatch 1 1 2 1) ∧
      refusal (free .null poorHeap) = some (.dangling .null) := by
    decide +kernel
  obtain ⟨hpair, hvector, hsymbol, hnull⟩ := hrefused
  have whole : ∀ {tag length e}, refusal (alloc tag length poorHeap) = some e →
      alloc tag length poorHeap = .error (.refused e) poorHeap := fun hr => by
    obtain ⟨h', he⟩ := exists_of_refusal hr
    rw [he, (halloc _ _ _ h' he).1]
  obtain ⟨h', he⟩ := exists_of_refusal hnull
  refine ⟨whole hpair, whole hvector, whole hsymbol, ?_, (hwrite _ _ _ _ _).mpr ⟨rfl, rfl⟩⟩
  rw [he, (hfree _ _ h' he).1]

end SegmentedHeap.Heap
