/-
SegmentedHeap.Proofs.Requests — what the checks of a request decide.

The layout gives a type and length a kind and a number of chunks; the
checks see to it that the kind is in the table and of the type, that the
length is one that the kind takes, and that the chunks fit. A request
that passes them is valid: its kind is in the table and its chunks are
those of that kind. One that fails a check is refused with an error that
names the check.

* `Assigns`, `Valid`, `checks_of_request` — requests that pass.
* `Disallows`, `disallows_of_request` — requests that are refused.
* `fault_of_request` — a fault is one of the layout.
-/
import SegmentedHeap.Heap.Alloc

namespace SegmentedHeap.Heap

variable {h : Heap} {e : HeapError} {f : Fault} {tag : TypeTag} {kind : KindId} {spec : Kind}
  {length chunks : Nat} {stored : Option Nat}

/-- The layout gives a type and length a kind of that type. -/
structure Assigns (h : Heap) (tag : TypeTag) (length : Nat) (kind : KindId) (spec : Kind) :
    Prop where
  kindFor : h.layout.kindFor tag length = .ok kind
  entry : h.kinds.get? kind = some spec
  tag : spec.tag = tag

/-- The errors with which the checks of a request refuse it. -/
inductive Disallows (h : Heap) (tag : TypeTag) (length : Nat) : HeapError → Prop where
  | unknownKind {kind : KindId} :
      h.layout.kindFor tag length = .ok kind → h.kinds.get? kind = none →
      Disallows h tag length (.unknownKind tag kind)
  | kindMismatch {kind : KindId} {spec : Kind} :
      h.layout.kindFor tag length = .ok kind → h.kinds.get? kind = some spec → spec.tag ≠ tag →
      Disallows h tag length (.kindMismatch tag kind spec.tag)
  | lengthMismatch {kind : KindId} {spec : Kind} {expected : Nat} :
      h.Assigns tag length kind spec → spec.length = .constant expected → length ≠ expected →
      Disallows h tag length (.lengthMismatch tag kind length expected)
  /-- A length that is stored has 32 bits. -/
  | longLength {kind : KindId} {spec : Kind} :
      h.Assigns tag length kind spec → spec.length = .stored → Word.max32 < length →
      Disallows h tag length (.invalidSize length Word.max32)
  | tooLarge {kind : KindId} {spec : Kind} {chunks needed : Nat} :
      h.Assigns tag length kind spec → spec.size = .fixed chunks →
      h.layout.chunksFor tag length = .ok needed → chunks < needed →
      Disallows h tag length (.invalidSize needed chunks)
  | tooBig {kind : KindId} {spec : Kind} {needed : Nat} :
      h.Assigns tag length kind spec → spec.size = .big →
      h.layout.chunksFor tag length = .ok needed → h.maxBigChunks < max needed 1 →
      Disallows h tag length (.invalidSize (max needed 1) h.maxBigChunks)

/-! ## The length -/

/-- A length that a kind takes is stored if the kind stores lengths. -/
theorem storedLength_eq (hs : storedLength kind spec length = .ok stored) :
    stored = (if spec.storesLength then some length else none) ∧
      (spec.length = .stored → length ≤ Word.max32) ∧
      ∀ n, spec.length = .constant n → length = n := by
  unfold storedLength at hs
  unfold Kind.storesLength
  cases hr : spec.length with
  | untracked =>
    rw [hr] at hs
    cases hs
    exact ⟨rfl, nofun, nofun⟩
  | stored =>
    simp only [hr] at hs
    split at hs
    · cases hs
    · next hle =>
      cases hs
      exact ⟨rfl, fun _ => Nat.le_of_not_lt hle, nofun⟩
  | constant n =>
    simp only [hr] at hs
    split at hs
    · next e =>
      cases hs
      exact ⟨rfl, nofun, fun m hm => e.trans (LengthRule.constant.inj hm)⟩
    · cases hs

theorem storedLength_isSome (hs : storedLength kind spec length = .ok stored) :
    stored.isSome = spec.storesLength := by
  rw [(storedLength_eq hs).1]
  cases spec.storesLength <;> rfl

theorem disallows_of_storedLength (ha : h.Assigns tag length kind spec)
    (he : storedLength kind spec length = .error e) : h.Disallows tag length e := by
  unfold storedLength at he
  cases hl : spec.length with
  | untracked =>
    rw [hl] at he
    cases he
  | stored =>
    simp only [hl] at he
    split at he
    · next hlong =>
      cases he
      exact .longLength ha hl hlong
    · cases he
  | constant expected =>
    simp only [hl] at he
    split at he
    · cases he
    · next hne =>
      cases he
      rw [ha.tag]
      exact .lengthMismatch ha hl hne

/-! ## The chunks -/

/-- How the chunks of a request are found: the layout has no answer, or
those of the kind are compared with those that are needed. -/
theorem requestedChunks_cases (h : Heap) (spec : Kind) (length : Nat) :
    (∃ f, h.layout.chunksFor spec.tag length = .error f ∧
      h.requestedChunks spec length = .error (.fault f)) ∨
    ∃ needed, h.layout.chunksFor spec.tag length = .ok needed ∧
      ((∃ n, spec.size = .fixed n ∧ h.requestedChunks spec length =
        if n < needed then .error (.refused (.invalidSize needed n)) else .ok n) ∨
      (spec.size = .big ∧ h.requestedChunks spec length =
        if h.maxBigChunks < max needed 1 then
          .error (.refused (.invalidSize (max needed 1) h.maxBigChunks))
        else .ok (max needed 1))) := by
  unfold requestedChunks
  cases hc : h.layout.chunksFor spec.tag length with
  | error f => exact Or.inl ⟨f, rfl, rfl⟩
  | ok needed =>
    refine Or.inr ⟨needed, rfl, ?_⟩
    simp only [Failure.ofExcept, bind, Except.bind]
    cases hs : spec.size with
    | fixed n =>
      refine Or.inl ⟨n, rfl, ?_⟩
      dsimp only
      split <;> rfl
    | big =>
      refine Or.inr ⟨rfl, ?_⟩
      dsimp only
      split <;> rfl

/-- They are those of the kind, and enough. -/
theorem requestedChunks_eq (hc : h.requestedChunks spec length = .ok chunks) :
    (∀ n, spec.size = .fixed n → chunks = n) ∧ (spec.size = .big → 0 < chunks) ∧
      ∃ needed, h.layout.chunksFor spec.tag length = .ok needed ∧ needed ≤ chunks := by
  rcases h.requestedChunks_cases spec length with ⟨_, _, e⟩ |
    ⟨needed, hneeded, ⟨n, hs, e⟩ | ⟨hs, e⟩⟩
  · cases e.symm.trans hc
  · rw [e] at hc
    split at hc
    · cases hc
    · next hle =>
      cases hc
      exact ⟨fun m hm => ObjectSize.fixed.inj (hs.symm.trans hm),
        fun hb => (by cases hs.symm.trans hb), needed, hneeded, Nat.le_of_not_lt hle⟩
  · rw [e] at hc
    split at hc
    · cases hc
    · cases hc
      exact ⟨fun n hn => (by cases hs.symm.trans hn),
        fun _ => Nat.lt_of_lt_of_le Nat.one_pos (Nat.le_max_right _ _),
        needed, hneeded, Nat.le_max_left _ _⟩

theorem disallows_of_requestedChunks (ha : h.Assigns tag length kind spec)
    (he : h.requestedChunks spec length = .error (.refused e)) : h.Disallows tag length e := by
  rcases h.requestedChunks_cases spec length with ⟨_, _, eq⟩ |
    ⟨needed, hneeded, ⟨n, hs, eq⟩ | ⟨hs, eq⟩⟩
  · cases eq.symm.trans he
  · rw [eq] at he
    split at he
    · next hlt =>
      cases he
      exact .tooLarge ha hs (ha.tag ▸ hneeded) hlt
    · cases he
  · rw [eq] at he
    split at he
    · next hlt =>
      cases he
      exact .tooBig ha hs (ha.tag ▸ hneeded) hlt
    · cases he

theorem fault_of_requestedChunks (he : h.requestedChunks spec length = .error (.fault f)) :
    h.layout.chunksFor spec.tag length = .error f := by
  rcases h.requestedChunks_cases spec length with ⟨g, hg, eq⟩ | ⟨_, _, ⟨_, _, eq⟩ | ⟨_, eq⟩⟩
  · cases eq.symm.trans he
    exact hg
  · rw [eq] at he
    split at he <;> cases he
  · rw [eq] at he
    split at he <;> cases he

/-! ## The request -/

/-- The request is one that the kind table can meet. -/
structure Valid (h : Heap) (r : Request) : Prop where
  kind : h.kinds.get? r.kind = some r.spec
  fixed : ∀ n, r.spec.size = .fixed n → r.chunks = n
  big : r.spec.size = .big → 0 < r.chunks
  stored : r.stored.isSome = r.spec.storesLength

/-- How the checks of a request go: the layout has no answer, one of them
refuses it, or it depends on the chunks that it takes. -/
theorem request_cases (h : Heap) (tag : TypeTag) (length : Nat) :
    (∃ f, h.layout.kindFor tag length = .error f ∧
      h.request tag length = .error (.fault f)) ∨
    (∃ e, h.Disallows tag length e ∧ h.request tag length = .error (.refused e)) ∨
    ∃ kind spec stored, h.Assigns tag length kind spec ∧
      storedLength kind spec length = .ok stored ∧
      h.request tag length =
        (h.requestedChunks spec length).map fun chunks => { kind, spec, chunks, stored } := by
  unfold request
  cases hk : h.layout.kindFor tag length with
  | error f => exact Or.inl ⟨f, rfl, rfl⟩
  | ok kind =>
    simp only [Failure.ofExcept, bind, Except.bind]
    cases hspec : h.kinds.get? kind with
    | none => exact Or.inr (Or.inl ⟨_, .unknownKind hk hspec, rfl⟩)
    | some spec =>
      by_cases htag : spec.tag = tag
      · have ha : h.Assigns tag length kind spec := ⟨hk, hspec, htag⟩
        simp only [htag, bne_self_eq_false, Bool.false_eq_true, if_false]
        cases hstored : storedLength kind spec length with
        | error e => exact Or.inr (Or.inl ⟨e, disallows_of_storedLength ha hstored, rfl⟩)
        | ok stored =>
          refine Or.inr (Or.inr ⟨kind, spec, stored, ha, hstored, ?_⟩)
          cases h.requestedChunks spec length <;> rfl
      · simp only [bne_iff_ne.mpr htag, if_true]
        exact Or.inr (Or.inl ⟨_, .kindMismatch hk hspec htag, rfl⟩)

/-- What a request that passes its checks is. -/
theorem checks_of_request {r : Request} (hr : h.request tag length = .ok r) :
    h.Assigns tag length r.kind r.spec ∧
      storedLength r.kind r.spec length = .ok r.stored ∧
      h.requestedChunks r.spec length = .ok r.chunks := by
  rcases h.request_cases tag length with ⟨_, _, eq⟩ | ⟨_, _, eq⟩ |
    ⟨kind, spec, stored, ha, hstored, eq⟩
  · cases eq.symm.trans hr
  · cases eq.symm.trans hr
  · rw [eq] at hr
    cases hchunks : h.requestedChunks spec length with
    | error e =>
      rw [hchunks] at hr
      cases hr
    | ok chunks =>
      rw [hchunks] at hr
      cases hr
      exact ⟨ha, hstored, hchunks⟩

/-- It is valid, and of the type asked for. -/
theorem valid_of_request {r : Request} (hr : h.request tag length = .ok r) :
    h.Valid r ∧ r.spec.tag = tag := by
  obtain ⟨ha, hstored, hchunks⟩ := checks_of_request hr
  obtain ⟨hfixed, hbig, _⟩ := requestedChunks_eq hchunks
  exact ⟨⟨ha.entry, hfixed, hbig, storedLength_isSome hstored⟩, ha.tag⟩

/-- A request that is refused fails one of the checks. -/
theorem disallows_of_request (he : h.request tag length = .error (.refused e)) :
    h.Disallows tag length e := by
  rcases h.request_cases tag length with ⟨_, _, eq⟩ | ⟨_, hd, eq⟩ | ⟨_, spec, _, ha, _, eq⟩
  · cases eq.symm.trans he
  · cases eq.symm.trans he
    exact hd
  · rw [eq] at he
    cases hc : h.requestedChunks spec length with
    | error e₁ =>
      rw [hc] at he
      cases he
      exact disallows_of_requestedChunks ha hc
    | ok chunks =>
      rw [hc] at he
      cases he

/-- A fault of a request is a fault of the layout. -/
theorem fault_of_request (hr : h.request tag length = .error (.fault f)) :
    h.layout.kindFor tag length = .error f ∨ ∃ t, h.layout.chunksFor t length = .error f := by
  rcases h.request_cases tag length with ⟨_, hk, eq⟩ | ⟨_, _, eq⟩ | ⟨_, spec, _, _, _, eq⟩
  · cases eq.symm.trans hr
    exact Or.inl hk
  · cases eq.symm.trans hr
  · rw [eq] at hr
    cases hc : h.requestedChunks spec length with
    | error g =>
      rw [hc] at hr
      cases hr
      exact Or.inr ⟨_, fault_of_requestedChunks hc⟩
    | ok n =>
      rw [hc] at hr
      cases hr

end SegmentedHeap.Heap
