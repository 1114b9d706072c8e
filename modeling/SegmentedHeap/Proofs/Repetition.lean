/-
SegmentedHeap.Proofs.Repetition — what a collection leaves for the next one.

A collection is followed by another at the same level, with the same
tracer. Nothing that the second one meets is new to the first: what it
keeps, and what leads it there, led the first one there already. And it
finds no garbage. After a collection at level zero there is no object of
that generation, and after a full one the roots lead to what they led to.
At level one it is the old-to-new set that matters: an object that the
first collection took to generation one is kept by an object that was in
scope as well, and may now be of generation two. It came of age then, so
that the set made anew holds it.

* `Sifted.met_before` — what the second collection meets.
* `Sifted.kept_young` — young objects are kept again at level one.
* `Sifted.no_garbage` — **there is nothing left to free**.
* `clean_again` — nor a stray reference to stop at.
-/
import SegmentedHeap.Proofs.Completeness

namespace SegmentedHeap

namespace Generation

theorem le_trans {a b c : Generation} (h : a ≤ b) (k : b ≤ c) : a ≤ c := Nat.le_trans h k

theorem lt_of_le_of_not_le {a b level : Generation} (h : a ≤ level) (k : ¬ b ≤ level) : a < b :=
  Nat.lt_of_le_of_lt h (Nat.lt_of_not_le k)

theorem eq_two_of_le {level : Generation} (h : Generation.two ≤ level) : level = .two := by
  cases level with
  | zero => exact absurd h (by decide)
  | one => exact absurd h (by decide)
  | two => rfl

theorem eq_zero_of_le {g : Generation} (h : g ≤ .zero) : g = .zero := by
  cases g with
  | zero => rfl
  | one => exact absurd h (by decide)
  | two => exact absurd h (by decide)

end Generation

namespace Heap

variable {σ : Type} {h h' : Heap} {tracer : Tracer σ} {level : Generation} {p q r : ObjRef}
  {x y z : Object}

/-! ## What is met again -/

/-- An object that a collection meets survives it. -/
theorem Met.not_garbage (hf : h.Formed) (hm : h.Met tracer level p) :
    ¬ h.IsGarbage tracer level p := by
  rintro ⟨_, hk, x, hx, hg⟩
  exact hk (kept_iff_met.mpr ⟨hm, hf.eligible_of_le hx hg⟩)

theorem Kept.not_garbage (hk : h.Kept tracer level p) : ¬ h.IsGarbage tracer level p :=
  fun hg => hg.2.1 hk

/-- Nothing gets younger, so that what is in scope afterwards was before. -/
theorem Sifted.eligible_before (hs : Sifted h tracer level h') (he : h'.Eligible level p) :
    h.Eligible level p := by
  obtain ⟨y, spec, hy, hspec, hscope⟩ := he
  obtain ⟨x, hx, _, e⟩ := hs.before hy
  rw [hs.setting.kinds] at hspec
  have hkind : y.kind = x.kind := by rw [e]; rfl
  refine ⟨x, spec, hx, hkind ▸ hspec, hscope.imp_right fun hg => ?_⟩
  have hle : x.generation ≤ y.generation := by
    rw [e]
    exact le_promoted x level _
  exact Generation.le_trans hle hg

/-- A survivor of a kind that is collected, if it was in scope, was kept. -/
theorem kept_of_not_garbage (hx : h.lookup p = some x) (hg : ¬ h.IsGarbage tracer level p)
    (hc : h.collectable p = true) (hle : x.generation ≤ level) : h.Kept tracer level p :=
  Classical.byContradiction fun hk => hg ⟨hc, hk, x, hx, hle⟩

/-- What a member of the old-to-new set yields was met before: the member
was remembered, or was kept itself. -/
theorem Sifted.met_of_remembered (hw : h.WellFormed) (hf' : h'.Formed)
    (hs : Sifted h tracer level h') (hr : h'.IsRemembered level r)
    (hp : p ∈ h'.refsOf tracer r) : h.Met tracer level p := by
  obtain ⟨hl, y, hy, hrem, hold⟩ := hr
  obtain ⟨x, hx, hg, _⟩ := hs.before hy
  obtain ⟨b, hy', hiff⟩ := hs.survived r x hx hg
  rw [hy] at hy'
  cases hy'
  rw [hs.refsOf hw.toFormed hf' hx hg] at hp
  by_cases hle : x.generation ≤ level
  · cases hc : h.collectable r with
    | true => exact Or.inr (Or.inr ⟨r, kept_of_not_garbage hx hg hc hle, hp⟩)
    | false =>
      rw [hw.generation_of_not_collectable hx hc] at hle
      exact absurd (Generation.eq_two_of_le hle) hl
  · rcases (hiff.mp hrem).2.1 with hrem | ⟨rfl, _, x', hx', hone⟩
    · exact Or.inr (Or.inl ⟨r, ⟨hl, x, hx, hrem, hle⟩, hp⟩)
    · rw [hx] at hx'
      cases hx'
      rw [hone] at hle
      exact absurd (Nat.le_refl _) hle

/-- **What the second collection keeps, the first one kept.** -/
theorem Sifted.kept_before (hw : h.WellFormed) (hf' : h'.Formed)
    (hs : Sifted h tracer level h') (hk : h'.Kept tracer level p) : h.Kept tracer level p := by
  induction hk with
  | root hr he => exact .root hr (hs.eligible_before he)
  | remembered hr hp he =>
    exact kept_iff_met.mpr ⟨hs.met_of_remembered hw hf' hr hp, hs.eligible_before he⟩
  | @step p q _ hp he ih =>
    obtain ⟨x, _, hx, _⟩ := ih.eligible
    rw [hs.refsOf hw.toFormed hf' hx ih.not_garbage] at hp
    exact .step ih hp (hs.eligible_before he)

/-- What the second collection meets, the first one met. -/
theorem Sifted.met_before (hw : h.WellFormed) (hf' : h'.Formed)
    (hs : Sifted h tracer level h') (hm : h'.Met tracer level p) : h.Met tracer level p := by
  rcases hm with hr | ⟨r, hr, hp⟩ | ⟨r, hk, hp⟩
  · exact Or.inl hr
  · exact hs.met_of_remembered hw hf' hr hp
  · have hk := hs.kept_before hw hf' hk
    obtain ⟨x, _, hx, _⟩ := hk.eligible
    rw [hs.refsOf hw.toFormed hf' hx hk.not_garbage] at hp
    exact Or.inr (Or.inr ⟨r, hk, hp⟩)

/-! ## Young objects are kept again -/

/-- What an old object yields is kept, if the old-to-new set held it
before or it has come of age. -/
theorem Sifted.kept_of_older (hw : h.WellFormed) (hf' : h'.Formed)
    (hs : Sifted h tracer level h') (hl : level ≠ .two) (hx : h.lookup r = some x)
    (hg : ¬ h.IsGarbage tracer level r) (hr : x.remembered = true ∨ h.ComesOfAge level r)
    (hz : h'.lookup r = some z) (hold : ¬ z.generation ≤ level) (hq : q ∈ h.refsOf tracer r)
    (hy : h'.lookup q = some y) (hyoung : y.generation ≤ level) : h'.Kept tracer level q := by
  rw [← hs.refsOf hw.toFormed hf' hx hg] at hq
  obtain ⟨b, hz', hiff⟩ := hs.survived r x hx hg
  rw [hz] at hz'
  cases hz'
  have hyields : h'.YieldsYounger tracer r :=
    ⟨_, hz, q, hq, y, hy, Generation.lt_of_le_of_not_le hyoung hold⟩
  exact .remembered ⟨hl, _, hz, hiff.mpr ⟨hl, hr, hyields⟩, hold⟩ hq
    (hf'.eligible_of_le hy hyoung)

/-- A kept object of a kind that is collected is in scope. -/
theorem Kept.generation_le (hk : h.Kept tracer level r) (hx : h.lookup r = some x)
    (hc : h.collectable r = true) : x.generation ≤ level := by
  obtain ⟨x', spec, hx', hspec, hscope⟩ := hk.eligible
  rw [hx] at hx'
  cases hx'
  rw [collectable, hx, Option.bind_some, hspec, Option.any_some] at hc
  exact hscope.resolve_left fun hu => by simp [hu] at hc

/-- If a collection at level one takes it to generation two it comes of
age. -/
theorem Kept.comesOfAge (hk : h.Kept tracer .one r) (hx : h.lookup r = some x)
    (hc : h.collectable r = true)
    (hmoved : ¬ (x.promoted .one (h.collectable r)).generation ≤ .one) :
    h.ComesOfAge .one r := by
  refine ⟨rfl, hc, x, hx, ?_⟩
  have hle := hk.generation_le hx hc
  rw [Object.promoted, if_pos ⟨hc, hle⟩] at hmoved
  cases hg : x.generation with
  | zero =>
    rw [hg] at hmoved
    exact absurd (show Generation.one ≤ .one by decide) hmoved
  | one => rfl
  | two =>
    rw [hg] at hle
    exact absurd hle (by decide)

/-- **A young object that a collection at level one kept is kept by the
next.** Its holder is young too, or has come of age, or is one of the
uncollected objects, which a complete set remembers. -/
theorem Sifted.kept_young (hw : h.WellFormed) (hf' : h'.Formed) (hs : Sifted h tracer .one h')
    (hb : h.BarrierComplete tracer) (hk : h.Kept tracer .one q) (hy : h'.lookup q = some y)
    (hyoung : y.generation ≤ .one) : h'.Kept tracer .one q := by
  -- Induction on how the object was kept the first time. A young one keeps what it
  -- leads to; one that is too old for the level is in the old-to-new set.
  induction hk generalizing y with
  | root hr _ => exact .root hr (hf'.eligible_of_le hy hyoung)
  | @remembered q r hr hq _ =>
    obtain ⟨hl, x, hx, hrem, hold⟩ := hr
    have hg : ¬ h.IsGarbage tracer .one r := fun ⟨_, _, x', hx', hle⟩ => by
      rw [hx] at hx'
      cases hx'
      exact hold hle
    obtain ⟨b, hz, _⟩ := hs.survived r x hx hg
    exact hs.kept_of_older hw hf' hl hx hg (Or.inl hrem) hz
      (fun hle => hold (Generation.le_trans (le_promoted x .one _) hle)) hq hy hyoung
  | @step q r hk hq _ ih =>
    obtain ⟨x, spec, hx, hspec, hscope⟩ := hk.eligible
    obtain ⟨b, hz, _⟩ := hs.survived r x hx hk.not_garbage
    obtain ⟨x', hx', _, e⟩ := hs.generation hw hz
    rw [hx] at hx'
    cases hx'
    by_cases hle : (x.promoted .one (h.collectable r)).generation ≤ .one
    · have hq' := hq
      rw [← hs.refsOf hw.toFormed hf' hx hk.not_garbage] at hq'
      exact .step (ih hz hle) hq' (hf'.eligible_of_le hy hyoung)
    · refine hs.kept_of_older hw hf' (by decide) hx hk.not_garbage ?_ hz hle hq hy hyoung
      cases hc : h.collectable r with
      | true => exact Or.inr (hk.comesOfAge hx hc hle)
      | false =>
        obtain ⟨w, hw', _, ew⟩ := hs.before hy
        have hlt : w.generation < x.generation := by
          rw [hw.generation_of_not_collectable hx hc]
          have hle' := le_promoted w .one (h.collectable q)
          rw [ew] at hyoung
          exact Generation.lt_of_le_of_not_le (Generation.le_trans hle' hyoung) (by decide)
        exact Or.inl (hw.barrierComplete_iff.mp hb r x hx ⟨x, hx, q, hq, w, hw', hlt⟩)

/-! ## No garbage -/

/-- What the roots led to before a full collection they lead to after it. -/
theorem Sifted.live (hf : h.Formed) (hf' : h'.Formed) (hs : Sifted h tracer .two h')
    (hl : h.Live tracer p) : h'.Live tracer p := by
  have hstays : ∀ p, h.Live tracer p → h'.isAllocated p = true := fun p hl => by
    obtain ⟨x, hx⟩ := hf.isAllocated_iff_lookup.mp hl.isAllocated
    obtain ⟨b, hy, _⟩ := hs.survived p x hx ((kept_two_iff_live hf).mpr hl).not_garbage
    exact hf'.isAllocated_iff_lookup.mpr ⟨_, hy⟩
  induction hl with
  | root hr ha => exact .root hr (hstays _ (.root hr ha))
  | @step p q hl hp ha ih =>
    obtain ⟨x, hx⟩ := hf.isAllocated_iff_lookup.mp hl.isAllocated
    have hp' := hp
    rw [← hs.refsOf hf hf' hx ((kept_two_iff_live hf).mpr hl).not_garbage] at hp'
    exact .step ih hp' (hstays _ (.step hl hp ha))

/-- **After a collection there is no garbage** at its level. Only at level
one has the old-to-new set to be complete for that. -/
theorem Sifted.no_garbage (hw : h.WellFormed) (hf' : h'.Formed) (hs : Sifted h tracer level h')
    (hb : level = .one → h.BarrierComplete tracer) (q : ObjRef) :
    ¬ h'.IsGarbage tracer level q := by
  rintro ⟨hc, hk, y, hy, hle⟩
  obtain ⟨x, hx, hg, e⟩ := hs.before hy
  have hc' : h.collectable q = true := by
    rw [← hc, collectable, collectable, hx, hy, hs.setting.kinds, e]
    rfl
  have hmoved : x.generation ≤ y.generation := by
    rw [e]
    exact le_promoted x level _
  have hkept := kept_of_not_garbage hx hg hc' (Generation.le_trans hmoved hle)
  cases level with
  | zero =>
    obtain ⟨_, _, _, eg⟩ := hs.generation hw hy
    rw [eg] at hle
    exact (movesTo_ne_zero .zero _).1 (Generation.eq_zero_of_le hle)
  | one => exact hk (hs.kept_young hw hf' (hb rfl) hkept hy hle)
  | two =>
    rw [kept_two_iff_live hw.toFormed] at hkept
    exact hk ((kept_two_iff_live hf').mpr (hs.live hw.toFormed hf' hkept))

/-! ## No stray reference -/

/-- **A collection that returned leaves no stray reference** for the next
one to stop at. -/
theorem clean_again {r : CollectionReport × σ} {log : σ} (hw : h.WellFormed)
    (he : collect tracer level log h = .ok r h') (hcheck : h'.config.checkRefs = true) :
    (h'.mark tracer level).stray = none := by
  have hc := (collect_ends hw tracer level log).of_ok he
  have hf' := hc.wellFormed.toFormed
  have hm := marked hw.toFormed tracer level
  have hclean : (h.mark tracer level).stray = none := by
    simp only [collect, hm.setting.config, ← hc.setting.config, hcheck, if_true] at he
    cases hstray : (h.mark tracer level).stray with
    | none => rfl
    | some p =>
      rw [hstray] at he
      cases he
  refine Option.eq_none_iff_forall_ne_some.mpr fun p hp => ?_
  obtain ⟨hmet, hne, hnone⟩ := (marked hf' tracer level).stray p hp
  have hmet := hc.met_before hw hf' hmet
  rcases hm.clean hclean p hmet with hnull | ⟨x, hx⟩
  · exact hne hnull
  · obtain ⟨b, hy, _⟩ := hc.survived p x hx (hmet.not_garbage hw.toFormed)
    rw [hnone] at hy
    cases hy

end Heap

end SegmentedHeap
