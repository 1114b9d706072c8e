/-
SegmentedHeap.Proofs.Writing — what a store to an object does.

A store changes the bytes of one object, from one position on, and no
other object. A store of a reference goes through the barrier: the object
joins the old-to-new set if the reference is to a younger one.

* `setBytes_ends`, `register_ends`, `writeRef_ends` — the operations.
* `view_written` — what a runtime can see of an object afterwards.
-/
import SegmentedHeap.Heap.Barrier
import SegmentedHeap.Proofs.Allocation

namespace SegmentedHeap

/-! ## Bytes -/

/-- The bytes with those from `start` on overwritten. -/
def overwrite (old : List UInt8) (start : Nat) (new : List UInt8) : List UInt8 :=
  old.take start ++ new ++ old.drop (start + new.length)

theorem length_overwrite {old new : List UInt8} {start : Nat}
    (h : start + new.length ≤ old.length) : (overwrite old start new).length = old.length := by
  simp only [overwrite, List.length_append, List.length_take, List.length_drop]
  omega

theorem getElem?_overwrite {old new : List UInt8} {start : Nat}
    (h : start + new.length ≤ old.length) (i : Nat) :
    (overwrite old start new)[i]? =
      if start ≤ i ∧ i < start + new.length then new[i - start]? else old[i]? := by
  have htake : (old.take start).length = start := by
    rw [List.length_take]
    omega
  rw [overwrite, List.getElem?_append, List.length_append, htake]
  by_cases hi : i < start + new.length
  · rw [if_pos hi, List.getElem?_append, htake]
    by_cases hs : i < start
    · rw [if_pos hs, if_neg (by omega), List.getElem?_take, if_pos hs]
    · rw [if_neg hs, if_pos (by omega)]
  · rw [if_neg hi, if_neg (by omega), List.getElem?_drop]
    congr 1
    omega

theorem Memory.load_store {m : Memory} {a : Address} (h : a.region < m.regions.size)
    {n start : Nat} {new : List UInt8} (hn : start + new.length ≤ n) :
    (m.store (a.advance start) new).load a n = overwrite (m.load a n) start new := by
  apply List.ext_getElem?
  intro i
  rw [getElem?_overwrite (by rw [Memory.length_load]; exact hn)]
  by_cases hi : i < n
  · have hread := Memory.read_store m (a.advance start) (a.advance i) new h
    simp only [Address.advance, true_and, Nat.add_le_add_iff_left, Nat.add_sub_add_left] at hread
    have hl : (Memory.load m a n)[i]? = some (m.read (a.advance i)) := by simp [Memory.load, hi]
    have hl' : (Memory.load (m.store (a.advance start) new) a n)[i]? =
        some ((m.store (a.advance start) new).read (a.advance i)) := by simp [Memory.load, hi]
    rw [hl, hl']
    simp only [Address.advance]
    rw [hread]
    by_cases hs : start ≤ i
    · rw [if_pos hs]
      by_cases he : i < start + new.length
      · rw [if_pos ⟨hs, he⟩, List.getElem?_eq_getElem (by omega), Option.getD_some]
      · rw [if_neg (fun hc => he hc.2), List.getElem?_eq_none (by omega), Option.getD_none]
    · rw [if_neg hs, if_neg (fun hc => hs hc.1)]
  · rw [if_neg (by omega), List.getElem?_eq_none (by rw [Memory.length_load]; omega),
      List.getElem?_eq_none (by rw [Memory.length_load]; omega)]

theorem Memory.size_store (m : Memory) (a : Address) (bytes : List UInt8) :
    (m.store a bytes).regions.size = m.regions.size := Array.size_modify

/-- The object with a reference in a field. -/
def Object.withRef (x : Object) (field : Nat) (r : ObjRef) : Object :=
  { x with bytes :=
      overwrite x.bytes (field * refBytes) (LittleEndian.encode refBytes r.raw.toNat) }

namespace Heap

variable {h : Heap} {p : ObjRef} {x : Object}

/-- Storing to the bytes of an object. -/
theorem changed_store (hf : h.Formed) (hx : h.lookup p = some x) {start : Nat}
    {new : List UInt8} (hn : start + new.length ≤ x.bytes.length) :
    Changed h p (some { x with bytes := overwrite x.bytes start new })
      (h.setMemory (h.store.memory.store (x.address.advance start) new)) := by
  have hlt := hf.region_lt_of_lookup hx
  have hc := changed_setMemory hf hx (m := h.store.memory.store (x.address.advance start) new)
    (Memory.size_store _ _ _) fun a ha => ?_
  · rw [Memory.load_store hlt hn, ← bytes_of_lookup hx] at hc
    exact hc
  · rw [Memory.read_store _ (x.address.advance start) a new hlt]
    split
    · next hc =>
      have hlo : x.address.offset + start ≤ a.offset := hc.2
      rw [List.getElem?_eq_none, Option.getD_none]
      apply Nat.le_of_not_lt
      intro hlt
      have hlt : a.offset - (x.address.offset + start) < new.length := hlt
      exact ha ⟨hc.1.symm, by omega, by omega⟩
    · rfl

/-- A change that leaves the generation alone keeps what is never
collected in generation two. -/
theorem Changed.wellFormed {h' : Heap} {y : Object} (hw : h.WellFormed)
    (hc : Changed h p (some y) h') (hx : h.lookup p = some x) (hk : y.kind = x.kind)
    (hg : y.generation = x.generation) : h'.WellFormed := by
  refine ⟨hc.formed, hc.filed hw.toFiled, hc.permanent hw.permanent fun z spec hz hspec hu => ?_⟩
  cases hz
  rw [hg]
  exact hw.permanent p x spec hx (hk ▸ hspec) hu

/-- **A store changes the bytes of one object.** It meets a fault unless
the object is allocated and has the bytes. -/
theorem setBytes_ends (hw : h.WellFormed) (p : ObjRef) (start : Nat) (new : List UInt8) :
    Ends (setBytes p start new h)
      (fun _ h' => ∃ x, h.lookup p = some x ∧ start + new.length ≤ x.bytes.length ∧
        h'.WellFormed ∧ Changed h p (some { x with bytes := overwrite x.bytes start new }) h' ∧
        h'.store.segments = h.store.segments)
      (fun _ _ => False)
      (fun f => (f = .unallocated ∧ h.lookup p = none) ∨
        (f = .outOfBounds ∧ ∀ x, h.lookup p = some x → x.bytes.length < start + new.length)) := by
  have hf := hw.toFormed
  unfold setBytes
  refine Ends.get_bind ?_
  cases hx : h.lookup p with
  | none =>
    rw [hf.not_isAllocated_iff_lookup.mpr hx]
    exact Or.inl ⟨rfl, rfl⟩
  | some x =>
    rw [hf.isAllocated_iff_lookup.mpr ⟨x, hx⟩]
    refine Ends.ask_bind (capacity_of_lookup hx) ?_
    by_cases hn : x.bytes.length < start + new.length
    · simp only [hn, if_true]
      exact Or.inr ⟨rfl, fun y hy => Option.some.inj hy ▸ hn⟩
    · simp only [hn, if_false]
      refine Ends.ask_bind (addressOf_of_lookup hx) ?_
      have hn := Nat.le_of_not_lt hn
      have hc := changed_store hf hx hn
      exact ⟨x, rfl, hn, hc.wellFormed hw hx rfl rfl, hc, rfl⟩

/-! ## References -/

/-- The reference read from a field of an allocated object. -/
theorem readRef_of_lookup (hf : h.Formed) (hx : h.lookup p = some x) {spec : Kind}
    (hspec : h.kinds.get? x.kind = some spec) (field : Nat) :
    h.readRef p field = match (x.view spec).ref? field with
      | some r => .ok r
      | none => .error (.fieldOutOfRange p field x.bytes.length) := by
  rw [readRef, view?_of_lookup hf hx hspec]
  rfl

theorem Formed.readRef_of_none (hf : h.Formed) (hn : h.lookup p = none) (field : Nat) :
    h.readRef p field = .error (.dangling p) := by
  rw [readRef, hf.view?_of_none hn]

theorem ref?_eq_some {v : ObjectView} {field : Nat} :
    (∃ r, v.ref? field = some r) ↔ field * refBytes + refBytes ≤ v.capacity := by
  unfold ObjectView.ref?
  split
  · next hc => exact ⟨fun _ => hc, fun _ => ⟨_, rfl⟩⟩
  · next hc => exact ⟨fun ⟨r, hr⟩ => (nomatch hr), fun hn => absurd hn hc⟩

/-! ## The barrier -/

/-- Whether the slot that a reference names is of a generation below `g`. -/
def YoungerSlot (h : Heap) (target : ObjRef) (g : Generation) : Prop :=
  target ≠ ObjRef.null ∧ ∃ younger, h.generationOf target = .ok younger ∧ younger < g

theorem youngerSlot_of_lookup {y : Object} (hf : h.Formed) (hy : h.lookup p = some y)
    (g : Generation) : h.YoungerSlot p g ↔ y.generation < g := by
  rw [YoungerSlot, generationOf_of_lookup hy]
  constructor
  · rintro ⟨_, _, hg, hlt⟩
    cases hg
    exact hlt
  · exact fun hlt => ⟨hf.ne_null_of_lookup hy, _, rfl, hlt⟩

/-- A reserved segment says of which generation a slot is; of no other is
it known. -/
theorem generationOf_cases (h : Heap) (p : ObjRef) :
    (∃ s, h.store.segment? p.segment = some s ∧ h.generationOf p = .ok (s.generation p.offset)) ∨
    (h.store.segment? p.segment = none ∧ h.generationOf p = .error (.unreserved p.segment)) := by
  cases hs : h.store.segment? p.segment with
  | some s =>
    refine Or.inl ⟨s, rfl, ?_⟩
    simp only [generationOf, segment, Store.segment, hs]
    rfl
  | none =>
    refine Or.inr ⟨rfl, ?_⟩
    simp only [generationOf, segment, Store.segment, hs]
    rfl

/-- The slot of an object that is not allocated is of generation zero. -/
theorem generationOf_of_none (hf : h.Formed) (hn : h.lookup p = none) {g : Generation}
    (hg : h.generationOf p = .ok g) : g = .zero := by
  rcases generationOf_cases h p with ⟨s, hs, e⟩ | ⟨_, e⟩
  · rw [hg] at e
    cases e
    refine (hf.store.segment_wf _ s hs).generation_of_not_allocated fun ho => ?_
    rw [lookup_of_segment? hs, Segment.object?_of_mem ho] at hn
    cases hn
  · rw [hg] at e
    cases e

/-- What registering that `source` refers to `target` leaves of a heap. -/
structure Registered (h : Heap) (source target : ObjRef) (h' : Heap) : Prop where
  wellFormed : h'.WellFormed
  setting : SameSetting h h'
  absent : h.lookup source = none → h'.lookup source = none
  present : ∀ x, h.lookup source = some x → ∃ b,
    h'.lookup source = some { x with remembered := b } ∧
    (b = true ↔ x.remembered = true ∨ h.YoungerSlot target x.generation)
  others : ∀ q, q ≠ source → h'.lookup q = h.lookup q

/-- Nothing has to be done for a reference to a slot that is not
younger. -/
theorem registered_refl (hw : h.WellFormed) {source target : ObjRef}
    (hn : ∀ x, h.lookup source = some x → ¬ h.YoungerSlot target x.generation) :
    Registered h source target h where
  wellFormed := hw
  setting := .refl h
  absent := id
  present x hx := ⟨x.remembered, hx, fun hr => Or.inl hr, fun hr => hr.resolve_right (hn x hx)⟩
  others _ _ := rfl

/-- A slot that holds no object is younger than none. -/
theorem exists_of_generation (hf : h.Formed) {g : Generation} (hg : h.generationOf p = .ok g)
    (hne : g ≠ .zero) : ∃ x, h.lookup p = some x ∧ x.generation = g := by
  cases hx : h.lookup p with
  | none => exact absurd (generationOf_of_none hf hx hg) hne
  | some x =>
    rw [generationOf_of_lookup hx] at hg
    exact ⟨x, rfl, Except.ok.inj hg⟩

/-- An object is remembered if it is of an older generation than the slot
that it refers to. -/
theorem registered_older (hw : h.WellFormed) {source target : ObjRef} (ht : target ≠ .null)
    {g g' : Generation} (hg : h.generationOf target = .ok g) (hg' : h.generationOf source = .ok g')
    (hlt : g < g') : Registered h source target
      (h.modifySegment source.segment (·.addOldToNew source.offset)) := by
  have hne : g' ≠ .zero := by
    rintro rfl
    rw [Generation.lt_iff] at hlt
    exact absurd hlt (Nat.not_lt_zero _)
  obtain ⟨x, hx, rfl⟩ := exists_of_generation hw.toFormed hg' hne
  have hc := changed_addOldToNew hw.toFormed hx hne
  refine ⟨hc.wellFormed hw hx rfl rfl, hc.setting, fun hn => ?_, fun y hy => ?_,
    fun q hq => hc.lookup_other hq⟩
  · rw [hx] at hn
    cases hn
  · rw [hx] at hy
    cases hy
    exact ⟨true, hc.lookup_self, fun _ => Or.inr ⟨ht, g, hg, hlt⟩, fun _ => rfl⟩

theorem register_ends (hw : h.WellFormed) (source target : ObjRef) :
    Ends (register source target h) (fun _ h' => Registered h source target h')
      (fun _ _ => False)
      (fun f => ∃ i, f = .unreserved i ∧ h.store.segment? i = none ∧
        (i = target.segment ∧ target ≠ .null ∨ i = source.segment ∧ source ≠ .null)) := by
  have hf := hw.toFormed
  unfold register
  by_cases hnull : source = .null ∨ target = .null
  · have hc : (source.isNull || target.isNull) = true := by
      rw [Bool.or_eq_true, ObjRef.isNull_iff, ObjRef.isNull_iff]
      exact hnull
    rw [hc]
    refine registered_refl hw fun x hx hy => ?_
    rcases hnull with e | e
    · exact hf.ne_null_of_lookup hx e
    · exact hy.1 e
  · have hc : (source.isNull || target.isNull) = false := by
      rw [Bool.eq_false_iff, ne_eq, Bool.or_eq_true, ObjRef.isNull_iff, ObjRef.isNull_iff]
      exact hnull
    obtain ⟨hs, ht⟩ := not_or.mp hnull
    rw [hc]
    show Ends ((ask (·.generationOf target) >>= _) h) _ _ _
    -- the target's generation is asked for first, so its fault comes first
    rcases generationOf_cases h target with ⟨t, _, hyounger⟩ | ⟨hnone, hfault⟩
    · refine Ends.ask_bind hyounger ?_
      rcases generationOf_cases h source with ⟨s, _, holder⟩ | ⟨hnone, hfault⟩
      · refine Ends.ask_bind holder ?_
        by_cases hlt : t.generation target.offset < s.generation source.offset
        · simp only [hlt, if_true]
          exact registered_older hw ht hyounger holder hlt
        · simp only [hlt, if_false]
          refine registered_refl hw fun x hx hy => hlt ?_
          obtain ⟨_, g, hg, hlt'⟩ := hy
          rw [hyounger] at hg
          rw [generationOf_of_lookup hx] at holder
          rw [Except.ok.inj hg, ← Except.ok.inj holder]
          exact hlt'
      · exact Ends.ask_bind_fault hfault ⟨_, rfl, hnone, Or.inr ⟨rfl, hs⟩⟩
    · exact Ends.ask_bind_fault hfault ⟨_, rfl, hnone, Or.inl ⟨rfl, ht⟩⟩

/-! ## Storing a reference -/

/-- What storing a reference leaves of a heap. -/
structure Written (h : Heap) (source : ObjRef) (field : Nat) (target : ObjRef) (h' : Heap) :
    Prop where
  wellFormed : h'.WellFormed
  setting : SameSetting h h'
  holder : ∃ x b, h.lookup source = some x ∧ field * refBytes + refBytes ≤ x.bytes.length ∧
    h'.lookup source = some { x.withRef field target with remembered := b } ∧
    (b = true ↔ x.remembered = true ∨ h.YoungerSlot target x.generation)
  others : ∀ q, q ≠ source → h'.lookup q = h.lookup q

/-- **Storing a reference changes one field of one object**, which joins
the old-to-new set if the reference is to a younger slot. It is refused
where there is no such object or field, and changes nothing then. -/
theorem writeRef_ends (hw : h.WellFormed) (source : ObjRef) (field : Nat) (target : ObjRef) :
    Ends (writeRef source field target h) (fun _ h' => Written h source field target h')
      (fun _ h' => h' = h ∧
        ∀ x, h.lookup source = some x → x.bytes.length < field * refBytes + refBytes)
      (fun f => f = .unreserved target.segment ∧ h.store.segment? target.segment = none ∧
        target ≠ .null) := by
  have hf := hw.toFormed
  unfold writeRef
  refine Ends.get_bind ?_
  cases hx : h.lookup source with
  | none =>
    rw [hf.readRef_of_none hx]
    exact ⟨rfl, nofun⟩
  | some x =>
    obtain ⟨spec, hspec⟩ := hf.spec_of_lookup hx
    rw [readRef_of_lookup hf hx hspec]
    cases hr : (x.view spec).ref? field with
    | none =>
      refine ⟨rfl, fun y hy => Nat.lt_of_not_le fun hle => ?_⟩
      cases hy
      obtain ⟨r, hr'⟩ := ref?_eq_some.mpr (show field * refBytes + refBytes ≤
        (x.view spec).capacity from hle)
      rw [hr] at hr'
      cases hr'
    | some r =>
      -- the field was read, so the bytes have room for it
      have hroom : field * refBytes + refBytes ≤ x.bytes.length := ref?_eq_some.mp ⟨r, hr⟩
      refine Ends.bind ((setBytes_ends hw source _ _).mono (fun _ _ hs => hs)
        (fun _ _ hn => hn.elim) fun f hn => ?_) fun _ h₁ hs => ?_
      · rcases hn with ⟨_, hn⟩ | ⟨_, hn⟩
        · rw [hx] at hn
          cases hn
        · have := hn x hx
          rw [LittleEndian.length_encode] at this
          omega
      · obtain ⟨y, hy, _, hw₁, hc, hsegs⟩ := hs
        rw [hx] at hy
        cases hy
        have hseg : ∀ i, h₁.store.segment? i = h.store.segment? i := fun i => by
          rw [Store.segment?, Store.segment?, hsegs]
        -- the write changes memory only, and moves no generation
        have hyoung : ∀ g, h₁.YoungerSlot target g ↔ h.YoungerSlot target g := fun g => by
          simp only [YoungerSlot, generationOf, segment, Store.segment, hseg]
        refine (register_ends hw₁ source target).mono (fun _ h₂ hr => ?_) (fun _ _ hn => hn.elim)
          fun f hfault => ?_
        · obtain ⟨b, hb, hiff⟩ := hr.present _ hc.lookup_self
          refine ⟨hr.wellFormed, hc.setting.trans hr.setting, ⟨x, b, hx, hroom, hb, ?_⟩,
            fun q hq => (hr.others q hq).trans (hc.lookup_other hq)⟩
          exact hiff.trans (or_congr_right (hyoung _))
        · obtain ⟨i, rfl, hnone, ⟨rfl, hne⟩ | ⟨rfl, _⟩⟩ := hfault
          · rw [hseg] at hnone
            exact ⟨rfl, hnone, hne⟩
          · obtain ⟨s, hs, _⟩ := lookup_eq_some.mp hx
            rw [hseg, hs] at hnone
            cases hnone

/-! ## Objects that stay -/

/-- No object comes or goes, and none is of another kind afterwards. -/
structure SameObjects (h h' : Heap) : Prop where
  setting : SameSetting h h'
  kind : ∀ p, (h'.lookup p).map Object.kind = (h.lookup p).map Object.kind

section SameObjects

variable {h' : Heap} {y : Object} {source target : ObjRef}

theorem SameObjects.isSome (hs : SameObjects h h') (hx : h.lookup p = some x) :
    ∃ y, h'.lookup p = some y := by
  have e := hs.kind p
  rw [hx] at e
  obtain ⟨y, hy, _⟩ := Option.map_eq_some_iff.mp e
  exact ⟨y, hy⟩

/-- The same references are valid. -/
theorem SameObjects.isAllocated_iff (hs : SameObjects h h') (hf : h.Formed) (hf' : h'.Formed)
    (q : ObjRef) : h'.isAllocated q = true ↔ h.isAllocated q = true := by
  have e := hs.kind q
  rw [hf.isAllocated_iff_lookup, hf'.isAllocated_iff_lookup]
  cases hx : h.lookup q <;> cases hy : h'.lookup q <;> simp_all

theorem Written.sameObjects {field : Nat} (hw : Written h source field target h') :
    SameObjects h h' := by
  refine ⟨hw.setting, fun p => ?_⟩
  obtain ⟨x, b, hx, _, hy, _⟩ := hw.holder
  by_cases e : p = source
  · rw [e, hx, hy]
    rfl
  · rw [hw.others p e]

theorem Changed.sameObjects (hd : Changed h p (some y) h') (hx : h.lookup p = some x)
    (hk : y.kind = x.kind) : SameObjects h h' := by
  refine ⟨hd.setting, fun q => ?_⟩
  by_cases e : q = p
  · rw [e, hd.lookup_self, hx]
    exact congrArg some hk
  · rw [hd.lookup_other e]

theorem Registered.sameObjects (hr : Registered h source target h') : SameObjects h h' := by
  refine ⟨hr.setting, fun p => ?_⟩
  by_cases e : p = source
  · cases hx : h.lookup source with
    | none => rw [e, hx, hr.absent hx]
    | some x =>
      obtain ⟨b, hy, _⟩ := hr.present x hx
      rw [e, hx, hy]
      rfl
  · rw [hr.others p e]

end SameObjects

end Heap

/-! ## What a runtime sees of a stored reference -/

namespace ObjectView

/-- The view with a reference in a field. -/
def setRef (v : ObjectView) (field : Nat) (r : ObjRef) : ObjectView :=
  { v with byte := fun i =>
      if field * refBytes ≤ i ∧ i < field * refBytes + refBytes then
        (LittleEndian.encode refBytes r.raw.toNat).getD (i - field * refBytes) 0
      else v.byte i }

variable {v : ObjectView} {field : Nat}

/-- A stored reference is read back. -/
theorem ref?_setRef_self (h : field * refBytes + refBytes ≤ v.capacity) (r : ObjRef) :
    (v.setRef field r).ref? field = some r := by
  have hbytes :
      (List.range refBytes).map (fun i => (v.setRef field r).byte (field * refBytes + i)) =
      LittleEndian.encode refBytes r.raw.toNat := by
    apply List.ext_getElem (by simp)
    intro i hi hi'
    rw [List.length_map, List.length_range] at hi
    rw [List.getElem_map, List.getElem_range]
    show (if _ ∧ _ then _ else _) = _
    rw [if_pos ⟨Nat.le_add_right _ _, Nat.add_lt_add_left hi _⟩, Nat.add_sub_cancel_left,
      List.getD_eq_getElem?_getD, List.getElem?_eq_getElem hi', Option.getD_some]
  unfold ref?
  rw [if_pos (show field * refBytes + refBytes ≤ (v.setRef field r).capacity from h)]
  have hlt : r.raw.toNat < Nat.pow 256 refBytes := r.raw.toNat_lt
  rw [number, hbytes, LittleEndian.decode_encode, Nat.mod_eq_of_lt hlt, UInt32.ofNat_toNat]

/-- The references in other fields stay. -/
theorem ref?_setRef_other {other : Nat} (hne : other ≠ field) (r : ObjRef) :
    (v.setRef field r).ref? other = v.ref? other := by
  have hbytes :
      (List.range refBytes).map (fun i => (v.setRef field r).byte (other * refBytes + i)) =
      (List.range refBytes).map fun i => v.byte (other * refBytes + i) := by
    apply List.map_congr_left
    intro i hi
    have hi : i < refBytes := List.mem_range.mp hi
    show (if _ ∧ _ then _ else _) = _
    rw [if_neg]
    unfold refBytes at hi ⊢
    omega
  unfold ref? number
  rw [hbytes]
  rfl

/-- The references in the first fields, after one was stored. -/
theorem mem_refs_setRef (h : field * refBytes + refBytes ≤ v.capacity) {r y : ObjRef}
    {count : Nat} (hy : y ∈ (v.setRef field r).refs count) : y = r ∨ y ∈ v.refs count := by
  obtain ⟨i, hi, hr⟩ := List.mem_filterMap.mp hy
  by_cases e : i = field
  · subst e
    rw [ref?_setRef_self h] at hr
    exact Or.inl (Option.some.inj hr).symm
  · rw [ref?_setRef_other e] at hr
    exact Or.inr (List.mem_filterMap.mpr ⟨i, hi, hr⟩)

end ObjectView

theorem Object.view_withRef {x : Object} {field : Nat}
    (h : field * refBytes + refBytes ≤ x.bytes.length) (spec : Kind) (r : ObjRef) :
    (x.withRef field r).view spec = (x.view spec).setRef field r := by
  have hlen : field * refBytes + (LittleEndian.encode refBytes r.raw.toNat).length ≤
      x.bytes.length := by
    rw [LittleEndian.length_encode]
    exact h
  have hbyte : ∀ i, (x.withRef field r).bytes.getD i 0 = ((x.view spec).setRef field r).byte i := by
    intro i
    rw [Object.withRef, List.getD_eq_getElem?_getD, getElem?_overwrite hlen,
      LittleEndian.length_encode]
    show _ = if _ ∧ _ then _ else x.bytes.getD i 0
    split
    · rw [List.getD_eq_getElem?_getD]
    · rw [List.getD_eq_getElem?_getD]
  have hcap : (x.withRef field r).bytes.length = x.bytes.length := length_overwrite hlen
  unfold Object.view
  rw [hcap, funext hbyte]
  rfl

/-! ## Tracers that go by fields -/

/-- A tracer yields the references that an object holds in its fields:
storing one in a field adds no other to those that it yields. -/
def Tracer.Fieldwise {σ : Type} (tracer : Tracer σ) : Prop :=
  ∀ (v : ObjectView) (field : Nat) (r : ObjRef), field * refBytes + refBytes ≤ v.capacity →
    ∀ y ∈ tracer.refs (v.setRef field r), y = r ∨ y ∈ tracer.refs v

/-- A table of rules goes by fields. -/
theorem ScanTable.fieldwise {σ : Type} {tracer : Tracer σ} (t : ScanTable)
    (hr : tracer.refs = t.refs) : tracer.Fieldwise := by
  intro v field r hroom y hy
  rw [hr] at hy ⊢
  exact ObjectView.mem_refs_setRef hroom (show y ∈ (v.setRef field r).refs (t.fields v) from hy)

end SegmentedHeap
