/-
SegmentedHeap.Proofs.Fields — the fields of objects as a store.

A field is read as it was last written, whichever field it is and
whatever reference was stored: the four bytes of a reference are undone
exactly, and those of two fields lie apart. What a store of a reference
changes besides is one bit, the object's place in the old-to-new set, and
that only where the reference is to a younger object.

* `setBytes_of_lookup`, `register_of_generations`, `writeRef_eq_register`,
  `writeRef_of_lookup` — the heap that each leaves, as an equation.
* `FieldSet`, `fieldSet_of_writeRef` — what the equation says to a program.
* `fields_store_and_load` — **fields obey the laws of a store**, in every
  heap of a run and for every field there is or is not.
-/
import SegmentedHeap.Proofs.FiniteMap

namespace SegmentedHeap.Heap

variable {h h' : Heap} {obj target : ObjRef} {x y : Object} {field : Nat}

/-! ## The heap that is left -/

theorem setBytes_of_lookup (hf : h.Formed) (hx : h.lookup obj = some x) {start : Nat}
    {new : List UInt8} (hroom : start + new.length ≤ x.bytes.length) :
    setBytes obj start new h =
      .ok () (h.setMemory (h.store.memory.store (x.address.advance start) new)) := by
  have hcapacity : ask (·.capacity obj) h = .ok x.bytes.length h := by
    rw [ask, capacity_of_lookup hx]
  have haddress : ask (·.addressOf obj) h = .ok x.address h := by
    rw [ask, addressOf_of_lookup hx]
  rw [setBytes, get_bind_eq, hf.isAllocated_iff_lookup.mpr ⟨x, hx⟩]
  refine (bind_of_ok hcapacity).trans ?_
  rw [if_neg (Nat.not_lt.mpr hroom)]
  exact bind_of_ok haddress

theorem register_null (h : Heap) (source : ObjRef) : register source .null h = .ok () h := by
  have hnull : ObjRef.null.isNull = true := rfl
  rw [register, hnull, Bool.or_true]
  rfl

/-- Where both generations are known, they decide. -/
theorem register_of_generations {source : ObjRef} (hs : source ≠ .null) (ht : target ≠ .null)
    {younger older : Generation} (hyounger : h.generationOf target = .ok younger)
    (holder : h.generationOf source = .ok older) :
    register source target h = .ok () (if younger < older then
      h.modifySegment source.segment (·.addOldToNew source.offset) else h) := by
  have hnull : (source.isNull || target.isNull) = false := by
    rw [Bool.eq_false_iff, ne_eq, Bool.or_eq_true, ObjRef.isNull_iff, ObjRef.isNull_iff]
    exact not_or.mpr ⟨hs, ht⟩
  have htarget : ask (·.generationOf target) h = .ok younger h := by rw [ask, hyounger]
  have hsource : ask (·.generationOf source) h = .ok older h := by rw [ask, holder]
  rw [register, hnull]
  refine (bind_of_ok htarget).trans ((bind_of_ok hsource).trans ?_)
  split
  · rfl
  · rfl

/-- Whether the target is an object of a generation below that of the
source. -/
def Younger (h : Heap) (target source : ObjRef) : Prop :=
  h.isAllocated target = true ∧ ∃ younger older, h.generationOf target = .ok younger ∧
    h.generationOf source = .ok older ∧ younger < older

theorem younger_of_lookup (hf : h.Formed) (hx : h.lookup obj = some x)
    (hy : h.lookup target = some y) : h.Younger target obj ↔ y.generation < x.generation := by
  rw [Younger, generationOf_of_lookup hx, generationOf_of_lookup hy]
  constructor
  · rintro ⟨_, _, _, hg, hg', hlt⟩
    cases hg
    cases hg'
    exact hlt
  · exact fun hlt => ⟨hf.isAllocated_iff_lookup.mpr ⟨y, hy⟩, _, _, rfl, rfl, hlt⟩

theorem not_younger_null (hf : h.Formed) : ¬ h.Younger .null obj := by
  rintro ⟨ha, _⟩
  obtain ⟨y, hy⟩ := hf.isAllocated_iff_lookup.mp ha
  exact hf.ne_null_of_lookup hy rfl

/-- The heap with a reference in a field of an object at `address`, which
does not join the old-to-new set. -/
def putRef (h : Heap) (address : Address) (field : Nat) (target : ObjRef) : Heap :=
  h.setMemory (h.store.memory.store (address.advance (field * refBytes))
    (LittleEndian.encode refBytes target.raw.toNat))

/-- A store of a reference puts the bytes in their place and goes on to
the barrier. -/
theorem writeRef_eq_register (hf : h.Formed) (hx : h.lookup obj = some x)
    (hroom : field * refBytes + refBytes ≤ x.bytes.length) (target : ObjRef) :
    writeRef obj field target h = register obj target (h.putRef x.address field target) := by
  obtain ⟨spec, hspec⟩ := hf.spec_of_lookup hx
  obtain ⟨r, hr⟩ := ref?_eq_some.mpr (show _ ≤ (x.view spec).capacity from hroom)
  have hput : setBytes obj (field * refBytes) (LittleEndian.encode refBytes target.raw.toNat) h =
      .ok () (h.putRef x.address field target) :=
    setBytes_of_lookup hf hx (by rw [LittleEndian.length_encode]; exact hroom)
  rw [writeRef, get_bind_eq, readRef_of_lookup hf hx hspec, hr]
  exact bind_of_ok hput

/-- Where the target is null or an object, the holder joins the old-to-new
set if it is a younger object. -/
theorem writeRef_of_lookup (hf : h.Formed) (hx : h.lookup obj = some x)
    (hroom : field * refBytes + refBytes ≤ x.bytes.length)
    (ht : target = .null ∨ h.isAllocated target = true) :
    (h.Younger target obj → writeRef obj field target h =
      .ok () ((h.putRef x.address field target).modifySegment obj.segment
        (·.addOldToNew obj.offset))) ∧
    (¬ h.Younger target obj →
      writeRef obj field target h = .ok () (h.putRef x.address field target)) := by
  rw [writeRef_eq_register hf hx hroom target]
  rcases ht with rfl | ha
  · exact ⟨fun hn => absurd hn (not_younger_null hf), fun _ => register_null _ _⟩
  · obtain ⟨y, hy⟩ := hf.isAllocated_iff_lookup.mp ha
    -- no generation is kept in memory
    have hregister := register_of_generations (h := h.putRef x.address field target)
      (hf.ne_null_of_lookup hx) (hf.ne_null_of_lookup hy)
      (show h.generationOf target = _ from generationOf_of_lookup hy)
      (show h.generationOf obj = _ from generationOf_of_lookup hx)
    rw [hregister, younger_of_lookup hf hx hy]
    exact ⟨fun hlt => by rw [if_pos hlt], fun hn => by rw [if_neg hn]⟩

/-! ## What it means to a program -/

/-- What a store of a reference in a field makes of a heap. -/
structure FieldSet (h : Heap) (obj : ObjRef) (field : Nat) (target : ObjRef) (h' : Heap) :
    Prop where
  readRef_self : h'.readRef obj field = .ok target
  readRef_other : ∀ other, other ≠ field → h'.readRef obj other = h.readRef obj other
  /-- The bytes of the object outside the field are as they were. -/
  bytes : ∃ old new, h.bytes obj = .ok old ∧ h'.bytes obj = .ok new ∧
    new.length = old.length ∧ ∀ i, i < field * refBytes ∨ field * refBytes + refBytes ≤ i →
      new[i]? = old[i]?
  others : OthersAlike h h' obj
  inOldToNew : h'.inOldToNew obj = .ok true ↔
    h.inOldToNew obj = .ok true ∨ h.Younger target obj
  /-- The heap is the same one in all but these bytes and this bit. -/
  frame : ∃ address, h.addressOf obj = .ok address ∧
    (h.Younger target obj → h' = (h.putRef address field target).modifySegment obj.segment
      (·.addOldToNew obj.offset)) ∧
    (¬ h.Younger target obj → h' = h.putRef address field target)

/-- A stored reference is read back, and those in other fields are read as
before. -/
theorem Written.readRef (hw : Written h obj field target h') (hf : h.Formed) :
    h'.readRef obj field = .ok target ∧
      ∀ other, other ≠ field → h'.readRef obj other = h.readRef obj other := by
  obtain ⟨x, b, hx, hroom, hx', _⟩ := hw.holder
  obtain ⟨spec, hspec⟩ := hf.spec_of_lookup hx
  have hspec' : h'.kinds.get? x.kind = some spec := hw.setting.kinds ▸ hspec
  have hview : ({ x.withRef field target with remembered := b } : Object).view spec =
      (x.view spec).setRef field target := Object.view_withRef hroom spec target
  constructor
  · rw [readRef_of_lookup hw.wellFormed.toFormed hx' hspec', hview,
      ObjectView.ref?_setRef_self hroom]
  · intro other hne
    have hlength : ({ x.withRef field target with remembered := b } : Object).bytes.length =
        x.bytes.length :=
      length_overwrite (by rw [LittleEndian.length_encode]; exact hroom)
    rw [readRef_of_lookup hw.wellFormed.toFormed hx' hspec', hview,
      ObjectView.ref?_setRef_other hne, hlength, readRef_of_lookup hf hx hspec]

/-- The slot of null or of an object is younger if the object is. -/
theorem youngerSlot_iff_younger (hf : h.Formed) (hx : h.lookup obj = some x)
    (ht : target = .null ∨ h.isAllocated target = true) :
    h.YoungerSlot target x.generation ↔ h.Younger target obj := by
  rcases ht with rfl | ha
  · exact iff_of_false (fun hn => hn.1 rfl) (not_younger_null hf)
  · obtain ⟨y, hy⟩ := hf.isAllocated_iff_lookup.mp ha
    rw [youngerSlot_of_lookup hf hy, younger_of_lookup hf hx hy]

theorem fieldSet_of_writeRef (hw : h.WellFormed)
    (ht : target = .null ∨ h.isAllocated target = true)
    (he : writeRef obj field target h = .ok () h') : FieldSet h obj field target h' := by
  have hf := hw.toFormed
  have hwritten := (writeRef_ends hw obj field target).of_ok he
  have hf' := hwritten.wellFormed.toFormed
  obtain ⟨hself, hother⟩ := hwritten.readRef hf
  obtain ⟨x, b, hx, hroom, hx', hb⟩ := hwritten.holder
  have hencoded : field * refBytes + (LittleEndian.encode refBytes target.raw.toNat).length ≤
      x.bytes.length := by
    rw [LittleEndian.length_encode]
    exact hroom
  obtain ⟨hjoins, hstays⟩ := writeRef_of_lookup hf hx hroom ht
  exact {
    readRef_self := hself
    readRef_other := hother
    bytes := by
      refine ⟨x.bytes, _, bytes_eq_of_lookup hf hx, bytes_eq_of_lookup hf' hx',
        length_overwrite hencoded, fun i hi => ?_⟩
      show (overwrite _ _ _)[i]? = _
      rw [getElem?_overwrite hencoded, LittleEndian.length_encode, if_neg (by omega)]
    others := othersAlike_of_lookup hf hf' hwritten.setting hwritten.others
    inOldToNew := by
      rw [inOldToNew_of_lookup hx', inOldToNew_of_lookup hx, Except.ok.injEq, Except.ok.injEq, hb,
        youngerSlot_iff_younger hf hx ht]
    frame := by
      refine ⟨x.address, addressOf_of_lookup hx, fun hn => ?_, fun hn => ?_⟩
      · rw [hjoins hn] at he
        exact (EStateM.Result.ok.inj he).2.symm
      · rw [hstays hn] at he
        exact (EStateM.Result.ok.inj he).2.symm }

/-! ## Which fields there are -/

/-- The fields of an object are those that fit into its data. -/
theorem refCapacity_of_lookup (hx : h.lookup obj = some x) :
    h.refCapacity obj = .ok (x.bytes.length / refBytes) := by
  rw [refCapacity, capacity_of_lookup hx]
  rfl

theorem lt_fields_iff {capacity : Nat} :
    field < capacity / refBytes ↔ field * refBytes + refBytes ≤ capacity := by
  rw [← Nat.succ_le_iff, Nat.le_div_iff_mul_le (by decide), Nat.succ_mul]

/-- A field past the last one is named by the error, with the capacity that
it does not fit in. -/
theorem readRef_out_of_range (hf : h.Formed) (hx : h.lookup obj = some x)
    (hout : x.bytes.length / refBytes ≤ field) :
    h.readRef obj field = .error (.fieldOutOfRange obj field x.bytes.length) := by
  obtain ⟨spec, hspec⟩ := hf.spec_of_lookup hx
  rw [readRef_of_lookup hf hx hspec]
  cases hr : (x.view spec).ref? field with
  | none => rfl
  | some r => exact absurd (lt_fields_iff.mpr (ref?_eq_some.mp ⟨r, hr⟩)) (Nat.not_lt.mpr hout)

theorem exists_readRef_iff (hf : h.Formed) (hx : h.lookup obj = some x) :
    (∃ r, h.readRef obj field = .ok r) ↔ field < x.bytes.length / refBytes := by
  constructor
  · rintro ⟨r, hr⟩
    refine Nat.lt_of_not_le fun hout => ?_
    rw [readRef_out_of_range hf hx hout] at hr
    cases hr
  · intro hlt
    obtain ⟨spec, hspec⟩ := hf.spec_of_lookup hx
    obtain ⟨r, hr⟩ := ref?_eq_some.mpr (show _ ≤ (x.view spec).capacity from lt_fields_iff.mp hlt)
    exact ⟨r, by rw [readRef_of_lookup hf hx hspec, hr]⟩

theorem exists_writeRef_iff (hw : h.WellFormed) (hx : h.lookup obj = some x)
    (ht : target = .null ∨ h.isAllocated target = true) :
    (∃ h', writeRef obj field target h = .ok () h') ↔ field < x.bytes.length / refBytes := by
  constructor
  · rintro ⟨h', he⟩
    obtain ⟨z, _, hz, hroom, _⟩ := ((writeRef_ends hw obj field target).of_ok he).holder
    rw [hx] at hz
    cases hz
    exact lt_fields_iff.mpr hroom
  · intro hlt
    obtain ⟨hjoins, hstays⟩ := writeRef_of_lookup hw.toFormed hx (lt_fields_iff.mp hlt) ht
    by_cases hn : h.Younger target obj
    · exact ⟨_, hjoins hn⟩
    · exact ⟨_, hstays hn⟩

/-- **The fields of objects obey the laws of a store.** An object has so
many fields; a reference can be read from these and from no others, and
null or a reference to an object can be stored in these and no others. It
is then read back, and all else is as it was but for the object's place in
the old-to-new set. Nothing can be read from or stored in what is not
allocated. -/
theorem fields_store_and_load (hr : h.Reachable) (obj : ObjRef) (field : Nat) :
    (h.isAllocated obj = true → ∃ capacity fields,
      h.capacity obj = .ok capacity ∧ h.refCapacity obj = .ok fields ∧
      ((∃ r, h.readRef obj field = .ok r) ↔ field < fields) ∧
      (fields ≤ field → h.readRef obj field = .error (.fieldOutOfRange obj field capacity)) ∧
      ∀ target, target = .null ∨ h.isAllocated target = true →
        ((∃ h', writeRef obj field target h = .ok () h') ↔ field < fields) ∧
        (fields ≤ field → writeRef obj field target h =
          .error (.refused (.fieldOutOfRange obj field capacity)) h) ∧
        ∀ h', writeRef obj field target h = .ok () h' → FieldSet h obj field target h') ∧
    (h.isAllocated obj = false → h.readRef obj field = .error (.dangling obj) ∧
      ∀ target, writeRef obj field target h = .error (.refused (.dangling obj)) h) := by
  have hw := hr.wellFormed
  have hf := hw.toFormed
  constructor
  · intro ha
    obtain ⟨x, hx⟩ := hf.isAllocated_iff_lookup.mp ha
    refine ⟨_, _, capacity_of_lookup hx, refCapacity_of_lookup hx, exists_readRef_iff hf hx,
      readRef_out_of_range hf hx, fun target ht => ⟨exists_writeRef_iff hw hx ht, fun hout => ?_,
      fun h' he => fieldSet_of_writeRef hw ht he⟩⟩
    exact (writeRef_denied hw obj field target).mpr ⟨rfl, readRef_out_of_range hf hx hout⟩
  · intro ha
    have hread := hf.readRef_of_none (hf.not_isAllocated_iff_lookup.mp ha) field
    exact ⟨hread, fun target => (writeRef_denied hw obj field target).mpr ⟨rfl, hread⟩⟩

/-- A heap with a young pair and a symbol, which is never collected. -/
def symbolHeap : Heap :=
  after (alloc Model.ModelType.symbol.tag 1) (after (alloc Model.ModelType.pair.tag 0) smallHeap)

theorem reachable_symbolHeap : Reachable symbolHeap := by
  have hmade : returnsFrom (alloc Model.ModelType.pair.tag 0) smallHeap = true ∧
      returnsFrom (alloc Model.ModelType.symbol.tag 1)
        (after (alloc Model.ModelType.pair.tag 0) smallHeap) = true := by
    decide +kernel
  exact .alloc _ _ (.alloc _ _ reachable_smallHeap (leaves_after hmade.1)) (leaves_after hmade.2)

/-- The symbol has four fields. The last can refer to the pair, and the
symbol joins the old-to-new set then; no byte is at the field after which
bytes would be counted from zero again. -/
theorem fields_store_and_load_symbolHeap :
    symbolHeap.isAllocated ⟨64⟩ = true ∧ symbolHeap.isAllocated ⟨0⟩ = true ∧
    symbolHeap.Younger ⟨0⟩ ⟨64⟩ ∧
    (∃ h', writeRef ⟨64⟩ 3 ⟨0⟩ symbolHeap = .ok () h' ∧ FieldSet symbolHeap ⟨64⟩ 3 ⟨0⟩ h') ∧
    writeRef ⟨64⟩ (Word.limit / 4) ⟨0⟩ symbolHeap =
      .error (.refused (.fieldOutOfRange ⟨64⟩ (Word.limit / 4) 16)) symbolHeap := by
  have hfacts : symbolHeap.isAllocated ⟨64⟩ = true ∧ symbolHeap.isAllocated ⟨0⟩ = true ∧
      symbolHeap.generationOf ⟨0⟩ = .ok .zero ∧ symbolHeap.generationOf ⟨64⟩ = .ok .two ∧
      symbolHeap.capacity ⟨64⟩ = .ok 16 ∧ symbolHeap.refCapacity ⟨64⟩ = .ok 4 := by
    decide +kernel
  obtain ⟨hsymbol, hpair, hyoung, hold, hcapacity, hfields⟩ := hfacts
  have hstore := fun field => (fields_store_and_load reachable_symbolHeap ⟨64⟩ field).1 hsymbol
  refine ⟨hsymbol, hpair, ⟨hpair, _, _, hyoung, hold, by decide⟩, ?_, ?_⟩
  · obtain ⟨_, _, _, hn, _, _, hwrite⟩ := hstore 3
    cases hfields.symm.trans hn
    obtain ⟨hiff, _, hset⟩ := hwrite ⟨0⟩ (Or.inr hpair)
    obtain ⟨h', he⟩ := hiff.mpr (by decide)
    exact ⟨h', he, hset h' he⟩
  · obtain ⟨_, _, hc, hn, _, _, hwrite⟩ := hstore (Word.limit / 4)
    cases hfields.symm.trans hn
    cases hcapacity.symm.trans hc
    exact (hwrite ⟨0⟩ (Or.inr hpair)).2.1 (by decide)

end SegmentedHeap.Heap
