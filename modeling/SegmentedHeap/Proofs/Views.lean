/-
SegmentedHeap.Proofs.Views — what can be seen of an object that is stored to.

All that a runtime sees of an object is its view, so a store to an object
is described by what it makes of the view, and leaves the other views. A
reference or a 64-bit number that was stored is read back, and one that
lies elsewhere is read as before.

* `ObjectView.put`, `ObjectView.word?` — bytes and numbers in a view.
* `word?_put`, `ref?_put`, `word?_setRef` — what is read of them.
* `view?_eq_some`, `lengthOf_of_view?`, … — views and the heap.
* `setBytes_seen`, `writeRef_seen` — **the stores**.
-/
import SegmentedHeap.Proofs.Closure

namespace SegmentedHeap

/-- The bytes of 64-bit numbers in a row. -/
def encodeWords (words : List UInt64) : List UInt8 :=
  words.flatMap fun w => LittleEndian.encode 8 w.toNat

theorem length_encodeWords (words : List UInt64) :
    (encodeWords words).length = words.length * 8 := by
  induction words with
  | nil => rfl
  | cons w words ih =>
    rw [encodeWords, List.flatMap_cons, List.length_append, LittleEndian.length_encode]
    rw [encodeWords] at ih
    rw [ih, List.length_cons]
    omega

/-- Each number has its eight bytes. -/
theorem take_drop_encodeWords {words : List UInt64} {i : Nat} {w : UInt64}
    (hi : words[i]? = some w) :
    ((encodeWords words).drop (i * 8)).take 8 = LittleEndian.encode 8 w.toNat := by
  have hlen : ∀ w : UInt64, (LittleEndian.encode 8 w.toNat).length = 8 := fun w =>
    LittleEndian.length_encode 8 _
  induction words generalizing i with
  | nil => cases hi
  | cons u words ih =>
    rw [encodeWords, List.flatMap_cons]
    cases i with
    | zero =>
      obtain rfl : u = w := Option.some.inj hi
      rw [Nat.zero_mul, List.drop_zero, List.take_append_of_le_length (Nat.le_of_eq (hlen u).symm),
        List.take_of_length_le (Nat.le_of_eq (hlen u))]
    | succ i =>
      have hskip : (i + 1) * 8 = (LittleEndian.encode 8 u.toNat).length + i * 8 := by
        rw [hlen]
        omega
      rw [hskip, List.drop_length_add_append]
      exact ih hi

namespace ObjectView

variable {v : ObjectView} {start field : Nat} {bytes : List UInt8}

/-- The view with other bytes from `start` on. -/
def put (v : ObjectView) (start : Nat) (bytes : List UInt8) : ObjectView :=
  { v with byte := fun i =>
      if start ≤ i ∧ i < start + bytes.length then bytes.getD (i - start) 0 else v.byte i }

/-- The 64-bit number at a byte, if the object has these bytes. -/
def word? (v : ObjectView) (start : Nat) : Option UInt64 :=
  if start + 8 ≤ v.capacity then some (UInt64.ofNat (v.number start 8)) else none

theorem setRef_eq_put (r : ObjRef) :
    v.setRef field r = v.put (field * refBytes) (LittleEndian.encode refBytes r.raw.toNat) := by
  rw [setRef, put, LittleEndian.length_encode]

theorem number_put {k count : Nat} (hk : k + count ≤ bytes.length) :
    (v.put start bytes).number (start + k) count =
      LittleEndian.decode ((bytes.drop k).take count) := by
  refine congrArg LittleEndian.decode (List.ext_getElem (by simp; omega) fun i hi _ => ?_)
  rw [List.length_map, List.length_range] at hi
  rw [List.getElem_map, List.getElem_range, List.getElem_take, List.getElem_drop]
  show (if _ ∧ _ then _ else _) = _
  rw [if_pos (by omega), List.getD_eq_getElem?_getD, List.getElem?_eq_getElem (by omega),
    Option.getD_some]
  congr 1
  omega

theorem number_put_apart {from' count : Nat}
    (h : from' + count ≤ start ∨ start + bytes.length ≤ from') :
    (v.put start bytes).number from' count = v.number from' count := by
  refine congrArg LittleEndian.decode (List.map_congr_left fun i hi => ?_)
  have hi := List.mem_range.mp hi
  show (if _ ∧ _ then _ else _) = _
  rw [if_neg]
  omega

/-- Stored numbers are read back. -/
theorem word?_put (words : List UInt64) {i : Nat} {w : UInt64}
    (hroom : start + words.length * 8 ≤ v.capacity) (hi : words[i]? = some w) :
    (v.put start (encodeWords words)).word? (start + i * 8) = some w := by
  have hlt : i < words.length := (List.getElem?_eq_some_iff.mp hi).1
  have hcap : start + i * 8 + 8 ≤ (v.put start (encodeWords words)).capacity := by
    show _ ≤ v.capacity
    omega
  rw [word?, if_pos hcap, number_put (by rw [length_encodeWords]; omega), take_drop_encodeWords hi,
    LittleEndian.decode_encode, Nat.mod_eq_of_lt w.toNat_lt, UInt64.ofNat_toNat]

/-- References before the bytes stay. -/
theorem ref?_put (h : field * refBytes + refBytes ≤ start) :
    (v.put start bytes).ref? field = v.ref? field := by
  rw [ref?, ref?, number_put_apart (Or.inl h)]
  rfl

/-- Numbers past a reference stay. -/
theorem word?_setRef (h : field * refBytes + refBytes ≤ start) (r : ObjRef) :
    (v.setRef field r).word? start = v.word? start := by
  rw [setRef_eq_put, word?, word?, number_put_apart]
  · rfl
  · rw [LittleEndian.length_encode]
    exact Or.inr h

end ObjectView

theorem Object.view_overwrite {x : Object} {start : Nat} {new : List UInt8}
    (h : start + new.length ≤ x.bytes.length) (spec : Kind) :
    ({ x with bytes := overwrite x.bytes start new } : Object).view spec =
      (x.view spec).put start new := by
  have hbyte : ∀ i,
      (overwrite x.bytes start new).getD i 0 = ((x.view spec).put start new).byte i := by
    intro i
    rw [List.getD_eq_getElem?_getD, getElem?_overwrite h]
    show _ = if _ ∧ _ then _ else x.bytes.getD i 0
    split <;> rw [List.getD_eq_getElem?_getD]
  simp only [Object.view, Object.length, ObjectView.put, length_overwrite h, hbyte]

namespace Heap

variable {h h' : Heap} {p q target : ObjRef} {v : ObjectView}

/-! ## Views and the heap -/

theorem view?_eq_some (hf : h.Formed) : h.view? p = some v ↔
    ∃ x spec, h.lookup p = some x ∧ h.kinds.get? x.kind = some spec ∧ v = x.view spec := by
  constructor
  · intro hv
    cases hx : h.lookup p with
    | none =>
      rw [hf.view?_of_none hx] at hv
      cases hv
    | some x =>
      obtain ⟨spec, hspec⟩ := hf.spec_of_lookup hx
      rw [view?_of_lookup hf hx hspec] at hv
      exact ⟨x, spec, rfl, hspec, (Option.some.inj hv).symm⟩
  · intro hv
    obtain ⟨x, spec, hx, hspec, rfl⟩ := hv
    exact view?_of_lookup hf hx hspec

theorem isAllocated_iff_view? (hf : h.Formed) :
    h.isAllocated p = true ↔ ∃ v, h.view? p = some v := by
  rw [hf.isAllocated_iff_lookup]
  constructor
  · intro hx
    obtain ⟨x, hx⟩ := hx
    obtain ⟨spec, hspec⟩ := hf.spec_of_lookup hx
    exact ⟨_, view?_of_lookup hf hx hspec⟩
  · intro hv
    obtain ⟨v, hv⟩ := hv
    obtain ⟨x, _, hx, _⟩ := (view?_eq_some hf).mp hv
    exact ⟨x, hx⟩

theorem typeOf_of_view? (hf : h.Formed) (hv : h.view? p = some v) : h.typeOf p = .ok v.tag := by
  obtain ⟨x, spec, hx, hspec, rfl⟩ := (view?_eq_some hf).mp hv
  rw [typeOf, specOf_of_lookup hx hspec]
  rfl

theorem lengthOf_of_view? (hf : h.Formed) (hv : h.view? p = some v) :
    h.lengthOf p = .ok v.length := by
  obtain ⟨x, spec, hx, hspec, rfl⟩ := (view?_eq_some hf).mp hv
  exact lengthOf_of_lookup hf hx hspec

theorem readRef_of_view? {field : Nat} {r : ObjRef} (hv : h.view? p = some v)
    (hr : v.ref? field = some r) : h.readRef p field = .ok r := by
  rw [readRef, hv]
  simp only [hr]

theorem word64_of_view? {start : Nat} {w : UInt64} (hv : h.view? p = some v)
    (hw : v.word? start = some w) : h.word64 p start = .ok w := by
  unfold ObjectView.word? at hw
  split at hw
  · next hroom =>
    simp only [word64, hv, Nat.not_lt.mpr hroom, if_false]
    exact congrArg Except.ok (Option.some.inj hw)
  · cases hw

/-- An object is seen as before where it is as before. -/
theorem view?_congr (hf : h.Formed) (hf' : h'.Formed) (hk : h'.kinds = h.kinds)
    (hl : h'.lookup p = h.lookup p) : h'.view? p = h.view? p := by
  refine Option.ext fun v => ?_
  rw [view?_eq_some hf, view?_eq_some hf', hl, hk]

/-! ## Stores -/

/-- One object is seen anew, and the others as before. -/
structure Seen (h : Heap) (p : ObjRef) (v : ObjectView) (h' : Heap) : Prop where
  wellFormed : h'.WellFormed
  setting : SameSetting h h'
  self : h'.view? p = some v
  others : ∀ q, q ≠ p → h'.view? q = h.view? q

/-- **Bytes are stored** in an object that has room for them. -/
theorem setBytes_seen (hw : h.WellFormed) (hv : h.view? p = some v) {start : Nat}
    {new : List UInt8} (hroom : start + new.length ≤ v.capacity) :
    Ends (setBytes p start new h) (fun _ h' => h.Seen p (v.put start new) h') (fun _ _ => False)
      (fun _ => False) := by
  have hf := hw.toFormed
  obtain ⟨x, spec, hx, hspec, rfl⟩ := (view?_eq_some hf).mp hv
  refine (setBytes_ends hw p start new).mono (fun _ h' hd => ?_) (fun _ _ hn => hn) fun f hn => ?_
  · obtain ⟨y, hy, hroom, hw', hc, _⟩ := hd
    rw [hx] at hy
    cases hy
    refine ⟨hw', hc.setting, ?_, fun q hq =>
      view?_congr hf hw'.toFormed hc.setting.kinds (hc.lookup_other hq)⟩
    rw [view?_of_lookup hw'.toFormed hc.lookup_self (hc.setting.kinds ▸ hspec)]
    exact congrArg some (Object.view_overwrite hroom spec)
  · rcases hn with ⟨_, hn⟩ | ⟨_, hn⟩
    · rw [hx] at hn
      cases hn
    · exact absurd hroom (Nat.not_le.mpr (hn x hx))

/-- **A proper reference is stored** in a field that the object has. -/
theorem writeRef_seen (hw : h.WellFormed) (hv : h.view? p = some v) {field : Nat}
    (hroom : field * refBytes + refBytes ≤ v.capacity) (ht : h.Proper target) :
    Ends (writeRef p field target h) (fun _ h' => h.Seen p (v.setRef field target) h')
      (fun _ _ => False) (fun _ => False) := by
  have hf := hw.toFormed
  obtain ⟨x, spec, hx, hspec, rfl⟩ := (view?_eq_some hf).mp hv
  refine (writeRef_ends hw p field target).mono (fun _ h' hd => ?_) (fun _ _ hn => ?_)
    fun f hn => ?_
  · have hf' := hd.wellFormed.toFormed
    obtain ⟨y, b, hy, hroom, hy', _⟩ := hd.holder
    rw [hx] at hy
    cases hy
    refine ⟨hd.wellFormed, hd.setting, ?_, fun q hq =>
      view?_congr hf hf' hd.setting.kinds (hd.others q hq)⟩
    rw [view?_of_lookup hf' hy' (hd.setting.kinds ▸ hspec)]
    exact congrArg some (Object.view_withRef hroom spec target)
  · exact absurd hroom (Nat.not_le.mpr (hn.2 x hx))
  · -- the segment of an object is reserved
    obtain ⟨_, hnone, hne⟩ := hn
    rcases hf.proper_iff.mp ht with e | ⟨y, hy⟩
    · exact hne e
    · rw [lookup_of_none hnone] at hy
      cases hy

end Heap

end SegmentedHeap
