/-
SegmentedHeap.Proofs.SizeClasses — the sizes that the model gives to its
objects.

Three functions have to agree: one counts the chunks that an object
needs, one numbers its kind from that, and the number points into a list
that the third one builds. They agree if the size that a request comes by
is the least that holds what is needed, of the small sizes, and the big
one past these. All else follows from its being the least: it is enough,
and whoever asks for more gets no less.

* `ObjectSize.Least` — the least size for so many chunks, `Least.mono`.
* `Classed` — the kind and the chunks of a type and length.
* `Classed.least`, `Classed.mono`, `Classed.payload_le` — the laws.
* `adequate` — **the size classes are adequate**.
-/
import Mathlib.Order.Bounds.Basic
import Mathlib.Order.WithBot
import SegmentedHeap.Proofs.Saving

namespace SegmentedHeap

open Model

namespace ObjectSize

/-- The chunks that an object takes which needs so many. -/
def taken (size : ObjectSize) (needed : Nat) : Nat :=
  match size with
  | .fixed chunks => chunks
  | .big => max needed 1

/-- The most chunks that an object of the size can have. -/
def bound : ObjectSize → WithTop Nat
  | .fixed chunks => .some chunks
  | .big => ⊤

/-- The size is the least of the small ones that holds so many chunks, or
the big one if none of them does. -/
structure Least (size : ObjectSize) (needed : Nat) : Prop where
  fixed : needed ≤ 8 → ∃ chunks, size = .fixed chunks ∧
    IsLeast {c | c ∈ sizeClasses ∧ needed ≤ c} chunks
  big : 8 < needed → size = .big

variable {size size' : ObjectSize} {needed needed' : Nat}

/-- A small size is the least for itself. -/
theorem least_self (h : needed ∈ sizeClasses) : (ObjectSize.fixed needed).Least needed := by
  have hle : ∀ c ∈ sizeClasses, c ≤ 8 := by decide
  exact ⟨fun _ => ⟨needed, rfl, ⟨h, Nat.le_refl _⟩, fun c hc => hc.2⟩,
    fun hlt => absurd (hle _ h) (Nat.not_le.mpr hlt)⟩

/-- **The class of so many chunks** has the least size for them. -/
theorem least_classSize (needed : Nat) : (classSize (sizeClass needed)).Least needed := by
  have hsorted : sizeClasses.Pairwise (· ≤ ·) := by decide
  unfold sizeClass
  cases hi : sizeClasses.findIdx? (needed ≤ ·) with
  | none =>
    have hnone : ∀ c ∈ sizeClasses, c < needed := by simpa using hi
    exact ⟨fun hle => absurd hle (Nat.not_le.mpr (hnone 8 (by decide))), fun _ => rfl⟩
  | some i =>
    obtain ⟨hlt, hle, hfirst⟩ := List.findIdx?_eq_some_iff_getElem.mp hi
    have hle : needed ≤ sizeClasses[i] := by simpa using hle
    have hmax : ∀ c ∈ sizeClasses, c ≤ 8 := by decide
    have hmem : sizeClasses[i] ∈ sizeClasses := List.getElem_mem hlt
    refine ⟨fun _ => ⟨sizeClasses[i], ?_, ⟨hmem, hle⟩, fun c hc => ?_⟩, fun h => ?_⟩
    · rw [Option.getD_some, classSize, List.getElem?_eq_getElem hlt]
    · -- what comes before does not hold as many
      obtain ⟨j, hj, rfl⟩ := List.getElem_of_mem hc.1
      rcases Nat.lt_trichotomy i j with hij | rfl | hji
      · exact List.pairwise_iff_getElem.mp hsorted i j hlt hj hij
      · exact Nat.le_refl _
      · exact absurd hc.2 (by simpa using hfirst j hji)
    · exact absurd (Nat.le_trans hle (hmax _ hmem)) (Nat.not_le.mpr h)

namespace Least

/-- It is enough. -/
theorem needed_le (hs : size.Least needed) : needed ≤ size.taken needed := by
  rcases Nat.lt_or_ge 8 needed with h | h
  · rw [hs.big h]
    exact Nat.le_max_left _ _
  · obtain ⟨c, rfl, hc⟩ := hs.fixed h
    exact hc.1.2

/-- **Whoever needs more gets no less**, in what an object can have and in
what it takes. -/
theorem mono (hs : size.Least needed) (hs' : size'.Least needed') (hle : needed ≤ needed') :
    size.bound ≤ size'.bound ∧ size.taken needed ≤ size'.taken needed' := by
  rcases Nat.lt_or_ge 8 needed' with h' | h'
  · rw [hs'.big h']
    refine ⟨le_top, ?_⟩
    rcases Nat.lt_or_ge 8 needed with h | h
    · rw [hs.big h]
      simp only [taken]
      omega
    · obtain ⟨c, rfl, hc⟩ := hs.fixed h
      have hmax : ∀ c ∈ sizeClasses, c ≤ 8 := by decide
      have hc8 := hmax c hc.1.1
      simp only [taken]
      omega
  · obtain ⟨c, rfl, hc⟩ := hs.fixed (Nat.le_trans hle h')
    obtain ⟨c', rfl, hc'⟩ := hs'.fixed h'
    have hcc' : c ≤ c' := hc.2 ⟨hc'.1.1, Nat.le_trans hle hc'.1.2⟩
    exact ⟨WithTop.coe_le_coe.mpr hcc', hcc'⟩

end Least

end ObjectSize

namespace Model

variable {chunkBytes length length' needed needed' : Nat} {type : ModelType} {spec spec' : Kind}

/-! ## Chunks -/

/-- The bytes that an object of a type and length has to hold. -/
def ModelType.payload (type : ModelType) (length : Nat) : Nat :=
  match type with
  | .nil => 0
  | .symbol | .cell => numberOffset + 8
  | .intVec => length * 8
  | .pair => 2 * refBytes
  | .vector => length * refBytes

/-- No length that can be stored saturates. -/
theorem bytesFor_eq_payload (hlength : length ≤ Word.max32) :
    bytesFor type length = type.payload length := by
  cases type with
  | nil | symbol | pair | cell => rfl
  | intVec | vector =>
    simp only [Word.max32] at hlength
    simp only [bytesFor, ModelType.payload, Word.limit, refBytes]
    omega

theorem chunksFor_eq_ok (hz : chunkBytes ≠ 0) : chunksFor chunkBytes type.tag length = .ok needed ↔
    needed = max ((bytesFor type length + chunkBytes - 1) / chunkBytes) 1 := by
  simp only [chunksFor, ModelType.ofTag?_tag, ceilDiv, hz, if_false, bind, Except.bind, pure,
    Except.pure, Except.ok.injEq]
  exact eq_comm

theorem bytesFor_mono (h : length ≤ length') : bytesFor type length ≤ bytesFor type length' := by
  cases type with
  | nil | symbol | pair | cell => exact Nat.le_refl _
  | intVec | vector =>
    simp only [bytesFor]
    omega

theorem chunksFor_mono (hn : chunksFor chunkBytes type.tag length = .ok needed)
    (hn' : chunksFor chunkBytes type.tag length' = .ok needed') (h : length ≤ length') :
    needed ≤ needed' := by
  by_cases hz : chunkBytes = 0
  · subst hz
    cases hn
  · have hbytes : bytesFor type length ≤ bytesFor type length' := bytesFor_mono h
    have hdiv : (bytesFor type length + chunkBytes - 1) / chunkBytes ≤
        (bytesFor type length' + chunkBytes - 1) / chunkBytes :=
      Nat.div_le_div_right (by omega)
    rw [(chunksFor_eq_ok hz).mp hn, (chunksFor_eq_ok hz).mp hn']
    omega

/-- Chunks of eight bytes or more hold any object of the fixed types in
one or two. -/
theorem fixed_mem (hmin : 8 ≤ chunkBytes) (hbytes : bytesFor type length ≤ 16)
    (hn : chunksFor chunkBytes type.tag length = .ok needed) : needed ∈ sizeClasses := by
  have hz : chunkBytes ≠ 0 := by omega
  have hlt : (bytesFor type length + chunkBytes - 1) / chunkBytes < 3 := by
    rw [Nat.div_lt_iff_lt_mul (by omega)]
    omega
  have hneeded := (chunksFor_eq_ok hz).mp hn
  obtain rfl | rfl : needed = 1 ∨ needed = 2 := by omega
  · decide
  · decide

/-! ## Kinds -/

/-- The layout of the model gives the kind to the type and length, and
counts so many chunks for them. -/
structure Classed (chunkBytes : Nat) (type : ModelType) (length : Nat) (spec : Kind)
    (needed : Nat) : Prop where
  entry : ∃ list k, kinds chunkBytes = .ok list ∧
    kindFor chunkBytes type.tag length = .ok k ∧ list[k]? = some spec
  needed : chunksFor chunkBytes type.tag length = .ok needed

theorem exists_classed (hz : chunkBytes ≠ 0) (type : ModelType) (length : Nat) :
    ∃ spec needed, Classed chunkBytes type length spec needed := by
  obtain ⟨needed, hn⟩ := chunksFor_eq hz type.tag length
  obtain ⟨⟨k, hk⟩, _⟩ := layout_total hz type.tag length
  obtain ⟨_, _, _, _, _, _, hlist⟩ := kinds_eq hz
  obtain ⟨spec, hspec, _⟩ := kind_of_kindFor hlist hk
  exact ⟨spec, needed, ⟨_, k, hlist, hk, hspec⟩, hn⟩

namespace Classed

theorem tag_and_size (hc : Classed chunkBytes type length spec needed) :
    spec.tag = type.tag ∧ spec.size = type.sizeFor needed := by
  obtain ⟨list, k, hlist, hk, hspec⟩ := hc.entry
  obtain ⟨spec', hspec', htag, hsize⟩ := entry_of_kindFor hlist hc.needed hk
  cases hspec.symm.trans hspec'
  exact ⟨htag, hsize⟩

/-- **The kind has the least size that is enough.** -/
theorem least (hmin : 8 ≤ chunkBytes) (hc : Classed chunkBytes type length spec needed) :
    spec.size.Least needed := by
  rw [hc.tag_and_size.2]
  cases type with
  | nil =>
    have hone : needed = 1 := by
      have hdiv : (0 + chunkBytes - 1) / chunkBytes = 0 := Nat.div_eq_of_lt (by omega)
      have hneeded := (chunksFor_eq_ok (by omega)).mp hc.needed
      rw [show bytesFor .nil length = 0 from rfl, hdiv] at hneeded
      exact hneeded
    subst hone
    exact ObjectSize.least_self (by decide)
  | symbol | pair | cell =>
    exact ObjectSize.least_self (fixed_mem hmin (by simp [bytesFor, numberOffset]) hc.needed)
  | intVec | vector => exact ObjectSize.least_classSize needed

/-- **A longer object gets no less room.** -/
theorem mono (hmin : 8 ≤ chunkBytes) (hc : Classed chunkBytes type length spec needed)
    (hc' : Classed chunkBytes type length' spec' needed') (h : length ≤ length') :
    spec.size.bound ≤ spec'.size.bound ∧ spec.size.taken needed ≤ spec'.size.taken needed' :=
  (hc.least hmin).mono (hc'.least hmin) (chunksFor_mono hc.needed hc'.needed h)

/-- **The room is enough** for all that the object has to hold. -/
theorem payload_le (hmin : 8 ≤ chunkBytes) (hc : Classed chunkBytes type length spec needed)
    (hlength : length ≤ Word.max32) :
    type.payload length ≤ spec.size.taken needed * chunkBytes :=
  calc type.payload length = bytesFor type length := (bytesFor_eq_payload hlength).symm
    _ ≤ needed * chunkBytes := bytesFor_le hc.needed
    _ ≤ spec.size.taken needed * chunkBytes := Nat.mul_le_mul_right _ (hc.least hmin).needed_le

end Classed

/-- What a list of kinds, the numbers into it and the chunks have to do
with each other. -/
structure Adequate (chunkBytes : Nat) : Prop where
  /-- Every type and length have a kind, -/
  exists_kind : ∀ type length, ∃ spec needed, Classed chunkBytes type length spec needed
  /-- which is of the type, -/
  tag : ∀ type length spec needed, Classed chunkBytes type length spec needed →
    spec.tag = type.tag
  /-- of the least size that is enough, -/
  least : ∀ type length spec needed, Classed chunkBytes type length spec needed →
    spec.size.Least needed ∧ needed ≤ spec.size.taken needed
  /-- of no smaller one than for a shorter length, -/
  mono : ∀ type length length' spec spec' needed needed', length ≤ length' →
    Classed chunkBytes type length spec needed → Classed chunkBytes type length' spec' needed' →
    spec.size.bound ≤ spec'.size.bound ∧ spec.size.taken needed ≤ spec'.size.taken needed'
  /-- and with room for the data. -/
  payload : ∀ type length spec needed, length ≤ Word.max32 →
    Classed chunkBytes type length spec needed →
    type.payload length ≤ spec.size.taken needed * chunkBytes

/-- **The size classes of the model are adequate** for all chunks that are
not smaller than those of any heap. -/
theorem adequate (hmin : 8 ≤ chunkBytes) : Adequate chunkBytes where
  exists_kind := exists_classed (by omega)
  tag _ _ _ _ hc := hc.tag_and_size.1
  least _ _ _ _ hc := ⟨hc.least hmin, (hc.least hmin).needed_le⟩
  mono _ _ _ _ _ _ _ h hc hc' := hc.mono hmin hc' h
  payload _ _ _ _ h hc := hc.payload_le hmin h

end Model

end SegmentedHeap
