/-
SegmentedHeap.Proofs.Sizes — the sizes that a heap computes.

Each parameter of a configuration is checked by itself; the sizes that
the heap works with are products of several. The bytes of a block for a
big object are refused if they leave the word, and the bytes of an area
are zero then, which is no size of a block. Those of a pool block are
multiplied without such a check.

* `Configured.sized_iff` — when they fit, in terms of the configuration.
* `Formed.capacity_le` — the bytes of an object fit.
* `request_ne_fault` — the check of a request, for layouts that are total.
-/
import SegmentedHeap.Proofs.ModelObjects

namespace SegmentedHeap

/-- Bytes of a pool block, as they come out of the word arithmetic but for
the last product. -/
def Config.poolBytes (c : Config) : Nat :=
  c.segmentChunks * c.chunkBytes % Word.limit * c.segmentsPerBlock

/-- The layout has an answer for every type and length. -/
def ObjectLayout.Total (l : ObjectLayout) : Prop :=
  ∀ tag length, (∃ kind, l.kindFor tag length = .ok kind) ∧ ∃ n, l.chunksFor tag length = .ok n

/-- The layout of the model is total. -/
theorem Model.layout_total {chunkBytes : Nat} (hz : chunkBytes ≠ 0) :
    (layout chunkBytes).Total := by
  intro tag length
  obtain ⟨n, hn⟩ := chunksFor_eq hz tag length
  refine ⟨?_, n, hn⟩
  simp only [layout, kindFor, hn, bind, Except.bind, pure, Except.pure]
  split <;> exact ⟨_, rfl⟩

namespace Heap

variable {h h' : Heap}

/-! ## The sizes of a configuration -/

theorem Configured.chunkBits_lt (hc : h.Configured) (hword : h.config.chunkBytes < Word.limit) :
    h.store.chunkBits < 64 := by
  obtain ⟨k, hk⟩ := Word.isPowerOfTwo_iff.mp (Config.inOrder hc.accepted).chunk_pow
  have hlt : k < 64 := by
    rw [hk, Nat.pow_eq] at hword
    exact (Nat.pow_lt_pow_iff_right (by decide)).mp hword
  rw [hc.geometry.chunkBits]
  show Word.trailingZeros h.config.chunkBytes < 64
  rw [hk, Word.trailingZeros_two_pow hlt]
  exact hlt

theorem Configured.sized_iff (hc : h.Configured) (hword : h.config.chunkBytes < Word.limit) :
    h.store.Sized ↔ h.config.poolBytes < Word.limit := by
  have hbits := hc.chunkBits_lt hword
  have hpool : h.store.poolBytes = h.config.poolBytes := by
    rw [Store.poolBytes, Config.poolBytes, hc.chunkBytes_eq hbits, hc.geometry.segmentChunks,
      hc.geometry.segmentsPerBlock]
    rfl
  rw [← hpool]
  exact ⟨fun hs => hs.pool, fun hp => ⟨hbits, hp⟩⟩

/-! ## Sizes that are multiplied without a check -/

/-- A segment's objects fit in the memory under it, and so do not leave
the word. -/
theorem Formed.capacity_le (hf : h.Formed) {i : SegmentIndex} {s : Segment}
    (hs : h.store.segment? i = some s) : s.chunks * h.store.chunkBytes ≤ Word.maxSize := by
  have hb := hf.store.backed i s hs
  cases hbacking : s.backing with
  | pooled a =>
    rw [hbacking] at hb
    obtain ⟨b, hb, _, hle⟩ := hb
    obtain ⟨spec, hspec, hkind⟩ := hf.typed i s hs
    have hsmall : s.isBig = false := by rw [Segment.isBig, hbacking]
    cases hsize : spec.size with
    | fixed n =>
      have hn : s.chunks ≤ h.store.segmentChunks := by
        rw [(hkind.small n hsize).2.1]
        exact (hf.fixed _ spec n hspec hsize).2
      calc s.chunks * h.store.chunkBytes ≤ h.store.areaBytes := Nat.mul_le_mul_right _ hn
        _ ≤ a.offset + h.store.areaBytes := Nat.le_add_left _ _
        _ ≤ b.size := hle
        _ ≤ Word.maxSize := (hf.store.block_size b hb).2
    | big =>
      rw [(hkind.big hsize).1] at hsmall
      cases hsmall
  | dedicated b =>
    rw [hbacking] at hb
    exact Nat.le_trans hb.2.1 hb.2.2

theorem capacity_le_of_ok (hf : h.Formed) {p : ObjRef} {n : Nat} (hn : h.capacity p = .ok n) :
    n ≤ Word.maxSize := by
  unfold capacity chunksOf segment Store.segment at hn
  cases hs : h.store.segment? p.segment with
  | none =>
    rw [hs] at hn
    cases hn
  | some s =>
    rw [hs] at hn
    cases hn
    exact hf.capacity_le hs

/-- A small segment lies in a pool block, whose bytes did fit. -/
theorem Formed.sized_of_small (hf : h.Formed) {i : SegmentIndex} {s : Segment}
    (hs : h.store.segment? i = some s) (hsmall : s.isBig = false) : h.store.Sized := by
  have hb := hf.store.backed i s hs
  cases hbacking : s.backing with
  | dedicated b =>
    rw [Segment.isBig, hbacking] at hsmall
    cases hsmall
  | pooled a =>
    rw [hbacking] at hb
    obtain ⟨b, hb, _, hle⟩ := hb
    obtain ⟨hsize, hmax⟩ := hf.store.block_size b hb
    have harea : h.store.areaBytes ≤ Word.maxSize := by omega
    have hlt : h.store.areaBytes < Word.limit := Nat.lt_of_le_of_lt harea (by decide)
    obtain ⟨k, hk⟩ := Word.isPowerOfTwo_iff.mp hf.store.chunks_pow
    have hchunk : h.store.chunkBytes ≤ h.store.areaBytes := by
      rw [Store.areaBytes, hk]
      exact Nat.le_mul_of_pos_left _ (Nat.pow_pos (by decide))
    refine ⟨?_, ?_⟩
    · have hpow : Nat.pow 2 h.store.chunkBits < 2 ^ 64 :=
        Nat.lt_of_le_of_lt (Nat.le_trans hchunk harea) (by decide)
      exact (Nat.pow_lt_pow_iff_right (by decide)).mp hpow
    · have hpool : h.store.poolBytes = b.size := by
        rw [hsize, Store.poolBytes]
        exact congrArg (· * h.store.segmentsPerBlock) (Nat.mod_eq_of_lt hlt)
      rw [hpool]
      exact Nat.lt_of_le_of_lt hmax (by decide)

/-! ## Requests -/

theorem request_ne_fault (hl : h.layout.Total) (tag : TypeTag) (length : Nat) (f : Fault) :
    h.request tag length ≠ .error (.fault f) := by
  intro hr
  rcases fault_of_request hr with hk | ⟨t, hn⟩
  · obtain ⟨k, hk'⟩ := (hl tag length).1
    rw [hk'] at hk
    cases hk
  · obtain ⟨n, hn'⟩ := (hl t length).2
    rw [hn'] at hn
    cases hn

end Heap

end SegmentedHeap
