/-
SegmentedHeap.Proofs.Shortage — why no segment is reserved.

A segment is reserved unless the limit on segments is reached, or there is
no memory for it. A small one takes an area that is spare; if there is none,
a pool block is needed, and it can be had unless its bytes are no size of a
block or the system refuses them. A big one needs a block of its own, whose
bytes are always a size of a block if they fit in memory. There is no other
reason: what is reserved can be entered into the table, and a block that is
granted is cut into some area.

* `Block.pool_refused_iff` — pool blocks.
* `Store.NoArea`, `Store.takeArea_refused_iff` — areas.
* `Store.reserveSmall_refused_iff`, `Store.reserveBig_refused_iff` —
  **segments**.
-/
import SegmentedHeap.Proofs.Reservation

namespace SegmentedHeap

/-! ## Blocks and areas that are refused -/

/-- A pool block is refused if its size is no size of a block, or by the
system. -/
theorem Block.pool_refused_iff {system : System} {held size : Nat} {m : Memory} :
    (∃ e, Block.pool system held m size = .error e) ↔
      Block.wellFormed size size = false ∨ system.grants held size size = false := by
  unfold Block.pool Block.reserve
  cases hpow : Word.isPowerOfTwo size with
  | false =>
    have hbad : Block.wellFormed size size = false := by
      rw [wellFormed, hpow, Bool.false_and]
    exact iff_of_true ⟨_, rfl⟩ (Or.inl hbad)
  | true =>
    cases hwf : Block.wellFormed size size with
    | false => exact iff_of_true ⟨_, rfl⟩ (Or.inl rfl)
    | true =>
      cases hg : system.grants held size size with
      | false => exact iff_of_true ⟨_, rfl⟩ (Or.inr rfl)
      | true =>
        refine iff_of_false ?_ (by simp)
        rintro ⟨e, he⟩
        cases he

namespace Store

/-- No area is to be had for a small segment: none is spare, and no pool
block is granted. -/
structure NoArea (s : Store) : Prop where
  spare : s.spare = []
  block : Block.wellFormed s.poolBytes s.poolBytes = false ∨
    s.system.grants s.totalBytes s.poolBytes s.poolBytes = false

section

variable {s : Store}

/-- A pool is grown unless its block is refused. -/
theorem growPool_refused_iff (hs : s.Sized) :
    (∃ e s', growPool s = .error (.refused e) s') ↔
      ∃ e, Block.pool s.system s.totalBytes s.memory s.poolBytes = .error e := by
  rcases growPool_of_sized hs with ⟨e, hpool, hrun⟩ | ⟨block, memory, a, rest, hpool, _, hrun⟩
  · exact iff_of_true ⟨_, s, hrun⟩ ⟨e, hpool⟩
  · rw [hrun, hpool]
    exact iff_of_false (by simp) (by simp)

/-- An area is had unless there is none. -/
theorem takeArea_refused_iff (hs : s.Sized) :
    (∃ e s', takeArea s = .error (.refused e) s') ↔ s.NoArea := by
  rw [takeArea, get_bind_eq]
  cases hspare : s.spare with
  | cons a rest =>
    refine iff_of_false ?_ fun hn => ?_
    · rintro ⟨e, s', he⟩
      cases he
    · rw [hn.spare] at hspare
      cases hspare
  | nil =>
    refine (growPool_refused_iff hs).trans (Block.pool_refused_iff.trans ?_)
    exact ⟨fun hb => ⟨hspare, hb⟩, fun hn => hn.block⟩

/-- **A small segment is refused** if the limit on segments is reached or no
area is to be had, and for no other reason. -/
theorem reserveSmall_refused_iff (hs : s.Sized) (kind : KindId) (chunks : Nat)
    (stored : Bool) :
    (∃ e s', reserveSmall kind chunks stored s = .error (.refused e) s') ↔
      s.maxSegments ≤ s.reserved ∨ s.NoArea := by
  rw [reserveSmall]
  by_cases hlimit : s.maxSegments ≤ s.reserved
  · exact iff_of_true ⟨_, s, bind_of_error (checkLimit_of_le hlimit)⟩ (Or.inl hlimit)
  · rw [bind_of_ok (checkLimit_of_lt (Nat.lt_of_not_le hlimit)), ← takeArea_refused_iff hs,
      or_iff_right hlimit]
    constructor
    · rintro ⟨e, s', he⟩
      cases htake : takeArea s with
      | error f s₁ =>
        rw [bind_of_error htake] at he
        cases he
        exact ⟨_, _, rfl⟩
      | ok area s₁ =>
        -- the segment that is made of the area is entered into the table
        rw [bind_of_ok htake, get_bind_eq] at he
        have hends : Ends ((lift (Segment.small kind chunks s₁.segmentChunks area stored) >>=
            fun t => install t) s₁) (fun _ _ => True) (fun _ _ => False) fun _ => True :=
          Ends.lift_bind (fun _ _ => trivial) fun _ _ => trivial
        exact (hends.of_refused he).elim
    · rintro ⟨e, s', he⟩
      exact ⟨e, s', bind_of_error he⟩

/-- Whole chunks that fit in memory fit in it with one more chunk, but for
one byte. -/
theorem wellFormed_chunks {k chunks : Nat} (hpos : 0 < chunks)
    (hle : chunks * Nat.pow 2 k ≤ Word.maxSize) :
    k < 64 ∧ Block.wellFormed (chunks * Nat.pow 2 k) (Nat.pow 2 k) = true := by
  have hmax : Word.maxSize + 1 = 2 ^ 63 := rfl
  have hk : k < 63 := by
    have hpow : Nat.pow 2 k < 2 ^ 63 :=
      calc Nat.pow 2 k ≤ chunks * Nat.pow 2 k := Nat.le_mul_of_pos_left _ hpos
        _ < 2 ^ 63 := by omega
    exact (Nat.pow_lt_pow_iff_right (by decide)).mp hpow
  refine ⟨by omega, ?_⟩
  obtain ⟨d, hd⟩ : 2 ^ k ∣ 2 ^ 63 := Nat.pow_dvd_pow 2 (Nat.le_of_lt hk)
  have hlt : chunks < d := by
    rw [Nat.pow_eq] at hle
    refine Nat.lt_of_mul_lt_mul_right (a := 2 ^ k) ?_
    rw [Nat.mul_comm d, ← hd]
    omega
  have hnext : (chunks + 1) * 2 ^ k ≤ 2 ^ 63 := by
    rw [hd, Nat.mul_comm (2 ^ k)]
    exact Nat.mul_le_mul_right _ hlt
  have hone : 0 < 2 ^ k := Nat.two_pow_pos k
  rw [Nat.succ_mul] at hnext
  rw [Block.wellFormed, Word.isPowerOfTwo_iff.mpr ⟨k, rfl⟩, Bool.true_and, decide_eq_true_eq,
    Nat.pow_eq]
  omega

/-- **A big segment is refused** if the limit on segments is reached or the
system refuses the block. -/
theorem reserveBig_refused_iff (kind : KindId) {chunks : Nat} (stored : Bool)
    (hpos : 0 < chunks) (hle : chunks * s.chunkBytes ≤ Word.maxSize) :
    (∃ e s', reserveBig kind chunks stored s = .error (.refused e) s') ↔
      s.maxSegments ≤ s.reserved ∨
        s.system.grants s.totalBytes (chunks * s.chunkBytes) s.chunkBytes = false := by
  obtain ⟨hbits, hwf⟩ := wellFormed_chunks hpos hle
  have hlimit : chunks * s.chunkBytes < Word.limit := Nat.lt_of_le_of_lt hle (by decide)
  have hone : max (chunks * s.chunkBytes) 1 = chunks * s.chunkBytes :=
    Nat.max_eq_left (Nat.mul_pos hpos (Nat.two_pow_pos _))
  by_cases hfull : s.maxSegments ≤ s.reserved
  · exact iff_of_true ⟨_, s, bind_of_error (checkLimit_of_le hfull)⟩ (Or.inl hfull)
  · rw [reserveBig_eq (Nat.lt_of_not_le hfull) hbits kind stored hlimit, or_iff_right hfull,
      Block.single, hone, Block.reserve]
    have hwf : Block.wellFormed (chunks * s.chunkBytes) s.chunkBytes = true := hwf
    rw [hwf]
    cases hg : s.system.grants s.totalBytes (chunks * s.chunkBytes) s.chunkBytes with
    | false => exact iff_of_true ⟨_, _, rfl⟩ rfl
    | true =>
      refine iff_of_false ?_ (by simp)
      rintro ⟨e, s', he⟩
      cases he

end

end Store

end SegmentedHeap
