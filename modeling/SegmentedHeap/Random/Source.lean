/-
SegmentedHeap.Random.Source — random choices.

A source draws the choices that a run makes. `Source.InRange` states
what a run relies on: a choice from `n` values is below `n`. The choices
of `Source.chacha` are drawn from a stream of words; a choice from `n`
values multiplies a word by `n` and keeps the high half, unless the low
half falls in the remainder that would favour some values.
-/
import SegmentedHeap.Random.ChaCha

namespace SegmentedHeap.Random

/-- Choices drawn from a state of type `σ`. -/
structure Source (σ : Type) where
  /-- One of so many values, at least one, from a 32-bit word. -/
  below32 : Nat → σ → Nat × σ
  /-- The same, from a 64-bit word. -/
  below64 : Nat → σ → Nat × σ
  /-- True one time in so many, at least one. -/
  oneIn : Nat → σ → Bool × σ
  /-- True every other time. -/
  coin : σ → Bool × σ
  any64 : σ → UInt64 × σ

/-- Every choice from some values is one of them. -/
def Source.InRange {σ : Type} (source : Source σ) : Prop :=
  ∀ n s, 0 < n → (source.below32 n s).1 < n ∧ (source.below64 n s).1 < n

/-- Words that a choice draws before it settles for the first value. A
word is rejected less than every other time. -/
def maxDraws : Nat := 1000

/-- The low halves that a choice from `n` values accepts, for words of
so many bits: as many multiples of `n` as a power of two allows. -/
def zone (bits n : Nat) : Nat := n * Nat.pow 2 (bits - 1 - n.log2) - 1

/-- A choice from `n` values by words of so many bits, in at most so many
draws. -/
def choose (bits n : Nat) (draw : ChaCha → Nat × ChaCha) : (draws : Nat) → ChaCha → Nat × ChaCha
  | 0, c => (0, c)
  | draws + 1, c =>
    let (word, c) := draw c
    let product := word * n
    if product % Nat.pow 2 bits ≤ zone bits n then (product / Nat.pow 2 bits, c)
    else choose bits n draw draws c

/-- The choices drawn from a stream. -/
def Source.chacha : Source ChaCha where
  below32 n := choose 32 n (fun c => let (w, c) := c.word32; (w.toNat, c)) maxDraws
  below64 n := choose 64 n (fun c => let (w, c) := c.word64; (w.toNat, c)) maxDraws
  oneIn d c :=
    if d = 1 then (true, c)
    else
      let (w, c) := c.word64
      (w < (1.0 / d.toUInt64.toFloat * 18446744073709551616.0).toUInt64, c)
  coin c := let (w, c) := c.word64; (w < 0x8000000000000000, c)
  any64 := ChaCha.word64

end SegmentedHeap.Random
