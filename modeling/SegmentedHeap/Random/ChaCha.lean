/-
SegmentedHeap.Random.ChaCha — a stream of words from a seed.

The ChaCha cipher with twelve rounds, its nonce zero and its counter the
number of the block, gives sixteen words a block. The key is spun from a
64-bit seed by a linear congruence whose state is folded and rotated
into each word.
-/

namespace SegmentedHeap.Random

/-- The sixteen words of a block. -/
abbrev State := Vector UInt32 16

def rotateLeft (x : UInt32) (n : UInt32) : UInt32 := (x <<< n) ||| (x >>> (32 - n))

/-- The quarter round on four words. -/
def quarter (s : State) (a b c d : Fin 16) : State :=
  let step (s : State) (x y z : Fin 16) (n : UInt32) : State :=
    let s := s.set x (s[x] + s[y])
    s.set z (rotateLeft (s[z] ^^^ s[x]) n)
  let s := step s a b d 16
  let s := step s c d b 12
  let s := step s a b d 8
  step s c d b 7

/-- A round on the columns and a round on the diagonals. -/
def doubleRound (s : State) : State :=
  let s := quarter s 0 4 8 12
  let s := quarter s 1 5 9 13
  let s := quarter s 2 6 10 14
  let s := quarter s 3 7 11 15
  let s := quarter s 0 5 10 15
  let s := quarter s 1 6 11 12
  let s := quarter s 2 7 8 13
  quarter s 3 4 9 14

/-- The block with a number under a key. -/
def block (key : Vector UInt32 8) (number : UInt64) : State :=
  let start : State := #v[
    0x61707865, 0x3320646e, 0x79622d32, 0x6b206574,
    key[0], key[1], key[2], key[3], key[4], key[5], key[6], key[7],
    number.toUInt32, (number >>> 32).toUInt32, 0, 0]
  let mixed := Nat.repeat doubleRound 6 start
  Vector.ofFn fun i => mixed[i] + start[i]

/-- The next state of the congruence that spins keys. -/
def spin (s : UInt64) : UInt64 := s * 6364136223846793005 + 11634580027462260723

/-- The word of a key that a state gives. -/
def spunWord (s : UInt64) : UInt32 :=
  let folded := (((s >>> 18) ^^^ s) >>> 27).toUInt32
  let turn := (s >>> 59).toUInt32
  (folded >>> turn) ||| (folded <<< (32 - turn))

/-- The key spun from a seed. -/
def keyOfSeed (seed : UInt64) : Vector UInt32 8 :=
  Vector.ofFn fun i => spunWord (Nat.repeat spin (i.val + 1) seed)

/-- A position in a stream. -/
structure ChaCha where
  key : Vector UInt32 8
  /-- The current block, and how many of its words were drawn. -/
  current : State
  drawn : Nat
  /-- The number of the next block. -/
  next : UInt64

namespace ChaCha

/-- The start of the stream of a seed. -/
def ofSeed (seed : UInt64) : ChaCha :=
  let key := keyOfSeed seed
  { key, current := block key 0, drawn := 0, next := 1 }

/-- The next word. -/
def word32 (c : ChaCha) : UInt32 × ChaCha :=
  if h : c.drawn < 16 then (c.current[c.drawn], { c with drawn := c.drawn + 1 })
  else
    let current := block c.key c.next
    (current[0], { c with current, drawn := 1, next := c.next + 1 })

/-- The next two words as one, the first of them the lower half. -/
def word64 (c : ChaCha) : UInt64 × ChaCha :=
  let (low, c) := c.word32
  let (high, c) := c.word32
  (low.toUInt64 ||| (high.toUInt64 <<< 32), c)

end ChaCha

end SegmentedHeap.Random
