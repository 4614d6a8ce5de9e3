import Paywall.Random.Source

/-!
# A seeded stream of random words

The stream is the key stream of the ChaCha cipher with twelve rounds. A seed of 64 bits is stretched
to the key by a congruential generator; the block counter starts at zero and there is no nonce. A
block gives eight words, each from two of its halves, the low one first.
-/

namespace Paywall.Random

/-- The words that the rounds work on. -/
abbrev Block := Vector UInt32 16

/-- Rotates to the left. -/
def rotateLeft (x : UInt32) (n : UInt32) : UInt32 := x <<< n ||| x >>> (32 - n)

/-- Rotates to the right; by nothing if `n` is zero. -/
def rotateRight (x : UInt32) (n : UInt32) : UInt32 :=
  if n = 0 then x else x >>> n ||| x <<< (32 - n)

/-- Mixes four words. -/
def quarterRound (s : Block) (a b c d : Fin 16) : Block :=
  let s := s.set a (s[a] + s[b])
  let s := s.set d (rotateLeft (s[d] ^^^ s[a]) 16)
  let s := s.set c (s[c] + s[d])
  let s := s.set b (rotateLeft (s[b] ^^^ s[c]) 12)
  let s := s.set a (s[a] + s[b])
  let s := s.set d (rotateLeft (s[d] ^^^ s[a]) 8)
  let s := s.set c (s[c] + s[d])
  s.set b (rotateLeft (s[b] ^^^ s[c]) 7)

/-- Mixes the columns, then the diagonals. -/
def doubleRound (s : Block) : Block :=
  let s := quarterRound s 0 4 8 12
  let s := quarterRound s 1 5 9 13
  let s := quarterRound s 2 6 10 14
  let s := quarterRound s 3 7 11 15
  let s := quarterRound s 0 5 10 15
  let s := quarterRound s 1 6 11 12
  let s := quarterRound s 2 7 8 13
  quarterRound s 3 4 9 14

/-- The words in front of the key. -/
def constants : Vector UInt32 4 := #v[0x61707865, 0x3320646e, 0x79622d32, 0x6b206574]

/-- The block with a number, before the rounds. -/
def initialBlock (key : Vector UInt32 8) (number : UInt64) : Block :=
  constants ++ key ++ #v[number.toUInt32, (number >>> 32).toUInt32, 0, 0]

/-- Twelve rounds. -/
def rounds (s : Block) : Block := Nat.repeat doubleRound 6 s

/-- The halves of a block of the key stream. -/
def keyStream (key : Vector UInt32 8) (number : UInt64) : Block :=
  let s := initialBlock key number
  (rounds s).zipWith (· + ·) s

/-- Joins halves to words, the low half first. -/
def joinHalves : List UInt32 → List UInt64
  | low :: high :: rest => (high.toUInt64 <<< 32 ||| low.toUInt64) :: joinHalves rest
  | _ => []

/-- A stream of words. -/
structure Stream where
  key : Vector UInt32 8
  /-- The number of the next block. -/
  block : UInt64
  /-- What is left of the current block. -/
  pending : List UInt64
deriving DecidableEq

namespace Stream

/-- The next state of the generator that stretches a seed. -/
def stretch (s : UInt64) : UInt64 := s * 6364136223846793005 + 11634580027462260723

/-- The key word of a state. -/
def keyWord (s : UInt64) : UInt32 :=
  rotateRight (((s >>> 18) ^^^ s) >>> 27).toUInt32 (s >>> 59).toUInt32

/-- `n` key words from a state. -/
def keyWords : Nat → UInt64 → List UInt32
  | 0, _ => []
  | n + 1, s => keyWord (stretch s) :: keyWords n (stretch s)

theorem length_keyWords (n : Nat) (s : UInt64) : (keyWords n s).length = n := by
  induction n generalizing s with
  | zero => rfl
  | succ n ih => simp [keyWords, ih]

/-- The stream of a seed. -/
def ofSeed (seed : UInt64) : Stream where
  key := ⟨(keyWords 8 seed).toArray, by simp [length_keyWords]⟩
  block := 0
  pending := []

/-- The next word. -/
def next (g : Stream) : UInt64 × Stream :=
  match g.pending with
  | w :: rest => (w, { g with pending := rest })
  | [] =>
    match joinHalves (keyStream g.key g.block).toList with
    | w :: rest => (w, { g with block := g.block + 1, pending := rest })
    | [] => (0, g)

instance : WordSource Stream := ⟨next⟩

end Stream

end Paywall.Random
