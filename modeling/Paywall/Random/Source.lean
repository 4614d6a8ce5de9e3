/-!
# Random numbers from words

A source gives words of 64 bits, one after the other. `below` draws a whole number and `fractionOf`
a double, each uniformly by rejection: a word that would favour some results is thrown away. Both
stay in their range whatever the source gives; after `attempts` rejections they settle for zero,
which a source of random words never reaches.
-/

namespace Paywall

/-- A source of words. -/
class WordSource (γ : Type) where
  /-- The next word, and the source behind it. -/
  next : γ → UInt64 × γ

namespace Random

variable {γ : Type} [WordSource γ]

/-- How many words may be rejected in a row. -/
def attempts : Nat := 65536

/-- Zero bits in front of a number of 64 bits. -/
def leadingZeros (n : Nat) : Nat := 63 - n.log2

/-- The largest low half of a product that is accepted: the end of the largest multiple of `n`'s
leading power of two. -/
def zone (n : Nat) : Nat := n <<< leadingZeros n - 1

/-- A whole number below `n`, from the high half of the product with a word. -/
def below (n : Nat) (g : γ) : Nat × γ := go attempts g
where
  /-- At most `rounds` attempts. -/
  go : Nat → γ → Nat × γ
    | 0, g => (0, g)
    | rounds + 1, g =>
      let (v, g) := WordSource.next g
      let product := v.toNat * n
      if product % Nat.pow 2 64 ≤ zone n then (product / Nat.pow 2 64, g) else go rounds g

/-- A double from 0 to 1, 1 excluded, from the upper 52 bits of a word. -/
def unit (v : UInt64) : Float := Float.ofBits ((v >>> 12) ||| 0x3ff0000000000000) - 1.0

/-- A double from 0 to `total`, `total` excluded. -/
def fractionOf (total : Float) (g : γ) : Float × γ := go attempts g
where
  /-- At most `rounds` attempts. -/
  go : Nat → γ → Float × γ
    | 0, g => (0.0, g)
    | rounds + 1, g =>
      let (v, g) := WordSource.next g
      let r := unit v * total + 0.0
      if r < total then (r, g) else go rounds g

end Random

/-- Words given in advance. Behind the last one the source gives zeros. -/
structure WordList where
  words : List UInt64
  /-- How many words have been taken. -/
  used : Nat

instance : WordSource WordList where
  next g := (g.words.headD 0, ⟨g.words.tail, g.used + 1⟩)

end Paywall
