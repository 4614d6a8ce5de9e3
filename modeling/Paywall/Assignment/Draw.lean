import Paywall.Campaign.Experiment
import Paywall.Random.Source

/-!
# Drawing a variant

A variant is drawn with a probability in proportion to its weight. A point is drawn between zero and
the sum of the weights, and the variant is taken whose stretch of that line holds the point. A
weight that is negative or not a number counts as zero; if all count as zero the draw is uniform; if
the sum is not finite the weights are divided by the largest one first.

The draw asks of weights and of the source only what the classes `Weight` and `Sampler` list.
-/

namespace Paywall

/-- Numbers that can be weights. -/
class Weight (ω : Type) where
  zero : ω
  one : ω
  add : ω → ω → ω
  div : ω → ω → ω
  lt : ω → ω → Bool
  isNaN : ω → Bool
  isInfinite : ω → Bool

/-- A source of indices and of points below a weight. -/
class Sampler (γ ω : Type) where
  /-- An index below a number. -/
  index : Nat → γ → Nat × γ
  /-- A point between zero and a weight. -/
  point : ω → γ → ω × γ

instance : Weight Float where
  zero := 0.0
  one := 1.0
  add := (· + ·)
  div := (· / ·)
  lt a b := a < b
  isNaN := Float.isNaN
  isInfinite := Float.isInf

instance {γ : Type} [WordSource γ] : Sampler γ Float where
  index := Random.below
  point := Random.fractionOf

/-- Why no variant can be drawn. -/
inductive DrawError where
  | noVariants
  | invalidState
deriving DecidableEq, Repr

/-- The wording of an error. -/
def DrawError.message : DrawError → String
  | .noVariants => "experiment has no variants"
  | .invalidState => "variant draw reached an invalid state"

namespace Draw

variable {ω : Type} [Weight ω]

/-- What a weight counts for. -/
def effective (w : ω) : ω :=
  if Weight.isNaN w then Weight.zero else if Weight.lt Weight.zero w then w else Weight.zero

/-- The sum of weights. -/
def total (ws : List ω) : ω := ws.foldl Weight.add Weight.zero

/-- The largest of the weights and zero. -/
def largest (ws : List ω) : ω :=
  ws.foldl (fun m w => if Weight.lt m w then w else m) Weight.zero

/-- Whether a number is neither infinite nor no number at all. -/
def isFinite (w : ω) : Bool := !Weight.isNaN w && !Weight.isInfinite w

/-- The weights divided by the largest one. Infinite weights count as one and leave nothing to the
others. -/
def rescale (ws : List ω) : List ω :=
  let m := largest ws
  if Weight.isInfinite m then
    ws.map fun w => if Weight.isInfinite w then Weight.one else Weight.zero
  else ws.map fun w => Weight.div w m

/-- The weights that the draw uses. Their sum is finite. -/
def weights (ws : List ω) : List ω :=
  let ws := ws.map effective
  if isFinite (total ws) then ws else rescale ws

/-- The index of the first weight whose running sum exceeds the point. -/
def locate (point : ω) (sum : ω) : List ω → Option Nat
  | [] => none
  | w :: ws =>
    let sum := Weight.add sum w
    if Weight.lt point sum then some 0 else (locate point sum ws).map (· + 1)

/-- The index of the last positive weight. -/
def lastPositive : List ω → Option Nat
  | [] => none
  | w :: ws =>
    match lastPositive ws with
    | some i => some (i + 1)
    | none => if Weight.lt Weight.zero w then some 0 else none

variable {γ : Type} [Sampler γ ω]

/-- Draws an index into a list of weights. A single one is taken without asking the source. -/
def index (ws : List ω) (g : γ) : Except DrawError Nat × γ :=
  match ws with
  | [] => (.error .noVariants, g)
  | [_] => (.ok 0, g)
  | ws =>
    let effective := weights ws
    let sum := total effective
    if Weight.lt Weight.zero sum then
      let (point, g) := Sampler.point sum g
      match locate point Weight.zero effective <|> lastPositive effective with
      | some i => (.ok i, g)
      | none => (.error .invalidState, g)
    else
      let (i, g) := Sampler.index ω ws.length g
      (.ok i, g)

end Draw

/-- Draws a variant. -/
def chooseVariant {γ : Type} [Sampler γ Float] (options : List VariantOption) (g : γ) :
    Except DrawError Variant × γ :=
  match Draw.index (options.map (·.weight)) g with
  | (.ok i, g) =>
    match options[i]? with
    | some o => (.ok o.toVariant, g)
    | none => (.error .invalidState, g)
  | (.error e, g) => (.error e, g)

end Paywall
