import Montage.Number.Extended
import Montage.Number.Rounding

/-!
Contract: the numbers that times, sizes and percentages are measured in.

Owns: the interface `Scalar` and the operations every rule of the library is built from.

Does **not** own: the two number types that implement it. `Float` is the one programs run on;
`Extended` computes the same formulas without rounding. Every rule is written once against this
interface, so a statement about exact arithmetic and a statement about machine arithmetic are about
the same definitions.
-/

set_option autoImplicit false

namespace Montage

/-- Numbers with the four operations, an order, and a reading as an exact value. -/
class Scalar (α : Type) extends Add α, Sub α, Mul α, Div α, LT α, LE α where
  lessDecidable : DecidableLT α
  atMostDecidable : DecidableLE α
  /-- The number `digits * 10 ^ exponent`, the exponent negated when the flag is set. -/
  ofDecimal : Nat → Bool → Nat → α
  /-- The number nearest to a rational. -/
  ofRat : Rat → α
  /-- The exact value of a number. -/
  exact : α → Extended
  /-- Whether the number carries a minus sign, which a zero may do. -/
  isNegative : α → Bool
  /-- The number as it stands in a message. -/
  written : α → String

namespace Scalar

attribute [reducible, instance] Scalar.lessDecidable Scalar.atMostDecidable

variable {α : Type} [Scalar α]

instance (priority := low) instOfNat (n : Nat) : OfNat α n := ⟨Scalar.ofDecimal n false 0⟩

instance (priority := low) instOfScientific : OfScientific α := ⟨Scalar.ofDecimal⟩

/-- The number equal to a small integer. -/
def ofInt (n : Int) : α := ofRat n

def isNaN (x : α) : Bool :=
  match exact x with
  | .nan => true
  | _ => false

def isFinite (x : α) : Bool :=
  match exact x with
  | .fin _ => true
  | _ => false

/-- The larger of two numbers; a missing number gives way to the other, equal ones to the first. -/
def max (x y : α) : α :=
  if isNaN x then y else if x < y then y else x

/-- The smaller of two numbers; a missing number gives way to the other, equal ones to the first. -/
def min (x y : α) : α :=
  if isNaN x then y else if y < x then y else x

/-- Moves a number into an interval; what is no number stays none. -/
def clamp (x low high : α) : α :=
  let raised := if x < low then low else x
  if high < raised then high else raised

def abs (x : α) : α :=
  if x < 0 then 0 - x else x

/-- The number itself when it is finite, else the fallback. -/
def finiteOr (x fallback : α) : α :=
  if isFinite x then x else fallback

/-- The whole number nearest to `x`, halves away from zero. -/
def round (x : α) : α :=
  match exact x with
  | .fin q => ofInt (Rounding.halfAway q)
  | _ => x

/-- A zero that keeps the sign of `x`. -/
def zeroLike (x : α) : α :=
  if isNegative x then 0 * (0 - 1) else 0

/-- What a division of `x` by `y` toward zero leaves over; it has the sign of `x`. -/
def remainder (x y : α) : α :=
  match exact x, exact y with
  | .fin p, .fin q =>
    if q = 0 then 0 / 0
    else
      let rest := p - q * (Rounding.towardZero (p / q) : Rat)
      if rest = 0 then zeroLike x else ofRat rest
  | .fin _, .posInf => x
  | .fin _, .negInf => x
  | _, _ => 0 / 0

/-- The integer part of `x` held to an interval; what is no number counts as zero. -/
def truncate (low high : Int) (x : α) : Int :=
  match exact x with
  | .nan => 0
  | .negInf => low
  | .posInf => high
  | .fin q => Max.max low (Min.min high (Rounding.towardZero q))

/-- The nearest integer of `x` held to an interval; what is no number counts as zero. -/
def roundWithin (low high : Int) (x : α) : Int :=
  truncate low high (round x)

end Scalar

end Montage
