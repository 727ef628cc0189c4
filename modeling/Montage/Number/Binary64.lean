import Montage.Number.Scalar
import Montage.Number.Shortest

/-!
Contract: the 64-bit binary numbers that programs run on.

Owns: the reading of a `Float` as a significand and a power of two, the nearest `Float` to a rational,
and the instance of `Scalar` on `Float`.

Does **not** own: the choice of decimal digits (`Montage.Number.Shortest`) and the layouts in which
digits are written (`Montage.Number.Layout`).
-/

set_option autoImplicit false

namespace Montage.Binary64

/-- The value of the leading bit of a significand, which is not stored. -/
abbrev implicitBit : Nat := 0x10000000000000

abbrev signValue : Nat := 0x8000000000000000

/-- A significand below `2 ^ 53` and the power of two it is multiplied by. -/
structure Parts where
  significand : Nat
  exponent : Int
  deriving DecidableEq, Repr

/-- The parts of the magnitude of a finite number. -/
def parts (x : Float) : Parts :=
  let bits : Nat := x.toBits.toNat
  let field : Nat := bits / implicitBit % 0x800
  let fraction : Nat := bits % implicitBit
  if field = 0 then ⟨fraction, -1074⟩ else ⟨fraction + implicitBit, (field : Int) - 1075⟩

/-- Whether the sign bit is set. -/
def signBit (x : Float) : Bool :=
  x.toBits.toNat / signValue = 1

def Parts.magnitude (p : Parts) : Rat :=
  if 0 ≤ p.exponent then ((p.significand * twoTo p.exponent.toNat : Nat) : Rat)
  else mkRat p.significand (twoTo (-p.exponent).toNat)

/-- The exact value of a number. -/
def exact (x : Float) : Extended :=
  if x.isNaN then .nan
  else if x.isInf then (if signBit x then .negInf else .posInf)
  else
    let magnitude := (parts x).magnitude
    .fin (if signBit x then -magnitude else magnitude)

/-- The exponent of the unit that `numerator / denominator` is rounded to. -/
def unitExponent (numerator denominator : Nat) : Int :=
  let estimate : Int := (Nat.log2 numerator : Int) - (Nat.log2 denominator : Int) - 53
  let tooSmall : Bool :=
    if 0 ≤ estimate then denominator * twoTo (53 + estimate.toNat) ≤ numerator
    else denominator * twoTo 53 ≤ numerator * twoTo (-estimate).toNat
  Max.max (if tooSmall then estimate + 1 else estimate) (-1074)

/-- The bits of the number nearest to `numerator / denominator`, the even one of two. -/
def nearestBits (numerator denominator : Nat) : Nat :=
  if numerator = 0 then 0
  else
    let exponent := unitExponent numerator denominator
    let significand :=
      if 0 ≤ exponent then
        Rounding.quotientHalfEven numerator (denominator * twoTo exponent.toNat)
      else Rounding.quotientHalfEven (numerator * twoTo (-exponent).toNat) denominator
    let bits := (exponent + 1074).toNat * implicitBit + significand
    if 0x7FF0000000000000 ≤ bits then 0x7FF0000000000000 else bits

/-- The number nearest to a rational; a tie goes to the even significand. -/
def nearest (q : Rat) : Float :=
  let bits := nearestBits q.num.natAbs q.den
  Float.ofBits (UInt64.ofNat (if q < 0 then bits + signValue else bits))

/-- The number nearest to `digits * 10 ^ exponent`, for exponents of any size. -/
def ofDecimal (digits : Nat) (negative : Bool) (exponent : Nat) : Float :=
  if digits = 0 then 0.0
  else
    let width := (Nat.repr digits).length
    if negative then
      if width + 400 < exponent then 0.0 else Float.ofScientific digits true exponent
    else if 400 < exponent then Float.ofBits 0x7FF0000000000000
    else Float.ofScientific digits false exponent

/-- The digits of a nonzero magnitude that the shortest text of it shows. -/
def shortest (tie : Shortest.Tie) (x : Float) : Shortest.Digits :=
  let p := parts x
  Shortest.digits tie p.significand p.exponent
    (p.significand = implicitBit && -1074 < p.exponent)

/-- A number as it stands in a message: shortest digits, the larger of two that are equally near, no
exponent, no fraction when whole. -/
def text (x : Float) : String :=
  if x.isNaN then "NaN"
  else
    let sign := if signBit x then "-" else ""
    if x.isInf then sign ++ "inf"
    else if x == 0.0 then sign ++ "0"
    else sign ++ (shortest .up x).positional ""

instance : Scalar Float where
  lessDecidable := inferInstance
  atMostDecidable := inferInstance
  ofDecimal := ofDecimal
  ofRat := nearest
  exact := exact
  isNegative := signBit
  written := text

end Montage.Binary64
