/-!
Contract: powers of the two bases that numbers are written in, and rounding a rational to an integer.

Owns: powers of two and of ten among the naturals; the three directions of rounding that the library needs
(half away from zero, half to the even neighbour, toward zero) and the printing of a rational with a fixed
number of places.

Does **not** own: which of them a given text or field uses.
-/

set_option autoImplicit false

namespace Montage

/-- Two to a power. -/
abbrev twoTo (exponent : Nat) : Nat := Nat.pow 2 exponent

abbrev tenTo (exponent : Nat) : Nat := Nat.pow 10 exponent

end Montage

namespace Montage.Rounding

/-- The nearest whole number to `numerator / denominator`; of two equally near ones the even one. -/
def quotientHalfEven (numerator denominator : Nat) : Nat :=
  let quotient := numerator / denominator
  let twice := 2 * (numerator % denominator)
  if twice < denominator then quotient
  else if denominator < twice then quotient + 1
  else if quotient % 2 = 0 then quotient else quotient + 1

/-- The nearest whole number to `numerator / denominator`; of two equally near ones the larger. -/
def quotientHalfUp (numerator denominator : Nat) : Nat :=
  (2 * numerator + denominator) / (2 * denominator)

/-- The nearest integer; a value halfway between two goes to the one further from zero. -/
def halfAway (q : Rat) : Int :=
  if q < 0 then -(quotientHalfUp q.num.natAbs q.den : Int)
  else (quotientHalfUp q.num.natAbs q.den : Int)

/-- The integer part: what remains when the fraction is dropped. -/
def towardZero (q : Rat) : Int :=
  Int.tdiv q.num q.den

/-- The magnitude of `q` in units of `10 ^ -places`, rounded half to even. -/
def scaled (places : Nat) (q : Rat) : Nat :=
  quotientHalfEven (q.num.natAbs * tenTo places) q.den

end Montage.Rounding
