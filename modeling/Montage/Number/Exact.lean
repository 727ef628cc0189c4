import Montage.Number.Scalar

/-!
Contract: the rules of the library read in exact arithmetic.

Owns: the instance of `Scalar` on `Extended`, in which no operation rounds.
-/

set_option autoImplicit false

namespace Montage.Extended

/-- A value as a message would show it: a fraction in lowest terms. -/
def text : Extended → String
  | .nan => "NaN"
  | .negInf => "-inf"
  | .posInf => "inf"
  | .fin q => if q.den = 1 then toString q.num else toString q.num ++ "/" ++ toString q.den

instance : Scalar Extended where
  lessDecidable := inferInstance
  atMostDecidable := inferInstance
  ofDecimal digits negative exponent := .fin (Rat.ofScientific digits negative exponent)
  ofRat q := .fin q
  exact x := x
  isNegative
    | .fin q => q < 0
    | .negInf => true
    | _ => false
  written := text

end Montage.Extended
