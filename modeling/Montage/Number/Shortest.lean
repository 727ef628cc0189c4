import Montage.Number.Rounding

/-!
Contract: the fewest decimal digits that identify a binary number among its neighbours.

Owns: the interval of rationals that read back as a given number, the search for the coarsest decimal
grid with a point in it, and the two ways of writing the digits found.

Of two points of that grid the one nearer to the number is taken. Where both are equally near, the format
decides: the even one, or the larger one.

Does **not** own: sign, zero and the values that are not numbers, which each text format spells itself.

The value is `significand * 2 ^ exponent`. All comparisons are between naturals: both sides are
multiplied by four, by the powers of two and of ten that are in the way, and never divided.
-/

set_option autoImplicit false

namespace Montage.Shortest

/-- Which of two points that are equally near is taken. -/
inductive Tie where
  | toEven
  | up
  deriving DecidableEq, Repr

/-- The nearest whole number to `numerator / denominator`. -/
def Tie.quotient : Tie → (numerator denominator : Nat) → Nat
  | .toEven => Rounding.quotientHalfEven
  | .up => Rounding.quotientHalfUp

/-- Decimal digits and the place of the point: the value is `0.d₁d₂… * 10 ^ point`. -/
structure Digits where
  digits : List Char
  point : Int
  deriving DecidableEq, Repr

/-- The rationals `low / unit … high / unit` that read back as `value / unit`. -/
structure Interval where
  low : Nat
  value : Nat
  high : Nat
  unit : Nat
  closed : Bool

/-- The interval of a number; at the start of a binade the gap below is half the gap above. -/
def interval (significand : Nat) (exponent : Int) (narrowBelow : Bool) : Interval :=
  let factor := if 0 ≤ exponent then twoTo exponent.toNat else 1
  let unit := if 0 ≤ exponent then 4 else 4 * twoTo (-exponent).toNat
  { low := (4 * significand - (if narrowBelow then 1 else 2)) * factor
    value := 4 * significand * factor
    high := (4 * significand + 2) * factor
    unit := unit
    closed := significand % 2 = 0 }

/-- Whether `point * 10 ^ grid` lies in the interval. -/
def Interval.holds (i : Interval) (point : Nat) (grid : Int) : Bool :=
  let scaled := point * i.unit * tenTo grid.toNat
  let ten := tenTo (-grid).toNat
  if i.closed then i.low * ten ≤ scaled && scaled ≤ i.high * ten
  else i.low * ten < scaled && scaled < i.high * ten

/-- The number of digits before the point, counted negatively for zeros after it. -/
def magnitude (i : Interval) : Int :=
  let estimate : Int := (((Nat.log2 i.value : Int) - (Nat.log2 i.unit : Int)) * 30103) / 100000
  let below (place : Int) : Bool :=
    i.value * tenTo (-place).toNat < i.unit * tenTo place.toNat
  (([estimate - 1, estimate, estimate + 1].find? below).getD (estimate + 2))

/-- The point of the grid nearest to the value among its two neighbours that lie in the interval. -/
def candidate (tie : Tie) (i : Interval) (grid : Int) : Option Nat :=
  let numerator := i.value * tenTo (-grid).toNat
  let denominator := i.unit * tenTo grid.toNat
  let floor := numerator / denominator
  let below := i.holds floor grid
  let above := i.holds (floor + 1) grid
  if below && above then some (tie.quotient numerator denominator)
  else if below then some floor
  else if above then some (floor + 1)
  else none

/-- The text of a nonzero natural without its trailing zeros. -/
def significant (n : Nat) : List Char :=
  ((Nat.toDigits 10 n).reverse.dropWhile (· == '0')).reverse

/-- The shortest digits of `significand * 2 ^ exponent`, a positive number. -/
def digits (tie : Tie) (significand : Nat) (exponent : Int) (narrowBelow : Bool) : Digits :=
  let i := interval significand exponent narrowBelow
  let place := magnitude i
  let found := (List.range 17).findSome? fun (count : Nat) =>
    let grid := place - (count + 1 : Nat)
    (candidate tie i grid).map fun (point : Nat) => (point, grid)
  match found with
  | some (point, grid) => ⟨significant point, (Nat.toDigits 10 point).length + grid⟩
  | none => ⟨['0'], 1⟩

/-- The digits in plain notation; a whole number ends in `wholeTail`. -/
def Digits.positional (d : Digits) (wholeTail : String) : String :=
  let count : Int := d.digits.length
  if d.point ≤ 0 then
    "0." ++ String.ofList (List.replicate (-d.point).toNat '0' ++ d.digits)
  else if count ≤ d.point then
    String.ofList (d.digits ++ List.replicate (d.point - count).toNat '0') ++ wholeTail
  else
    String.ofList (d.digits.take d.point.toNat) ++ "."
      ++ String.ofList (d.digits.drop d.point.toNat)

/-- The digits with the point after the first and a signed exponent. -/
def Digits.scientific (d : Digits) : String :=
  let exponent := d.point - 1
  let mantissa :=
    match d.digits with
    | [] => "0"
    | [first] => String.ofList [first]
    | first :: rest => String.ofList (first :: '.' :: rest)
  mantissa ++ "e" ++ (if exponent < 0 then "-" else "+") ++ toString exponent.natAbs

end Montage.Shortest
