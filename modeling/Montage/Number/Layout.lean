import Montage.Number.Binary64

/-!
Contract: the decimal texts of numbers.

Owns: the fixed-place text used in listings and arguments, the text of a number in a JSON document,
and the grammar of decimals typed by a person or printed by a tool.

Does **not** own: which of them a given output uses.
-/

set_option autoImplicit false

namespace Montage.Layout

variable {α : Type} [Scalar α]

/-- Digits of `n` padded with zeros on the left to at least `width`. -/
def padded (width n : Nat) : String :=
  let digits := Nat.toDigits 10 n
  String.ofList (List.replicate (width - digits.length) '0' ++ digits)

/-- A natural counted in units of `10 ^ -places`, with its point. -/
def withPlaces (places n : Nat) : String :=
  if places = 0 then toString n
  else toString (n / tenTo places) ++ "." ++ padded places (n % tenTo places)

/-- A number with exactly `places` digits after the point, rounded half to even on the exact value. -/
def fixed (places : Nat) (x : α) : String :=
  match Scalar.exact x with
  | .nan => "NaN"
  | .posInf => "inf"
  | .negInf => "-inf"
  | .fin q =>
    (if Scalar.isNegative x then "-" else "") ++ withPlaces places (Rounding.scaled places q)

/-- A text without the copies of a character that it ends with. -/
def trimEnd (c : Char) (s : String) : String :=
  String.ofList (s.toList.reverse.dropWhile (· == c)).reverse

/-- A number with at most six digits after the point: what six places leave without zeros at the end and
without a point that nothing follows. A zero has no sign. -/
def compact (x : α) : String :=
  let text := trimEnd '.' (trimEnd '0' (fixed 6 x))
  if text == "-0" || text.isEmpty then "0" else text

/-- Text moved to the right edge of a column. -/
def alignRight (width : Nat) (s : String) : String :=
  String.ofList (List.replicate (width - s.length) ' ') ++ s

/-- Text moved to the left edge of a column. -/
def alignLeft (width : Nat) (s : String) : String :=
  s ++ String.ofList (List.replicate (width - s.length) ' ')

/-- A number in a JSON document: plain notation from `1e-5` up to below `1e16`, always with a fraction;
an exponent outside; the even one of two that are equally near; `null` for what is no finite number. -/
def json (x : Float) : String :=
  if x.isNaN || x.isInf then "null"
  else
    let sign := if Binary64.signBit x then "-" else ""
    if x == 0.0 then sign ++ "0.0"
    else
      let d := Binary64.shortest .toEven x
      sign ++ (if -5 ≤ d.point - 1 ∧ d.point - 1 ≤ 15 then d.positional ".0" else d.scientific)

/-! ## Reading decimals -/

def digitsValue (digits : List Char) : Nat :=
  digits.foldl (fun total c => total * 10 + (c.toNat - '0'.toNat)) 0

/-- The number `digits * 10 ^ exponent`, negated on demand. -/
def decimal (negative : Bool) (digits : Nat) (exponent : Int) : α :=
  let magnitude : α := Scalar.ofDecimal digits (exponent < 0) exponent.natAbs
  if negative then magnitude * (0 - 1) else magnitude

/-- Optional sign and at least one digit, to the end of the text. -/
def exponentPart (s : List Char) : Option Int :=
  let (negative, digits) :=
    match s with
    | '-' :: rest => (true, rest)
    | '+' :: rest => (false, rest)
    | rest => (false, rest)
  if digits.isEmpty || !digits.all Char.isDigit then none
  else some (if negative then -(digitsValue digits : Int) else digitsValue digits)

/-- A decimal without a sign: digits with an optional point, at least one digit in all, and an optional
exponent. -/
def unsigned (negative : Bool) (s : List Char) : Option α :=
  let whole := s.takeWhile Char.isDigit
  let rest := s.dropWhile Char.isDigit
  let (fraction, rest) :=
    match rest with
    | '.' :: tail => (tail.takeWhile Char.isDigit, tail.dropWhile Char.isDigit)
    | _ => ([], rest)
  if whole.isEmpty && fraction.isEmpty then none
  else
    let number (exponent : Int) : α :=
      decimal negative (digitsValue (whole ++ fraction)) (exponent - fraction.length)
    match rest with
    | [] => some (number 0)
    | 'e' :: tail => (exponentPart tail).map number
    | 'E' :: tail => (exponentPart tail).map number
    | _ => none

/-- A number as typed: an optional sign, then a decimal or, in any letter case, `inf`, `infinity` or
`nan`. -/
def read? (text : String) : Option α :=
  let (negative, body) :=
    match text.toList with
    | '-' :: rest => (true, rest)
    | '+' :: rest => (false, rest)
    | rest => (false, rest)
  let word := String.ofList (body.map Char.toLower)
  if word = "inf" || word = "infinity" then
    some (if negative then (0 - 1) / 0 else 1 / 0)
  else if word = "nan" then some (0 / 0)
  else unsigned negative body

end Montage.Layout
