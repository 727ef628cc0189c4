import Montage.Number.Layout
import Montage.Shell.Escape
import Montage.Shell.Integer

/-!
Contract: forms that are filled with arguments.

Owns: the places of a form, the texts of numbers and words in them, and the filling of a form again and
again until no arguments are left.

An argument that is no number counts as the number it begins with, and is complained about.
-/

set_option autoImplicit false

namespace Montage.Shell.Form

/-- A place of a form: what stands before the letter of its kind. -/
structure Slot where
  flags : List Char
  width : Nat
  places : Option Nat
  deriving DecidableEq, Repr

namespace Slot

def has (slot : Slot) (flag : Char) : Bool := slot.flags.contains flag

def pad (slot : Slot) (text : List Char) : List Char :=
  let blanks := List.replicate (slot.width - text.length) ' '
  if slot.has '-' then text ++ blanks else blanks ++ text

/-- A number with its sign in front, and with zeros or blanks up to the width of the place. -/
def padNumber (slot : Slot) (isFilled : Bool) (sign digits : List Char) : List Char :=
  if isFilled && slot.has '0' && !slot.has '-' then
    sign ++ List.replicate (slot.width - sign.length - digits.length) '0' ++ digits
  else slot.pad (sign ++ digits)

def sign (slot : Slot) (isNegative : Bool) : List Char :=
  if isNegative then ['-'] else if slot.has '+' then ['+'] else if slot.has ' ' then [' '] else []

def word (slot : Slot) (text : List Char) : List Char :=
  slot.pad (text.take (slot.places.getD text.length))

end Slot

/-! ## Whole numbers -/

def digitsOf (slot : Slot) (base : Nat) (isUpper : Bool) (n : Nat) : List Char :=
  let digits := if n = 0 && slot.places == some 0 then [] else Nat.toDigits base n
  let digits := if isUpper then digits.map Char.toUpper else digits
  List.replicate (slot.places.getD 1 - digits.length) '0' ++ digits

def whole (slot : Slot) (kind : Char) (n : Int) (unsigned : Nat) : List Char :=
  let isFilled := slot.places.isNone
  match kind with
  | 'o' =>
    let digits := digitsOf slot 8 false unsigned
    let lacksZero := slot.has '#' && digits.head? != some '0'
    slot.padNumber isFilled [] (if lacksZero then '0' :: digits else digits)
  | 'u' => slot.padNumber isFilled [] (digitsOf slot 10 false unsigned)
  | 'x' =>
    let start := if slot.has '#' && unsigned != 0 then ['0', 'x'] else []
    slot.padNumber isFilled start (digitsOf slot 16 false unsigned)
  | 'X' =>
    let start := if slot.has '#' && unsigned != 0 then ['0', 'X'] else []
    slot.padNumber isFilled start (digitsOf slot 16 true unsigned)
  | _ => slot.padNumber isFilled (slot.sign (n < 0)) (digitsOf slot 10 false n.natAbs)

/-! ## Numbers with a fraction -/

/-- The nearest whole number to a rational times a power of ten, the even one of two. -/
def inUnits (q : Rat) (exponent : Int) : Nat :=
  Rounding.quotientHalfEven (q.num.natAbs * tenTo exponent.toNat) (q.den * tenTo (-exponent).toNat)

def leadingPower (q : Rat) : Int :=
  let estimate : Int := (((Nat.log2 q.num.natAbs : Int) - (Nat.log2 q.den : Int)) * 30103) / 100000
  let reaches (power : Int) : Bool :=
    q.den * tenTo power.toNat ≤ q.num.natAbs * tenTo (-power).toNat
  (([estimate + 2, estimate + 1, estimate, estimate - 1].find? reaches).getD (estimate - 2))

def withPoint (slot : Slot) (places : Nat) (digits : List Char) : List Char :=
  let digits := List.replicate (places + 1 - digits.length) '0' ++ digits
  let whole := digits.take (digits.length - places)
  let fraction := digits.drop (digits.length - places)
  whole ++ (if places = 0 && !slot.has '#' then [] else '.' :: fraction)

def fixed (slot : Slot) (places : Nat) (q : Rat) : List Char :=
  withPoint slot places (Nat.toDigits 10 (inUnits q places))

/-- The digits of a magnitude, one more than a number of places, and the power of ten of the first. -/
def leading (places : Nat) (q : Rat) : List Char × Int :=
  if q = 0 then (List.replicate (places + 1) '0', 0)
  else
    let power := leadingPower q
    let digits := Nat.toDigits 10 (inUnits q ((places : Int) - power))
    if digits.length = places + 2 then (digits.dropLast, power + 1) else (digits, power)

def powerText (letter : Char) (power : Int) : List Char :=
  let digits := Nat.toDigits 10 power.natAbs
  letter :: (if power < 0 then '-' else '+') :: (List.replicate (2 - digits.length) '0' ++ digits)

def scientific (slot : Slot) (places : Nat) (q : Rat) : List Char :=
  let (digits, power) := leading places q
  withPoint slot places digits ++ powerText 'e' power

def trimZeros (slot : Slot) (text : List Char) : List Char :=
  if slot.has '#' then text
  else
    let mantissa := text.takeWhile (· != 'e')
    let rest := text.drop mantissa.length
    if mantissa.contains '.' then
      let kept := (mantissa.reverse.dropWhile (· == '0'))
      (kept.dropWhile (· == '.')).reverse ++ rest
    else text

/-- A magnitude in the shorter of both forms, with a number of digits in all. -/
def general (slot : Slot) (count : Nat) (q : Rat) : List Char :=
  let count := Max.max count 1
  let (_, power) := leading (count - 1) q
  if -4 ≤ power && power < count then
    trimZeros slot (fixed slot ((count : Int) - 1 - power).toNat q)
  else trimZeros slot (scientific slot (count - 1) q)

/-- The significand of a number, whose first digit stands before the point, and its power of two. -/
def hexParts (x : Float) : Nat × Int :=
  let parts := Binary64.parts x
  if parts.significand = 0 then (0, 0) else (parts.significand, parts.exponent + 52)

def hexadecimal (slot : Slot) (x : Float) : List Char :=
  let (significand, power) := hexParts x
  let exact := ((Nat.toDigits 16 (significand + twoTo 56)).drop 1)
  let digits :=
    match slot.places with
    | none => (exact.take 1) ++ ((exact.drop 1).reverse.dropWhile (· == '0')).reverse
    | some places =>
      if places < 13 then
        let rounded := Rounding.quotientHalfEven significand (twoTo (4 * (13 - places)))
        (Nat.toDigits 16 (rounded + twoTo (4 * (places + 1)))).drop 1
      else exact ++ List.replicate (places - 13) '0'
  let sign := if power < 0 then '-' else '+'
  withPoint slot (digits.length - 1) digits ++ ('p' :: sign :: Nat.toDigits 10 power.natAbs)

def real (slot : Slot) (kind : Char) (x : Float) : List Char :=
  let places := slot.places.getD 6
  let isUpper := kind.isUpper
  let sign := slot.sign (Binary64.signBit x && !x.isNaN)
  let placed (isFilled : Bool) (start text : List Char) : List Char :=
    let cased (t : List Char) : List Char := if isUpper then t.map Char.toUpper else t
    slot.padNumber isFilled (sign ++ cased start) (cased text)
  match Binary64.exact x with
  | .nan => placed false [] "nan".toList
  | .posInf | .negInf => placed false [] "inf".toList
  | .fin q =>
    let q := if q < 0 then -q else q
    match kind.toLower with
    | 'f' => placed true [] (fixed slot places q)
    | 'e' => placed true [] (scientific slot places q)
    | 'g' => placed true [] (general slot places q)
    | _ => placed true "0x".toList (hexadecimal slot x)

/-- A number with a fraction at the beginning of a text, what follows it, and whether it is beyond the
bounds. -/
structure RealScan where
  value : Float
  rest : List Char
  isBeyond : Bool

/-- The power after the letter that announces it, and what follows; without digits there is none. -/
def powerAfter (letter : Char) (s : List Char) : Int × List Char :=
  match s with
  | c :: rest =>
    if c.toLower != letter then (0, s)
    else
      let (isNegative, digits) :=
        match rest with
        | '-' :: more => (true, more)
        | '+' :: more => (false, more)
        | more => (false, more)
      let found := digits.takeWhile Char.isDigit
      if found.isEmpty then (0, s)
      else
        let power : Int := Integer.ofDigits 10 found
        (if isNegative then -power else power, digits.drop found.length)
  | [] => (0, s)

/-- Digits of a base with at most one point among them: all of them, how many stand after the point, and
what follows. -/
def pointedDigits (base : Nat) (s : List Char) : List Char × Nat × List Char :=
  let whole := s.takeWhile (Integer.isDigitOf base)
  match s.drop whole.length with
  | '.' :: tail =>
    let fraction := tail.takeWhile (Integer.isDigitOf base)
    if whole.isEmpty && fraction.isEmpty then ([], 0, s)
    else (whole ++ fraction, fraction.length, tail.drop fraction.length)
  | rest => (whole, 0, rest)

def decimalValue (digits : Nat) (power : Int) : Float :=
  Binary64.ofDecimal digits (decide (power < 0)) power.natAbs

def binaryValue (digits : Nat) (power : Int) : Float :=
  if digits = 0 then 0.0
  else if 0x2000 < power + Nat.log2 digits then Float.ofBits 0x7FF0000000000000
  else if power + Nat.log2 digits < -0x2000 then 0.0
  else if 0 ≤ power then Binary64.nearest ((digits * twoTo power.toNat : Nat) : Rat)
  else Binary64.nearest (mkRat digits (twoTo (-power).toNat))

/-- Whether a number that was not zero has become infinite or lost its precision near zero. -/
def isLost (digits : Nat) (x : Float) : Bool :=
  digits != 0 && (x.isInf || (Binary64.parts x).significand < Binary64.implicitBit)

def scanMagnitude (s : List Char) : Option RealScan :=
  let lower := (s.take 8).map Char.toLower
  if "infinity".toList.isPrefixOf lower then some ⟨1.0 / 0.0, s.drop 8, false⟩
  else if "inf".toList.isPrefixOf lower then some ⟨1.0 / 0.0, s.drop 3, false⟩
  else if "nan".toList.isPrefixOf lower then some ⟨0.0 / 0.0, s.drop 3, false⟩
  else
    let (hexDigits, hexAfter, hexRest) :=
      if "0x".toList.isPrefixOf lower then pointedDigits 16 (s.drop 2) else ([], 0, [])
    if !hexDigits.isEmpty then
      let (power, rest) := powerAfter 'p' hexRest
      let digits := Integer.ofDigits 16 hexDigits
      let x := binaryValue digits (power - 4 * hexAfter)
      some ⟨x, rest, isLost digits x⟩
    else
      let (digits, after, rest) := pointedDigits 10 s
      if digits.isEmpty then none
      else
        let (power, rest) := powerAfter 'e' rest
        let digits := Integer.ofDigits 10 digits
        let x := decimalValue digits (power - after)
        some ⟨x, rest, isLost digits x⟩

def scanReal (s : List Char) : RealScan :=
  let (isNegative, digits) :=
    match s.dropWhile Integer.isSpace with
    | '-' :: rest => (true, rest)
    | '+' :: rest => (false, rest)
    | rest => (false, rest)
  match scanMagnitude digits with
  | some found => { found with value := if isNegative then -found.value else found.value }
  | none => ⟨0.0, s, false⟩

/-! ## Filling -/

structure Filling where
  /-- What is written, last first. -/
  written : List Char
  arguments : List String
  complaints : List String
  /-- Whether nothing more is to be written. -/
  hasEnded : Bool
  /-- Why the form cannot be filled any further. -/
  failure : Option String

namespace Filling

def write (f : Filling) (text : List Char) : Filling := { f with written := text.reverse ++ f.written }

def complain (f : Filling) (message : String) : Filling :=
  { f with complaints := f.complaints ++ [message] }

/-- Complains about an argument of which something is left, or that is beyond the bounds. -/
def check (f : Filling) (argument : String) (rest : List Char) (isBeyond : Bool) : Filling :=
  if !rest.isEmpty then
    f.complain (argument ++ ": "
      ++ (if rest.length = argument.length then "expected numeric value" else "not completely converted"))
  else if isBeyond then f.complain (argument ++ ": Numerical result out of range")
  else f

/-- Takes the next argument; there is an empty one when none is left. -/
def next (f : Filling) : String × Filling :=
  (f.arguments.headD "", { f with arguments := f.arguments.drop 1 })

/-- Takes a whole number, as one with a sign and as one without. After a quote it is that of a
character. -/
def nextWhole (f : Filling) (isSigned : Bool) : Int × Nat × Filling :=
  let (argument, f) := f.next
  match argument.toList with
  | [] => (0, 0, f)
  | c :: rest =>
    if c == '"' || c == '\'' then
      let n := (rest.headD '\x00').toNat
      (n, n, f)
    else
      let found := Integer.scan true argument.toList
      let isBeyond := if isSigned then found.isBeyond else 0xFFFFFFFFFFFFFFFF < found.magnitude
      let unsigned := if isSigned then (found.signed.emod 0x10000000000000000).toNat else found.unsigned
      (found.signed, unsigned, f.check argument found.rest isBeyond)

def nextReal (f : Filling) : Float × Filling :=
  let (argument, f) := f.next
  match argument.toList with
  | [] => (0.0, f)
  | c :: rest =>
    if c == '"' || c == '\'' then (Float.ofNat (rest.headD '\x00').toNat, f)
    else
      let found := scanReal argument.toList
      (found.value, f.check argument found.rest found.isBeyond)

def fill (f : Filling) (slot : Slot) (kind : Char) (source : String) : Filling :=
  match kind with
  | 'b' =>
    let (argument, f) := f.next
    let (text, hasEnded) := Escape.expand argument
    { f.write (slot.word text) with hasEnded }
  | 'c' =>
    let (argument, f) := f.next
    f.write (slot.pad [argument.toList.headD '\x00'])
  | 's' =>
    let (argument, f) := f.next
    f.write (slot.word argument.toList)
  | 'd' | 'i' =>
    let (n, unsigned, f) := f.nextWhole true
    f.write (whole slot 'd' n unsigned)
  | 'o' | 'u' | 'x' | 'X' =>
    let (n, unsigned, f) := f.nextWhole false
    f.write (whole slot kind n unsigned)
  | 'a' | 'A' | 'e' | 'E' | 'f' | 'F' | 'g' | 'G' =>
    let (x, f) := f.nextReal
    f.write (real slot kind x)
  | _ => { f with failure := some (source ++ ": invalid directive") }

end Filling

/-- A width or a number of places: digits, or an argument in place of a star. -/
def measure (f : Filling) (s : List Char) : Option Int × Filling × List Char :=
  match s with
  | '*' :: rest =>
    let (n, _, f) := f.nextWhole true
    (some (n.bmod 0x100000000), f, rest)
  | _ =>
    let digits := s.takeWhile Char.isDigit
    (if digits.isEmpty then none else some (Integer.ofDigits 10 digits), f, s.drop digits.length)

/-- Fills the place that begins after a percent sign; the answer goes with what follows the place. -/
def fillSlot (f : Filling) (s : List Char) : Filling × List Char :=
  let flags := s.takeWhile ['#', '-', '+', ' ', '0'].contains
  let (width, f, rest) := measure f (s.drop flags.length)
  let (places, f, rest) :=
    match rest with
    | '.' :: more =>
      let (places, f, rest) := measure f more
      (some (places.getD 0), f, rest)
    | _ => (none, f, rest)
  match rest with
  | [] => ({ f with failure := some "missing format character" }, [])
  | kind :: after =>
    let isNegative := (width.getD 0) < 0
    let slot : Slot :=
      { flags := if isNegative then '-' :: flags else flags
        width := (width.getD 0).natAbs
        places := (places.filter (0 ≤ ·)).map Int.toNat }
    let source := '%' :: s.take (s.length - after.length)
    (f.fill slot kind (String.ofList source), after)

def fillOnce : Nat → List Char → Filling → Filling
  | 0, _, f => f
  | _, [], f => f
  | fuel + 1, c :: rest, f =>
    if f.hasEnded || f.failure.isSome then f
    else if c == '\\' then
      let (meant, taken) := Escape.first rest
      fillOnce fuel (rest.drop taken) (f.write [meant])
    else if c != '%' then fillOnce fuel rest (f.write [c])
    else
      match rest with
      | '%' :: more => fillOnce fuel more (f.write ['%'])
      | _ =>
        let (f, after) := fillSlot f rest
        fillOnce fuel after f

/-- Fills a form again and again until no arguments are left or none is taken. -/
def fillAll (form : List Char) : Nat → Filling → Filling
  | 0, f => f
  | rounds + 1, f =>
    let filled := fillOnce (form.length + 1) form f
    if filled.hasEnded || filled.failure.isSome || filled.arguments.isEmpty
        || filled.arguments.length = f.arguments.length then filled
    else fillAll form rounds filled

def ofArguments (form : String) (arguments : List String) : Filling :=
  fillAll form.toList (arguments.length + 1)
    { written := [], arguments, complaints := [], hasEnded := false, failure := none }

end Montage.Shell.Form
