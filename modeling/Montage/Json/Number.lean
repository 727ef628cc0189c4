import Montage.Json.Value
import Montage.Number.Layout

/-!
Contract: the numbers of a JSON text.

Owns: the grammar of a number and the value it stands for.

A number without fraction and exponent is a whole number as long as it fits into 64 bits. Any other is
read in two steps: the digits that fit into 64 bits give a significand, and the significand, rounded to
a machine number, is multiplied or divided by a power of ten. Up to fifteen digits the result is the
nearest machine number; with more digits it may be a neighbour of it. A result beyond the largest
machine number is out of range.
-/

set_option autoImplicit false

namespace Montage.Json.Number

/-- The parts of a number text. -/
structure Literal where
  negative : Bool
  whole : List Char
  fraction : Option (List Char)
  exponent : Option Int
  deriving DecidableEq, Repr

/-- Splits a text into the parts of a number, if it is one. -/
def literal? (s : List Char) : Option Literal := do
  let (negative, s) :=
    match s with
    | '-' :: rest => (true, rest)
    | _ => (false, s)
  let whole := s.takeWhile Char.isDigit
  let rest := s.dropWhile Char.isDigit
  let wellStarted :=
    match whole with
    | [] => false
    | ['0'] => true
    | first :: _ => first ≠ '0'
  if !wellStarted then none
  else
    let (fraction, rest) :=
      match rest with
      | '.' :: tail => (some (tail.takeWhile Char.isDigit), tail.dropWhile Char.isDigit)
      | _ => (none, rest)
    if fraction = some [] then none
    else
      match rest with
      | [] => some ⟨negative, whole, fraction, none⟩
      | mark :: tail =>
        if mark = 'e' ∨ mark = 'E' then
          (Layout.exponentPart tail).map fun exponent => ⟨negative, whole, fraction, some exponent⟩
        else none

def significandLimit : Nat := 0xFFFFFFFFFFFFFFFF

/-- Takes digits into a significand until one no longer fits; returns it and the digits left over. -/
def takeDigits (significand : Nat) : List Char → Nat × List Char
  | [] => (significand, [])
  | c :: rest =>
    let next := significand * 10 + (c.toNat - '0'.toNat)
    if significandLimit < next then (significand, c :: rest) else takeDigits next rest

def significandOf (number : Literal) : Nat × Int :=
  let (significand, skipped) := takeDigits 0 number.whole
  let fraction := number.fraction.getD []
  let (significand, dropped) := takeDigits significand fraction
  let used := fraction.length - dropped.length
  (significand, (skipped.length : Int) - used + number.exponent.getD 0)

/-- Division by ten to a power of any size, in steps that stay within machine range. -/
def scaleDown (x : Float) (places : Nat) : Float :=
  if places ≤ 308 then x / Float.ofScientific 1 false places
  else if x == 0.0 then x
  else scaleDown (x / 1e308) (places - 308)
termination_by places

/-- `significand * 10 ^ exponent`, unless it is out of range. -/
def scale? (significand : Nat) (exponent : Int) : Option Float :=
  let x := Float.ofNat significand
  if exponent < 0 then some (scaleDown x exponent.natAbs)
  else if exponent ≤ 308 then
    let product := x * Float.ofScientific 1 false exponent.natAbs
    if product.isInf then none else some product
  else if significand = 0 then some x
  else none

def value (number : Literal) : Json Float :=
  let magnitude := Layout.digitsValue number.whole
  let isWhole := number.fraction.isNone && number.exponent.isNone
  if isWhole && !number.negative && decide (magnitude ≤ significandLimit) then .whole magnitude
  else if isWhole && number.negative && decide (0 < magnitude ∧ magnitude ≤ 0x8000000000000000) then
    .whole (-(magnitude : Int))
  else
    let (significand, exponent) := significandOf number
    match scale? significand exponent with
    | some x => .real (if number.negative then -x else x)
    | none => .unreadable

end Montage.Json.Number
