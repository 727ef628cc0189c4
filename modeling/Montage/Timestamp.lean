import Montage.Number.Layout
import Montage.Text.Blank

/-!
Contract: moments in time as RFC 3339 texts.

Owns: the count of seconds from the start of 1970, the calendar behind it, and the two texts of a moment.

Reading is tolerant of white space between the parts, of a space in place of `T`, of a sign before the
year, of `UTC` in place of `Z`, and of any number of digits in the fraction, of which nine count. A
61st second is kept as a fraction above one second.
-/

set_option autoImplicit false

namespace Montage

/-- A moment: seconds since the start of 1970 in UTC, and nanoseconds after that, from one thousand
million up in a leap second. -/
structure Timestamp where
  seconds : Int
  nanos : Nat
  deriving DecidableEq, Repr

namespace Timestamp

/-! ## Calendar -/

/-- A date of the Gregorian calendar, extended to all years. -/
structure Date where
  year : Int
  month : Nat
  day : Nat
  deriving DecidableEq, Repr

def isLeapYear (year : Int) : Bool :=
  year % 4 = 0 && (year % 100 ≠ 0 || year % 400 = 0)

def daysInMonth (year : Int) (month : Nat) : Nat :=
  if month = 2 then (if isLeapYear year then 29 else 28)
  else if month = 4 ∨ month = 6 ∨ month = 9 ∨ month = 11 then 30
  else 31

/-- The days from the start of 1970 to a date. Years are counted from March, so that the leap day comes
last. -/
def dayNumber (d : Date) : Int :=
  let year := if d.month ≤ 2 then d.year - 1 else d.year
  let month : Int := ((d.month + 9) % 12 : Nat)
  let dayOfYear := (153 * month + 2) / 5 + d.day - 1
  let era := year / 400
  let yearOfEra := year % 400
  era * 146097 + yearOfEra * 365 + yearOfEra / 4 - yearOfEra / 100 + dayOfYear - 719468

def dateOfDay (number : Int) : Date :=
  let shifted := number + 719468
  let era := shifted / 146097
  let dayOfEra := shifted % 146097
  let yearOfEra := (dayOfEra - dayOfEra / 1460 + dayOfEra / 36524 - dayOfEra / 146096) / 365
  let dayOfYear := dayOfEra - (365 * yearOfEra + yearOfEra / 4 - yearOfEra / 100)
  let march := (5 * dayOfYear + 2) / 153
  let day := dayOfYear - (153 * march + 2) / 5 + 1
  let month := if march < 10 then march + 3 else march - 9
  let year := yearOfEra + era * 400 + (if month ≤ 2 then 1 else 0)
  ⟨year, month.toNat, day.toNat⟩

/-! ## Writing -/

/-- A year: four digits, and a sign where four do not suffice. -/
def yearText (year : Int) : String :=
  if 0 ≤ year ∧ year ≤ 9999 then Layout.padded 4 year.toNat
  else (if year < 0 then "-" else "+") ++ Layout.padded 4 year.natAbs

/-- A fraction of a second with as many of 0, 3, 6 or 9 digits as it needs. -/
def fractionText (nanos : Nat) : String :=
  if nanos = 0 then ""
  else if nanos % 1000000 = 0 then "." ++ Layout.padded 3 (nanos / 1000000)
  else if nanos % 1000 = 0 then "." ++ Layout.padded 6 (nanos / 1000)
  else "." ++ Layout.padded 9 nanos

/-- A moment in UTC, with a mark between date and time and one at the end. -/
def written (t : Timestamp) (middle last : String) : String :=
  let date := dateOfDay (t.seconds / 86400)
  let second := (t.seconds % 86400).toNat
  yearText date.year ++ "-" ++ Layout.padded 2 date.month ++ "-" ++ Layout.padded 2 date.day ++ middle
    ++ Layout.padded 2 (second / 3600) ++ ":" ++ Layout.padded 2 (second / 60 % 60) ++ ":"
    ++ Layout.padded 2 (second % 60 + t.nanos / 1000000000) ++ fractionText (t.nanos % 1000000000)
    ++ last

def text (t : Timestamp) : String := t.written "T" "Z"

def listed (t : Timestamp) : String := t.written " " " UTC"

/-! ## Reading -/

/-- A part of a text and what comes after it. -/
abbrev Scan (β : Type) := List Char → Option (β × List Char)

/-- At least one and at most `width` digits, after white space. -/
def number (width : Nat) : Scan Nat := fun s =>
  let s := s.dropWhile Text.isBlank
  let digits := (s.take width).takeWhile Char.isDigit
  if digits.isEmpty then none else some (Layout.digitsValue digits, s.drop digits.length)

/-- A year: up to four digits, or a sign and any number of them. -/
def year : Scan Int := fun s =>
  let s := s.dropWhile Text.isBlank
  let signed (negative : Bool) (rest : List Char) : Option (Int × List Char) :=
    let digits := rest.takeWhile Char.isDigit
    if digits.isEmpty then none
    else
      let value : Int := Layout.digitsValue digits
      some (if negative then -value else value, rest.drop digits.length)
  match s with
  | '-' :: rest => signed true rest
  | '+' :: rest => signed false rest
  | _ => (number 4 s).map fun (value, rest) => ((value : Int), rest)

/-- A mark after white space; returns what comes after it. -/
def mark (c : Char) (s : List Char) : Option (List Char) :=
  match s.dropWhile Text.isBlank with
  | first :: rest => if first = c then some rest else none
  | [] => none

/-- The fraction of a second in nanoseconds, if there is one. -/
def fraction : Scan Nat := fun s =>
  match s with
  | '.' :: rest =>
    let digits := rest.takeWhile Char.isDigit
    if digits.isEmpty then none
    else
      let counted := digits.take 9
      some (Layout.digitsValue counted * tenTo (9 - counted.length), rest.drop digits.length)
  | _ => some (0, s)

def offset : Scan Int := fun s =>
  let s := s.dropWhile Text.isBlank
  if (s.take 3).map Char.toUpper = "UTC".toList then some (0, s.drop 3)
  else
    let signed (negative : Bool) (rest : List Char) : Option (Int × List Char) :=
      match rest with
      | h₁ :: h₂ :: rest =>
        if h₁.isDigit && h₂.isDigit then
          match rest.dropWhile fun c => c = ':' || Text.isBlank c with
          | m₁ :: m₂ :: rest =>
            if m₁.isDigit && m₂.isDigit && decide (m₁ < '6') then
              let seconds : Int :=
                Layout.digitsValue [h₁, h₂] * 3600 + Layout.digitsValue [m₁, m₂] * 60
              some (if negative then -seconds else seconds, rest)
            else none
          | _ => none
        else none
      | _ => none
    match s with
    | 'Z' :: rest => some (0, rest)
    | 'z' :: rest => some (0, rest)
    | '+' :: rest => signed false rest
    | '-' :: rest => signed true rest
    | '−' :: rest => signed true rest
    | _ => none

def firstDate : Date := ⟨-262143, 1, 1⟩

def lastDate : Date := ⟨262142, 12, 31⟩

/-- Whether a year, a month and a day make a date of the calendar. -/
def Date.isValid (d : Date) : Bool :=
  decide (firstDate.year ≤ d.year ∧ d.year ≤ lastDate.year) && decide (1 ≤ d.month ∧ d.month ≤ 12)
    && decide (1 ≤ d.day ∧ d.day ≤ daysInMonth d.year d.month)

/-- Whether a moment lies on a date of the calendar. -/
def isOnCalendar (t : Timestamp) : Bool :=
  decide (dayNumber firstDate ≤ t.seconds / 86400 ∧ t.seconds / 86400 ≤ dayNumber lastDate)

/-- The moment of a date, a time of day and an offset, if they are in range, as it must be itself. -/
def ofParts? (date : Date) (hour minute second nanos : Nat) (offset : Int) : Option Timestamp :=
  let validTime : Bool :=
    decide (hour ≤ 23) && decide (minute ≤ 59) && decide (second ≤ 60)
      && decide (offset.natAbs < 86400)
  let counted := Min.min second 59
  let moment : Timestamp :=
    { seconds := dayNumber date * 86400 + hour * 3600 + minute * 60 + counted - offset
      nanos := nanos + (second - counted) * 1000000000 }
  if date.isValid && validTime && moment.isOnCalendar then some moment else none

/-- Reads a moment. -/
def read? (s : String) : Option Timestamp := do
  let (year, rest) ← year s.toList
  let rest ← mark '-' rest
  let (month, rest) ← number 2 rest
  let rest ← mark '-' rest
  let (day, rest) ← number 2 rest
  let rest ←
    match rest with
    | first :: rest => if first = 'T' ∨ first = 't' ∨ first = ' ' then some rest else none
    | [] => none
  let (hour, rest) ← number 2 rest
  let rest ← mark ':' rest
  let (minute, rest) ← number 2 rest
  let rest ← mark ':' rest
  let (second, rest) ← number 2 rest
  let (nanos, rest) ← fraction rest
  let (offset, rest) ← offset rest
  if rest.all Text.isBlank then ofParts? ⟨year, month, day⟩ hour minute second nanos offset else none

end Timestamp

end Montage
