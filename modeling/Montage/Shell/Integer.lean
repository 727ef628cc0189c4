/-!
Contract: whole numbers of 64 bits in texts.

Owns: the number at the beginning of a text, and the numbers that a whole text stands for.

A number may follow blanks and have a sign. Where the base is open, a leading zero means octal and a
leading `0x` means hexadecimal. A number beyond the bounds becomes the nearest bound.
-/

set_option autoImplicit false

namespace Montage.Shell.Integer

def least : Int := -0x8000000000000000

def greatest : Int := 0x7FFFFFFFFFFFFFFF

def wrap (n : Int) : Int := n.bmod 0x10000000000000000

def isSpace (c : Char) : Bool := c == ' ' || (0x09 ≤ c.toNat && c.toNat ≤ 0x0D)

def digit? (c : Char) : Option Nat :=
  if c.isDigit then some (c.toNat - '0'.toNat)
  else if 'a' ≤ c && c ≤ 'z' then some (c.toNat - 'a'.toNat + 10)
  else if 'A' ≤ c && c ≤ 'Z' then some (c.toNat - 'A'.toNat + 10)
  else none

def isDigitOf (base : Nat) (c : Char) : Bool := ((digit? c).map fun d => decide (d < base)).getD false

def ofDigits (base : Nat) (digits : List Char) : Nat :=
  digits.foldl (fun total c => total * base + (digit? c).getD 0) 0

/-- The base of an unsigned number, and its digits with all that follows. -/
def baseOf (s : List Char) : Nat × List Char :=
  match s with
  | '0' :: x :: c :: rest =>
    if (x == 'x' || x == 'X') && isDigitOf 16 c then (16, c :: rest) else (8, s)
  | '0' :: _ => (8, s)
  | _ => (10, s)

/-- What is read at the beginning of a text. -/
structure Scan where
  isNegative : Bool
  magnitude : Nat
  rest : List Char
  /-- Whether there is a number. -/
  isNumber : Bool

def scanUnsigned (isOpen : Bool) (s : List Char) : Scan :=
  let (base, digits) := if isOpen then baseOf s else (10, s)
  let found := digits.takeWhile (isDigitOf base)
  { isNegative := false, magnitude := ofDigits base found, rest := digits.drop found.length
    isNumber := !found.isEmpty }

/-- Reads a number; the base may be open. -/
def scan (isOpen : Bool) (s : List Char) : Scan :=
  let (isNegative, digits) :=
    match s.dropWhile isSpace with
    | '-' :: rest => (true, rest)
    | '+' :: rest => (false, rest)
    | rest => (false, rest)
  let found := scanUnsigned isOpen digits
  if found.isNumber then { found with isNegative } else { found with rest := s }

namespace Scan

def exact (s : Scan) : Int := if s.isNegative then -(s.magnitude : Int) else s.magnitude

def signed (s : Scan) : Int := Max.max least (Min.min greatest s.exact)

def isBeyond (s : Scan) : Bool := s.signed != s.exact

def unsigned (s : Scan) : Nat :=
  if 0xFFFFFFFFFFFFFFFF < s.magnitude then 0xFFFFFFFFFFFFFFFF
  else (s.exact.emod 0x10000000000000000).toNat

end Scan

/-- The number of a text of an open base; a blank text is zero. -/
def ofText? (text : String) : Option Int :=
  let s := scan true text.toList
  if s.isBeyond || !s.rest.all isSpace then none else some s.signed

def ofDecimal? (text : String) : Option Int :=
  let s := scan false text.toList
  if !s.isNumber || s.isBeyond || !s.rest.all isSpace then none else some s.signed

/-- The number of a text of base ten that is not negative and fits 31 bits. -/
def ofCount? (text : String) : Option Nat :=
  ((ofDecimal? text).filter fun n => 0 ≤ n && n < 0x80000000).map Int.toNat

end Montage.Shell.Integer
