import Montage.Number.Rounding

/-!
Contract: hexadecimal digits.

Owns: the digit of a small number in either letter case, the value of a digit, and two-digit bytes.
-/

set_option autoImplicit false

namespace Montage.Text.Hex

/-- The digit of `n % 16` in lower case. -/
def digit (n : Nat) : Char :=
  if n % 16 < 10 then Char.ofNat ('0'.toNat + n % 16) else Char.ofNat ('a'.toNat + (n % 16 - 10))

/-- The value of a digit in either letter case. -/
def value? (c : Char) : Option Nat :=
  if '0' ≤ c ∧ c ≤ '9' then some (c.toNat - '0'.toNat)
  else if 'a' ≤ c ∧ c ≤ 'f' then some (c.toNat - 'a'.toNat + 10)
  else if 'A' ≤ c ∧ c ≤ 'F' then some (c.toNat - 'A'.toNat + 10)
  else none

/-- The number written by a list of digits, the first one most significant. -/
def number? (digits : List Char) : Option Nat :=
  digits.foldlM (fun total c => (value? c).map (total * 16 + ·)) 0

/-- The lowest `count` digits of a number. -/
def digits (count n : Nat) : List Char :=
  (List.range count).map fun place => digit (n / twoTo (4 * (count - 1 - place)))

end Montage.Text.Hex
