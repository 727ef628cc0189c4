import Montage.Number.Layout

/-!
Contract: positions as `HH:MM:SS.cc`.

Owns: the rounding of seconds to hundredths and their text.
-/

set_option autoImplicit false

namespace Montage.Timemark

variable {α : Type} [Scalar α]

/-- The largest number of hundredths that is shown. -/
def limit : Nat := 0xFFFFFFFFFFFFFFFF

/-- Hundredths of a second, halves rounded up; zero for negative times and for what is no time. -/
def hundredths (seconds : α) : Nat :=
  let present := if Scalar.isFinite seconds then Scalar.max seconds 0 else 0
  (Scalar.roundWithin 0 limit (present * 100)).toNat

/-- The text of a number of hundredths: at least two digits of hours. -/
def ofHundredths (total : Nat) : String :=
  let seconds := total / 100
  Layout.padded 2 (seconds / 3600) ++ ":" ++ Layout.padded 2 (seconds / 60 % 60) ++ ":"
    ++ Layout.padded 2 (seconds % 60) ++ "." ++ Layout.padded 2 (total % 100)

def text (seconds : α) : String := ofHundredths (hundredths seconds)

end Montage.Timemark
