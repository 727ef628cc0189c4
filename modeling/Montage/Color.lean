import Montage.Number.Scalar
import Montage.Text.Blank
import Montage.Text.Hex

/-!
Contract: colours of text overlays.

Owns: the four channels, the text `#rrggbb` or `#rrggbbaa`, and the reading of it.
-/

set_option autoImplicit false

namespace Montage

/-- Red, green, blue and opacity. -/
structure Color where
  red : UInt8
  green : UInt8
  blue : UInt8
  alpha : UInt8
  deriving DecidableEq, Repr

/-- A text that is no colour. -/
structure ColorError where
  text : String
  deriving DecidableEq, Repr

def ColorError.message (e : ColorError) : String :=
  "invalid color '" ++ e.text ++ "', expected #rrggbb or #rrggbbaa"

namespace Color

def white : Color := ⟨255, 255, 255, 255⟩

/-- The two lower-case digits of a channel. -/
def channel (c : UInt8) : List Char :=
  Text.Hex.digits 2 c.toNat

/-- The text of a colour; full opacity is left out. -/
def text (c : Color) : String :=
  let opacity := if c.alpha = 255 then [] else channel c.alpha
  String.ofList ('#' :: (channel c.red ++ channel c.green ++ channel c.blue ++ opacity))

/-- The opacity as a fraction of full opacity. -/
def alphaFraction {α : Type} [Scalar α] (c : Color) : α :=
  Scalar.ofInt c.alpha.toNat / 255

/-- The channels other than opacity as `0xRRGGBB`. -/
def rgbText (c : Color) : String :=
  let digits := channel c.red ++ channel c.green ++ channel c.blue
  "0x" ++ String.ofList (digits.map Char.toUpper)

/-- Reads the two characters of a channel: two digits, or a plus sign and one digit. -/
def readChannel? (first second : Char) : Option UInt8 :=
  if first = '+' then (Text.Hex.value? second).map UInt8.ofNat
  else (Text.Hex.number? [first, second]).map UInt8.ofNat

def readChannels? : List Char → Option Color
  | [r₁, r₂, g₁, g₂, b₁, b₂] => do
    some ⟨← readChannel? r₁ r₂, ← readChannel? g₁ g₂, ← readChannel? b₁ b₂, 255⟩
  | [r₁, r₂, g₁, g₂, b₁, b₂, a₁, a₂] => do
    some ⟨← readChannel? r₁ r₂, ← readChannel? g₁ g₂, ← readChannel? b₁ b₂, ← readChannel? a₁ a₂⟩
  | _ => none

/-- Reads a colour: white space at the ends and leading number signs are skipped. -/
def read (text : String) : Except ColorError Color :=
  match readChannels? ((Text.trimChars text.toList).dropWhile (· == '#')) with
  | some c => .ok c
  | none => .error ⟨text⟩

end Color

end Montage
