/-!
Contract: JSON values.

Owns: the value type. Members keep their order and may repeat a name, because a record reader has to
see repetitions to refuse them.

Does **not** own: the text of a value (`Montage.Json.Reader`, `Montage.Json.Writer`) and the reading of
records from it (`Montage.Json.Record`).
-/

set_option autoImplicit false

namespace Montage

/-- A JSON value whose fractional numbers are of type `α`. -/
inductive Json (α : Type) where
  | null
  | bool (b : Bool)
  /-- A number written without fraction and exponent, from `-2 ^ 63` up to below `2 ^ 64`. -/
  | whole (n : Int)
  | real (x : α)
  | string (s : String)
  | array (items : List (Json α))
  | object (members : List (String × Json α))
  /-- A well-formed text that stands for no value: a number out of range, half of a surrogate pair, or
  nesting beyond the limit. It may only be skipped. -/
  | unreadable

namespace Json

variable {α : Type}

mutual

/-- Whether every part of a value stands for something. -/
def isReadable : Json α → Bool
  | .unreadable => false
  | .array items => areReadable items
  | .object members => haveReadableValues members
  | _ => true

def areReadable : List (Json α) → Bool
  | [] => true
  | item :: rest => isReadable item && areReadable rest

def haveReadableValues : List (String × Json α) → Bool
  | [] => true
  | (_, value) :: rest => isReadable value && haveReadableValues rest

end

end Json

end Montage
