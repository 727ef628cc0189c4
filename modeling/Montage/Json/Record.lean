import Montage.Json.Value
import Montage.Number.Scalar

/-!
Contract: reading records from JSON values.

Owns: the two forms of a record, the look-up of its fields, and the reading of fields of simple types.

A record is an object whose known members occur once each, in any order, among unknown ones that are
skipped; or it is an array of the fields in their order, which may end early where all further fields
have defaults. Reading succeeds or fails as a whole; what is wrong is not reported.
-/

set_option autoImplicit false

namespace Montage.Json

variable {α β : Type}

/-- A field of a record, and whether the array form may end before it. -/
structure Field where
  name : String
  mayEnd : Bool

/-- The fields of a record, none with a default in the array form. -/
def requiredFields (names : List String) : List Field := names.map fun name => ⟨name, false⟩

def defaultedFields (names : List String) : List Field := names.map fun name => ⟨name, true⟩

abbrev Members (α : Type) := List (String × Json α)

def members? (fields : List Field) : Json α → Option (Members α)
  | .object members =>
    let known := members.filter fun member => fields.any fun field => field.name == member.1
    if (known.map (·.1)).Nodup then some known else none
  | .array items =>
    if items.length ≤ fields.length ∧ (fields.drop items.length).all (·.mayEnd) then
      some ((fields.map (·.name)).zip items)
    else none
  | _ => none

/-- A field that must be present. -/
def required (members : Members α) (name : String) (read : Json α → Option β) : Option β :=
  (members.lookup name).bind read

def defaulted (members : Members α) (name : String) (default : β) (read : Json α → Option β) :
    Option β :=
  match members.lookup name with
  | none => some default
  | some value => read value

/-- A value that may be `null`. -/
def nullable (read : Json α → Option β) : Json α → Option (Option β)
  | .null => some none
  | value => (read value).map some

/-- A field that may be absent or `null`. -/
def optional (members : Members α) (name : String) (read : Json α → Option β) : Option (Option β) :=
  defaulted members name none (nullable read)

def string? : Json α → Option String
  | .string s => some s
  | _ => none

def bool? : Json α → Option Bool
  | .bool b => some b
  | _ => none

def array? (read : Json α → Option β) : Json α → Option (List β)
  | .array items => items.mapM read
  | _ => none

/-- A whole number within bounds. -/
def integer? (low high : Int) : Json α → Option Int
  | .whole n => if low ≤ n ∧ n ≤ high then some n else none
  | _ => none

def uint32? (j : Json α) : Option UInt32 :=
  (integer? 0 0xFFFFFFFF j).map fun n => UInt32.ofNat n.toNat

def uint64? (j : Json α) : Option UInt64 :=
  (integer? 0 0xFFFFFFFFFFFFFFFF j).map fun n => UInt64.ofNat n.toNat

def int32? (j : Json α) : Option Int32 :=
  (integer? (-0x80000000) 0x7FFFFFFF j).map Int32.ofInt

/-- One of several names. Instead of the name alone, an object with the name as its one member and
`null` as the value will do; inside a command, also an empty object as the value. -/
def name? (inCommand : Bool) (ofName? : String → Option β) : Json α → Option β
  | .string s => ofName? s
  | .object [(s, .null)] => ofName? s
  | .object [(s, .object [])] => if inCommand then ofName? s else none
  | _ => none

variable [Scalar α]

def scalar? : Json α → Option α
  | .whole n => some (Scalar.ofInt n)
  | .real x => some x
  | _ => none

/-- The value that stands for a number; there is none but `null` for what is not finite. -/
def ofScalar (x : α) : Json α :=
  if Scalar.isFinite x then .real x else .null

/-- The value that stands for an optional part. -/
def ofOption (write : β → Json α) : Option β → Json α
  | none => .null
  | some b => write b

end Montage.Json
