import Montage.Json.Value
import Montage.Number.Layout
import Montage.Text.Blank
import Montage.Text.Hex

/-!
Contract: the text of JSON values.

Owns: the two forms of output, on one line without spaces and on several with an indent of two, and the
quoting of strings.
-/

set_option autoImplicit false

namespace Montage.Json

namespace Writer

def quotedChar (c : Char) : List Char :=
  if c = '"' then ['\\', '"']
  else if c = '\\' then ['\\', '\\']
  else if c.toNat = 0x08 then ['\\', 'b']
  else if c.toNat = 0x0C then ['\\', 'f']
  else if c = '\n' then ['\\', 'n']
  else if c = '\r' then ['\\', 'r']
  else if c = '\t' then ['\\', 't']
  else if c.toNat < 0x20 then '\\' :: 'u' :: Text.Hex.digits 4 c.toNat
  else [c]

def quoted (s : String) : String :=
  String.ofList ('"' :: (s.toList.flatMap quotedChar ++ ['"']))

mutual

/-- A value on one line, without spaces. -/
def compact : Json Float → String
  | .null => "null"
  | .bool b => if b then "true" else "false"
  | .whole n => toString n
  | .real x => Layout.json x
  | .string s => quoted s
  | .array items => "[" ++ Text.join "," (compactItems items) ++ "]"
  | .object members => "\x7b" ++ Text.join "," (compactMembers members) ++ "\x7d"
  | .unreadable => "null"

def compactItems : List (Json Float) → List String
  | [] => []
  | item :: rest => compact item :: compactItems rest

def compactMembers : List (String × Json Float) → List String
  | [] => []
  | (name, value) :: rest => (quoted name ++ ":" ++ compact value) :: compactMembers rest

end

/-- The start of a line at a depth of nesting. -/
def newline (depth : Nat) : String :=
  "\n" ++ String.ofList (List.replicate (2 * depth) ' ')

/-- Parts of a container on lines of their own, between its brackets. -/
def block (opening closing : String) (depth : Nat) (parts : List String) : String :=
  if parts.isEmpty then opening ++ closing
  else
    opening ++ newline (depth + 1) ++ Text.join ("," ++ newline (depth + 1)) parts ++ newline depth
      ++ closing

mutual

/-- A value on several lines, at a depth of nesting. -/
def pretty (depth : Nat) : Json Float → String
  | .array items => block "[" "]" depth (prettyItems (depth + 1) items)
  | .object members => block "\x7b" "\x7d" depth (prettyMembers (depth + 1) members)
  | .null => "null"
  | .bool b => if b then "true" else "false"
  | .whole n => toString n
  | .real x => Layout.json x
  | .string s => quoted s
  | .unreadable => "null"

def prettyItems (depth : Nat) : List (Json Float) → List String
  | [] => []
  | item :: rest => pretty depth item :: prettyItems depth rest

def prettyMembers (depth : Nat) : List (String × Json Float) → List String
  | [] => []
  | (name, value) :: rest => (quoted name ++ ": " ++ pretty depth value) :: prettyMembers depth rest

end

end Writer

def compact (value : Json Float) : String := Writer.compact value

/-- The text of a value on several lines. -/
def pretty (value : Json Float) : String := Writer.pretty 0 value

end Montage.Json
