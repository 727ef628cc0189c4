/-!
Contract: escaping of text inside filter graphs.

Owns: the two levels of escaping. The graph parser takes away the outer one, the option parser of a
filter the inner one.
-/

set_option autoImplicit false

namespace Montage.Graph.Escape

/-- Puts a backslash before every special character. -/
def escape (isSpecial : Char → Bool) (s : List Char) : List Char :=
  s.flatMap fun c => if isSpecial c then ['\\', c] else [c]

def isGraphSpecial (c : Char) : Bool :=
  ['\\', '\'', '[', ']', ',', ';'].contains c

def isOptionSpecial (c : Char) : Bool :=
  ['\\', '\'', ':'].contains c

def graphValue (s : String) : String := String.ofList (escape isGraphSpecial s.toList)

def optionValue (s : String) : String := String.ofList (escape isOptionSpecial s.toList)

end Montage.Graph.Escape
