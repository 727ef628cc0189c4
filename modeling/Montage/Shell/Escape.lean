/-!
Contract: characters that are written with a backslash.

Owns: what a backslash and the characters after it stand for in forms and in texts that are written.

In a form an octal number has up to three digits. In a text it may begin with one more zero, and a `c`
ends all writing. A backslash that means nothing stands for itself.
-/

set_option autoImplicit false

namespace Montage.Shell.Escape

def isOctal (c : Char) : Bool := '0' ≤ c && c ≤ '7'

def octal (digits : List Char) : Char :=
  Char.ofNat (digits.foldl (fun total c => total * 8 + (c.toNat - '0'.toNat)) 0 % 0x100)

def letter? (c : Char) : Option Char :=
  ([('a', '\x07'), ('b', '\x08'), ('f', '\x0c'), ('n', '\n'), ('r', '\r'), ('t', '\t'),
    ('v', '\x0b'), ('e', '\x1b'), ('\\', '\\')] : List (Char × Char)).lookup c

/-- The character that the text after a backslash begins with, and the number of characters it takes. -/
def first (rest : List Char) : Char × Nat :=
  let digits := (rest.take 3).takeWhile isOctal
  if digits.isEmpty then
    match rest.head?.bind letter? with
    | some c => (c, 1)
    | none => ('\\', 0)
  else (octal digits, digits.length)

/-- A text with its escapes carried out, and whether one of them ends all writing. -/
def expandUpTo : Nat → List Char → List Char × Bool
  | 0, _ => ([], false)
  | _, [] => ([], false)
  | fuel + 1, '\\' :: rest =>
    match rest with
    | 'c' :: _ => ([], true)
    | _ =>
      let digits :=
        match rest with
        | '0' :: c :: more => if isOctal c then c :: more else rest
        | _ => rest
      let (c, taken) := first digits
      let (others, ends) := expandUpTo fuel (digits.drop taken)
      (c :: others, ends)
  | fuel + 1, c :: rest =>
    let (others, ends) := expandUpTo fuel rest
    (c :: others, ends)

/-- A text with its escapes carried out, and whether one of them ends all writing. -/
def expand (text : String) : List Char × Bool := expandUpTo (text.length + 1) text.toList

end Montage.Shell.Escape
