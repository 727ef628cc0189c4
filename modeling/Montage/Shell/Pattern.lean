import Montage.Shell.Piece

/-!
Contract: patterns.

Owns: whether a text matches a pattern, and a text without a part that one matches.

A star stands for any characters, a question mark for any one, and brackets for one of a set. In quotes and
after a backslash they stand for themselves.
-/

set_option autoImplicit false

namespace Montage.Shell

inductive Matcher where
  | one (accepts : Char → Bool)
  | any

namespace Matcher

/-- Whether a character is a letter, a digit or a sign that can be seen. -/
def isGraphic (c : Char) : Bool := 0x21 ≤ c.toNat && c.toNat ≤ 0x7E

def classOf? (name : String) : Option (Char → Bool) :=
  ([("alnum", Char.isAlphanum), ("alpha", Char.isAlpha), ("digit", Char.isDigit),
    ("upper", Char.isUpper), ("lower", Char.isLower), ("graph", isGraphic),
    ("print", fun c => c == ' ' || isGraphic c),
    ("punct", fun c => isGraphic c && !c.isAlphanum),
    ("blank", fun c => c == ' ' || c == '\t'),
    ("space", fun c => c == ' ' || (0x09 ≤ c.toNat && c.toNat ≤ 0x0D)),
    ("cntrl", fun c => c.toNat < 0x20 || c.toNat == 0x7F),
    ("xdigit", fun c => c.isDigit || ('a' ≤ c && c ≤ 'f') || ('A' ≤ c && c ≤ 'F'))] :
    List (String × (Char → Bool))).lookup name

/-- The place of a byte in the order of ranges, in which those beyond the first half are negative. -/
def rank (c : Char) : Int := if c.toNat < 0x80 then c.toNat else (c.toNat : Int) - 0x100

def className? (glyphs : List Glyph) : Option String :=
  match glyphs with
  | colon :: rest =>
    let name := rest.takeWhile fun g => g.char.isAlpha && !g.isQuoted
    let closing := (rest.drop name.length).take 2
    if colon == ⟨':', false⟩ && closing == [⟨':', false⟩, ⟨']', false⟩] then some (glyphText name)
    else none
  | [] => none

/-- The characters of a set up to its closing bracket, and what follows it. -/
def members : Nat → Bool → List Glyph → Option ((Char → Bool) × List Glyph)
  | 0, _, _ => none
  | _, _, [] => none
  | fuel + 1, isFirst, g :: rest => do
    if g == ⟨']', false⟩ && !isFirst then some (fun _ => false, rest)
    else
      let name? := if g == ⟨'[', false⟩ then className? rest else none
      match name?.bind classOf? with
      | some accepts =>
        let (others, after) ← members fuel false (rest.drop ((name?.getD "").length + 3))
        some (fun c => accepts c || others c, after)
      | none =>
        match rest with
        | hyphen :: last :: after =>
          if hyphen == ⟨'-', false⟩ && last != ⟨']', false⟩ then
            let (others, after) ← members fuel false after
            some (fun c => (rank g.char ≤ rank c && rank c ≤ rank last.char) || others c, after)
          else
            let (others, after) ← members fuel false rest
            some (fun c => c == g.char || others c, after)
        | _ =>
          let (others, after) ← members fuel false rest
          some (fun c => c == g.char || others c, after)

def set? (glyphs : List Glyph) : Option ((Char → Bool) × List Glyph) :=
  match glyphs with
  | g :: rest =>
    if g == ⟨'!', false⟩ then
      (members (rest.length + 1) true rest).map fun (accepts, after) => (fun c => !accepts c, after)
    else members (glyphs.length + 1) true glyphs
  | [] => none

def ofGlyphs : Nat → List Glyph → List Matcher
  | 0, _ => []
  | _, [] => []
  | fuel + 1, g :: rest =>
    if g.isQuoted then .one (· == g.char) :: ofGlyphs fuel rest
    else if g.char == '*' then .any :: ofGlyphs fuel rest
    else if g.char == '?' then .one (fun _ => true) :: ofGlyphs fuel rest
    else if g.char == '[' then
      match set? rest with
      | some (accepts, after) => .one accepts :: ofGlyphs fuel after
      | none => .one (· == g.char) :: ofGlyphs fuel rest
    else .one (· == g.char) :: ofGlyphs fuel rest

def ends {β : Type} : List β → List (List β)
  | [] => [[]]
  | x :: rest => (x :: rest) :: ends rest

def accept : List Matcher → List Char → Bool
  | [], s => s.isEmpty
  | [.any], _ => true
  | .any :: rest, s => (ends s).any fun left => accept rest left
  | .one accepts :: rest, s =>
    match s with
    | c :: left => accepts c && accept rest left
    | [] => false

end Matcher

/-- A pattern in which a backslash outside quotes quotes the character after it. -/
def protect : List Glyph → List Glyph
  | [] => []
  | [g] => if g == ⟨'\\', false⟩ then [⟨'\\', true⟩] else [g]
  | g :: next :: rest =>
    if g == ⟨'\\', false⟩ then ⟨next.char, true⟩ :: protect rest else g :: protect (next :: rest)

def matchersOf (pattern : List Glyph) : List Matcher :=
  let glyphs := protect pattern
  Matcher.ofGlyphs glyphs.length glyphs

def isMatch (pattern : List Glyph) (text : List Char) : Bool := Matcher.accept (matchersOf pattern) text

def separatorChar : Char := '\x00'

/-- A text without a beginning that matches, the longest or the shortest one. The shortest one does not
reach beyond the first operand. -/
def withoutStart (pattern : List Glyph) (longest : Bool) (text : List Char) : List Char :=
  let matchers := matchersOf pattern
  let first := text.takeWhile (· != separatorChar)
  let lengths := if longest then (List.range (text.length + 1)).reverse else List.range (first.length + 1)
  let beginning (n : Nat) : List Char := (text.take n).takeWhile (· != separatorChar)
  match lengths.find? fun n => Matcher.accept matchers (beginning n) with
  | some n => text.drop n
  | none => text

/-- A text without an end that matches, the longest or the shortest one. An end reaches up to the end of
its operand, and all behind it goes with it. -/
def withoutEnd (pattern : List Glyph) (longest : Bool) (text : List Char) : List Char :=
  let matchers := matchersOf pattern
  let first := text.takeWhile (· != separatorChar)
  let lengths := if longest then List.range (first.length + 1) else (List.range (text.length + 1)).reverse
  let ending (n : Nat) : List Char := (text.drop n).takeWhile (· != separatorChar)
  match lengths.find? fun n => Matcher.accept matchers (ending n) with
  | some n => text.take n
  | none => text

end Montage.Shell
