/-!
Contract: expanded words, and their division into fields.

Owns: the pieces that a word expands to, their text, and the fields they make.

What came from an expansion outside quotes lies in a region, and only there do dividers divide. Blank
dividers make no empty fields, all others end one each. Operands are kept apart by separators: in a region
of their own nothing else divides, elsewhere a separator acts as a blank.
-/

set_option autoImplicit false

namespace Montage.Shell

/-- A character of an expanded word, and whether it stands for itself in a pattern. -/
structure Glyph where
  char : Char
  isQuoted : Bool
  deriving DecidableEq, Repr

def glyphText (glyphs : List Glyph) : String := String.ofList (glyphs.map (·.char))

def isBlank (c : Char) : Bool := c == ' ' || c == '\t' || c == '\n'

inductive Piece where
  | glyph (g : Glyph)
  /-- Quotes stand here, so that the word is not nothing. -/
  | mark
  /-- A region begins; in one of operands only separators divide. -/
  | regionStart (ofOperands : Bool)
  | regionEnd
  /-- An operand ends here and another one begins. -/
  | separator
  deriving DecidableEq, Repr

namespace Piece

def glyph? : Piece → Option Glyph
  | .glyph g => some g
  | _ => none

def ofText (text : String) (isQuoted : Bool) : List Piece :=
  text.toList.map fun char => .glyph { char, isQuoted }

def region (isQuoted : Bool) (pieces : List Piece) : List Piece :=
  if isQuoted then pieces else .regionStart false :: pieces ++ [.regionEnd]

def glyphs (pieces : List Piece) : List Glyph := pieces.filterMap glyph?

def text (pieces : List Piece) : String := glyphText (glyphs pieces)

end Piece

/-! ## Fields -/

/-- The division of a word while it goes on. -/
structure Division where
  /-- The fields found so far, last first. -/
  fields : List (List Glyph)
  /-- The pieces since the last divider, last first. -/
  current : List Piece
  /-- Whether the region at hand is one of operands, if there is one. -/
  region : Option Bool
  /-- Whether the last region was one of operands. -/
  lastOfOperands : Bool
  /-- Whether the region before the one at hand was one of operands. -/
  isAfterOperands : Bool
  /-- Whether blanks, and one more divider after them, belong to the divider before them. -/
  isSkipping : Bool
  /-- How many fields may still be found; nothing if there is no limit. -/
  limit : Option Nat
  /-- How many of the current pieces are left if only dividers follow. -/
  kept : Option Nat

namespace Division

def start (limit : Option Nat) : Division :=
  { fields := [], current := [], region := none, lastOfOperands := false, isAfterOperands := false
    isSkipping := false, limit, kept := none }

def push (d : Division) (piece : Piece) : Division := { d with current := piece :: d.current }

def finishField (d : Division) : Division :=
  { d with fields := Piece.glyphs d.current.reverse :: d.fields, current := [] }

/-- A piece in a region once the last field has begun: it takes all, but dividers at its end may be left
out. -/
def lastStep (d : Division) (piece : Piece) (isDivider isSpace : Bool) : Division :=
  if isSpace then { d with kept := some (d.kept.getD d.current.length) }.push piece
  else
    let kept := if isDivider && d.isSkipping then d.kept else none
    { d with kept, isSkipping := false }.push piece

/-- A divider in a region that ends a field or follows the last one that did. -/
def dividerStep (d : Division) (piece : Piece) (isSpace ofOperands : Bool) : Division :=
  if d.isSkipping then { d with current := [], isSkipping := isSpace }
  else
    let isSkipping := !(d.isAfterOperands || ofOperands) && isSpace
    if d.current.isEmpty && isSkipping then d
    else
      match d.limit with
      | some 1 => { d with isSkipping, limit := some 0, kept := some d.current.length }.push piece
      | limit => { d.finishField with isSkipping, limit := limit.map (· - 1) }

def regionStep (dividers : List Char) (ofOperands : Bool) (d : Division) (piece : Piece) : Division :=
  let (isDivider, isSpace) :=
    match piece with
    | .separator => (true, true)
    | .glyph g =>
      let isDivider := !ofOperands && dividers.contains g.char
      (isDivider, isDivider && isBlank g.char)
    | _ => (false, false)
  if d.limit == some 0 then d.lastStep piece isDivider isSpace
  else if isDivider then d.dividerStep piece isSpace ofOperands
  else { d with isSkipping := false }.push piece

def step (dividers : List Char) (d : Division) (piece : Piece) : Division :=
  match piece, d.region with
  | .regionStart ofOperands, _ =>
    { d with
      region := some ofOperands, isAfterOperands := d.lastOfOperands, lastOfOperands := ofOperands
      isSkipping := false }
  | .regionEnd, _ => { d with region := none }
  | .separator, none => d
  | piece, none => d.push piece
  | piece, some ofOperands => d.regionStep dividers ofOperands piece

def finish (d : Division) : List (List Glyph) :=
  let pieces := d.current.reverse
  let pieces := pieces.take (d.kept.getD pieces.length)
  let last := if pieces.isEmpty && !d.lastOfOperands then [] else [Piece.glyphs pieces]
  d.fields.reverse ++ last

end Division

/-- The fields of a word, given the characters that divide it and the number of fields at which to stop. -/
def fields (dividers : List Char) (limit : Option Nat) (pieces : List Piece) : List (List Glyph) :=
  (pieces.foldl (Division.step dividers) (.start limit)).finish

end Montage.Shell
