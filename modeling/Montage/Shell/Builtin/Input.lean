import Montage.Shell.Piece
import Montage.Shell.Variable

/-!
Contract: the commands of the interpreter that take words apart.

Owns: `read` and `getopts`.

A line is taken from the input byte by byte, so that what follows it is left. A backslash protects the
character after it from the division into fields, and takes a line end away.
-/

set_option autoImplicit false

namespace Montage.Shell.Builtin

variable {m : Type → Type} [Monad m] [Ground m]

/-! ## Lines -/

structure Line where
  pieces : List Piece
  /-- How many characters were taken. -/
  length : Nat
  /-- Whether the line has an end. -/
  isWhole : Bool

/-- A line with more characters taken before it, and pieces put before it. -/
def Line.after (pieces : List Piece) (length : Nat) (rest : Line) : Line :=
  { rest with pieces := pieces ++ rest.pieces, length := rest.length + length }

def Line.ended (length : Nat) (isWhole : Bool) : Line :=
  { pieces := [.regionEnd], length, isWhole }

/-- The line at the beginning of a text, of which a region has begun. -/
def lineOf (seesEscapes : Bool) : List Char → Line
  | [] => .ended 0 false
  | ['\\'] => .ended 1 false
  | '\n' :: _ => .ended 1 true
  | '\\' :: c :: rest =>
    if !seesEscapes then
      (lineOf seesEscapes (c :: rest)).after [.glyph { char := '\\', isQuoted := false }] 1
    else if c == '\n' then (lineOf seesEscapes rest).after [.regionEnd, .regionStart false] 2
    else
      (lineOf seesEscapes rest).after
        [.regionEnd, .glyph { char := c, isQuoted := true }, .regionStart false] 2
  | c :: rest =>
    let pieces := if c == '\x00' then [] else [Piece.glyph { char := c, isQuoted := false }]
    (lineOf seesEscapes rest).after pieces 1

/-- Gives variables the values of fields; those that are left over become empty. -/
def assignFields : List String → List (List Glyph) → Act m Unit
  | [], _ => pure ()
  | name :: names, fields => do
    assignText name (glyphText (fields.headD []))
    assignFields names (fields.drop 1)

def read (arguments : List String) : Act m Nat := do
  let (options, names) ← optionsOf ['p', 'r'] ['p'] arguments
  if names.isEmpty then fail "arg count"
  let isRaw := options.any fun entry => entry.1 == 'r'
  let line := lineOf (!isRaw) ((← unreadOf? 0).getD [])
  advance 0 line.length
  let pieces := .regionStart false :: line.pieces
  assignFields names (fields (← dividers) (some names.length) pieces)
  pure (if line.isWhole then 0 else 1)

/-! ## Options -/

/-- What is known of a letter in a description of options: whether it is one, and whether it needs a
value. A colon behind a letter says so. -/
def optionKind? (letter : Char) : List Char → Option Bool
  | [] => none
  | c :: ':' :: rest => if c == letter then some true else optionKind? letter rest
  | c :: rest => if c == letter then some false else optionKind? letter rest

/-- What comes of looking for the next option. -/
structure OptionStep where
  /-- What the option is, or what is wrong with it. -/
  letter : Char
  value : Option String
  complaint : Option String
  /-- The next argument, and the place in the one before it. -/
  index : Nat
  offset : Option Nat
  isLast : Bool

/-- Where the letters of the next option begin: in the argument before the next one, or in the next one. -/
def nextLetters (arguments : List String) (index : Nat) (offset : Option Nat) :
    Option (List Char × Nat) :=
  let current := if index ≤ 1 then none else arguments[index - 2]?
  let left :=
    match current, offset with
    | some text, some n => text.toList.drop n
    | _, _ => []
  if !left.isEmpty then some (left, index)
  else
    match arguments[index - 1]?.map String.toList with
    | some ['-', '-'] => some ([], index + 1)
    | some ('-' :: c :: rest) => some (c :: rest, index + 1)
    | _ => none

def stepOptions (description : String) (arguments : List String) (index : Nat) (offset : Option Nat) :
    OptionStep :=
  let isSilent := description.toList.head? == some ':'
  let ended (index : Nat) : OptionStep :=
    { letter := '?', value := none, complaint := none, index, offset := none, isLast := true }
  match nextLetters arguments index offset with
  | none => ended index
  | some ([], index) => ended index
  | some (letter :: rest, index) =>
    let current := (arguments[index - 2]?.getD "").length
    let here : Option Nat := some (current - rest.length)
    let plain : OptionStep :=
      { letter, value := some "", complaint := none, index, offset := here, isLast := false }
    match optionKind? letter description.toList with
    | none =>
      { plain with
        letter := '?', value := if isSilent then some letter.toString else none
        complaint := if isSilent then none else some ("Illegal option -" ++ letter.toString) }
    | some false => plain
    | some true =>
      if !rest.isEmpty then { plain with value := some (String.ofList rest), offset := none }
      else
        match arguments[index - 1]? with
        | some value => { plain with value := some value, index := index + 1, offset := none }
        | none =>
          if isSilent then { plain with letter := ':', value := some letter.toString }
          else
            { plain with
              letter := '?', value := none
              complaint := some ("No arg for -" ++ letter.toString ++ " option") }

def getopts : List String → Act m Nat
  | description :: name :: given => do
    let s ← get
    let arguments := if given.isEmpty then s.operands else given
    let isBeyond := arguments.length + 1 < s.optionIndex
    let (index, offset) := if isBeyond then (1, none) else (s.optionIndex, s.optionOffset)
    let step := stepOptions description arguments index offset
    set { s with optionIndex := 1, optionOffset := none }
    step.complaint.forM fun message => sendError (message ++ "\n")
    if !step.isLast then assign "OPTARG" step.value .none
    change "OPTIND" (some (toString step.index)) .none false
    assignText name step.letter.toString
    modify fun s => { s with optionIndex := step.index, optionOffset := step.offset }
    pure (if step.isLast then 1 else 0)
  | _ => fail "Usage: getopts optstring var [arg...]"

end Montage.Shell.Builtin
