import Montage.Number.Layout

/-!
Contract: the grammar of command lines.

Owns: operands and flags, the reading of an argument list against the ones a command has, and the check
of the values.

Does **not** own: the commands themselves (`Montage.Cli.Action`).

Every flag has a long name and may have a letter. A flag's value follows it, or is attached to it by an
equals sign, or for a letter directly. Two hyphens make all that follows operands. No flag is given
twice.
-/

set_option autoImplicit false

namespace Montage.Cli

/-- What a value has to look like. -/
inductive Shape where
  | text
  /-- Anything but the empty text. -/
  | path
  | number
  deriving DecidableEq, Repr

/-- An operand of a command. -/
structure Operand where
  shape : Shape
  /-- Whether it takes all operands that follow too. Only the last operand may. -/
  repeats : Bool := false
  /-- Whether a hyphen before a number is its sign. -/
  mayBeNegative : Bool := false
  deriving DecidableEq, Repr

/-- A flag of a command; it takes a value if it has a shape for one. -/
structure Flag where
  long : String
  letter : Option Char := none
  shape : Option Shape := none
  deriving DecidableEq, Repr

/-- The operands and flags of a command. -/
structure Grammar where
  operands : List Operand
  flags : List Flag
  deriving DecidableEq, Repr

/-- What was found on a command line: the operands in order, and the flags with their values. -/
structure Found where
  operands : List String
  flags : List (String × String)
  deriving DecidableEq, Repr

/-- How the reading of a command line ends. -/
inductive Reading (β : Type) where
  | read (value : β)
  | help
  | version
  | misuse
  deriving DecidableEq, Repr

def Shape.accepts : Shape → String → Bool
  | .text, _ => true
  | .path, value => !value.isEmpty
  | .number, value => (Layout.read? value : Option Float).isSome

/-! ## Negative numbers -/

/-- Whether characters are digits with an optional point and an optional exponent without a sign, neither
of them first. -/
def isPlainNumber : (atStart sawPoint sawExponent : Bool) → List Char → Bool
  | _, _, _, [] => true
  | atStart, sawPoint, sawExponent, c :: rest =>
    if c.isDigit then isPlainNumber false sawPoint sawExponent rest
    else if c = '.' then !sawPoint && !sawExponent && !atStart && isPlainNumber false true false rest
    else
      (c = 'e' || c = 'E') && !sawExponent && !atStart && !rest.isEmpty
        && isPlainNumber false sawPoint true rest

def isNegativeNumber (argument : List Char) : Bool :=
  match argument with
  | '-' :: rest => isPlainNumber true false false rest
  | _ => false

/-! ## Reading -/

namespace Grammar

def operandAfter (g : Grammar) (count : Nat) : Option Operand :=
  match g.operands[count]? with
  | some operand => some operand
  | none => g.operands.getLast?.filter (·.repeats)

/-- Whether a hyphen before a number is its sign after a number of operands. -/
def takesNegative (g : Grammar) (count : Nat) : Bool :=
  ((g.operandAfter count).map (·.mayBeNegative)).getD false

def flagOfLetter? (g : Grammar) (letter : Char) : Option Flag :=
  g.flags.find? fun flag => flag.letter == some letter

def flagOfName? (g : Grammar) (name : String) : Option Flag :=
  g.flags.find? fun flag => flag.long == name

end Grammar

namespace Found

def addOperand (found : Found) (g : Grammar) (value : String) : Reading Found :=
  match g.operandAfter found.operands.length with
  | some operand =>
    if operand.shape.accepts value then .read { found with operands := found.operands ++ [value] }
    else .misuse
  | none => .misuse

/-- Adds a flag, unless it was given before. -/
def addFlag (found : Found) (flag : Flag) (value : String) : Reading Found :=
  if (found.flags.lookup flag.long).isSome then .misuse
  else if flag.long == "help" then .help
  else if flag.long == "version" then .version
  else if (flag.shape.map fun shape => shape.accepts value).getD true then
    .read { found with flags := found.flags ++ [(flag.long, value)] }
  else .misuse

def flag? (found : Found) (name : String) : Option String := found.flags.lookup name

/-- Whether a flag was given. -/
def has (found : Found) (name : String) : Bool := (found.flag? name).isSome

end Found

def Reading.andThen {β γ : Type} (r : Reading β) (next : β → Reading γ) : Reading γ :=
  match r with
  | .read value => next value
  | .help => .help
  | .version => .version
  | .misuse => .misuse

/-- What an argument gives: more found, and the flag whose value has to follow. -/
abbrev Progress := Reading (Found × Option Flag)

def longFlag (g : Grammar) (found : Found) (argument : List Char) : Progress :=
  let name := String.ofList (argument.takeWhile (· != '='))
  match g.flagOfName? name, argument.dropWhile (· != '=') with
  | none, _ => .misuse
  | some flag, [] =>
    if flag.shape.isSome then .read (found, some flag)
    else (found.addFlag flag "").andThen fun found => .read (found, none)
  | some flag, _ :: value =>
    if flag.shape.isSome then
      (found.addFlag flag (String.ofList value)).andThen fun found => .read (found, none)
    else .misuse

def letters (g : Grammar) (found : Found) : List Char → Progress
  | [] => .read (found, none)
  | letter :: rest =>
    match g.flagOfLetter? letter with
    | none => .misuse
    | some flag =>
      if flag.shape.isSome then
        match rest with
        | [] => .read (found, some flag)
        | '=' :: value =>
          (found.addFlag flag (String.ofList value)).andThen fun found => .read (found, none)
        | value => (found.addFlag flag (String.ofList value)).andThen fun found => .read (found, none)
      else (found.addFlag flag "").andThen fun found => letters g found rest

/-- Reads an argument that stands for itself: the value of the flag before it, or an operand. -/
def plainArgument (g : Grammar) (found : Found) (awaiting : Option Flag) (argument : String) :
    Progress :=
  (match awaiting with
    | some flag => found.addFlag flag argument
    | none => found.addOperand g argument).andThen fun found => .read (found, none)

/-- Reads one argument. Nothing but a value may follow a flag that needs one. -/
def argument (g : Grammar) (found : Found) (awaiting : Option Flag) (text : String) : Progress :=
  match text.toList with
  | '-' :: '-' :: name => if awaiting.isSome then .misuse else longFlag g found name
  | '-' :: first :: rest =>
    if g.takesNegative found.operands.length && isNegativeNumber text.toList then
      plainArgument g found awaiting text
    else if awaiting.isSome then .misuse
    else letters g found (first :: rest)
  | _ => plainArgument g found awaiting text

def operands (g : Grammar) (found : Found) : List String → Reading Found
  | [] => .read found
  | value :: rest => (found.addOperand g value).andThen fun found => operands g found rest

/-- Reads arguments, given what was found so far and the flag whose value has to come next. -/
def arguments (g : Grammar) (found : Found) (awaiting : Option Flag) : List String → Reading Found
  | [] => if awaiting.isSome then .misuse else .read found
  | next :: rest =>
    if next == "--" then if awaiting.isSome then .misuse else operands g found rest
    else
      (argument g found awaiting next).andThen fun (found, awaiting) =>
        arguments g found awaiting rest

/-- Reads the arguments of a command and checks that no operand is missing. -/
def Grammar.read (g : Grammar) (list : List String) : Reading Found :=
  (arguments g ⟨[], []⟩ none list).andThen fun found =>
    if found.operands.length < g.operands.length then .misuse else .read found

/-- Reads the flags in front of the first word, which they leave with what follows it. -/
def leadingFlags (g : Grammar) (found : Found) :
    List String → Reading (Found × String × List String)
  | [] => .misuse
  | next :: rest =>
    match next.toList with
    | ['-', '-'] => .misuse
    | '-' :: _ :: _ =>
      (argument g found none next).andThen fun (found, _) => leadingFlags g found rest
    | _ => .read (found, next, rest)

end Montage.Cli
