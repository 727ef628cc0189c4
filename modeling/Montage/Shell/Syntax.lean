/-!
Contract: the language of the command interpreter.

Owns: words, redirections and commands.

Does **not** own: how they are read (`Montage.Shell.Reader`) and carried out (`Montage.Shell.Run`).

A word is a list of parts, so that it is known of every character whether it stands in quotes. What is
computed when a command is carried out is kept as it was written.

The interpreter works on bytes. Its texts are strings whose characters stand for one byte each.
-/

set_option autoImplicit false

namespace Montage.Shell

/-- What becomes of the value of a parameter, given a word. -/
inductive Treatment where
  | value
  | size
  /-- The word in place of a value that is missing. -/
  | otherwise (unlessEmpty : Bool)
  /-- As before, and the word becomes the value. -/
  | assigning (unlessEmpty : Bool)
  /-- A complaint about a value that is missing. -/
  | required (unlessEmpty : Bool)
  /-- The word in place of a value that is not missing. -/
  | replacing (unlessEmpty : Bool)
  /-- Without the beginning that the word matches. -/
  | withoutStart (longest : Bool)
  /-- Without the end that the word matches. -/
  | withoutEnd (longest : Bool)
  /-- A treatment that does not exist. -/
  | unknown
  deriving DecidableEq, Repr

inductive Opening where
  | reading
  | writing
  /-- For writing, whatever is asked about files that exist. -/
  | overwriting
  | appending
  | both
  deriving DecidableEq, Repr

mutual

inductive Part where
  | character (c : Char) (isQuoted : Bool)
  /-- Quotes stand here, so that the word is not nothing. -/
  | quotes
  | parameter (name : String) (treatment : Treatment) (word : List Part) (isQuoted : Bool)
  /-- What a command writes. -/
  | output (command : Option Command) (isQuoted : Bool)
  | arithmetic (expression : List Part) (isQuoted : Bool)

/-- Where a stream of a command leads. -/
inductive Redirection where
  | file (stream : Nat) (opening : Opening) (name : List Part)
  | copy (stream : Nat) (source : List Part)
  /-- A text that follows the line of the command, by its number. -/
  | text (stream : Nat) (number : Nat)

/-- A command, with the line in which it begins where complaints name it. -/
inductive Command where
  | simple (line : Nat) (assignments : List (String × List Part)) (words : List (List Part))
      (redirections : List Redirection)
  | redirected (line : Nat) (body : Command) (redirections : List Redirection)
  | separate (line : Nat) (body : Option Command) (redirections : List Redirection)
  | background (line : Nat) (body : Command) (redirections : List Redirection)
  | sequence (first second : Command)
  | both (first second : Command)
  | either (first second : Command)
  | negated (body : Command)
  | pipeline (stages : List Command)
  | conditional (test body : Option Command) (otherwise : Option Command)
  | loop (goesOnWhen : Bool) (test body : Option Command)
  | forEach (line : Nat) (name : String) (words : Option (List (List Part))) (body : Option Command)
  | select (line : Nat) (subject : List Part) (branches : List (List (List Part) × Option Command))
  | define (name : String) (body : Command)

end

abbrev Word := List Part

/-- The texts that follow lines, by their numbers. -/
structure Texts where
  issued : Nat
  contents : List (Nat × Word)

namespace Texts

def none : Texts := { issued := 0, contents := [] }

/-- The text of a number; one that was never read is empty. -/
def get (texts : Texts) (number : Nat) : Word := (texts.contents.lookup number).getD []

end Texts

namespace Part

def bare? : Part → Option Char
  | .character c false => some c
  | _ => none

def character? : Part → Option Char
  | .character c _ => some c
  | _ => none

end Part

namespace Word

def bare? (word : Word) : Option String := (word.mapM Part.bare?).map String.ofList

def characters (word : Word) : String := String.ofList (word.filterMap Part.character?)

end Word

def beginsName (c : Char) : Bool := c.isAlpha || c == '_'

def isInName (c : Char) : Bool := c.isAlphanum || c == '_'

def isName (text : String) : Bool :=
  match text.toList with
  | [] => false
  | first :: rest => beginsName first && rest.all isInName

/-- The words with a meaning of their own at the beginning of a command. -/
def keywords : List String :=
  ["!", "\x7b", "\x7d", "case", "do", "done", "elif", "else", "esac", "fi", "for", "if", "in", "then",
   "until", "while"]

/-- The commands that are part of the interpreter and that no function can take the place of. What goes
wrong in one of them ends the interpreter. -/
def specialBuiltins : List String :=
  [".", ":", "break", "continue", "eval", "exec", "exit", "export", "local", "readonly", "return",
   "set", "shift", "times", "trap", "unset"]

def commonBuiltins : List String :=
  ["[", "alias", "bg", "cd", "chdir", "command", "echo", "false", "fg", "getopts", "hash", "jobs",
   "kill", "printf", "pwd", "read", "test", "true", "type", "ulimit", "umask", "unalias", "wait"]

/-- The commands that take assignments, which are words that no field division touches. -/
def assigningBuiltins : List String := ["alias", "export", "local", "readonly"]

end Montage.Shell
