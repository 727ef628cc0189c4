import Montage.Shell.Expansion

/-!
Contract: the commands of the interpreter that declare.

Owns: the marks of variables, what is unset, the options of the interpreter, and its operands.
-/

set_option autoImplicit false

namespace Montage.Shell.Builtin

variable {m : Type → Type} [Monad m] [Ground m]

/-! ## Variables -/

def optionFirst (letter : Char) (arguments : List String) : Act m (Bool × List String) :=
  match arguments with
  | [] => pure (false, [])
  | first :: rest =>
    match first.toList with
    | ['-', '-'] => pure (false, rest)
    | '-' :: c :: _ =>
      if c == letter then pure (true, rest) else fail ("Illegal option -" ++ c.toString)
    | _ => pure (false, first :: rest)

def mark (name : String) (marks : Marks) (isMarked : Cell → Bool) (arguments : List String) :
    Act m Nat := do
  let (isAsked, words) ← optionFirst 'p' arguments
  if isAsked || words.isEmpty then put (← shownVariables (name ++ " ") isMarked)
  else
    for word in words do
      declare word marks
  pure 0

def keepLocal (arguments : List String) : Act m Nat := do
  if (← get).saved.isEmpty then fail "not in a function"
  for word in arguments do
    makeLocal word false
  pure 0

def unset (arguments : List String) : Act m Nat := do
  let (options, words) ← optionsOf ['v', 'f'] [] arguments
  let takesFunctions := (options.getLast?.map fun entry => entry.1) == some 'f'
  for word in words do
    if takesFunctions then
      modify fun s => { s with functions := s.functions.filter fun entry => entry.1 != word }
    else assign word none .none
  pure 0

/-! ## Options and operands -/

def setOption (name : String) (isOn : Bool) : Act m Unit :=
  modify fun s =>
    let others := s.options.filter (· != name)
    { s with options := if isOn then name :: others else others }

/-- Turns an option of a letter on or off. Of the two ways to edit lines only one is on. -/
def setLetter (letter : Char) (isOn : Bool) : Act m Unit := do
  match optionLetters.find? fun entry => entry.2 == some letter with
  | none => fail ("Illegal option -" ++ letter.toString)
  | some (name, _) =>
    setOption name isOn
    if isOn && name == "vi" then setOption "emacs" false
    if isOn && name == "emacs" then setOption "vi" false

def setNamed (name : Option String) (isOn : Bool) : Act m Unit := do
  let names := optionLetters.map (·.1)
  match name with
  | some name =>
    if names.contains name then setOption name isOn else fail ("Illegal option -o " ++ name)
  | none =>
    let on := (← get).options
    if isOn then
      putLine "Current option settings"
      for name in names do
        let gap := String.ofList (List.replicate (16 - name.length) ' ')
        putLine (name ++ gap ++ if on.contains name then "on" else "off")
    else
      for name in names do
        putLine ("set " ++ (if on.contains name then "-o " else "+o ") ++ name)

/-- Turns the options of letters on or off; some take their names from the arguments that follow, which
are the answer. -/
def setLetters (isOn : Bool) : List Char → List String → Act m (List String)
  | [], arguments => pure arguments
  | 'o' :: letters, arguments => do
    setNamed arguments.head? isOn
    setLetters isOn letters (arguments.drop 1)
  | letter :: letters, arguments => do
    setLetter letter isOn
    setLetters isOn letters arguments

def setOperands (operands : List String) : Act m Unit :=
  modify fun s => { s with operands, optionIndex := 1, optionOffset := none }

/-- Sets the options that arguments begin with; the answer is what follows them. -/
def setOptions : Nat → List String → Act m (List String)
  | 0, arguments => pure arguments
  | _, [] => pure []
  | fuel + 1, first :: rest =>
    match first.toList with
    | ['-'] => do
      setOption "xtrace" false
      setOption "verbose" false
      pure rest
    | ['-', '-'] => do
      if rest.isEmpty then setOperands []
      pure rest
    | sign :: letters => do
      if sign == '-' || sign == '+' then setOptions fuel (← setLetters (sign == '-') letters rest)
      else pure (first :: rest)
    | [] => pure (first :: rest)

def refuseMonitor : Act m Unit := do
  if ← hasOption "monitor" then
    complain "can't access tty; job control turned off"
    setOption "monitor" false

def configure (arguments : List String) : Act m Nat := do
  if arguments.isEmpty then put (← shownVariables "" fun cell => cell.value.isSome)
  else
    let operands ← setOptions (arguments.length + 1) arguments
    refuseMonitor
    if !operands.isEmpty then setOperands operands
  pure 0

def shift (arguments : List String) : Act m Nat := do
  let count ← arguments.head?.elim (pure 1) countOf
  let operands := (← get).operands
  if operands.length < count then fail "can't shift that many"
  setOperands (operands.drop count)
  pure 0

end Montage.Shell.Builtin
