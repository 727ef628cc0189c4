import Montage.Shell.Builtin.Declaration
import Montage.Shell.Builtin.Surroundings
import Montage.Shell.Search

/-!
Contract: programs that the interpreter runs, other interpreters among them.

Owns: what an interpreter has at its beginning, its arguments, the texts it carries out, the running of a
program, and its taking the place of the interpreter.

An interpreter that is a program of its own gets from its starter the variables that are marked for it, the
streams, the working directory and the signals that are ignored. All else begins anew. Programs of other
kinds are run by the system, without input.
-/

set_option autoImplicit false

namespace Montage.Shell

variable {m : Type → Type} [Monad m] [Ground m]

/-! ## What is there at the beginning -/

def Interior.first (process : Nat) : Interior :=
  { process, root := process, name := "sh", line := 0, reached := 1, activity := none, cells := []
    saved := [], functions := [], aliases := [], texts := .none, operands := [], optionIndex := 1
    optionOffset := none, options := [], status := 0, substituted := 0, keptStatus := none, traps := []
    ignored := [], caught := [], loops := 0, functionDepth := 0, skip := .none, jobs := [], background := none
    directory := none, programs := [], streams := [(0, 0), (1, 1), (2, 2)], unwritten := ""
    hasLost := false, mask := 0o022, isTracing := false }

def Cell.handedOver (cell : Cell) : Cell :=
  if cell.isExported && cell.value.isSome then { cell with isReadonly := false, isLasting := false }
  else .unset

def Interior.begun (i : Interior) (process : Nat) (name : String) : Interior :=
  let passedOver := i.traps.filter fun trap => trap.2.isEmpty
  { Interior.first process with
    name
    cells := i.cells.map fun entry => (entry.1, entry.2.handedOver)
    ignored := i.ignored ++ passedOver.map (·.1)
    directory := i.directory, streams := i.streams, mask := i.mask }

def furnishCell (name value : String) (keeps : Bool) : Act m Unit := do
  let before := (← cellOf? name).getD .unset
  let value := if keeps then before.value.getD value else value
  setCell name { before with value := some value, isLasting := lastingNames.contains name }

/-- Gives an interpreter the variables that every interpreter has. -/
def furnish (starter : Nat) : Act m Unit := do
  for (name, value) in [("PS1", "# "), ("PS2", "> "), ("PS4", "+ "), ("PATH", usualPath)] do
    furnishCell name value true
  for (name, value) in [("IFS", " \t\n"), ("OPTIND", "1"), ("PPID", toString starter)] do
    furnishCell name value false
  let place ← Builtin.here
  if !place.isEmpty then
    let cell : Cell := { Cell.unset with value := some place, isExported := true }
    setCell "PWD" cell

/-! ## Arguments -/

/-- Sets the options of letters, of which one says that the first argument is a text to be carried out.
The answer is whether it was there, and the arguments left. -/
def startLetters (isOn : Bool) : List Char → List String → Act m (Bool × List String)
  | [], arguments => pure (false, arguments)
  | 'c' :: letters, arguments => do
    let (_, rest) ← startLetters isOn letters arguments
    pure (true, rest)
  | 'l' :: letters, arguments => startLetters isOn letters arguments
  | 'o' :: letters, arguments => do
    Builtin.setNamed arguments.head? isOn
    startLetters isOn letters (arguments.drop 1)
  | letter :: letters, arguments => do
    Builtin.setLetter letter isOn
    startLetters isOn letters arguments

def startOptions : Nat → List String → Act m (Bool × List String)
  | 0, arguments => pure (false, arguments)
  | _, [] => pure (false, [])
  | fuel + 1, first :: rest =>
    match first.toList with
    | ['-'] => pure (false, rest)
    | ['-', '-'] => pure (false, rest)
    | sign :: letters => do
      if sign == '-' || sign == '+' then
        let (hasText, rest) ← startLetters (sign == '-') letters rest
        let (hasMore, rest) ← startOptions fuel rest
        pure (hasText || hasMore, rest)
      else pure (false, first :: rest)
    | [] => pure (false, first :: rest)

/-- Sets the options of an interpreter that begins. Until then all of them count as on; the empty name
stands before those that no one has asked for. -/
def chooseOptions (arguments : List String) : Act m (Bool × List String) := do
  modify fun s => { s with options := "" :: optionLetters.map (·.1) }
  let (hasText, rest) ← startOptions (arguments.length + 1) arguments
  flush
  modify fun s => { s with options := s.options.takeWhile fun name => !name.isEmpty }
  if hasText && rest.isEmpty then fail "-c requires an argument"
  if !hasText && rest.isEmpty then Builtin.setOption "stdin" true
  Builtin.refuseMonitor
  pure (hasText, rest)

def takeName : List String → Act m Unit
  | [] => pure ()
  | name :: operands => modify fun s => { s with name, operands, activity := some name }

/-! ## Texts -/

def runInput (run : Runner m) : Act m Unit := do
  let text ← readAll 0
  let _ ← runText run false true (String.ofList text)

def interpret (run : Runner m) (starter : Nat) (arguments : List String) : Act m Unit := do
  furnish starter
  let (hasText, rest) ← chooseOptions arguments
  let readsInput ← hasOption "stdin"
  match hasText, rest with
  | true, text :: rest => do
    takeName rest
    let _ ← runText run false false text
    if readsInput then runInput run
  | _, path :: operands => do
    if readsInput then
      modify fun s => { s with operands := path :: operands }
      runInput run
    else
      if (← kindOf? path).isNone then fail ("cannot open " ++ path ++ ": No such file")
      takeName (path :: operands)
      let _ ← runText run false true ((← contentOf? path).getD "")
  | _, [] => runInput run

/-! ## Programs -/

/-- Runs a program of the system. What it writes goes where the streams lead. -/
def runOutside (run : Runner m) (path name : String) (arguments : List String) : Act m ExitStatus := do
  runBackground run
  let place ← pathOf (runnable path)
  let ending ←
    match ← ask (Host.run place.text (arguments.map Text.Octets.shown)) with
    | .error _ => do
      complain (notFoundText name true)
      pure (.exited 126)
    | .ok finished => do
      let _ ← send 1 (Text.Octets.ofBytes finished.output)
      sendError (Text.Octets.ofBytes finished.errors)
      pure finished.status
  runBackground run
  pure ending

def runProgram (run : Runner m) (path name : String) (arguments : List String) : Act m ExitStatus := do
  if ← ask (Ground.isInterpreter (← pathOf (runnable path))) then
    let starter := (← get).process
    inChild run (fun process interior => interior.begun process name) (interpret run starter arguments)
  else runOutside run path name arguments

def programAt (path : String) : Act m (Except Bool String) := firstProgram false [path]

def refusalStatus (isForbidden : Bool) : Nat := if isForbidden then 126 else 127

/-- Runs a program that was found under a path, and waits for it; the answer is its status. -/
def callProgram (run : Runner m) (path name : String) (arguments : List String) : Act m Nat := do
  match ← programAt path with
  | .ok path => statusAfter (← runProgram run path name arguments)
  | .error isForbidden =>
    complain (notFoundText name isForbidden)
    pure (refusalStatus isForbidden)

/-- Lets a program take the place of the interpreter, which ends if that is not possible. -/
def replaceBy (run : Runner m) (name : String) (arguments : List String) : Act m Nat := do
  let found ←
    if name.toList.contains '/' then programAt name
    else firstProgram false (candidates name (← searchPath))
  match found with
  | .ok path => throw (.gone (← runProgram run path name arguments))
  | .error isForbidden =>
    failWith (refusalStatus isForbidden) .ended (notFoundText name isForbidden)

end Montage.Shell
