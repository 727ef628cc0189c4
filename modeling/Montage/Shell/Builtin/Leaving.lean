import Montage.Shell.Variable

/-!
Contract: the commands of the interpreter that leave what it is doing.

Owns: the ends of loops, functions and the interpreter, and what is to be done about signals.
-/

set_option autoImplicit false

namespace Montage.Shell.Builtin

variable {m : Type → Type} [Monad m] [Ground m]

/-- Leaves loops, or goes on with the next round of one; outside loops nothing happens. -/
def leaveLoops (goesOn : Bool) (arguments : List String) : Act m Nat := do
  let count ← arguments.head?.elim (pure 1) countOf
  if count = 0 then fail ("Illegal number: " ++ arguments.headD "")
  modify fun s =>
    let count := Min.min count s.loops
    if count = 0 then s else { s with skip := .loops count goesOn }
  pure 0

def leaveFunction : List String → Act m Nat
  | [] => do
    modify fun s => { s with skip := .function false }
    pure (← get).status
  | text :: _ => do
    let status ← countOf text
    modify fun s => { s with skip := .function true }
    pure status

def leave (arguments : List String) : Act m Nat := do
  if let some text := arguments.head? then
    let status ← countOf text
    modify fun s => { s with keptStatus := some status }
  throw .told

/-- Decides what is to be done about signals; the answer is the status. -/
def setTraps (action : Option String) : List String → Act m Nat
  | [] => pure 0
  | text :: rest => do
    match Signal.ofText? 0 text with
    | none =>
      sendError ("trap: " ++ text ++ ": bad trap\n")
      pure 1
    | some signal =>
      modify fun s =>
        let others := s.traps.filter fun trap => trap.1 != signal
        { s with traps := (action.map fun text => (signal, text)).toList ++ others }
      setTraps action rest

/-- Decides what is to be done about signals, or shows what was decided. -/
def trap (arguments : List String) : Act m Nat := do
  match ← withoutOptions arguments with
  | [] =>
    let traps := (← get).traps
    for signal in List.range Signal.names.length do
      if let some action := traps.lookup signal then
        putLine ("trap -- " ++ quote action ++ " " ++ Signal.name signal)
    pure 0
  | [text] => setTraps none [text]
  | first :: rest =>
    if (Signal.ofNumber? first).isSome then setTraps none (first :: rest)
    else setTraps (if first == "-" then none else some first) rest

end Montage.Shell.Builtin
