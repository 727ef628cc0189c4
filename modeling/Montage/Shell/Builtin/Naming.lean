import Montage.Shell.Search

/-!
Contract: the commands of the interpreter about the names of commands.

Owns: aliases, the programs that were found, and what is told about names.
-/

set_option autoImplicit false

namespace Montage.Shell.Builtin

variable {m : Type → Type} [Monad m] [Ground m]

/-! ## Aliases -/

def setAlias (name value : String) : Act m Unit :=
  modify fun s =>
    let isKnown := s.aliases.any fun entry => entry.1 == name
    { s with
      aliases :=
        if isKnown then s.aliases.map fun entry => if entry.1 == name then (name, value) else entry
        else s.aliases ++ [(name, value)] }

/-- The name and the value of an alias that a text gives; the name has a character at least. -/
def aliasOf? (text : String) : Option (String × String) :=
  match text.toList with
  | [] => none
  | first :: rest =>
    let name := rest.takeWhile (· != '=')
    match rest.drop name.length with
    | [] => none
    | _ :: value => some (String.ofList (first :: name), String.ofList value)

/-- Sets an alias, or shows one; the answer is the status. -/
def setOrShowAlias (text : String) : Act m Nat := do
  match aliasOf? text with
  | some (name, value) =>
    setAlias name value
    pure 0
  | none =>
    match (← get).aliases.lookup text with
    | some value =>
      put (aliasLine text value)
      pure 0
    | none =>
      sendError ("alias: " ++ text ++ " not found\n")
      pure 1

def setOrShowAliases (arguments : List String) : Act m Nat := do
  if arguments.isEmpty then
    for (name, value) in inListOrder 39 (← get).aliases do
      put (aliasLine name value)
    pure 0
  else
    let statuses ← arguments.mapM setOrShowAlias
    pure (if statuses.contains 1 then 1 else 0)

/-- Takes an alias away; the answer is the status. -/
def takeAlias (name : String) : Act m Nat := do
  let aliases := (← get).aliases
  if aliases.any fun entry => entry.1 == name then
    modify fun s => { s with aliases := aliases.filter fun entry => entry.1 != name }
    pure 0
  else
    sendError ("unalias: " ++ name ++ " not found\n")
    pure 1

def unalias (arguments : List String) : Act m Nat := do
  let (options, names) ← optionsOf ['a'] [] arguments
  if options.isEmpty then
    let statuses ← names.mapM takeAlias
    pure (if statuses.contains 1 then 1 else 0)
  else
    modify fun s => { s with aliases := [] }
    pure 0

/-! ## Programs -/

/-- Looks for a program anew; the answer is the status. -/
def lookUp (name : String) : Act m Nat := do
  forget name
  match ← find name true none with
  | .nothing isForbidden =>
    complain (notFoundText name isForbidden)
    pure 1
  | _ => pure 0

/-- Looks for programs, forgets all of them, or tells those that were found. -/
def programs (arguments : List String) : Act m Nat := do
  let (options, names) ← optionsOf ['r'] [] arguments
  if !options.isEmpty then
    modify fun s => { s with programs := [] }
    pure 0
  else if names.isEmpty then
    for (_, found) in inListOrder 31 (← get).programs do
      putLine (found.path ++ if found.isOld then "*" else "")
    pure 0
  else
    let statuses ← names.mapM lookUp
    pure (if statuses.contains 1 then 1 else 0)

/-! ## Meanings -/

/-- Tells what the name means that is asked for, if one is asked for. -/
def answer (arguments : List String) : Act m Nat := do
  let (options, words) ← optionsOf ['p', 'v', 'V'] [] arguments
  let letters := options.map (·.1)
  let path := if letters.contains 'p' then some usualPath else none
  match words with
  | name :: _ =>
    if letters.contains 'v' || letters.contains 'V' then describe name path (letters.contains 'V')
    else pure 0
  | [] => pure 0

end Montage.Shell.Builtin
