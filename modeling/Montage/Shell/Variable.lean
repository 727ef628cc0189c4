import Montage.Shell.State

/-!
Contract: the variables of an interpreter.

Owns: their values and marks, what follows from a new value, what a function gives back at its end, and
their listings.

A variable that was not touched is the one of the environment. One that can only be read refuses every
change. Some variables outlast their values: what is marked on them stays when they are unset.
-/

set_option autoImplicit false

namespace Montage.Shell

variable {m : Type → Type} [Monad m] [Ground m]

/-! ## Texts -/

def quoteChars : Nat → List Char → List Char
  | 0, _ => []
  | fuel + 1, s =>
    let plain := s.takeWhile (· != '\'')
    let rest := s.drop plain.length
    let marks := rest.takeWhile (· == '\'')
    let after := rest.drop marks.length
    let protected_ := if marks.isEmpty then [] else '"' :: marks ++ ['"']
    '\'' :: plain ++ ['\''] ++ protected_ ++ (if after.isEmpty then [] else quoteChars fuel after)

def quote (text : String) : String := String.ofList (quoteChars (text.length + 1) text.toList)

def splitAssignment (text : String) : String × Option String :=
  let name := text.toList.takeWhile (· != '=')
  let rest := text.toList.drop name.length
  (String.ofList name, if rest.isEmpty then none else some (String.ofList (rest.drop 1)))

/-! ## Cells -/

def lastingNames : List String :=
  ["IFS", "MAIL", "MAILPATH", "OPTIND", "PATH", "PS1", "PS2", "PS4"]

def environmentCell? (name : String) : Act m (Option Cell) := do
  if !isName name then pure none
  else
    let value ← ask (Host.environment? name)
    pure (value.map fun text =>
      { value := some (Text.Octets.ofText text), isExported := true, isReadonly := false
        isLasting := lastingNames.contains name })

def cellOf? (name : String) : Act m (Option Cell) := do
  match (← get).cells.lookup name with
  | some cell =>
    let isKnown := cell.value.isSome || cell.isExported || cell.isReadonly || cell.isLasting
    pure (if isKnown then some cell else none)
  | none => environmentCell? name

def valueOf? (name : String) : Act m (Option String) := do
  pure ((← cellOf? name).bind (·.value))

def setCell (name : String) (cell : Cell) : Act m Unit :=
  modify fun s => { s with cells := (name, cell) :: s.cells.filter fun entry => entry.1 != name }

def react (name value : String) : Act m Unit := do
  if name == "OPTIND" then
    let n ← countOf value
    modify fun s => { s with optionIndex := if n = 0 then 1 else n, optionOffset := none }
  else if name == "PATH" then modify fun s => { s with programs := [] }

/-- The marks that come with a change. -/
structure Marks where
  isExported : Bool
  isReadonly : Bool
  isLasting : Bool

namespace Marks

def none : Marks := { isExported := false, isReadonly := false, isLasting := false }

def exported : Marks := { none with isExported := true }

def readonly : Marks := { none with isReadonly := true }

def lasting : Marks := { none with isLasting := true }

end Marks

/-- Gives a variable a value, or none, and marks it. What follows from the value may be left out. -/
def change (name : String) (value : Option String) (marks : Marks) (reacts : Bool) : Act m Unit := do
  let before := (← cellOf? name).getD .unset
  if before.isReadonly then fail (name ++ ": is read only")
  if reacts then react name (value.getD "")
  let isExporting := marks.isExported || (← hasOption "allexport")
  let isGone :=
    value.isNone && !isExporting && !marks.isReadonly && !marks.isLasting && !before.isLasting
  setCell name
    (if isGone then .unset
     else
      { value, isExported := before.isExported || isExporting
        isReadonly := marks.isReadonly, isLasting := before.isLasting || marks.isLasting })

/-- A name that a variable can have; what follows an equals sign does not belong to it. -/
def nameOf (text : String) : Act m String := do
  let (name, _) := splitAssignment text
  if isName name then pure name else fail (name ++ ": bad variable name")

/-- Gives a variable a value, or none, once its name is known to be one. -/
def assign (text : String) (value : Option String) (marks : Marks) : Act m Unit := do
  let name ← nameOf text
  change name value marks true

def assignText (name value : String) : Act m Unit := assign name (some value) .none

def declare (text : String) (marks : Marks) : Act m Unit := do
  let (name, value) := splitAssignment text
  match value, ← cellOf? name with
  | none, some cell =>
    setCell name
      { cell with
        isExported := cell.isExported || marks.isExported
        isReadonly := cell.isReadonly || marks.isReadonly }
  | _, _ => assign name value marks

/-! ## What functions give back -/

def remember (saved : Saved) : Act m Unit :=
  modify fun s =>
    { s with
      saved :=
        match s.saved with
        | frame :: outer => (saved :: frame) :: outer
        | [] => [] }

/-- Lets a variable, or the options, belong to the function at hand. -/
def makeLocal (text : String) (isExported : Bool) : Act m Unit := do
  if text == "-" then remember (.options (← get).options)
  else
    let (name, value) := splitAssignment text
    let marks : Marks := { Marks.lasting with isExported }
    match ← cellOf? name with
    | none =>
      match value with
      | some _ => change name value marks true
      | none => assign name none marks
      remember (.cell name none)
    | some cell =>
      setCell name { cell with isLasting := true }
      if value.isSome then change name value { Marks.none with isExported } true
      remember (.cell name (some cell))

def giveBack : Saved → Act m Unit
  | .options before => modify fun s => { s with options := before }
  | .cell name none => setCell name .unset
  | .cell name (some cell) => do
    react name (cell.value.getD "")
    setCell name cell

def pushFrame : Act m Unit := modify fun s => { s with saved := [] :: s.saved }

/-- Gives back all that was noted since a number of functions were at work. -/
def unwindFrames (depth : Nat) : Act m Unit := do
  let frames := (← get).saved
  let done := frames.take (frames.length - depth)
  modify fun s => { s with saved := frames.drop (frames.length - depth) }
  for saved in done.flatten do
    giveBack saved

/-! ## Listings -/

def shownNames : List String := ["HOME", "OLDPWD", "PATH", "PWD", "TERM"]

def listedCells (isShown : Cell → Bool) : Act m (List (String × Cell)) := do
  let touched := (← get).cells.map (·.1)
  let names := touched ++ shownNames.filter fun name => !touched.contains name
  let cells ← names.filterMapM fun name => do
    pure ((← cellOf? name).map fun cell => (name, cell))
  pure ((cells.filter fun entry => isShown entry.2).mergeSort fun a b => !(decide (b.1 < a.1)))

def shownVariables (start : String) (isShown : Cell → Bool) : Act m String := do
  let line (entry : String × Cell) : String :=
    let value :=
      match entry.2.value with
      | some text => "=" ++ quote text
      | none => ""
    start ++ entry.1 ++ value ++ "\n"
  pure (String.join ((← listedCells isShown).map line))

/-! ## Single variables -/

def dividers : Act m (List Char) := do pure ((← valueOf? "IFS").getD " \t\n").toList

def searchPath : Act m String := do pure ((← valueOf? "PATH").getD "")

end Montage.Shell
