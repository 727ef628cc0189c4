import Montage.Shell.Variable

/-!
Contract: what the names of commands mean.

Owns: the search for a command, the programs that were found, and what is told about a name.

A name with a slash is a path. Any other name means a function, else a command of the interpreter, else
the first program of that name in the directories of the search path. Programs that were found are
remembered until the search path changes; once the working directory has changed they are looked for anew.
-/

set_option autoImplicit false

namespace Montage.Shell

variable {m : Type → Type} [Monad m] [Ground m]

/-- What the name of a command means. -/
inductive Meaning where
  | function (body : Command)
  | builtin
  | program (path : String)
  /-- Nothing, or something that cannot be run. -/
  | nothing (isForbidden : Bool)

def isBuiltin (name : String) : Bool := specialBuiltins.contains name || commonBuiltins.contains name

def usualPath : String := "/usr/local/sbin:/usr/local/bin:/usr/sbin:/usr/bin:/sbin:/bin"

def candidates (name path : String) : List String :=
  (path.splitOn ":").map fun directory => if directory.isEmpty then name else directory ++ "/" ++ name

/-- The path under which a program that lies in the working directory is run. -/
def runnable (path : String) : String := if path.toList.contains '/' then path else "./" ++ path

/-- The first of some paths that leads to a program, or else whether one leads to something that is none. -/
def firstProgram (isForbidden : Bool) : List String → Act m (Except Bool String)
  | [] => pure (.error isForbidden)
  | path :: rest => do
    match ← kindOf? path with
    | none => firstProgram isForbidden rest
    | some kind =>
      let isProgram ← ask (Ground.isProgram (← pathOf (runnable path)))
      if kind == .file && isProgram then pure (.ok path) else firstProgram true rest

def track (name path : String) : Act m Unit :=
  modify fun s =>
    let found : FoundProgram := { path, isOld := false }
    let isKnown := s.programs.any fun entry => entry.1 == name
    { s with
      programs :=
        if isKnown then s.programs.map fun entry => if entry.1 == name then (name, found) else entry
        else s.programs ++ [(name, found)] }

def forget (name : String) : Act m Unit :=
  modify fun s => { s with programs := s.programs.filter fun entry => entry.1 != name }

/-- Looks for a program; what is found on the search path may be remembered. -/
def findProgram (name : String) (otherPath : Option String) (isTracked : Bool) : Act m Meaning := do
  let programs := (← get).programs
  let known := if otherPath.isNone then programs.lookup name else none
  match known.filter fun found => !found.isOld with
  | some found => pure (.program found.path)
  | none =>
    let path ← otherPath.elim searchPath pure
    match ← firstProgram false (candidates name path) with
    | .ok found =>
      if isTracked && otherPath.isNone then track name found
      pure (.program found)
    | .error isForbidden =>
      if isTracked && otherPath.isNone then forget name
      pure (.nothing isForbidden)

def find (name : String) (seesFunctions : Bool) (otherPath : Option String) : Act m Meaning := do
  if name.toList.contains '/' then pure (.program name)
  else
    let function? := (← get).functions.lookup name
    match if seesFunctions then function? else none with
    | some body => pure (.function body)
    | none =>
      if isBuiltin name then pure .builtin else findProgram name otherPath function?.isNone

def defineFunction (name : String) (body : Command) : Act m Unit := do
  forget name
  modify fun s =>
    { s with functions := (name, body) :: s.functions.filter fun entry => entry.1 != name }

def notFoundText (name : String) (isForbidden : Bool) : String :=
  name ++ ": " ++ if isForbidden then "Permission denied" else "not found"

/-! ## Telling what names mean -/

def aliasLine (name value : String) : String := name ++ "=" ++ quote value ++ "\n"

/-- Tells what a name means, briefly or in words; the answer is the status. -/
def describe (name : String) (otherPath : Option String) (isWordy : Bool) : Act m Nat := do
  let tell (wordy brief : String) : Act m Nat := do
    putLine (if isWordy then name ++ wordy else brief)
    pure 0
  let tellProgram (path : String) (isTracked : Bool) : Act m Nat :=
    tell ((if isTracked then " is a tracked alias for " else " is ") ++ path) path
  let s ← get
  if keywords.contains name then tell " is a shell keyword" name
  else
    match s.aliases.lookup name with
    | some value =>
      if isWordy then putLine (name ++ " is an alias for " ++ value)
      else put ("alias " ++ aliasLine name value)
      pure 0
    | none =>
      match if otherPath.isNone then s.programs.lookup name else none with
      | some found => tellProgram found.path true
      | none =>
        let meaning ←
          if name.toList.contains '/' && (← kindOf? name).isNone then pure (.nothing false)
          else find name true otherPath
        match meaning with
        | .program path => tellProgram path false
        | .function _ => tell " is a shell function" name
        | .builtin =>
          let kind := if specialBuiltins.contains name then "special " else ""
          tell (" is a " ++ kind ++ "shell builtin") name
        | .nothing _ =>
          if isWordy then putLine (name ++ ": not found")
          pure 127

def describeAll : List String → Act m Nat
  | [] => pure 0
  | name :: rest => do
    let first ← describe name none true
    let others ← describeAll rest
    pure (first ||| others)

/-! ## Order of listings -/

def bucketOf (count : Nat) (name : String) : Nat :=
  match name.toList with
  | [] => 0
  | first :: rest =>
    let total := (first :: rest).foldl (fun total c => total + c.toNat) (first.toNat * 16)
    total % 0x8000 % count

def inListOrder {β : Type} (count : Nat) (entries : List (String × β)) : List (String × β) :=
  entries.mergeSort fun a b => decide (bucketOf count a.1 ≤ bucketOf count b.1)

end Montage.Shell
