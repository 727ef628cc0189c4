import Montage.Shell.Variable

/-!
Contract: the commands of the interpreter about what surrounds it.

Owns: the working directory, the rights of new files, the limits and the times.

The working directory is known by the way that led to it, so that a step up takes back a step down. Limits
are those of a usual system and cannot be changed.
-/

set_option autoImplicit false

namespace Montage.Shell.Builtin

variable {m : Type → Type} [Monad m] [Ground m]

/-! ## The working directory -/

def placeParts (path : String) : List String := (path.splitOn "/").filter fun part => !part.isEmpty

def stepFrom (parts : List String) (step : String) : List String :=
  if step == "." then parts
  else if step == ".." then parts.dropLast
  else parts ++ [step]

/-- What a path begins with if it begins at a root; two slashes are a root of their own. -/
def rootOf (path : String) : String :=
  if path.startsWith "///" then "/"
  else if path.startsWith "//" then "//"
  else if path.startsWith "/" then "/"
  else ""

def placeFrom (here path : String) : String :=
  let isAbsolute := path.startsWith "/"
  let start := if isAbsolute then [] else placeParts here
  let place :=
    rootOf (if isAbsolute then path else here)
      ++ "/".intercalate ((placeParts path).foldl stepFrom start)
  if place.isEmpty then "." else place

def here : Act m String := do
  match (← get).directory with
  | some directory => pure directory
  | none => do pure (Text.Octets.ofText ((← ask (Host.environment? "PWD")).getD ""))

def plainPlace (place : String) : String := if place.startsWith "//" then (place.drop 1).toString else place

def isAsItLies (options : List (Char × String)) : Bool :=
  (options.getLast?.map fun entry => entry.1) == some 'P'

/-- Goes to a directory; the answer is whether that was possible. -/
def goTo (path : String) (asItLies : Bool) : Act m Bool := do
  let before ← here
  let place := placeFrom before path
  if (← kindOf? (if asItLies then path else place)) != some .directory then pure false
  else
    let place := if asItLies then plainPlace place else place
    modify fun s => { s with directory := some place }
    change "OLDPWD" (some before) .exported true
    change "PWD" (some place) .exported true
    modify fun s =>
      { s with programs := s.programs.map fun (name, found) => (name, { found with isOld := true }) }
    pure true

/-- Whether a path says by its beginning where it is to be looked for. -/
def isAnchored (path : String) : Bool :=
  path.startsWith "/" || path == "." || path == ".." || path.startsWith "./" || path.startsWith "../"

def firstDirectory (name : String) : List String → Act m (Option (String × Bool))
  | [] => pure none
  | directory :: rest => do
    let path := if directory.isEmpty then name else directory ++ "/" ++ name
    if (← kindOf? path) == some .directory then pure (some (path, !directory.isEmpty))
    else firstDirectory name rest

def changeDirectory (arguments : List String) : Act m Nat := do
  let (options, words) ← optionsOf ['L', 'P'] [] arguments
  let isBack := words.head? == some "-"
  let wanted ←
    match words with
    | [] => valueOf? "HOME"
    | word :: _ => if isBack then valueOf? "OLDPWD" else pure (some word)
  let wanted := wanted.getD ""
  let name := if wanted.isEmpty then "." else wanted
  let places := ((← valueOf? "CDPATH").map fun text => text.splitOn ":").getD []
  let found ← if isAnchored wanted then pure none else firstDirectory name places
  let (path, isTold) := found.getD (name, false)
  if ← goTo path (isAsItLies options) then
    if isTold || isBack then putLine (← here)
    pure 0
  else fail ("can't cd to " ++ name)

def tellDirectory (arguments : List String) : Act m Nat := do
  let (options, _) ← optionsOf ['L', 'P'] [] arguments
  let place ← here
  if isAsItLies options then
    change "PWD" (some place) .exported true
    putLine (plainPlace place)
  else putLine place
  pure 0

/-! ## The rights of new files -/

def allRights : Nat := 0o777

def remaining (rights : Nat) : Nat := allRights ^^^ (rights &&& allRights)

def placesOf (letter : Char) : Nat :=
  match letter with
  | 'u' => 0o100
  | 'g' => 0o010
  | 'o' => 0o001
  | _ => 0o111

def rightsOf (before : Nat) (letter : Char) : Nat :=
  match letter with
  | 'r' => 4
  | 'w' => 2
  | 'x' => 1
  | 'u' => (before >>> 6) &&& 7
  | 'g' => (before >>> 3) &&& 7
  | 'o' => before &&& 7
  | 'X' => if before &&& 0o111 != 0 then 1 else 0
  | _ => 0

/-- Rights after one change, which sets them, adds to them or takes from them. -/
def changedRights (rights places given : Nat) (operator : Char) : Nat :=
  match operator with
  | '=' => (given * places) ||| (rights &&& remaining (places * 7))
  | '-' => rights &&& remaining (given * places)
  | _ => rights ||| (given * places)

def rightsAfter (before : Nat) : Nat → Nat → Nat → List Char → Option Nat
  | 0, _, _, _ => none
  | _, _, rights, [] => some rights
  | fuel + 1, places, rights, text =>
    let who := text.takeWhile ['a', 'u', 'g', 'o'].contains
    let places := (who.map placesOf).foldl (· ||| ·) places
    let places := if places = 0 then 0o111 else places
    match text.drop who.length with
    | [] => some rights
    | operator :: rest =>
      if !(['=', '+', '-'].contains operator) then none
      else
        let what := rest.takeWhile ['r', 'w', 'x', 'u', 'g', 'o', 'X', 's'].contains
        let given := (what.map (rightsOf before)).foldl (· ||| ·) 0
        let rights := changedRights rights places given operator
        match rest.drop what.length with
        | [] => some rights
        | ',' :: more => rightsAfter before fuel 0 rights more
        | c :: more =>
          if ['=', '+', '-'].contains c then rightsAfter before fuel places rights (c :: more) else none

def rightsText (rights : Nat) : String :=
  let one (name : String) (places : Nat) : String :=
    let letter (c : Char) (bit : Nat) : String := if rights &&& (bit * places) != 0 then c.toString else ""
    name ++ "=" ++ letter 'r' 4 ++ letter 'w' 2 ++ letter 'x' 1
  ",".intercalate [one "u" 0o100, one "g" 0o010, one "o" 0o001]

def fileMask (arguments : List String) : Act m Nat := do
  let (options, words) ← optionsOf ['S'] [] arguments
  let mask := (← get).mask
  match words with
  | [] =>
    if options.isEmpty then
      let digits := Nat.toDigits 8 mask
      putLine (String.ofList (List.replicate (4 - digits.length) '0' ++ digits))
    else putLine (rightsText (remaining mask))
  | text :: _ =>
    let isOctal := (text.toList.head?.map Char.isDigit).getD false
    if isOctal then
      if !text.toList.all fun c => '0' ≤ c && c ≤ '7' then fail ("Illegal number: " ++ text)
      modify fun s => { s with mask := Integer.ofDigits 8 text.toList &&& allRights }
    else
      let before := remaining mask
      match rightsAfter before (text.length + 1) 0 before text.toList with
      | some rights => modify fun s => { s with mask := remaining rights }
      | none => fail ("Illegal mode: " ++ text)
  pure 0

/-! ## Limits and times -/

/-- The limits by their letters, with their names and sizes; one without a size does not limit. -/
def limits : List (Char × String × Option Nat) :=
  [('t', "time(seconds)", none), ('f', "file(blocks)", none), ('d', "data(kbytes)", none),
   ('s', "stack(kbytes)", some 8192), ('c', "coredump(blocks)", some 0), ('m', "memory(kbytes)", none),
   ('l', "locked memory(kbytes)", some 8192), ('p', "process", some 128604),
   ('n', "nofiles", some 20000), ('v', "vmemory(kbytes)", none), ('w', "locks", none),
   ('r', "rtprio", some 0)]

def limitText (size : Option Nat) : String := (size.map toString).getD "unlimited"

def tellLimits (arguments : List String) : Act m Nat := do
  let (options, words) ← optionsOf (['H', 'S', 'a'] ++ limits.map (·.1)) [] arguments
  let letters := options.map (·.1)
  let tellsAll := letters.contains 'a'
  let letter := ((letters.filter fun c => !(['H', 'S', 'a'].contains c)).getLast?).getD 'f'
  match words with
  | text :: more =>
    if tellsAll || !more.isEmpty then fail "too many arguments"
    if text != "unlimited" && !text.toList.all Char.isDigit then fail "bad number"
  | [] =>
    if tellsAll then
      for (_, name, size) in limits do
        let gap := String.ofList (List.replicate (20 - name.length) ' ')
        putLine (name ++ gap ++ " " ++ limitText size)
    else putLine (limitText ((limits.lookup letter).bind (·.2)))
  pure 0

def tellTimes : Act m Nat := do
  putLine "0m0.000000s 0m0.000000s"
  putLine "0m0.000000s 0m0.000000s"
  pure 0

end Montage.Shell.Builtin
