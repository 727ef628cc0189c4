import Montage.Shell.Arithmetic
import Montage.Shell.Pattern
import Montage.Shell.Process
import Montage.Shell.Variable

/-!
Contract: the expansion of words.

Owns: the values of parameters, what parts of words stand for, and the names that patterns match.

Parts are expanded in order into pieces. A word of a command is then divided into fields, and each field
that is a pattern becomes the names it matches. Everywhere else a word is one text.
-/

set_option autoImplicit false

namespace Montage.Shell

variable {m : Type → Type} [Monad m] [Ground m]

/-! ## Parameters -/

def optionLetters : List (String × Option Char) :=
  [("errexit", some 'e'), ("noglob", some 'f'), ("ignoreeof", some 'I'), ("interactive", some 'i'),
   ("monitor", some 'm'), ("noexec", some 'n'), ("stdin", some 's'), ("xtrace", some 'x'),
   ("verbose", some 'v'), ("vi", some 'V'), ("emacs", some 'E'), ("noclobber", some 'C'),
   ("allexport", some 'a'), ("notify", some 'b'), ("nounset", some 'u'), ("privileged", some 'p'),
   ("nolog", none), ("debug", none)]

/-- What stands between operands that are put together, if anything does. -/
def operandSeparator (isQuoted isFull : Bool) (dividers : Option String) : Option Char :=
  match dividers with
  | none => some ' '
  | some text => if isQuoted || !isFull then text.toList.head? else some separatorChar

def parameter? (name : String) (isQuoted isFull : Bool) : Act m (Option (List Char)) := do
  let s ← get
  let number (n : Nat) : Option (List Char) := some (toString n).toList
  match name with
  | "$" => pure (number s.root)
  | "?" => pure (number s.status)
  | "#" => pure (number s.operands.length)
  | "!" => pure (s.background.bind number)
  | "-" =>
    let isOn (entry : String × Option Char) : Bool := s.options.contains entry.1
    pure (some ((optionLetters.filter isOn).filterMap (·.2)).reverse)
  | "@" | "*" =>
    let dividers ← valueOf? "IFS"
    let separator :=
      if name == "@" && isQuoted && isFull then some separatorChar
      else operandSeparator isQuoted isFull dividers
    pure (some (List.intercalate separator.toList (s.operands.map String.toList)))
  | "0" => pure (some s.name.toList)
  | _ =>
    if name.toList.all Char.isDigit then
      let n := Integer.ofDigits 10 name.toList
      pure (if n = 0 then some s.name.toList else s.operands[n - 1]?.map String.toList)
    else pure ((← valueOf? name).map String.toList)

/-- The pieces of characters, among which operands may be kept apart. -/
def piecesOf (text : List Char) (isQuoted : Bool) : List Piece :=
  text.map fun char => if char == separatorChar then .separator else .glyph { char, isQuoted }

/-! ## Home directories -/

def homes : List (String × String) :=
  [("root", "/root"), ("daemon", "/usr/sbin"), ("bin", "/bin"), ("sys", "/dev"), ("sync", "/bin"),
   ("games", "/usr/games"), ("man", "/var/cache/man"), ("lp", "/var/spool/lpd"),
   ("mail", "/var/mail"), ("news", "/var/spool/news"), ("uucp", "/var/spool/uucp"),
   ("proxy", "/bin"), ("www-data", "/var/www"), ("backup", "/var/backups"), ("list", "/var/list"),
   ("irc", "/run/ircd"), ("_apt", "/nonexistent"), ("nobody", "/nonexistent")]

/-- The home directory that a tilde stands for, and how many parts its user's name has. -/
def homeAfter? (colonsEnd : Bool) (rest : List Part) : Act m (Option (String × Nat)) := do
  let ends (part : Part) : Bool :=
    part.bare? == some '/' || (colonsEnd && part.bare? == some ':')
  let name := rest.takeWhile fun part => !ends part
  match Word.bare? name with
  | none => pure none
  | some user =>
    let home ← if user.isEmpty then valueOf? "HOME" else pure (homes.lookup user)
    pure (home.map fun home => (home, name.length))

/-! ## Parts -/

structure Mode where
  /-- Whether the result is divided into fields. -/
  isFull : Bool
  /-- Whether characters divide also where they stand as such, as they do in the word of a parameter. -/
  isOpen : Bool
  /-- Whether a tilde has its meaning behind colons as well. -/
  colonTildes : Bool

def Mode.single : Mode := { isFull := false, isOpen := false, colonTildes := false }

/-- Where the expansion of parts stands. -/
structure Spot where
  /-- Whether a region of characters has begun. -/
  isInRegion : Bool
  /-- Whether a tilde has its meaning here. -/
  seesTilde : Bool
  /-- How many parts have been replaced already. -/
  replaced : Nat

def Spot.start (seesTilde : Bool) : Spot := { isInRegion := false, seesTilde, replaced := 0 }

def missingText (unlessEmpty : Bool) : String :=
  if unlessEmpty then "parameter not set or null" else "parameter not set"

def expressionCells : Arithmetic.Cells (Act m) where
  read name := do
    let text := (← valueOf? name).getD ""
    match Integer.ofText? text with
    | some n => pure n
    | none => fail ("Illegal number: " ++ text)
  write name n := assignText name (toString n)

def computed (expression : String) : Act m String := do
  match ← Arithmetic.value expressionCells expression.toList with
  | .ok n => pure (toString n)
  | .error .beyondBounds => throw (.gone (.killed Signal.beyondBounds))
  | .error e => fail ("arithmetic expression: " ++ e.message ++ ": \"" ++ expression ++ "\"")

def outputOf (run : Runner m) (command : Option Command) : Act m String := do
  match command with
  | none => pure ""
  | some command =>
    let (written, status) ←
      capturing run do
        let _ ← run false command
    modify fun s => { s with substituted := status }
    let kept := (written.filter (· != '\x00')).reverse.dropWhile (· == '\n')
    pure (String.ofList kept.reverse)

/-- Complains about a parameter without a value if that is not allowed. -/
def checkSet (name : String) (value : Option (List Char)) : Act m Unit := do
  if value.isNone && (← hasOption "nounset") then fail (name ++ ": parameter not set")

mutual

def expandParts (run : Runner m) (mode : Mode) (spot : Spot) : List Part → Act m (List Piece)
  | [] => pure (if spot.isInRegion then [.regionEnd] else [])
  | part :: rest => do
    if 0 < spot.replaced then expandParts run mode { spot with replaced := spot.replaced - 1 } rest
    else
      let home ←
        if spot.seesTilde && part.bare? == some '~' then homeAfter? mode.colonTildes rest
        else pure none
      match home with
      | some (home, length) =>
        let others ← expandParts run mode { Spot.start false with replaced := length } rest
        pure (Piece.ofText home true ++ others)
      | none =>
        match part.bare? with
        | some char =>
          let seesTilde := mode.colonTildes && char == ':'
          let isInRegion := mode.isOpen
          let before := if isInRegion && !spot.isInRegion then [Piece.regionStart false] else []
          let others ← expandParts run mode { isInRegion, seesTilde, replaced := 0 } rest
          pure (before ++ .glyph { char, isQuoted := false } :: others)
        | none =>
          let before := if spot.isInRegion then [Piece.regionEnd] else []
          let first ← expandPart run mode part
          let others ← expandParts run mode (.start false) rest
          pure (before ++ first ++ others)

def expandPart (run : Runner m) (mode : Mode) : Part → Act m (List Piece)
  | .character char isQuoted => pure [.glyph { char, isQuoted }]
  | .quotes => pure [.mark]
  | .output command isQuoted => do
    pure (Piece.region isQuoted (Piece.ofText (← outputOf run command) isQuoted))
  | .arithmetic expression isQuoted => do
    let text := Piece.text (← expandParts run .single (.start false) expression)
    pure (Piece.region isQuoted (Piece.ofText (← computed text) isQuoted))
  | .parameter name treatment word isQuoted => do
    if treatment == .unknown then fail "Bad substitution"
    let value ← parameter? name isQuoted mode.isFull
    let hasOperands := !(← get).operands.isEmpty
    let isMissing (unlessEmpty : Bool) : Bool := value.isNone || (unlessEmpty && value == some [])
    let wrapped (text : List Char) : List Piece :=
      let pieces := piecesOf text isQuoted
      if isQuoted && name == "@" && hasOperands then
        .regionStart true :: pieces ++ [.regionEnd]
      else Piece.region isQuoted pieces
    let given : List Piece := wrapped (value.getD [])
    let open_ : Mode := { mode with isOpen := true }
    match treatment with
    | .unknown | .value => do
      checkSet name value
      pure given
    | .size => do
      checkSet name value
      pure (wrapped (toString (value.getD []).length).toList)
    | .otherwise unlessEmpty =>
      if isMissing unlessEmpty then expandParts run open_ (.start true) word else pure given
    | .replacing unlessEmpty =>
      if isMissing unlessEmpty then pure (Piece.region isQuoted [])
      else expandParts run open_ (.start true) word
    | .assigning unlessEmpty =>
      if isMissing unlessEmpty then do
        let text := Piece.text (← expandParts run .single (.start true) word)
        assignText name text
        let value ← parameter? name isQuoted mode.isFull
        pure (wrapped (value.getD []))
      else pure given
    | .required unlessEmpty =>
      if isMissing unlessEmpty then do
        let text := Piece.text (← expandParts run .single (.start true) word)
        fail (name ++ ": " ++ if word.isEmpty then missingText unlessEmpty else text)
      else pure given
    | .withoutStart longest => do
      checkSet name value
      match value with
      | none => pure []
      | some text =>
        let pattern := Piece.glyphs (← expandParts run .single (.start true) word)
        pure (wrapped (withoutStart pattern longest text))
    | .withoutEnd longest => do
      checkSet name value
      match value with
      | none => pure []
      | some text =>
        let pattern := Piece.glyphs (← expandParts run .single (.start true) word)
        pure (wrapped (withoutEnd pattern longest text))

end

/-! ## Names that patterns match -/

def isPattern : List Glyph → Bool
  | [] => false
  | g :: rest =>
    if g.isQuoted then isPattern rest
    else if g.char == '*' || g.char == '?' then true
    else if g.char == '[' then
      let members := if rest.head? == some ⟨'!', false⟩ then rest.drop 1 else rest
      (members.drop 1).contains ⟨']', false⟩ || isPattern rest
    else isPattern rest

def cutAtSlashes : List Glyph → List (List Glyph)
  | [] => [[]]
  | g :: rest =>
    if g.char == '/' then [] :: cutAtSlashes rest
    else
      match cutAtSlashes rest with
      | first :: others => (g :: first) :: others
      | [] => [[g]]

def matchingNames (directory : String) (pattern : List Glyph) : Act m (List String) := do
  let path ← pathOf (if directory.isEmpty then "." else directory)
  match ← ask (Ground.names path) with
  | .error _ => pure []
  | .ok names =>
    let asksForHidden := (pattern.head?.map (·.char)) == some '.'
    let isWanted (name : String) : Bool :=
      (asksForHidden || !name.startsWith ".") && isMatch pattern name.toList
    pure (("." :: ".." :: names.map Text.Octets.ofText).filter isWanted)

/-- The paths below a directory that a pattern matches, given in parts between slashes: those before the
first one that is a pattern have to be there as they are. -/
def matchingPaths (directory : String) : List (List Glyph) → List (List Glyph) → Act m (List String)
  | before, [] => do
    if directory.isEmpty then pure []
    else
      let path := directory ++ "/".intercalate (before.reverse.map glyphText)
      pure (if (← kindOf? path).isSome then [path] else [])
  | before, part :: rest => do
    if isPattern part then
      let place := directory ++ String.join (before.reverse.map fun part => glyphText part ++ "/")
      let names ← matchingNames place part
      if rest.isEmpty then pure (names.map (place ++ ·))
      else
        let found ← names.mapM fun name => matchingPaths (place ++ name ++ "/") [] rest
        pure found.flatten
    else matchingPaths directory (part :: before) rest
  termination_by _ parts => parts.length

def fieldWords (field : List Glyph) : Act m (List String) := do
  let found ←
    if ← hasOption "noglob" then pure []
    else matchingPaths "" [] (cutAtSlashes (protect field))
  pure
    (if found.isEmpty then [glyphText field]
     else found.mergeSort fun a b => !(decide (b < a)))

/-! ## Words -/

def expandWord (run : Runner m) (word : Word) : Act m (List String) := do
  let mode : Mode := { isFull := true, isOpen := false, colonTildes := false }
  let pieces ← expandParts run mode (.start true) word
  pure (← (fields (← dividers) none pieces).mapM fieldWords).flatten

def expandWords (run : Runner m) (words : List Word) : Act m (List String) := do
  pure (← words.mapM (expandWord run)).flatten

def expandText (run : Runner m) (word : Word) : Act m String := do
  pure (Piece.text (← expandParts run .single (.start true) word))

def expandValue (run : Runner m) (word : Word) : Act m String := do
  let mode : Mode := { Mode.single with colonTildes := true }
  pure (Piece.text (← expandParts run mode (.start true) word))

def expandPattern (run : Runner m) (word : Word) : Act m (List Glyph) := do
  pure (Piece.glyphs (← expandParts run .single (.start true) word))

def expandPlain (run : Runner m) (word : Word) : Act m String := do
  pure (Piece.text (← expandParts run .single (.start false) word))

def expandArgument (run : Runner m) (keepsAssignments : Bool) (word : Word) : Act m (List String) := do
  match if keepsAssignments then Reading.assignment? word else none with
  | some (name, value) => pure [name ++ "=" ++ (← expandValue run value)]
  | none => expandWord run word

end Montage.Shell
