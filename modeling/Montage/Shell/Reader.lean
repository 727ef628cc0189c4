import Montage.Shell.Syntax

/-!
Contract: commands from text.

Owns: the tokens of the language, its grammar, and the faults a text can have.

A text is read line by line, so that a fault in one line comes to light after the lines before it were
carried out. What a token is depends on where it stands: a keyword is one only where a command can begin,
and a line end is one only where a command can end. A token that was read too far is given back.

Where a command can begin, a word may be an alias, and what it stands for is read in its place. The texts
that a line announces follow its end; they get numbers, under which they are found later.
-/

set_option autoImplicit false

namespace Montage.Shell

/-- Why a text cannot be read, and in which line. -/
structure Fault where
  line : Nat
  message : String
  deriving DecidableEq, Repr

/-- The signs that begin a redirection. -/
inductive Sign where
  | opening (how : Opening)
  | copying
  | text (stripsTabs : Bool)
  deriving DecidableEq, Repr

inductive Token where
  | endOfText
  | endOfLine
  /-- An operator or a keyword. -/
  | symbol (text : String)
  | redirection (stream : Nat) (sign : Sign)
  | word (w : Word)

namespace Token

def name : Token → String
  | .endOfText => "end of file"
  | .endOfLine => "newline"
  | .symbol text => "\"" ++ text ++ "\""
  | .redirection _ _ => "redirection"
  | .word _ => "word"

def isSymbol (t : Token) (text : String) : Bool :=
  match t with
  | .symbol s => s == text
  | _ => false

def closers : List String :=
  [")", ";;", "do", "done", "elif", "else", "esac", "fi", "then", "\x7d"]

def isCloser : Token → Bool
  | .symbol text => closers.contains text
  | _ => false

def asKeyword (t : Token) : Token :=
  match t with
  | .word w =>
    match w.bare? with
    | some text => if keywords.contains text then .symbol text else t
    | none => t
  | _ => t

end Token

/-- An alias in the value of which the reading goes on. -/
structure Replaced where
  name : String
  /-- How many characters are left when the value has been read. -/
  left : Nat
  /-- Whether the word after the value may be an alias as well. -/
  endsBlank : Bool

/-- A text that a line has announced. -/
structure Announced where
  number : Nat
  /-- The line that ends the text. -/
  final : List Char
  /-- Whether tabs at the beginning of a line are passed over. -/
  stripsTabs : Bool
  /-- Whether nothing in the text has a meaning. -/
  isPlain : Bool

structure Source where
  rest : List Char
  line : Nat
  /-- A token that was given back. -/
  givenBack : Option Token
  /-- The token that was read last. -/
  last : Token
  aliases : List (String × String)
  /-- The aliases that are being read, and those that are around a text of its own. -/
  replaced : List Replaced
  around : List String
  texts : Texts
  /-- The texts that follow the line at hand. -/
  announced : List Announced
  /-- Whether the text that follows a line is over. -/
  isOver : Bool

def Source.ofChars (text : List Char) (aliases : List (String × String)) (texts : Texts) : Source :=
  { rest := text, line := 1, givenBack := none, last := .endOfLine, aliases, replaced := []
    around := [], texts, announced := [], isOver := false }

def Source.inUse (s : Source) : List String :=
  (s.replaced.filter fun r => r.left ≤ s.rest.length).map (·.name) ++ s.around

abbrev Reading (β : Type) := StateT Source (Except Fault) β

namespace Reading

def fault {β : Type} (message : String) : Reading β := do
  throw { line := (← get).line, message := "Syntax error: " ++ message }

def unexpected {β : Type} (expected : Option String) : Reading β := do
  let wish :=
    match expected with
    | some name => " (expecting " ++ name ++ ")"
    | none => ""
  fault ((← get).last.name ++ " unexpected" ++ wish)

/-! ## Characters -/

/-- A text without the line ends at its beginning that a backslash takes away, and its line. -/
def joinLines : List Char → Nat → List Char × Nat
  | '\\' :: '\n' :: rest, line => joinLines rest (line + 1)
  | rest, line => (rest, line)

def next : Reading (Option Char) := do
  let s ← get
  if s.isOver then pure none
  else
    let (rest, line) := joinLines s.rest s.line
    set { s with rest, line }
    pure rest.head?

def take : Reading (Option Char) := do
  let s ← get
  match s.rest with
  | [] => pure none
  | c :: rest =>
    if s.isOver then pure none
    else
      set { s with rest, line := if c == '\n' then s.line + 1 else s.line }
      pure (some c)

def accept (c : Char) : Reading Bool := do
  if (← next) == some c then
    let _ ← take
    pure true
  else pure false

def takeAll (fuel : Nat) (isWanted : Char → Bool) : Reading (List Char) :=
  match fuel with
  | 0 => pure []
  | fuel + 1 => do
    match ← next with
    | some c =>
      if isWanted c then
        let _ ← take
        pure (c :: (← takeAll fuel isWanted))
      else pure []
    | none => pure []

def blanks : List Char → Nat → List Char × Nat
  | ' ' :: rest, line => blanks rest line
  | '\t' :: rest, line => blanks rest line
  | '\\' :: '\n' :: rest, line => blanks rest (line + 1)
  | '#' :: rest, line => (rest.dropWhile (· != '\n'), line)
  | rest, line => (rest, line)

def endsWord (c : Char) : Bool :=
  [' ', '\t', '\n', '<', '>', '(', ')', ';', '&', '|'].contains c

def beginLine (text : Announced) : Reading Unit :=
  modify fun s =>
    let (rest, line) := if text.isPlain then (s.rest, s.line) else joinLines s.rest s.line
    let rest := if text.stripsTabs then rest.dropWhile (· == '\t') else rest
    let after := rest.drop text.final.length
    if text.final.isPrefixOf rest && (after.isEmpty || after.head? == some '\n') then
      { s with rest := after.drop 1, line := line + 1, isOver := true }
    else { s with rest, line }

/-! ## Words -/

/-- Where the characters of a word stand. -/
inductive Place where
  | bare
  /-- In a text that follows a line. -/
  | text
  | quotes (isInBraces : Bool)
  | braces (isQuoted : Bool)
  | arithmetic (depth : Nat)
  deriving DecidableEq, Repr

namespace Place

def isQuoted : Place → Bool
  | .bare => false
  | .text => true
  | .quotes _ => true
  | .braces isQuoted => isQuoted
  | .arithmetic _ => true

def isInBraces : Place → Bool
  | .quotes isInBraces => isInBraces
  | .braces _ => true
  | _ => false

/-- What is said of a text that ends too early; it may be one that follows a line. -/
def endMessage (isAnnounced : Bool) : Place → Option String
  | .bare => none
  | .text => none
  | .arithmetic _ => some "Missing '))'"
  | place =>
    if isAnnounced || place == .braces false then some "Missing '\x7d'"
    else some "Unterminated quoted string"

def escapes (place : Place) (c : Char) : Bool :=
  !place.isQuoted || ['\\', '$', '\x60'].contains c || (c == '"' && place != .text)
    || (c == '\x7d' && place.isInBraces)

end Place

def singleQuoted (fuel : Nat) : Reading Word :=
  match fuel with
  | 0 => fault "Unterminated quoted string"
  | fuel + 1 => do
    match ← take with
    | none => fault "Unterminated quoted string"
    | some '\'' => pure []
    | some c => pure (.character c true :: (← singleQuoted fuel))

def escaped (place : Place) : Reading Word := do
  match ← take with
  | none => pure [.character '\\' true]
  | some c =>
    if place.escapes c then pure [.character c true]
    else pure [.character '\\' true, .character c true]

def backQuoted (fuel : Nat) (isQuoted : Bool) : Reading (List Char) :=
  match fuel with
  | 0 => fault "EOF in backquote substitution"
  | fuel + 1 => do
    let _ ← next
    match ← take with
    | none => fault "EOF in backquote substitution"
    | some '\x60' => pure []
    | some '\\' =>
      match ← take with
      | none => fault "EOF in backquote substitution"
      | some c =>
        let isProtected := ['\\', '\x60', '$'].contains c || (isQuoted && c == '"')
        let read := if isProtected then [c] else ['\\', c]
        pure (read ++ (← backQuoted fuel isQuoted))
    | some c => pure (c :: (← backQuoted fuel isQuoted))

def isSpecialName (c : Char) : Bool :=
  ['#', '?', '$', '!', '-', '*', '@'].contains c || c.isDigit

/-- The name of a parameter between braces, whether its size is asked for, and whether it is a name. -/
def bracedName (fuel : Nat) : Reading (String × Bool × Bool) := do
  let plain : Reading (Option String) := do
    match ← next with
    | some c =>
      if beginsName c then pure (some (String.ofList (← takeAll fuel isInName)))
      else if c.isDigit then pure (some (String.ofList (← takeAll fuel Char.isDigit)))
      else pure none
    | none => pure none
  match ← plain with
  | some name => pure (name, false, true)
  | none =>
    match ← next with
    | none => pure ("", false, false)
    | some '\x7d' => pure ("", false, false)
    | some first =>
      let _ ← take
      if first != '#' then pure (first.toString, false, isSpecialName first)
      else
        match ← plain with
        | some name => pure (name, true, (← next) == some '\x7d')
        | none =>
          let before ← get
          match ← take with
          | some second =>
            if second != '\x7d' && (← next) == some '\x7d' then
              pure (second.toString, true, isSpecialName second)
            else
              set before
              pure ("#", false, true)
          | none => pure ("#", false, true)

/-- The treatment that follows the name of a parameter, and whether a word follows it. -/
def treatment : Reading (Treatment × Bool) := do
  let unlessEmpty ← accept ':'
  let c ← next
  let plain ← get
  set { plain with rest := plain.rest.drop 1 }
  match c with
  | some '\x7d' => pure (.value, unlessEmpty)
  | some '-' => pure (.otherwise unlessEmpty, true)
  | some '+' => pure (.replacing unlessEmpty, true)
  | some '?' => pure (.required unlessEmpty, true)
  | some '=' => pure (.assigning unlessEmpty, true)
  | some '#' =>
    if unlessEmpty then pure (.unknown, true) else pure (.withoutStart (← accept '#'), true)
  | some '%' =>
    if unlessEmpty then pure (.unknown, true) else pure (.withoutEnd (← accept '%'), true)
  | _ => pure (.unknown, true)

def Place.ofTreatment (place : Place) : Treatment → Place
  | .withoutStart _ => .braces false
  | .withoutEnd _ => .braces false
  | _ => .braces place.isQuoted

/-! ## Tokens -/

/-- What is looked for in the next token. -/
structure Aim where
  /-- Whether line ends are passed over. -/
  passesLines : Bool := false
  /-- Whether keywords have their meaning. -/
  seesKeywords : Bool := false
  /-- Whether aliases have their meaning. -/
  seesAliases : Bool := false
  /-- Whether a word is the one that ends a text. -/
  endsText : Bool := false

def Aim.command : Aim := { passesLines := true, seesKeywords := true, seesAliases := true }

def Aim.branch : Aim := { passesLines := true, seesKeywords := true }

def Aim.behind : Aim := { seesKeywords := true, seesAliases := true }

structure Manner where
  /-- The text in which they stand, if it follows a line. -/
  text : Option Announced
  /-- Whether the word is one that ends a text, in which expansions have no meaning. -/
  isFinal : Bool

def Manner.usual : Manner := { text := none, isFinal := false }

def sign (isInput : Bool) : Reading Sign := do
  if isInput then
    if ← accept '<' then pure (.text (← accept '-'))
    else if ← accept '&' then pure .copying
    else if ← accept '>' then pure (.opening .both)
    else pure (.opening .reading)
  else if ← accept '>' then pure (.opening .appending)
  else if ← accept '|' then pure (.opening .overwriting)
  else if ← accept '&' then pure .copying
  else pure (.opening .writing)

/-- The number of a stream before a redirection, if it is nothing but that. -/
def streamOf? (isInput : Bool) : Word → Option Nat
  | [] => some (if isInput then 0 else 1)
  | [.character c false] => if c.isDigit then some (c.toNat - '0'.toNat) else none
  | _ => none

def giveBack (t : Token) : Reading Unit :=
  modify fun s => { s with givenBack := some t, last := t }

/-- Which commands a list holds: those of a line, those between keywords, or those of a substitution,
which may be none. -/
inductive Extent where
  | line
  | body
  | substitution
  deriving DecidableEq, Repr

def after (before : Option Command) (c : Command) : Command :=
  match before with
  | some first => .sequence first c
  | none => c

def redirecting (line : Nat) (c : Command) (redirections : List Redirection) : Command :=
  match c, redirections with
  | _, [] => c
  | .separate line body _, _ => .separate line body redirections
  | _, _ => .redirected line c redirections

/-- A command in the background; with the redirections of a whole one it keeps them. -/
def inBackground : Command → Command
  | .redirected line body redirections => .background line body redirections
  | c => .background 0 c []

def announce (final : Word) (stripsTabs : Bool) : Reading Nat := do
  let s ← get
  let number := s.texts.issued
  let text : Announced :=
    { number, final := final.filterMap Part.character?, stripsTabs
      isPlain := final.any fun part => part.bare?.isNone }
  set
    { s with
      texts := { s.texts with issued := number + 1 }
      announced := s.announced ++ [text] }
  pure number

def aliasFor? (s : Source) : Token → Option (String × String)
  | .word w => do
    let name ← w.bare?
    let value ← s.aliases.lookup name
    if s.inUse.contains name then none else some (name, value)
  | _ => none

def readAlias (name value : String) : Reading Unit :=
  modify fun s =>
    if value.isEmpty then s
    else
      let text := value.toList
      let last := text.getLast?.getD 'x'
      let alias_ : Replaced :=
        { name, left := s.rest.length, endsBlank := last == ' ' || last == '\t' }
      { s with rest := text ++ s.rest, replaced := alias_ :: s.replaced }

def assignment? (w : Word) : Option (String × Word) :=
  let name := (w.takeWhile fun part => (part.bare?.map isInName).getD false)
  match Word.bare? name, w.drop name.length with
  | some text, .character '=' false :: value => if isName text then some (text, value) else none
  | _, _ => none

mutual

def parts : Nat → Manner → Place → Reading Word
  | 0, _, _ => fault "Unterminated quoted string"
  | fuel + 1, manner, place => do
    match ← next with
    | none =>
      match place.endMessage manner.text.isSome with
      | none => pure []
      | some message => fault message
    | some c =>
      if place == .bare && endsWord c then pure []
      else
        let _ ← take
        match place, c with
        | _, '\\' =>
          let read ← escaped place
          pure (read ++ (← parts fuel manner place))
        | _, '$' =>
          if manner.isFinal then pure (.character c false :: (← parts fuel manner place))
          else
            let read ← dollar fuel manner place
            pure (read ++ (← parts fuel manner place))
        | _, '\x60' =>
          if manner.isFinal then pure (.character c true :: (← parts fuel manner place))
          else
            let text ← backQuoted fuel place.isQuoted
            let command ← inner fuel text
            pure (.output command place.isQuoted :: (← parts fuel manner place))
        | .quotes _, '"' => pure []
        | .text, '"' => pure (.character c true :: (← parts fuel manner place))
        | .arithmetic _, '"' => pure (.character c true :: (← parts fuel manner place))
        | _, '"' =>
          let read ← parts fuel manner (.quotes place.isInBraces)
          let read :=
            match read with
            | [.parameter "@" .value _ _] => read
            | _ => .quotes :: read
          pure (read ++ (← parts fuel manner place))
        | .bare, '\'' | .braces false, '\'' =>
          let read ← singleQuoted fuel
          pure (.quotes :: read ++ (← parts fuel manner place))
        | .braces _, '\x7d' => pure []
        | .arithmetic depth, '(' =>
          pure (.character c true :: (← parts fuel manner (.arithmetic (depth + 1))))
        | .arithmetic 0, ')' =>
          if ← accept ')' then pure []
          else pure (.character c true :: (← parts fuel manner place))
        | .arithmetic (depth + 1), ')' =>
          pure (.character c true :: (← parts fuel manner (.arithmetic depth)))
        | _, '\n' =>
          match manner.text with
          | some text => beginLine text
          | none => pure ()
          pure (.character c place.isQuoted :: (← parts fuel manner place))
        | _, _ => pure (.character c place.isQuoted :: (← parts fuel manner place))

def dollar : Nat → Manner → Place → Reading Word
  | 0, _, _ => fault "Unterminated quoted string"
  | fuel + 1, manner, place => do
    let plain (text : String) : Word := [.parameter text .value [] place.isQuoted]
    match ← next with
    | some '(' =>
      let _ ← take
      if ← accept '(' then
        pure [.arithmetic (← parts fuel manner (.arithmetic 0)) place.isQuoted]
      else
        let announced := (← get).announced
        modify fun s => { s with announced := [] }
        let command ← list fuel .substitution none true
        let t ← token fuel {}
        if t.isSymbol ")" then
          modify fun s => { s with announced }
          pure [.output command place.isQuoted]
        else unexpected (some "\")\"")
    | some '\x7b' =>
      let _ ← take
      let (name, isSize, isKnown) ← bracedName fuel
      let (use, hasWord) ←
        if isSize || !isKnown then pure (if isKnown then Treatment.size else .unknown, true)
        else treatment
      if hasWord then
        let word ← parts fuel manner (place.ofTreatment use)
        pure [.parameter name use word place.isQuoted]
      else pure (plain name)
    | some c =>
      if beginsName c then pure (plain (String.ofList (← takeAll fuel isInName)))
      else if isSpecialName c then
        let _ ← take
        pure (plain c.toString)
      else pure [.character '$' place.isQuoted]
    | none => pure [.character '$' place.isQuoted]

/-- The commands of a text of its own. What follows them is passed over. -/
def inner : Nat → List Char → Reading (Option Command)
  | 0, _ => fault "EOF in backquote substitution"
  | fuel + 1, text => do
    let s ← get
    set { Source.ofChars text s.aliases s.texts with around := s.inUse }
    let command ← list fuel .substitution none true
    let texts := (← get).texts
    set { s with texts }
    pure command

def plainText : Nat → Announced → Reading Word
  | 0, _ => pure []
  | fuel + 1, text => do
    match ← take with
    | none => pure []
    | some c =>
      if c == '\n' then beginLine text
      pure (.character c true :: (← plainText fuel text))

def readTexts : Nat → List Announced → Reading Unit
  | 0, _ => pure ()
  | _, [] => pure ()
  | fuel + 1, text :: rest => do
    beginLine text
    let read ←
      if text.isPlain then plainText fuel text
      else parts fuel { text := some text, isFinal := false } .text
    modify fun s =>
      { s with
        isOver := false
        texts := { s.texts with contents := (text.number, read) :: s.texts.contents } }
    readTexts fuel rest

def readAnnounced : Nat → Reading Unit
  | 0 => pure ()
  | fuel + 1 => do
    let announced := (← get).announced
    modify fun s => { s with announced := [] }
    readTexts fuel announced

/-- A token that was not read before; the word may be one that ends a text. -/
def freshToken : Nat → Bool → Reading Token
  | 0, _ => pure .endOfText
  | fuel + 1, isFinal => do
    modify fun s =>
      let (rest, line) := blanks s.rest s.line
      { s with rest, line }
    let double (c : Char) : Reading Token := do
      let _ ← take
      let text := if ← accept c then c.toString ++ c.toString else c.toString
      pure (.symbol text)
    match ← next with
    | none => pure .endOfText
    | some '\n' =>
      let _ ← take
      pure .endOfLine
    | some '&' => double '&'
    | some '|' => double '|'
    | some ';' => double ';'
    | some '(' =>
      let _ ← take
      pure (.symbol "(")
    | some ')' =>
      let _ ← take
      pure (.symbol ")")
    | some _ =>
      let word ← parts fuel { text := none, isFinal } .bare
      let mark ← next
      let isInput := mark == some '<'
      match if isInput || mark == some '>' then streamOf? isInput word else none with
      | some stream =>
        let _ ← take
        pure (.redirection stream (← sign isInput))
      | none => pure (.word word)

def afterLines : Nat → Token → Reading Token
  | fuel + 1, .endOfLine => do
    readAnnounced fuel
    afterLines fuel (← freshToken fuel false)
  | _, t => pure t

def token : Nat → Aim → Reading Token
  | 0, _ => pure .endOfText
  | fuel + 1, aim => do
    let t ←
      match (← get).givenBack with
      | some t =>
        modify fun s => { s with givenBack := none }
        pure t
      | none => freshToken fuel aim.endsText
    let t ← if aim.passesLines then afterLines fuel t else pure t
    let s ← get
    let length := if s.replaced.isEmpty then 0 else s.rest.length
    let (passed, replaced) := s.replaced.partition fun r => length < r.left
    set { s with replaced }
    let aim := { aim with seesAliases := aim.seesAliases || passed.any (·.endsBlank) }
    let t := if aim.seesKeywords then t.asKeyword else t
    match if aim.seesAliases then aliasFor? { s with replaced } t else none with
    | some (name, value) =>
      readAlias name value
      token fuel aim
    | none =>
      modify fun s => { s with last := t }
      pure t

/-- Commands one after the other, given those that were read; a list that may be empty can end at once. -/
def list : Nat → Extent → Option Command → Bool → Reading (Option Command)
  | 0, _, _, _ => fault "end of file unexpected"
  | fuel + 1, extent, before, canEnd => do
    let t ← token fuel { Aim.command with passesLines := extent != .line }
    match t with
    | .endOfLine =>
      readAnnounced fuel
      pure before
    | .endOfText =>
      readAnnounced fuel
      giveBack t
      pure before
    | t =>
      giveBack t
      if canEnd && t.isCloser then pure before
      else
        let command ← andOr fuel
        let t ← token fuel {}
        let command := if t.isSymbol "&" then inBackground command else command
        let all := some (after before command)
        match t with
        | .endOfText =>
          readAnnounced fuel
          giveBack t
          pure all
        | .endOfLine =>
          giveBack t
          list fuel extent all (extent != .line)
        | t =>
          if t.isSymbol "&" || t.isSymbol ";" then list fuel extent all (extent != .line)
          else if extent == .line then unexpected none
          else
            giveBack t
            pure all

def body : Nat → Reading (Option Command)
  | 0 => fault "end of file unexpected"
  | fuel + 1 => list fuel .body none false

def expect : Nat → Aim → String → Reading Unit
  | 0, _, _ => fault "end of file unexpected"
  | fuel + 1, aim, text => do
    let t ← token fuel aim
    if t.isSymbol text then pure () else unexpected (some ("\"" ++ text ++ "\""))

/-- Pipelines of which one decides whether the next is carried out. -/
def andOr : Nat → Reading Command
  | 0 => fault "end of file unexpected"
  | fuel + 1 => do andOrAfter fuel (← pipeline fuel {})

def andOrAfter : Nat → Command → Reading Command
  | 0, first => pure first
  | fuel + 1, first => do
    let t ← token fuel {}
    if t.isSymbol "&&" then andOrAfter fuel (.both first (← pipeline fuel .command))
    else if t.isSymbol "||" then andOrAfter fuel (.either first (← pipeline fuel .command))
    else
      giveBack t
      pure first

def pipeline : Nat → Aim → Reading Command
  | 0, _ => fault "end of file unexpected"
  | fuel + 1, aim => do
    let t ← token fuel aim
    let isNegated := t.isSymbol "!"
    if !isNegated then giveBack t
    let first ← command fuel { seesKeywords := isNegated, seesAliases := isNegated }
    let others ← stages fuel
    let all := if others.isEmpty then first else .pipeline (first :: others)
    pure (if isNegated then .negated all else all)

def stages : Nat → Reading (List Command)
  | 0 => pure []
  | fuel + 1 => do
    let t ← token fuel {}
    if t.isSymbol "|" then
      let next ← command fuel .command
      pure (next :: (← stages fuel))
    else
      giveBack t
      pure []

def command : Nat → Aim → Reading Command
  | 0, _ => fault "end of file unexpected"
  | fuel + 1, aim => do
    let line := (← get).line
    let t ← token fuel aim
    match t with
    | .word _ | .redirection _ _ =>
      giveBack t
      simple fuel (← get).line [] [] []
    | .symbol "if" => compound fuel line (← conditional fuel) "fi"
    | .symbol "while" => compound fuel line (← loop fuel true) "done"
    | .symbol "until" => compound fuel line (← loop fuel false) "done"
    | .symbol "for" => compound fuel line (← forEach fuel line) "done"
    | .symbol "case" =>
      let all ← select fuel line
      pure (redirecting line all (← redirections fuel .behind))
    | .symbol "(" => compound fuel line (.separate line (← body fuel) []) ")"
    | .symbol "\x7b" =>
      let all ← body fuel
      compound fuel line (.conditional none all none) "\x7d"
    | _ => unexpected none

def compound : Nat → Nat → Command → String → Reading Command
  | 0, _, _, _ => fault "end of file unexpected"
  | fuel + 1, line, all, closer => do
    expect fuel {} closer
    pure (redirecting line all (← redirections fuel .behind))

def redirections : Nat → Aim → Reading (List Redirection)
  | 0, _ => pure []
  | fuel + 1, aim => do
    let t ← token fuel aim
    match t with
    | .redirection stream sign =>
      let first ← redirection fuel stream sign
      pure (first :: (← redirections fuel {}))
    | t =>
      giveBack t
      pure []

def redirection : Nat → Nat → Sign → Reading Redirection
  | 0, _, _ => fault "end of file unexpected"
  | fuel + 1, stream, sign => do
    let endsText :=
      match sign with
      | .text _ => true
      | _ => false
    match ← token fuel { endsText } with
    | .word w =>
      match sign with
      | .opening how => pure (.file stream how w)
      | .copying => pure (.copy stream w)
      | .text stripsTabs => pure (.text stream (← announce w stripsTabs))
    | _ => unexpected none

def conditional : Nat → Reading Command
  | 0 => fault "end of file unexpected"
  | fuel + 1 => do
    let test ← body fuel
    expect fuel {} "then"
    let whenTrue ← body fuel
    let t ← token fuel {}
    if t.isSymbol "elif" then
      let other ← conditional fuel
      pure (.conditional test whenTrue (some other))
    else if t.isSymbol "else" then
      pure (.conditional test whenTrue (← body fuel))
    else
      giveBack t
      pure (.conditional test whenTrue none)

def loop : Nat → Bool → Reading Command
  | 0, _ => fault "end of file unexpected"
  | fuel + 1, goesOnWhen => do
    let test ← body fuel
    expect fuel {} "do"
    pure (.loop goesOnWhen test (← body fuel))

def wordsUpTo : Nat → Reading (List Word × Token)
  | 0 => pure ([], .endOfText)
  | fuel + 1 => do
    match ← token fuel {} with
    | .word w =>
      let (others, t) ← wordsUpTo fuel
      pure (w :: others, t)
    | t => pure ([], t)

def forEach : Nat → Nat → Reading Command
  | 0, _ => fault "end of file unexpected"
  | fuel + 1, line => do
    let name? :=
      match ← token fuel {} with
      | .word w => (Word.bare? w).filter isName
      | _ => none
    match name? with
    | none => fault "Bad for loop variable"
    | some name =>
      let t ← token fuel .command
      let words ←
        if t.isSymbol "in" then
          let (words, t) ← wordsUpTo fuel
          match t with
          | .endOfLine => pure (some words)
          | t => if t.isSymbol ";" then pure (some words) else unexpected none
        else
          if !t.isSymbol ";" then giveBack t
          pure none
      expect fuel .command "do"
      pure (.forEach line name words (← body fuel))

def patterns : Nat → Token → Reading (List Word)
  | 0, _ => fault "end of file unexpected"
  | fuel + 1, .word w => do
    let t ← token fuel {}
    if t.isSymbol "|" then
      let t ← token fuel {}
      pure (w :: (← patterns fuel t))
    else if t.isSymbol ")" then pure [w]
    else unexpected (some "\")\"")
  | fuel + 1, .symbol text =>
    if keywords.contains text then patterns fuel (.word (text.toList.map fun c => .character c false))
    else unexpected (some "word")
  | _, _ => unexpected (some "word")

def branches : Nat → Reading (List (List Word × Option Command))
  | 0 => fault "end of file unexpected"
  | fuel + 1 => do
    let t ← token fuel .branch
    if t.isSymbol "esac" then pure []
    else
      let t ← if t.isSymbol "(" then token fuel {} else pure t
      let words ← patterns fuel t
      let body ← list fuel .substitution none true
      let t ← token fuel .branch
      if t.isSymbol "esac" then pure [(words, body)]
      else if t.isSymbol ";;" then pure ((words, body) :: (← branches fuel))
      else unexpected (some "\";;\"")

def select : Nat → Nat → Reading Command
  | 0, _ => fault "end of file unexpected"
  | fuel + 1, line => do
    match ← token fuel {} with
    | .word subject =>
      expect fuel .command "in"
      pure (.select line subject (← branches fuel))
    | _ => unexpected (some "word")

def simple : Nat → Nat → List (String × Word) → List Word → List Redirection → Reading Command
  | 0, _, _, _, _ => fault "end of file unexpected"
  | fuel + 1, line, assignments, words, redirections => do
    let finish : Reading Command := pure (.simple line assignments words redirections)
    match ← token fuel { seesAliases := words.isEmpty } with
    | .word w =>
      match if words.isEmpty then assignment? w else none with
      | some assignment => simple fuel line (assignments ++ [assignment]) words redirections
      | none => simple fuel line assignments (words ++ [w]) redirections
    | .redirection stream sign =>
      let next ← redirection fuel stream sign
      simple fuel line assignments words (redirections ++ [next])
    | .symbol "(" =>
      match words, assignments, redirections with
      | [w], [], [] =>
        expect fuel {} ")"
        match w.bare?.filter fun name => isName name && !specialBuiltins.contains name with
        | some name => pure (.define name (← command fuel .command))
        | none => fault "Bad function name"
      | _, _, _ =>
        giveBack (.symbol "(")
        finish
    | t =>
      giveBack t
      finish

end

/-- The word that a whole text is in which nothing but expansions has a meaning. -/
def whole : Reading Word := do
  let text : Announced := { number := 0, final := ['\x00'], stripsTabs := false, isPlain := false }
  parts (16 * ((← get).rest.length + 16)) { text := some text, isFinal := false } .text

/-- The commands of the next line: none for a line without a command, and nothing after the last line. -/
def line : Reading (Option (Option Command)) := do
  modify fun s => { s with givenBack := none, announced := [] }
  let s ← get
  let values := s.aliases.foldl (fun total entry => total + entry.2.length + 1) 0
  let fuel := 16 * (s.rest.length + 16 * (values + 1))
  let command ← list fuel .line none false
  match command, (← get).last with
  | none, .endOfText => pure none
  | command, _ => pure (some command)

end Reading

end Montage.Shell
