import Montage.Host
import Montage.Shell.Integer
import Montage.Shell.Signal
import Montage.Shell.Syntax
import Montage.Text.Bytes

/-!
Contract: what the command interpreter keeps while it works.

Owns: the state of an interpreter and of what it shares with the interpreters it starts, the ways to leave
what it is doing, its streams, and its complaints.

An interpreter that is started for a part of the work has a state of its own. What it writes, the places in
open files, and the signals sent are common to all.
-/

set_option autoImplicit false

namespace Montage.Shell

/-- A system on which an interpreter finds its programs. -/
class Ground (m : Type → Type) extends Host m where
  /-- Whether a path leads to a program. -/
  isProgram : Path → m Bool
  /-- Whether a program is the command interpreter. -/
  isInterpreter : Path → m Bool
  /-- The names in a directory. -/
  names : Path → m (Except DiskError (List String))

/-! ## Types -/

/-- Something that streams lead to. -/
inductive Channel where
  | output
  | errors
  /-- Nothing to read, and what is written is lost, if it is taken at all. -/
  | nothing (takes : Bool)
  | file (path : Path) (position : Nat) (reads writes appends : Bool)
  /-- What one command has written and another one has not read yet. -/
  | pipe (unread : List Char)

structure Cell where
  value : Option String
  isExported : Bool
  isReadonly : Bool
  /-- Whether its marks outlast its value. -/
  isLasting : Bool

def Cell.unset : Cell :=
  { value := none, isExported := false, isReadonly := false, isLasting := false }

/-- What a function gives back when it ends. -/
inductive Saved where
  | cell (name : String) (before : Option Cell)
  | options (before : List String)

inductive Skip where
  | none
  /-- Up to the end of a number of loops, of which the last one may go on. -/
  | loops (count : Nat) (goesOn : Bool)
  /-- Up to the end of a function, and whether its status was given. -/
  | function (isStated : Bool)
  deriving DecidableEq, Repr

/-- Commands that were sent to the background, by the number of the last of their processes. -/
structure Job where
  number : Nat
  process : Nat
  /-- Whether it is known that they have ended, and whether someone has waited for that. -/
  isReaped : Bool
  isSettled : Bool

/-- A program that was found, and whether it has to be looked for anew. -/
structure FoundProgram where
  path : String
  isOld : Bool

/-- What an interpreter keeps to itself. -/
structure Interior where
  /-- The numbers of the interpreter and of the one of which it is a copy in the end. -/
  process : Nat
  root : Nat
  /-- What complaints begin with. -/
  name : String
  /-- The line of the command at hand, and the one up to which the text at hand was read. -/
  line : Nat
  reached : Nat
  /-- The command of the interpreter that is at work, as complaints name it. -/
  activity : Option String
  /-- Variables that were set or unset here; all others are those of the environment. -/
  cells : List (String × Cell)
  /-- What functions give back, those of the innermost one first. -/
  saved : List (List Saved)
  functions : List (String × Command)
  aliases : List (String × String)
  texts : Texts
  operands : List String
  /-- The next argument to be looked at for options, and the place in the one before it. -/
  optionIndex : Nat
  optionOffset : Option Nat
  /-- The names of the options that are on. -/
  options : List String
  /-- The status of the last command. -/
  status : Nat
  /-- The status of the last substitution in the command at hand. -/
  substituted : Nat
  /-- The status that counts at the end, if the present one does not. -/
  keptStatus : Option Nat
  traps : List (Nat × String)
  /-- Signals that were ignored from the start. -/
  ignored : List Nat
  /-- Signals for which something is still to be done. -/
  caught : List Nat
  /-- How many loops the command at hand is in. -/
  loops : Nat
  /-- How many functions are at work. -/
  functionDepth : Nat
  skip : Skip
  /-- Jobs, the last one first. -/
  jobs : List Job
  /-- The number of the command that was sent to the background last. -/
  background : Option Nat
  /-- The working directory, once it is another one than at the beginning. -/
  directory : Option String
  programs : List (String × FoundProgram)
  /-- The channel of each stream that is open. -/
  streams : List (Nat × Nat)
  /-- What a command of the interpreter is about to write, and whether something could not be written. -/
  unwritten : String
  hasLost : Bool
  /-- The rights that new files do not get. -/
  mask : Nat
  /-- Whether commands are shown while the text before them is expanded. -/
  isTracing : Bool

/-- A process in the background that has not begun yet. -/
structure Waiting where
  process : Nat
  interior : Interior
  command : Command

/-- What interpreters have in common. -/
structure World where
  channels : Array Channel
  /-- What was written to the output and to the error output. -/
  output : String
  errors : String
  /-- Signals that were sent, each with the number of the interpreter. -/
  signals : List (Nat × Nat)
  /-- The number that was given to a process last. -/
  lastProcess : Nat
  /-- The interpreters that are at work. -/
  alive : List Nat
  /-- The processes in the background that have not begun, in their order. -/
  waiting : List Waiting
  /-- How processes in the background have ended, if they have. -/
  endings : List (Nat × Option ExitStatus)
  /-- How many commands may still be carried out. -/
  work : Nat

/-- What an interpreter keeps and knows. -/
structure State extends Interior where
  world : World

/-- The ways to leave what an interpreter is doing. -/
inductive Leaving where
  /-- Something went wrong; the status says so. -/
  | failed
  /-- The interpreter ends with its status. -/
  | ended
  /-- The interpreter was told to end. -/
  | told
  /-- The interpreter is no more. -/
  | gone (ending : ExitStatus)
  /-- The work is more than what is allowed. -/
  | exhausted
  deriving DecidableEq, Repr

abbrev Act (m : Type → Type) := ExceptT Leaving (StateT State m)

/-- The carrying out of a command, whose status may or may not be asked for; the answer is its status. -/
abbrev Runner (m : Type → Type) := (isAsked : Bool) → Command → Act m Nat

variable {m : Type → Type} [Monad m] [Ground m]

def ask {β : Type} (request : m β) : Act m β := liftM (liftM request : StateT State m β)

def changeWorld (change : World → World) : Act m Unit :=
  modify fun s => { s with world := change s.world }

def hasOption (option : String) : Act m Bool := do pure ((← get).options.contains option)

def spend : Act m Unit := do
  if (← get).world.work = 0 then throw .exhausted
  changeWorld fun w => { w with work := w.work - 1 }

/-- Does something and then something else, however the first ends. -/
def ensuring {β : Type} (activity : Act m β) (afterwards : Act m Unit) : Act m β := do
  let result ←
    tryCatch activity fun leaving => do
      afterwards
      throw leaving
  afterwards
  pure result

/-! ## Paths -/

def pathOf (text : String) : Act m Path := do
  let path : Path := ⟨Text.Octets.shown text⟩
  match (← get).directory with
  | none => pure path
  | some directory =>
    if path.text.isEmpty then pure path
    else pure ((Path.mk (Text.Octets.shown directory)).join path.text)

def kindOf? (text : String) : Act m (Option NodeKind) := do
  if text == "/dev/null" then pure (some .file) else ask (Host.kind? (← pathOf text))

def contentOf? (text : String) : Act m (Option String) := do
  let content ← ask (Host.readFile (← pathOf text))
  pure (content.toOption.map Text.Octets.ofBytes)

/-! ## Streams -/

def channelOf? (stream : Nat) : Act m (Option (Nat × Channel)) := do
  let s ← get
  pure do
    let number ← s.streams.lookup stream
    let channel ← s.world.channels[number]?
    some (number, channel)

def setChannel (number : Nat) (channel : Channel) : Act m Unit :=
  changeWorld fun w => { w with channels := w.channels.setIfInBounds number channel }

/-- A new channel; the answer is its number. -/
def newChannel (channel : Channel) : Act m Nat := do
  let number := (← get).world.channels.size
  changeWorld fun w => { w with channels := w.channels.push channel }
  pure number

def lead (stream : Nat) (channel : Option Nat) : Act m Unit :=
  modify fun s =>
    let others := s.streams.filter fun entry => entry.1 != stream
    { s with
      streams :=
        match channel with
        | some number => (stream, number) :: others
        | none => others }

def overwrite (content : List Char) (position : Nat) (text : List Char) : List Char :=
  content.take position ++ List.replicate (position - content.length) '\x00' ++ text
    ++ content.drop (position + text.length)

/-- Writes to a file; the answer is the position behind what is written. -/
def writeFile (path : Path) (position : Nat) (appends : Bool) (text : String) : Act m Nat := do
  let before := (← ask (Host.readFile path)).toOption.getD ByteArray.empty
  let content := (Text.Octets.ofBytes before).toList
  let position := if appends then content.length else position
  let after := String.ofList (overwrite content position text.toList)
  let _ ← ask (Host.writeFile path (Text.Octets.bytes after))
  pure (position + text.length)

/-- Writes to a stream; the answer is whether it can be written to. -/
def send (stream : Nat) (text : String) : Act m Bool := do
  match ← channelOf? stream with
  | some (_, .output) =>
    changeWorld fun w => { w with output := w.output ++ text }
    pure true
  | some (_, .errors) =>
    changeWorld fun w => { w with errors := w.errors ++ text }
    pure true
  | some (number, .pipe unread) =>
    setChannel number (.pipe (unread ++ text.toList))
    pure true
  | some (number, .file path position reads true appends) =>
    let position ← writeFile path position appends text
    setChannel number (.file path position reads true appends)
    pure true
  | some (_, .nothing takes) => pure takes
  | _ => pure false

/-- What can still be read from a stream; nothing if it cannot be read from. -/
def unreadOf? (stream : Nat) : Act m (Option (List Char)) := do
  match ← channelOf? stream with
  | some (_, .pipe unread) => pure (some unread)
  | some (_, .file path position true _ _) =>
    let content := (← ask (Host.readFile path)).toOption.getD ByteArray.empty
    pure (some ((Text.Octets.ofBytes content).toList.drop position))
  | some (_, .nothing _) => pure (some [])
  | _ => pure none

def advance (stream count : Nat) : Act m Unit := do
  match ← channelOf? stream with
  | some (number, .pipe unread) => setChannel number (.pipe (unread.drop count))
  | some (number, .file path position reads writes appends) =>
    setChannel number (.file path (position + count) reads writes appends)
  | _ => pure ()

def readAll (stream : Nat) : Act m (List Char) := do
  let unread := (← unreadOf? stream).getD []
  advance stream unread.length
  pure unread

/-- Does something and lets certain streams lead where they led before. -/
def keepingStreams {β : Type} (streams : List Nat) (activity : Act m β) : Act m β := do
  let before := (← get).streams
  ensuring activity do
    for stream in streams do
      lead stream (before.lookup stream)

/-! ## Writing and complaining -/

def flush : Act m Unit := do
  let text := (← get).unwritten
  if !text.isEmpty then
    modify fun s => { s with unwritten := "" }
    if !(← send 1 text) then modify fun s => { s with hasLost := true }

def put (text : String) : Act m Unit := modify fun s => { s with unwritten := s.unwritten ++ text }

def putLine (text : String) : Act m Unit := put (text ++ "\n")

def sendError (text : String) : Act m Unit := do
  let _ ← send 2 text

def complain (message : String) : Act m Unit := do
  let s ← get
  let activity :=
    match s.activity with
    | some name => name ++ ": "
    | none => ""
  sendError (s.name ++ ": " ++ toString s.line ++ ": " ++ activity ++ message ++ "\n")

def failWith {β : Type} (status : Nat) (leaving : Leaving) (message : String) : Act m β := do
  modify fun s => { s with status }
  complain message
  flush
  throw leaving

def fail {β : Type} (message : String) : Act m β := failWith 2 .failed message

/-- The options that arguments begin with, each with the value that it needs, and the arguments left. -/
abbrev Options := List (Char × String) × List String

def takeOptions (letters withValue : List Char) : Nat → List Char → List String → Act m Options
  | 0, _, arguments => pure ([], arguments)
  | fuel + 1, c :: more, arguments => do
    if withValue.contains c then
      let (value, rest) ←
        match more, arguments with
        | [], [] => fail ("No arg for -" ++ c.toString ++ " option")
        | [], value :: rest => pure (value, rest)
        | _, _ => pure (String.ofList more, arguments)
      let (options, rest) ← takeOptions letters withValue fuel [] rest
      pure ((c, value) :: options, rest)
    else if letters.contains c then
      let (options, rest) ← takeOptions letters withValue fuel more arguments
      pure ((c, "") :: options, rest)
    else fail ("Illegal option -" ++ c.toString)
  | _, [], [] => pure ([], [])
  | fuel + 1, [], first :: rest =>
    match first.toList with
    | ['-', '-'] => pure ([], rest)
    | '-' :: c :: more => takeOptions letters withValue fuel (c :: more) rest
    | _ => pure ([], first :: rest)

/-- Takes options of single letters from arguments; some need a value. -/
def optionsOf (letters withValue : List Char) (arguments : List String) : Act m Options :=
  takeOptions letters withValue (2 * (String.join arguments).length + arguments.length + 2) [] arguments

def withoutOptions (arguments : List String) : Act m (List String) := do
  pure (← optionsOf [] [] arguments).2

/-- The number that an argument means; a text that is none is complained about. -/
def countOf (text : String) : Act m Nat :=
  match Integer.ofCount? text with
  | some n => pure n
  | none => fail ("Illegal number: " ++ text)

end Montage.Shell
