import Montage.Machine
import Montage.Shell.Builtin
import Montage.Shell.Redirection
import Montage.Shell.Startup

/-!
Contract: carrying out commands.

Owns: what each kind of command does, the text that is carried out as a whole, and the interpreter that a
machine is given.

A command is carried out by a runner for the commands in it. How deep commands may be nested and how many
of them may be carried out is limited; a text that reaches a limit has no outcome of its own.

Does **not** own: the commands of the interpreter (`Montage.Shell.Builtin`) and the expansion of words
(`Montage.Shell.Expansion`).
-/

set_option autoImplicit false

namespace Montage.Shell

variable {m : Type → Type} [Monad m] [Ground m]

/-! ## Statuses -/

def note (status : Nat) : Act m Nat := do
  modify fun s => { s with status }
  pure status

def isSkipping : Act m Bool := do pure ((← get).skip != .none)

def beginAt (line : Nat) : Act m Unit := modify fun s => { s with line }

def runSome (run : Runner m) (isAsked : Bool) : Option Command → Act m Nat
  | none => pure 0
  | some command => run isAsked command

/-! ## Loops -/

/-- Ends one round of a loop; the answer is whether the loop ends as well, and whether what is left of the
round is passed over. -/
def endRound : Act m (Bool × Bool) := do
  match (← get).skip with
  | .none => pure (false, false)
  | .function _ => pure (true, true)
  | .loops count goesOn =>
    if count ≤ 1 then
      modify fun s => { s with skip := .none }
      pure (!goesOn, true)
    else
      modify fun s => { s with skip := .loops (count - 1) goesOn }
      pure (true, true)

def repeatWhile (run : Runner m) (isAsked goesOnWhen : Bool) (test body : Option Command) :
    Nat → Nat → Act m Nat
  | 0, _ => throw .exhausted
  | fuel + 1, status => do
    spend
    let outcome ← runSome run true test
    let isLeft := (← get).skip == .function true
    let (ends, passes) ← endRound
    let status := if isLeft then outcome else status
    if ends then pure status
    else if passes then repeatWhile run isAsked goesOnWhen test body fuel status
    else if (outcome == 0) != goesOnWhen then pure status
    else
      let status ← runSome run isAsked body
      let (ends, _) ← endRound
      if ends then pure status else repeatWhile run isAsked goesOnWhen test body fuel status

def repeatFor (run : Runner m) (isAsked : Bool) (name : String) (body : Option Command) :
    List String → Nat → Act m Nat
  | [], status => pure status
  | word :: rest, _ => do
    spend
    assignText name word
    let status ← runSome run isAsked body
    let (ends, _) ← endRound
    if ends then pure status else repeatFor run isAsked name body rest status

def inLoop (activity : Act m Nat) : Act m Nat := do
  modify fun s => { s with loops := s.loops + 1 }
  let status ← activity
  modify fun s => { s with loops := s.loops - 1 }
  pure status

/-! ## Choices -/

def matchesOne (run : Runner m) (subject : List Char) : List Word → Act m Bool
  | [] => pure false
  | pattern :: rest => do
    if isMatch (← expandPattern run pattern) subject then pure true else matchesOne run subject rest

def choose (run : Runner m) (isAsked : Bool) (subject : List Char) :
    List (List Word × Option Command) → Act m Nat
  | [] => pure 0
  | (patterns, body) :: rest => do
    if ← isSkipping then pure 0
    else if ← matchesOne run subject patterns then
      if ← isSkipping then pure 0 else runSome run isAsked body
    else choose run isAsked subject rest

/-! ## Parts of the work -/

def fixedRedirection : Nat × Target → Redirection
  | (stream, .file opening name) => .file stream opening (fixedWord name)
  | (stream, .copy none) => .copy stream (fixedWord "-")
  | (stream, .copy (some source)) => .copy stream (fixedWord (toString source))
  | (stream, .text number) => .text stream number
where
  /-- The word that stands for a text. -/
  fixedWord (text : String) : Word := text.toList.map fun c => .character c true

def rememberStage : Command → Act m Unit
  | .simple _ _ (first :: _) _ => do
    if let some name := Word.bare? first then
      if isName name then
        let _ ← find name true none
  | _ => pure ()

/-- Lets commands read what the ones before them write. A command that goes on for ever is ended by the
loss of its reader, once that has ended. -/
def pipe (run : Runner m) (isAsked : Bool) : Option Nat → List Command → Act m Nat
  | _, [] => pure 0
  | input, [last] => do
    rememberStage last
    let ending ←
      apart run do
        input.forM fun channel => lead 0 (some channel)
        let _ ← run isAsked last
    statusAfter ending
  | input, first :: rest => do
    rememberStage first
    let output ← newChannel (.pipe [])
    let ending ←
      withOpenWork
        (apart run do
          input.forM fun channel => lead 0 (some channel)
          lead 1 (some output)
          let _ ← run isAsked first)
    let _ ← statusAfter (ending.getD (.killed Signal.noReader))
    pipe run isAsked (some output) rest

/-! ## Commands without keywords -/

def expandBeyond (run : Runner m) (count : Nat) :
    List Word → List String → Act m (List String × List Word)
  | [], found => pure (found, [])
  | word :: rest, found => do
    if count < found.length then pure (found, word :: rest)
    else expandBeyond run count rest (found ++ (← expandWord run word))

/-- What stands at the head of a command. -/
structure Head where
  /-- The words that were expanded, and those that were not. -/
  found : List String
  words : List Word
  /-- Where the command proper begins. -/
  start : Nat
  /-- Whether functions count, and whether only the usual programs do. -/
  seesFunctions : Bool
  usesUsualPath : Bool
  /-- Whether it is a special command as such. -/
  isSpecial : Bool
  /-- Whether assignments among the arguments are not divided. -/
  keepsAssignments : Bool
  /-- Whether it is the one that replaces the interpreter. -/
  isReplacing : Bool

namespace Head

def upTo (run : Runner m) (place : Nat) (head : Head) : Act m Head := do
  let (found, words) ← expandBeyond run place head.words head.found
  pure { head with found, words }

/-- Passes over the options of the command that carries out another one. The answer is where that begins,
if there is one; options that ask something have none. -/
def passOptions (run : Runner m) : Nat → Nat → Head → Act m (Option Nat × Head)
  | 0, _, _ => throw .exhausted
  | fuel + 1, place, head => do
    let head ← head.upTo run place
    match head.found[place]?.map String.toList with
    | none => pure (none, head)
    | some ['-', '-'] =>
      let head ← head.upTo run (place + 1)
      pure (if place + 1 < head.found.length then some (place + 1) else none, head)
    | some ('-' :: c :: letters) =>
      if (c :: letters).all (· == 'p') then
        passOptions run fuel (place + 1) { head with usesUsualPath := true }
      else pure (none, head)
    | some _ => pure (some place, head)

/-- Finds out which command it is, behind those that only carry out another one. -/
def settle (run : Runner m) (limit : Nat) : Nat → Bool → Head → Act m Head
  | 0, _, _ => throw .exhausted
  | fuel + 1, isFirst, head => do
    let name := (head.found[head.start]?).getD ""
    let isFunction :=
      head.seesFunctions && ((← get).functions.lookup name).isSome && !name.toList.contains '/'
    if isFunction || !isBuiltin name then pure { head with keepsAssignments := false, isReplacing := false }
    else
      let head :=
        { head with
          isSpecial := if isFirst then specialBuiltins.contains name else head.isSpecial
          keepsAssignments := assigningBuiltins.contains name
          isReplacing := name == "exec" }
      if name != "command" then pure head
      else
        match ← passOptions run limit (head.start + 1) head with
        | (some start, head) => settle run limit fuel false { head with start, seesFunctions := false }
        | (none, head) => pure { head with usesUsualPath := false, seesFunctions := true }

end Head

def expandCommand (run : Runner m) (words : List Word) : Act m Head := do
  let limit := (← get).world.work + 1
  let (found, words) ← expandBeyond run 0 words []
  let head : Head :=
    { found, words, start := 0, seesFunctions := true, usesUsualPath := false, isSpecial := false
      keepsAssignments := false, isReplacing := false }
  if found.isEmpty then pure head
  else
    let head ← head.settle run limit limit true
    let rest ← head.words.mapM (expandArgument run head.keepsAssignments)
    pure { head with found := head.found ++ rest.flatten, words := [] }

/-- How the values of assignments are kept. -/
inductive Keeping where
  /-- As long as the command lasts. -/
  | here
  | always
  /-- For good, and programs get them. -/
  | exported

/-- Carries out assignments; the answer is what is shown of them. -/
def assignAll (run : Runner m) (keeping : Keeping) : List (String × Word) → Act m (List String)
  | [] => pure []
  | (name, word) :: rest => do
    let value ← expandValue run word
    let text := name ++ "=" ++ value
    match keeping with
    | .here => makeLocal text true
    | .always => change name (some value) .none true
    | .exported => change name (some value) .exported true
    pure (text :: (← assignAll run keeping rest))

def traceStart (run : Runner m) : Act m String := do
  let s ← get
  let text := ((← valueOf? "PS4").getD "").toList
  match Reading.whole.run (Source.ofChars text s.aliases s.texts) with
  | .error _ => pure (String.ofList text)
  | .ok (word, source) => do
    modify fun s => { s with texts := source.texts }
    expandPlain run word

/-- Shows a command on the error output as it was before the redirections of the command. -/
def trace (run : Runner m) (errors : Option Nat) (words : List String) : Act m Unit := do
  let isTracing := (← get).isTracing
  if (← hasOption "xtrace") && !isTracing then
    modify fun s => { s with isTracing := true }
    let start ← traceStart run
    modify fun s => { s with isTracing := false }
    keepingStreams [2] do
      lead 2 errors
      sendError (start ++ " ".intercalate words ++ "\n")

/-- Carries out a command of the interpreter. What goes wrong in it is the end of what the interpreter is
doing only if it is a special one. -/
def callBuiltin (run : Runner m) (isAsked isSpecial : Bool) (name : String) (arguments : List String) :
    Act m Nat := do
  let before := (← get).activity
  modify fun s => { s with activity := some name }
  let whole : Act m Nat := do
    let status ←
      match name, arguments with
      | "exec", [] => pure 0
      | "exec", program :: arguments => replaceBy run program arguments
      | _, _ => Builtin.runPlain run isAsked name arguments
    flush
    if (← get).hasLost then
      complain (name ++ ": I/O error")
      note (status ||| 1)
    else note status
  let goBack : Act m Unit := modify fun s => { s with activity := before, hasLost := false }
  tryCatch (ensuring whole goBack) fun leaving => do
    if leaving == .failed && !isSpecial then pure (← get).status else throw leaving

def functionLimit : Nat := 1000

def callFunction (run : Runner m) (isAsked : Bool) (body : Command) (arguments : List String) :
    Act m Nat := do
  let before ← get
  if functionLimit ≤ before.functionDepth then
    fail ("Maximum function recursion depth (" ++ toString functionLimit ++ ") reached")
  set
    { before with
      operands := arguments, optionIndex := 1, optionOffset := none, loops := 0
      functionDepth := before.functionDepth + 1 }
  let goBack : Act m Unit :=
    modify fun s =>
      { s with
        operands := before.operands, optionIndex := before.optionIndex
        optionOffset := before.optionOffset, loops := before.loops
        functionDepth := before.functionDepth
        skip :=
          match s.skip with
          | .function _ => .none
          | skip => skip }
  let whole : Act m Unit := do
    let _ ← run isAsked body
  ensuring whole goBack
  pure (← get).status

def execute (run : Runner m) (isAsked : Bool) (head : Head) (name : String) (arguments : List String) :
    Act m Nat := do
  let path := if head.usesUsualPath then some usualPath else none
  match ← find name head.seesFunctions path with
  | .function body => callFunction run isAsked body arguments
  | .builtin => callBuiltin run isAsked head.isSpecial name arguments
  | .program path => callProgram run path name arguments
  | .nothing isForbidden =>
    complain (notFoundText name isForbidden)
    pure 127

def perform (run : Runner m) (isAsked : Bool) (assignments : List (String × Word)) (head : Head)
    (targets : List (Nat × Target)) : Act m Nat := do
  let words := head.found.drop head.start
  let errors := (← get).streams.lookup 2
  let isReady ← redirectOrNot run targets
  if !isReady then
    let _ ← note 2
    if head.isSpecial then throw .failed
    pure 2
  else
    let keeping : Keeping :=
      if !words.isEmpty && !head.isSpecial then .here
      else if head.isReplacing && 1 < words.length then .exported
      else .always
    let shown ← assignAll run keeping assignments
    trace run errors (shown ++ head.found)
    match words with
    | [] => note (← get).substituted
    | name :: arguments => execute run isAsked head name arguments

def runSimple (run : Runner m) (isAsked : Bool) (line : Nat) (assignments : List (String × Word))
    (words : List Word) (redirections : List Redirection) : Act m Nat := do
  beginAt line
  modify fun s => { s with substituted := 0 }
  let head ← expandCommand run words
  let depth := (← get).saved.length
  if !head.found.isEmpty && !head.isSpecial then pushFrame
  let targets ← targetsOf run redirections
  let kept := if head.isReplacing then [] else targets.map (·.1)
  let status ← keepingStreams kept (perform run isAsked assignments head targets)
  unwindFrames depth
  pure status

/-! ## All commands -/

/-- Does what a command asks for; the answer is its status. -/
def carryOut (run : Runner m) (isAsked : Bool) : Command → Act m Nat
  | .simple line assignments words redirections => do
    note (← runSimple run isAsked line assignments words redirections)
  | .redirected line body redirections => do
    beginAt line
    let targets ← targetsOf run redirections
    let status ←
      keepingStreams (targets.map (·.1)) do
        if ← redirectOrNot run targets then run isAsked body else pure 2
    note status
  | .separate line body redirections => do
    beginAt line
    let targets ← targetsOf run redirections
    let ending ←
      apart run do
        redirect run true targets
        let _ ← runSome run isAsked body
    note (← statusAfter ending)
  | .background line body redirections => do
    beginAt line
    let targets ← targetsOf run redirections
    begin
      (if targets.isEmpty then body else .redirected line body (targets.map fixedRedirection))
    note 0
  | .sequence first second => do
    let status ← run isAsked first
    if ← isSkipping then pure status else note (← run isAsked second)
  | .both first second => do
    let status ← run true first
    if status != 0 || (← isSkipping) then pure status else note (← run isAsked second)
  | .either first second => do
    let status ← run true first
    if status = 0 || (← isSkipping) then pure status else note (← run isAsked second)
  | .negated body => do
    let status ← run true body
    if ← isSkipping then note status else note (if status = 0 then 1 else 0)
  | .pipeline stages => do note (← pipe run isAsked none stages)
  | .conditional test body otherwise => do
    let status ← runSome run true test
    if ← isSkipping then pure status
    else if status = 0 then note (← runSome run isAsked body)
    else note (← runSome run isAsked otherwise)
  | .loop goesOnWhen test body => do
    let fuel := (← get).world.work + 1
    note (← inLoop (repeatWhile run isAsked goesOnWhen test body fuel 0))
  | .forEach line name words body => do
    beginAt line
    let words ←
      match words with
      | some words => expandWords run words
      | none => do pure (← get).operands
    note (← inLoop (repeatFor run isAsked name body words 0))
  | .select line subject branches => do
    beginAt line
    let subject ← expandText run subject
    note (← choose run isAsked subject.toList branches)
  | .define name body => do
    defineFunction name body
    note 0

def isDecisive : Command → Bool
  | .simple _ _ _ _ | .separate _ _ _ | .background _ _ _ | .pipeline _ => true
  | _ => false

/-- Carries out a command, what is to be done about signals before and after it, and the end of an
interpreter that is to end when a command fails. -/
def runNode (run : Runner m) (isAsked : Bool) (command : Command) : Act m Nat := do
  if !(← hasOption "noexec") then
    spend
    runTraps run
    let status ← carryOut run isAsked command
    if status != 0 && !isAsked && isDecisive command && (← hasOption "errexit") then throw .ended
    runTraps run
  pure (← get).status

def runner : Nat → Runner m
  | 0 => fun _ _ => throw .exhausted
  | depth + 1 => fun isAsked command => runNode (runner depth) isAsked command

def deepest : Nat := 10000

def workLimit : Nat := 100000

def World.first (process : Nat) : World :=
  { channels := #[.nothing true, .output, .errors], output := "", errors := "", signals := []
    lastProcess := process, alive := [process], waiting := [], endings := [], work := workLimit }

def interpretText (text : String) : Act m ExitStatus := do
  let run := runner deepest
  let whole : Act m Unit := do
    furnish 1
    let _ ← runText run false false text
  let ending ← conclude run (← leavingOf whole)
  let rest : Act m Unit := runBackground run
  tryCatch rest fun _ => pure ()
  pure ending

def outcomeOf (text : String) : m Finished := do
  let process := 2
  let first : State := { Interior.first process with world := World.first process }
  let (status, last) ← ((interpretText (Text.Octets.ofText text)).run).run first
  pure
    { output := Text.Octets.bytes last.world.output
      errors := Text.Octets.bytes last.world.errors
      status := status.toOption.getD (.exited 2) }

/-! ## The interpreter of a machine -/

/-- Acts on a machine on which the programs at some places are the command interpreter. -/
abbrev OnMachine := StateT (List Place) (StateM Machine)

instance : Ground OnMachine where
  isProgram p := liftM (show StateM Machine _ from fun machine => ((machine.programAt p).isOk, machine))
  isInterpreter p := do
    let places ← get
    liftM (show StateM Machine _ from fun machine =>
      (match machine.disk.resolve p with
        | .ok place => places.contains place
        | .error _ => false, machine))
  names p := liftM (show StateM Machine _ from fun machine => (machine.disk.names p, machine))

def installed (places : List Place) (machine : Machine) : Machine :=
  { machine with
    interpreter := fun text disk =>
      let ((finished, _), after) := (outcomeOf text : OnMachine Finished) places { machine with disk }
      (finished, after.disk) }

end Montage.Shell
