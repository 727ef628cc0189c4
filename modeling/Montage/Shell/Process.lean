import Montage.Shell.Reader
import Montage.Shell.State

/-!
Contract: interpreters that work apart, and how interpreters end.

Owns: the lines of a text, signals and what is to be done about them, the end of an interpreter, and the
interpreters that are started for a part of the work.

An interpreter that is started for a part of the work begins as a copy of the one that starts it. One in
the background begins once its starter waits for something, so that a signal can reach it before. What goes
on for ever in the background is taken to have done nothing.
-/

set_option autoImplicit false

namespace Montage.Shell

variable {m : Type → Type} [Monad m] [Ground m]

/-! ## Texts as commands -/

/-- Writes what was read to the error output if the interpreter was asked to. -/
def echoLines (before after : Source) : Act m Unit := do
  if ← hasOption "verbose" then
    sendError (String.ofList (before.rest.take (before.rest.length - after.rest.length)))

def runLines (run : Runner m) (isAsked isShown : Bool) : Nat → Source → Nat → Act m Nat
  | 0, _, status => pure status
  | fuel + 1, source, status => do
    let s ← get
    match Reading.line.run { source with aliases := s.aliases, texts := s.texts } with
    | .error fault =>
      modify fun s => { s with line := fault.line }
      fail fault.message
    | .ok (found, rest) =>
      if isShown then echoLines source rest
      modify fun s => { s with texts := rest.texts, reached := rest.line }
      match found with
      | none => pure status
      | some none => runLines run isAsked isShown fuel rest status
      | some (some command) =>
        let status ← run isAsked command
        if (← get).skip != .none then pure status
        else runLines run isAsked isShown fuel rest status

/-- Carries out a text; the answer is the status of its last command. -/
def runText (run : Runner m) (isAsked isShown : Bool) (text : String) : Act m Nat := do
  let s ← get
  let source := Source.ofChars text.toList s.aliases s.texts
  ensuring (runLines run isAsked isShown (text.length + 2) source 0)
    (modify fun now => { now with reached := s.reached })

/-! ## Signals -/

/-- Lets a signal have its effect: it is passed over, noted, or the end. -/
def receive (signal : Nat) : Act m Unit := do
  let s ← get
  if signal == Signal.exit then pure ()
  else if Signal.isFinal signal then throw (.gone (.killed signal))
  else if s.ignored.contains signal then pure ()
  else
    match s.traps.lookup signal with
    | some action =>
      if !action.isEmpty then
        set { s with caught := signal :: s.caught.filter (· != signal) }
    | none => if Signal.isHarmless signal then pure () else throw (.gone (.killed signal))

/-- Lets all signals that were sent to the interpreter have their effect. -/
def receiveAll : Act m Unit := do
  let s ← get
  let mine := s.world.signals.filter fun sent => sent.1 == s.process
  if !mine.isEmpty then
    changeWorld fun w => { w with signals := w.signals.filter fun sent => sent.1 != s.process }
    for sent in mine do
      receive sent.2

def answerSignals (run : Runner m) : List Nat → Act m Unit
  | [] => pure ()
  | signal :: rest => do
    let s ← get
    if s.skip != .none then pure ()
    else
      set { s with caught := s.caught.filter (· != signal) }
      match s.traps.lookup signal with
      | none => pure ()
      | some action =>
        let _ ← runText run false false action
        modify fun now =>
          { now with
            status :=
              if now.skip == .function true then now.status else now.keptStatus.getD now.status }
      answerSignals run rest

/-- Does what is to be done about signals. The status stays what it was, unless a function is left with
another one. -/
def runTraps (run : Runner m) : Act m Unit := do
  let s ← get
  if !s.caught.isEmpty then
    set { s with keptStatus := some (s.keptStatus.getD s.status) }
    answerSignals run (s.caught.mergeSort fun a b => decide (a ≤ b))
    modify fun now => { now with keptStatus := s.keptStatus }

/-! ## The end of an interpreter -/

def settle (leaving : Leaving) : Act m Unit :=
  modify fun s =>
    let countsKept := leaving == .told || s.skip == .function false
    { s with
      status := if countsKept then s.keptStatus.getD s.status else s.status
      keptStatus := none, skip := .none, loops := 0, isTracing := false }

/-- Does something that may be left; the answer is how it was left, if it was. -/
def leavingOf (activity : Act m Unit) : Act m (Option Leaving) := do
  let whole : Act m (Option Leaving) := do
    activity
    pure none
  tryCatch whole fun leaving =>
    match leaving with
    | .exhausted => throw .exhausted
    | leaving => pure (some leaving)

def endingNow : Act m ExitStatus := do
  flush
  pure (.exited ((← get).status % 256))

/-- Ends an interpreter that was left in some way, or that came to its end. -/
def conclude (run : Runner m) (leaving : Option Leaving) : Act m ExitStatus := do
  match leaving with
  | some (.gone ending) => pure ending
  | leaving =>
    leaving.forM settle
    let s ← get
    set
      { s with
        keptStatus := some s.status
        traps := s.traps.filter fun trap => trap.1 != Signal.exit, skip := .none }
    match s.traps.lookup Signal.exit with
    | none => endingNow
    | some action =>
      let left ←
        leavingOf do
          let _ ← runText run false false action
          modify fun now => { now with skip := .function false }
      match left with
      | some (.gone ending) => pure ending
      | left =>
        settle (left.getD .ended)
        endingNow

/-! ## Interpreters apart -/

/-- What an interpreter for a part of the work keeps of the one that starts it. -/
def Interior.forked (i : Interior) : Interior :=
  { i with traps := i.traps.filter fun trap => trap.2.isEmpty, caught := [], jobs := [] }

def inProcess (run : Runner m) (process : Nat) (interior : Interior) (activity : Act m Unit) :
    Act m ExitStatus := do
  let before ← get
  let world := { before.world with alive := process :: before.world.alive }
  set { interior with process, world : State }
  let goBack : Act m Unit :=
    modify fun s => { before with world := { s.world with alive := before.world.alive } }
  let whole : Act m ExitStatus := do conclude run (← leavingOf activity)
  ensuring whole goBack

/-- Jobs without one that has been waited for, if its number is the next one to be given. -/
def withoutSettled (jobs : List Job) : List Job :=
  let numbers := (List.range (jobs.length + 1)).map (· + 1)
  let isNext (n : Nat) : Bool := jobs.all fun job => job.number != n || job.isSettled
  match numbers.find? isNext with
  | some n => jobs.filter fun job => job.number != n
  | none => jobs

def newProcess : Act m Nat := do
  let process := (← get).world.lastProcess + 1
  changeWorld fun w => { w with lastProcess := process }
  modify fun s => { s with jobs := withoutSettled s.jobs }
  pure process

/-- How much of the work commands can have that may go on for ever. -/
def openWork : Nat := 20000

/-- Does something with a part of the work only; nothing comes of it if that is not enough. -/
def withOpenWork {β : Type} (activity : Act m β) : Act m (Option β) := do
  let left := (← get).world.work
  let share := Min.min left openWork
  changeWorld fun w => { w with work := share }
  let whole : Act m (Option β) := do pure (some (← activity))
  let result ←
    tryCatch whole fun leaving =>
      match leaving with
      | .exhausted => if share < left then pure none else throw .exhausted
      | leaving => throw leaving
  changeWorld fun w => { w with work := left - (share - w.work) }
  pure result

def runWaiting (run : Runner m) : Nat → Act m Unit
  | 0 => pure ()
  | fuel + 1 => do
    match (← get).world.waiting with
    | [] => pure ()
    | first :: rest =>
      changeWorld fun w => { w with waiting := rest }
      let before ← get
      let ending ←
        withOpenWork
          (inProcess run first.process first.interior do
            let _ ← run false first.command)
      if ending.isNone then
        modify fun now => { before with world := { before.world with work := now.world.work } }
      changeWorld fun w => { w with endings := (first.process, ending) :: w.endings }
      runWaiting run fuel

def reap : Act m Unit :=
  modify fun s =>
    let hasEnded (job : Job) : Bool := ((s.world.endings.lookup job.process).join).isSome
    { s with jobs := s.jobs.map fun job => { job with isReaped := job.isReaped || hasEnded job } }

def runBackground (run : Runner m) : Act m Unit := do
  runWaiting run ((← get).world.work + 1)
  reap
  receiveAll

/-- Lets an interpreter with a certain beginning do something, and everything that was begun before and
by it. -/
def inChild (run : Runner m) (interior : Nat → Interior → Interior) (activity : Act m Unit) :
    Act m ExitStatus := do
  runBackground run
  let process ← newProcess
  let s ← get
  let ending ← inProcess run process (interior process s.toInterior) activity
  runBackground run
  pure ending

def apart (run : Runner m) (activity : Act m Unit) : Act m ExitStatus :=
  inChild run (fun _ interior => interior.forked) activity

/-- The status that an ending means; a signal that has ended something is reported. -/
def statusAfter : ExitStatus → Act m Nat
  | .exited code => pure code
  | .killed signal => do
    if !Signal.isQuiet signal then sendError (Signal.text signal ++ "\n")
    pure (128 + signal)

/-- What a copy of the interpreter writes while it does something, and its status. -/
def capturing (run : Runner m) (activity : Act m Unit) : Act m (List Char × Nat) := do
  let number ← newChannel (.pipe [])
  let ending ←
    apart run do
      lead 1 (some number)
      activity
  let written :=
    match (← get).world.channels[number]? with
    | some (.pipe unread) => unread
    | _ => []
  pure (written, ← statusAfter ending)

def begin (command : Command) : Act m Unit := do
  let process ← newProcess
  let nothing ← newChannel (.nothing false)
  let s ← get
  let interior := s.toInterior.forked
  let waiting : Waiting :=
    { process, command
      interior :=
        { interior with
          ignored := 2 :: 3 :: interior.ignored
          streams := (0, nothing) :: interior.streams.filter fun entry => entry.1 != 0 } }
  let taken := s.jobs.map (·.number)
  let number := ((List.range (taken.length + 1)).find? fun n => !taken.contains (n + 1)).getD 0 + 1
  set
    { s with
      background := some process
      jobs := { number, process, isReaped := false, isSettled := false } :: s.jobs
      world := { s.world with waiting := s.world.waiting ++ [waiting] } }

end Montage.Shell
