import Montage.Shell.Process

/-!
Contract: the commands of the interpreter about jobs and processes.

Owns: signals that are sent, the waiting for jobs, and what is told about them.

A process of the background that has not begun is reached by a signal like any other. Jobs are not under
control: none of them can be brought to the foreground.
-/

set_option autoImplicit false

namespace Montage.Shell.Builtin

variable {m : Type → Type} [Monad m] [Ground m]

/-! ## Jobs -/

/-- The job that a text means, without its percent sign; no job goes with what is said then. -/
def jobAt (jobs : List Job) (text name : String) : Except String Job :=
  let unknown := "No such job: " ++ name
  match text with
  | "" | "+" | "%" => jobs.head?.elim (.error "No current job") .ok
  | "-" => jobs[1]?.elim (.error "No previous job") .ok
  | "?" =>
    match jobs with
    | [job] => .ok job
    | [] => .error unknown
    | _ => .error (name ++ ": ambiguous")
  | _ =>
    match jobs.find? fun job => some job.number == Signal.digits? text with
    | some job => .ok job
    | none => .error unknown

/-- The job that an argument means; the current one if there is no argument. -/
def jobOf (name : Option String) : Act m Job := do
  let jobs := (← get).jobs
  let found :=
    match name.map String.toList with
    | none => jobAt jobs "" ""
    | some ('%' :: text) => jobAt jobs (String.ofList text) (name.getD "")
    | some _ => .error ("No such job: " ++ name.getD "")
  match found with
  | .ok job => pure job
  | .error message => fail message

def endingOf? (job : Job) : Act m (Option ExitStatus) := do
  pure ((← get).world.endings.lookup job.process).join

def updateJob (job : Job) : Act m Unit :=
  modify fun s =>
    { s with jobs := s.jobs.map fun other => if other.number == job.number then job else other }

/-! ## Waiting -/

/-- Waits for a job; the answer is its status. One that goes on for ever is never over. -/
def waitFor (run : Runner m) (job : Job) : Act m Nat := do
  runBackground run
  match ← endingOf? job with
  | none => throw .exhausted
  | some ending =>
    updateJob { job with isReaped := true, isSettled := true }
    match ending with
    | .exited code => pure code
    | .killed signal =>
      if job.isReaped then pure (128 + signal) else statusAfter ending

/-- Waits for the jobs of arguments; the answer is the status of the last one, or else one of before. -/
def waitForAll (run : Runner m) : Nat → List String → Act m Nat
  | status, [] => pure status
  | status, text :: rest => do
    let job ←
      if text.startsWith "%" then do pure (some (← jobOf (some text)))
      else
        let process ← countOf text
        pure ((← get).jobs.find? fun job => job.process == process)
    match job with
    | some job => waitForAll run (← waitFor run job) rest
    | none => waitForAll run status rest

def wait (run : Runner m) (arguments : List String) : Act m Nat := do
  match ← withoutOptions arguments with
  | [] =>
    runBackground run
    modify fun s => { s with jobs := s.jobs.map fun job => { job with isSettled := true } }
    pure 0
  | texts => waitForAll run 127 texts

/-! ## Telling -/

def stateText : Option ExitStatus → String
  | none => "Running"
  | some (.exited 0) => "Done"
  | some (.exited code) => "Done(" ++ toString code ++ ")"
  | some (.killed signal) => Signal.text signal

inductive JobView where
  | plain
  | withProcess
  | processOnly
  deriving DecidableEq

/-- Tells about a job; one that has ended is forgotten. -/
def tellJob (view : JobView) (job : Job) : Act m Unit := do
  let process := toString job.process
  if view == .processOnly then putLine process
  else
    let jobs := (← get).jobs
    let ending ← endingOf? job
    let mark :=
      if jobs[0]?.map (·.number) == some job.number then "+"
      else if jobs[1]?.map (·.number) == some job.number then "-"
      else " "
    let shown :=
      "[" ++ toString job.number ++ "] " ++ mark ++ " "
        ++ (if view == .withProcess then process ++ " " else "") ++ stateText ending
    put (shown ++ String.ofList (List.replicate (Max.max 1 (33 - shown.length)) ' ') ++ "\n")
    if ending.isSome then
      modify fun s => { s with jobs := s.jobs.filter fun other => other.number != job.number }

def tellJobs (arguments : List String) : Act m Nat := do
  let (options, names) ← optionsOf ['l', 'p'] [] arguments
  let view :=
    match options.getLast?.map (·.1) with
    | none => JobView.plain
    | some 'l' => .withProcess
    | some _ => .processOnly
  if names.isEmpty then
    for job in (← get).jobs do
      tellJob view job
  else
    for name in names do
      tellJob view (← jobOf (some name))
  pure 0

/-- Brings a job to the foreground or lets it go on, which is not possible. -/
def resume (arguments : List String) : Act m Nat := do
  let name := (← withoutOptions arguments).head?
  let _ ← jobOf name
  fail ("job " ++ name.getD "(null)" ++ " not created under job control")

/-! ## Signals -/

/-- How `kill` is used. -/
def killUsage : String :=
  "Usage: kill [-s sigspec | -signum | -sigspec] [pid | job]... or\nkill -l [exitstatus]"

def strike (signal process : Nat) : Act m Unit :=
  modify fun s =>
    match s.world.waiting.find? fun waiting => waiting.process == process with
    | none => s
    | some waiting =>
      let passes := signal == 0 || Signal.isHarmless signal && !Signal.isFinal signal
        || waiting.interior.ignored.contains signal
        || waiting.interior.traps.lookup signal == some ""
      if passes then s
      else
        { s with
          world :=
            { s.world with
              waiting := s.world.waiting.filter fun other => other.process != process
              endings := (process, some (.killed signal)) :: s.world.endings } }

/-- Sends a signal to a process; the answer is whether there is one. A process outside is not touched. -/
def signalTo (signal process : Nat) : Act m Bool := do
  let s ← get
  if s.world.waiting.any fun waiting => waiting.process == process then
    strike signal process
    pure true
  else if s.world.alive.contains process then
    changeWorld fun w => { w with signals := w.signals ++ [(process, signal)] }
    pure true
  else
    match s.jobs.find? fun job => job.process == process with
    | none => pure (process ≤ 1)
    | some job =>
      let ending ← endingOf? job
      if ending.isNone then
        changeWorld fun w => { w with endings := (process, some (.killed signal)) :: w.endings }
      pure !job.isReaped

/-- Sends a signal to what an argument means; the answer is whether there is something. -/
def signalToTarget (signal : Nat) (target : String) : Act m Bool := do
  match target.toList with
  | '%' :: _ =>
    let _ ← jobOf (some target)
    pure false
  | '-' :: rest => do pure ((← countOf (String.ofList rest)) == 1)
  | _ => do
    let process ← countOf target
    if process = 0 then
      for process in (← get).world.alive do
        let _ ← signalTo signal process
      pure true
    else signalTo signal process

def tellSignals : List String → Act m Nat
  | [] => do
    putLine "0"
    for name in Signal.names.drop 1 do
      putLine name
    pure 0
  | text :: _ => do
    let number ← countOf text
    let signal := if 128 < number then number - 128 else number
    if signal = 0 || Signal.names.length ≤ signal then
      fail ("invalid signal number or exit status: " ++ text)
    putLine (Signal.name signal)
    pure 0

/-- What `kill` is told by its arguments: the signal, whether names are asked for, and the targets. -/
def killPlan (arguments : List String) : Act m (Option Nat × Bool × List String) := do
  match arguments with
  | [] => fail killUsage
  | first :: rest =>
    match first.toList with
    | '-' :: name =>
      match Signal.ofText? 1 (String.ofList name) with
      | some signal => pure (some signal, false, rest)
      | none =>
        let (options, rest) ← optionsOf ['l', 's'] ['s'] arguments
        let names := (options.filter fun entry => entry.1 == 's').map (·.2)
        let signals ← names.mapM fun name =>
          match Signal.ofText? 1 name with
          | some signal => pure signal
          | none => fail ("invalid signal number or name: " ++ name)
        pure (signals.getLast?, options.any fun entry => entry.1 == 'l', rest)
    | _ => pure (none, false, arguments)

def kill (arguments : List String) : Act m Nat := do
  let (named, tells, targets) ← killPlan arguments
  let signal := named.or (if tells then none else some Signal.terminate)
  if (signal.isNone || targets.isEmpty) != tells then fail killUsage
  if tells then tellSignals targets
  else
    let reached ← targets.mapM fun target => do
      let isReached ← signalToTarget (signal.getD Signal.terminate) target
      if !isReached then complain "No such process\n"
      pure isReached
    receiveAll
    pure (if reached.contains false then 1 else 0)

end Montage.Shell.Builtin
