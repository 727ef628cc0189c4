import Montage.Engine.Progress
import Montage.Engine.Staging

/-!
Contract: running the engine.

Owns: the run of a job, and the questions whether a tool is there and which version it is.

However a run ends, the staged inputs are taken away. A run that is cancelled from the start makes no
report.
-/

set_option autoImplicit false

namespace Montage.Engine

open Render (Job)

variable {α : Type} [Scalar α] {m : Type → Type} [Monad m] [Host m]

def sendAll (send : Progress α → m Unit) : List (Progress α) → m Unit
  | [] => pure ()
  | report :: rest => do
    send report
    sendAll send rest

def runJob (program : String) (expected : α) (arguments : List String)
    (send : Progress α → m Unit) (cancelled : Bool) : m (Except Failure Unit) := do
  match ← Host.run program arguments with
  | .error e => pure (.error (.render ("Failed to start ffmpeg: " ++ e.message)))
  | .ok finished =>
    if cancelled then pure (.error .cancelled)
    else
      let (reports, failure) := outcome expected finished
      sendAll send reports
      match failure with
      | some failure => pure (.error failure)
      | none => pure (.ok ())

def runStaged (program : String) (job : Job α) (output : Path) (send : Progress α → m Unit)
    (cancelled : Bool) (paths : List Path) : m (Except Failure Path) := do
  match job.arguments (paths.map Path.bytes) output.bytes with
  | .error failure => pure (.error failure)
  | .ok arguments =>
    match ← runJob program job.encoding.totalDuration arguments send cancelled with
    | .error failure => pure (.error failure)
    | .ok () => pure (.ok output)

/-- Runs a job with a program as the engine and sends its reports; the answer is the path of the
output. -/
def execute (program : String) (job : Job α) (output : Path) (send : Progress α → m Unit)
    (cancelled : Bool) : m (Except Failure Path) := do
  let (refused, staged) ← stageInputs .nothing job.inputs
  let result ←
    match refused with
    | some e => pure (.error (.disk e.message))
    | none => runStaged program job output send cancelled staged.paths
  staged.discard
  pure result

/-- The text that asks the command interpreter whether it knows a command. What is asked for stands in it
as it is, with all its meaning. -/
def question (program : String) : String := "command -v " ++ program ++ " >/dev/null 2>&1"

/-- Whether a tool is there: a path has to lead to a file, and of any other text the command interpreter
has to say that it knows the command. -/
def exists? (program : String) : m Bool := do
  if program.toList.contains '/' then Host.isFile ⟨program⟩
  else
    match ← Host.interpret (question program) with
    | .ok status => pure status.isSuccess
    | .error _ => pure false

/-- The first line of a text; none if there is no text. -/
def firstLine? (text : String) : Option String :=
  if text.isEmpty then none
  else some (Text.trim (String.ofList (text.toList.takeWhile (· != '\n'))))

def version? (program : String) : m (Option String) := do
  match ← Host.run program ["-version"] with
  | .error _ => pure none
  | .ok finished =>
    if finished.status.isSuccess then pure ((textOf? finished.output).bind firstLine?) else pure none

end Montage.Engine
