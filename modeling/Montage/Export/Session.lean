import Montage.Engine.Progress
import Montage.Export.Report
import Montage.Host
import Montage.Render.Compile

/-!
Contract: exporting a timeline, one export at a time.

Owns: the session and its guard, the stages of a call and of its worker, and the steps from one to the next.

Does **not** own: the engine, whose work lies between the start of a run and its end and is given from
outside (`Montage.Engine.Run`).

A call claims the session before anything else, and from then on has a guard that gives the session back
when it is dropped. The task of the caller keeps the guard until it hands the job to a worker, which keeps
it until the engine has ended. A task that nobody waits for any more drops what it keeps; the worker goes
on. The guard is dropped before the result is on its way, so that another call may claim the session in
between.
-/

set_option autoImplicit false

namespace Montage.Export

open Engine (Progress)
open Render (Job Options Store)

/-- What is to be exported, and where to. -/
structure Request (α : Type) where
  timeline : Timeline α
  assets : Store
  options : Options
  output : Path
  /-- Whether a report is written beside the output. -/
  writesReport : Bool

structure Session where
  busy : Bool
  deriving DecidableEq, Repr

def Session.free : Session := ⟨false⟩

/-- How the engine ends. -/
inductive Ending where
  | delivered (output : Path)
  | failed (failure : Failure)
  /-- The worker breaks, or is dropped before it begins. -/
  | broken (reason : String)
  deriving DecidableEq, Repr

/-- What the end of the engine means for a call. -/
def Ending.result : Ending → Except Failure Path
  | .delivered output => .ok output
  | .failed failure => .error failure
  | .broken reason => .error (.render ("Export task failed: " ++ reason))

/-- What the task of a call does next. -/
inductive Stage (α : Type) where
  /-- Claims the session. -/
  | arriving
  | compiling
  /-- Makes the directory of the output. -/
  | preparing (job : Job α)
  /-- Writes the report. -/
  | documenting (job : Job α)
  /-- Sends the first report of progress. -/
  | announcing (job : Job α)
  /-- Hands the job to a worker. -/
  | starting (job : Job α)
  /-- Waits for the worker. -/
  | waiting
  /-- Drops what it keeps and returns. -/
  | leaving (result : Except Failure Path)
  | ended (result : Except Failure Path)
  /-- Nothing, for nobody waits for it any more. -/
  | dropped

/-- What the worker of a call does next. -/
inductive Worker (α : Type) where
  | absent
  | queued (job : Job α)
  /-- Waits for the engine, which is at work. -/
  | working (job : Job α)
  /-- Drops what it keeps. -/
  | leaving (ending : Ending)
  | done (ending : Ending)

/-- Who keeps the guard of a call. -/
inductive Keeper where
  | task
  | worker
  deriving DecidableEq, Repr

/-- How far a call is. -/
structure Course (α : Type) where
  stage : Stage α
  worker : Worker α
  /-- Who keeps the guard of the session, if the call has it. -/
  guard : Option Keeper

namespace Course

variable {α : Type}

/-- A call that has done nothing yet. -/
def arriving : Course α := ⟨.arriving, .absent, none⟩

/-- Drops the guard if it is with the keeper; the session is then free. -/
def dropGuard (keeper : Keeper) (session : Session) (c : Course α) : Session × Course α :=
  if c.guard = some keeper then (.free, { c with guard := none }) else (session, c)

def claim (session : Session) (c : Course α) : Session × Course α :=
  if session.busy then (session, { c with stage := .leaving (.error .busy) })
  else (⟨true⟩, { c with stage := .compiling, guard := some .task })

/-- Hands a job to a worker, and the guard with it. -/
def handOver (job : Job α) (c : Course α) : Course α :=
  { stage := .waiting, worker := .queued job, guard := c.guard.map fun _ => .worker }

/-- Takes over what the worker has come to, if it is done. -/
def collect (c : Course α) : Course α :=
  match c.worker with
  | .done ending => { c with stage := .leaving ending.result }
  | _ => c

/-- Drops the guard of the task, or returns when there is nothing to drop. -/
def leave (result : Except Failure Path) (session : Session) (c : Course α) : Session × Course α :=
  if c.guard = some .task then c.dropGuard .task session
  else (session, { c with stage := .ended result })

/-- One step of the worker, unless the engine is at work. It is done when there is nothing to drop. -/
def work (session : Session) (c : Course α) : Session × Course α :=
  match c.worker with
  | .queued job => (session, { c with worker := .working job })
  | .leaving ending =>
    if c.guard = some .worker then c.dropGuard .worker session
    else (session, { c with worker := .done ending })
  | _ => (session, c)

/-- The end of the engine. -/
def conclude (ending : Ending) (c : Course α) : Course α :=
  match c.worker with
  | .working _ => { c with worker := .leaving ending }
  | _ => c

/-- The loss of a worker that has not begun. -/
def discard (reason : String) (c : Course α) : Course α :=
  match c.worker with
  | .queued _ => { c with worker := .leaving (.broken reason) }
  | _ => c

/-- The loss of the task. -/
def abandon (session : Session) (c : Course α) : Session × Course α :=
  match c.stage with
  | .ended _ | .dropped => (session, c)
  | _ => { c with stage := .dropped }.dropGuard .task session

variable [Scalar α] {m : Type → Type} [Monad m] [Host m]

/-- Makes the directory of an output, if it is named. -/
def prepare (output : Path) : m (Except DiskError Unit) :=
  match output.parent? with
  | some directory =>
    if directory.text.isEmpty then pure (.ok ()) else Host.makeDirectories directory
  | none => pure (.ok ())

/-- Writes the report of a job. An export does not fail for want of it. -/
def document (request : Request α) (job : Job α) : m Unit := do
  if request.writesReport then
    let _ ← Host.writeText (reportPath request.output) (reportText job request.output)
    pure ()

/-- One step of the task. A task that waits goes on when its worker is done; one whose compilation does not
end goes on compiling. -/
def step (request : Request α) (send : Progress α → m Unit) (session : Session) (c : Course α) :
    m (Session × Course α) :=
  match c.stage with
  | .arriving => pure (c.claim session)
  | .compiling =>
    match Render.compile request.timeline request.assets request.options with
    | none => pure (session, c)
    | some (.error e) => pure (session, { c with stage := .leaving (.error e.failure) })
    | some (.ok job) => pure (session, { c with stage := .preparing job })
  | .preparing job => do
    match ← prepare request.output with
    | .error e => pure (session, { c with stage := .leaving (.error (.disk e.message)) })
    | .ok () => pure (session, { c with stage := .documenting job })
  | .documenting job => do
    document request job
    pure (session, { c with stage := .announcing job })
  | .announcing job => do
    send .beginning
    pure (session, { c with stage := .starting job })
  | .starting job => pure (session, c.handOver job)
  | .waiting => pure (session, c.collect)
  | .leaving result => pure (c.leave result session)
  | .ended _ | .dropped => pure (session, c)

def steps (request : Request α) (send : Progress α → m Unit) :
    Nat → Session → Course α → m (Session × Course α)
  | 0, session, c => pure (session, c)
  | count + 1, session, c => do
    let (session, c) ← step request send session c
    steps request send count session c

/-- A worker from its beginning to its end, if there is one. -/
def workOff (engine : Job α → m Ending) (session : Session) (c : Course α) : m (Session × Course α) :=
  match c.worker with
  | .queued job => do
    let (session, c) := c.work session
    let ending ← engine job
    let (session, c) := (c.conclude ending).work session
    pure (c.work session)
  | _ => pure (session, c)

/-- The number of steps after which a task has ended, or waits for its worker. -/
def stepsToWorker : Nat := 6

def stepsToEnd : Nat := 2

end Course

variable {α : Type} [Scalar α] {m : Type → Type} [Monad m] [Host m]

/-- A whole call with an engine that nobody interferes with; none if its compilation does not end. -/
def perform (request : Request α) (send : Progress α → m Unit) (engine : Job α → m Ending)
    (session : Session) : m (Option (Session × Except Failure Path)) := do
  let (session, c) ← Course.steps request send Course.stepsToWorker session .arriving
  let (session, c) ← c.workOff engine session
  let (session, c) ← Course.steps request send Course.stepsToEnd session c
  match c.stage with
  | .ended result => pure (some (session, result))
  | _ => pure none

end Montage.Export
