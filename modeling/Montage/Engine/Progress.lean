import Montage.Failure
import Montage.Number.Layout
import Montage.Program
import Montage.Text.Blank
import Montage.Timemark

/-!
Contract: how the engine tells its progress.

Owns: the meaning of the lines on the engine's output and the reports made of them, and the outcome that
follows from what the engine wrote and how it ended.

Does **not** own: running the engine (`Montage.Engine.Run`).

Every line is a key and a value around the first equals sign. Two keys give the position in microseconds,
one the speed in frames per second; the key `progress` closes a group of lines and makes a report. Other
lines say nothing. Reading stops at a line that is no text.
-/

set_option autoImplicit false

namespace Montage.Engine

/-- A report of progress. -/
structure Progress (α : Type) where
  percent : α
  framesPerSecond : α
  timemark : String
  deriving DecidableEq, Repr

/-- What the engine has told so far. -/
structure Told (α : Type) where
  /-- The position in seconds. -/
  position : α
  framesPerSecond : α
  complete : Bool
  deriving DecidableEq, Repr

variable {α : Type} [Scalar α]

def Told.nothing : Told α := { position := 0, framesPerSecond := 0, complete := false }

/-- A key with its value; none if there is no equals sign. -/
def keyValue? (line : List Char) : Option (String × String) :=
  match line.dropWhile (· != '=') with
  | [] => none
  | _ :: value => some (String.ofList (line.takeWhile (· != '=')), String.ofList value)

/-- Takes in a key with its value. A value that is no number changes nothing. -/
def Told.update (told : Told α) (key value : String) : Told α :=
  if key = "out_time_ms" ∨ key = "out_time_us" then
    match Layout.read? value with
    | some microseconds => { told with position := microseconds / 1000000 }
    | none => told
  else if key = "fps" then
    { told with framesPerSecond := (Layout.read? value).getD told.framesPerSecond }
  else if key = "progress" then { told with complete := value == "end" }
  else told

/-- The part of the expected duration that a position stands for. -/
def fraction (position expected : α) : α :=
  if expected ≤ 0 then 0 else Scalar.clamp (position / expected) 0 1

/-- The report on what was told, given the expected duration. -/
def Told.report (told : Told α) (expected : α) : Progress α :=
  { percent := if told.complete then 100 else fraction told.position expected * 100
    framesPerSecond := told.framesPerSecond
    timemark := Timemark.text told.position }

def Progress.beginning : Progress α :=
  { percent := 0, framesPerSecond := 0, timemark := Timemark.text (0 : α) }

/-- The report that a successful run ends with. -/
def Told.lastReport (told : Told α) (expected : α) : Progress α :=
  { percent := 100, framesPerSecond := told.framesPerSecond, timemark := Timemark.text expected }

/-! ## Lines -/

def lineEnd : UInt8 := 10

/-- The lines of some bytes, without their ends. What follows the last line end is a line unless it is
empty. -/
def lines : List UInt8 → List (List UInt8)
  | [] => []
  | byte :: rest =>
    if byte = lineEnd then [] :: lines rest
    else
      match lines rest with
      | [] => [[byte]]
      | line :: others => (byte :: line) :: others

def lineText? (line : List UInt8) : Option (List Char) :=
  (textOf? ⟨line.toArray⟩).map fun text => Text.trimChars text.toList

/-- What a line adds to what was told, and the report it makes. -/
def Told.hear (told : Told α) (expected : α) (line : List Char) : Told α × Option (Progress α) :=
  match keyValue? line with
  | none => (told, none)
  | some (key, value) =>
    let next := told.update key value
    (next, if key = "progress" then some (next.report expected) else none)

/-- What was understood of the engine's output. -/
structure Heard (α : Type) where
  told : Told α
  reports : List (Progress α)
  /-- Whether every line was text. -/
  isText : Bool
  deriving DecidableEq

def Told.listen (told : Told α) (expected : α) : List (List UInt8) → Heard α
  | [] => { told, reports := [], isText := true }
  | line :: rest =>
    match lineText? line with
    | none => { told, reports := [], isText := false }
    | some text =>
      let (next, report) := told.hear expected text
      let heard := listen next expected rest
      { heard with reports := report.toList ++ heard.reports }

/-! ## Outcome -/

/-- What the engine says on its error output. -/
def errorText (errors : ByteArray) : String :=
  match textOf? errors with
  | some text => text
  | none => "<failed to read ffmpeg stderr: stream did not contain valid UTF-8>"

/-- The reason of a failed run: what the engine says, or its status if it says nothing. -/
def failureReason (finished : Finished) : String :=
  let reason := Text.trim (errorText finished.errors)
  if reason.isEmpty then "ffmpeg exited with " ++ finished.status.text else reason

/-- The reports of a finished run in order, and how it failed, if it did. -/
def outcome (expected : α) (finished : Finished) : List (Progress α) × Option Failure :=
  let heard := Told.nothing.listen expected (lines finished.output.toList)
  if !heard.isText then
    (heard.reports,
      some (.render "Failed reading ffmpeg progress: stream did not contain valid UTF-8"))
  else if !finished.status.isSuccess then (heard.reports, some (.engine (failureReason finished)))
  else (heard.reports ++ [heard.told.lastReport expected], none)

end Montage.Engine
