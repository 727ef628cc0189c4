import Montage.Host
import Montage.Json.Reader
import Montage.Json.Record
import Montage.Number.Layout

/-!
Contract: what the prober says on a media file.

Owns: the question put to the prober and the reading of its answer.

An answer that is missing or not understood tells nothing.
-/

set_option autoImplicit false

namespace Montage.Cli

/-- What is known of a media file. -/
structure Probed where
  /-- The length in seconds. -/
  duration : Option Float
  hasAudio : Option Bool

namespace Probed

/-- Nothing known. -/
def nothing : Probed := { duration := none, hasAudio := none }

/-- The arguments of the prober, before the file. -/
def question : List String :=
  ["-v", "error", "-show_entries", "format=duration:stream=codec_type", "-of", "json"]

/-- The length that a text tells: a positive finite number. -/
def durationOf (text : String) : Option Float :=
  (Layout.read? text).filter fun (x : Float) => Scalar.isFinite x && decide (0 < x)

open Json (members? optional defaulted string? array?)

def stream? (j : Json Float) : Option (Option String) := do
  let m ← members? (Json.requiredFields ["codec_type"]) j
  optional m "codec_type" string?

/-- Reads the part on the container: the text of the length. -/
def container? (j : Json Float) : Option (Option String) := do
  let m ← members? (Json.requiredFields ["duration"]) j
  optional m "duration" string?

/-- Reads an answer. -/
def ofJson? (j : Json Float) : Option Probed := do
  let m ← members? (Json.defaultedFields ["streams"] ++ Json.requiredFields ["format"]) j
  let streams ← defaulted m "streams" [] (array? stream?)
  let container ← optional m "format" container?
  some
    { duration := container.join.bind durationOf
      hasAudio := some (streams.contains (some "audio")) }

def ofOutput (output : ByteArray) : Probed :=
  ((Json.readBytes? output).bind ofJson?).getD nothing

variable {m : Type → Type} [Monad m] [Host m]

def ask (prober : String) (file : Path) : m Probed := do
  match ← Host.run prober (question ++ [file.text]) with
  | .error _ => pure nothing
  | .ok finished =>
    if finished.status.isSuccess then pure (ofOutput finished.output) else pure nothing

end Probed

end Montage.Cli
