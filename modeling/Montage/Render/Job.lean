import Montage.Failure
import Montage.Graph.Basic
import Montage.Number.Layout
import Montage.Render.Source

/-!
Contract: what the transcoding engine is asked to do.

Owns: the render job, the engine's argument list for it, and its summary.

Does **not** own: how a timeline becomes a job (`Montage.Render.Compile`).
-/

set_option autoImplicit false

namespace Montage.Render

/-- A numbered input of the engine. -/
structure Input (α : Type) where
  index : Nat
  clipId : Identity
  /-- The file name under which bytes in memory are written. -/
  localName : String
  mime : String
  isStill : Bool
  /-- How long a still image is shown, in seconds. -/
  hold : Option α
  source : Source
  deriving DecidableEq

/-- The pads that become the streams of the output. -/
structure OutputMap where
  video : PadLabel
  audio : Option PadLabel
  deriving DecidableEq

/-- How the output is encoded. -/
structure Encoding (α : Type) where
  videoCodec : String
  profile : String
  level : String
  pixelFormat : String
  preset : String
  rateFactor : UInt8
  frameRate : UInt32
  audioCodec : Option String
  /-- Kilobits per second. -/
  audioBitrate : Option UInt32
  audioSampleRate : Option UInt32
  totalDuration : α
  container : String
  deriving DecidableEq

/-- A complete render job. -/
structure Job (α : Type) where
  inputs : List (Input α)
  graph : FilterGraph
  outputs : OutputMap
  encoding : Encoding α
  deriving DecidableEq

namespace Job

variable {α : Type} [Scalar α]

def leadingArguments : List String :=
  ["-y", "-hide_banner", "-loglevel", "error", "-nostats", "-progress", "pipe:1"]

/-- The arguments of one input. A still image is repeated for as long as it is shown. -/
def inputArguments (input : Input α) (path : ByteArray) : List String :=
  let still := if input.isStill then ["-loop", "1"] else []
  let hold :=
    match input.isStill, input.hold with
    | true, some seconds => ["-t", Layout.fixed 6 seconds]
    | _, _ => []
  still ++ hold ++ ["-i", Text.Utf8.shown path]

/-- The arguments that choose the graph and its pads. -/
def mapArguments (job : Job α) : List String :=
  ["-filter_complex", job.graph.text, "-map", job.outputs.video.text]
    ++ (match job.outputs.audio with
        | some audio => ["-map", audio.text]
        | none => [])

/-- The arguments on sound. A bitrate and a rate of samples are only asked for if there are any. -/
def audioArguments (job : Job α) : List String :=
  match job.outputs.audio, job.encoding.audioCodec with
  | some _, some codec =>
    let bitrate :=
      match job.encoding.audioBitrate with
      | some bitrate => ["-b:a", toString bitrate.toNat ++ "k"]
      | none => []
    let sampleRate :=
      match job.encoding.audioSampleRate with
      | some rate => ["-ar", toString rate.toNat]
      | none => []
    ["-c:a", codec] ++ bitrate ++ sampleRate
  | _, _ => ["-an"]

def encodingArguments (job : Job α) : List String :=
  let e := job.encoding
  ["-c:v", e.videoCodec, "-profile:v", e.profile, "-level", e.level, "-pix_fmt", e.pixelFormat,
   "-preset", e.preset, "-crf", toString e.rateFactor.toNat, "-r", toString e.frameRate.toNat,
   "-movflags", "+faststart", "-t", Layout.fixed 6 e.totalDuration]
    ++ job.audioArguments

/-- The engine's arguments for a job, given the bytes of the paths of its inputs in order and of the
output. Arguments are texts, so a path is shown in them, with marks in place of bytes that are no text. -/
def arguments (job : Job α) (paths : List ByteArray) (output : ByteArray) :
    Except Failure (List String) :=
  if paths.length = job.inputs.length then
    .ok (leadingArguments
      ++ (job.inputs.zip paths).flatMap (fun (input, path) => inputArguments input path)
      ++ job.mapArguments ++ job.encodingArguments ++ [Text.Utf8.shown output])
  else
    .error (.render ("expected " ++ toString job.inputs.length ++ " input paths, got "
      ++ toString paths.length))

/-- A summary for people, one property a line. -/
def summary (job : Job α) : String :=
  let audio := (job.outputs.audio.map PadLabel.text).getD "none"
  String.join
    ["inputs=", toString job.inputs.length, "\nchains=", toString job.graph.chains.length,
     "\nvideo_pad=", job.outputs.video.text, "\naudio_pad=", audio, "\nduration_secs=",
     Layout.fixed 3 job.encoding.totalDuration, "\npreset=", job.encoding.preset, "\ncrf=",
     toString job.encoding.rateFactor.toNat, "\nfilter_len=",
     toString job.graph.text.utf8ByteSize, "\n"]

end Job

end Montage.Render
