import Montage.Render.Job
import Montage.Stored.Element

/-!
Contract: render jobs and filter graphs as JSON values.

Owns: the JSON values. They are written for other programs to read and are not read back.
-/

set_option autoImplicit false

namespace Montage

variable {α : Type} [Scalar α]

def PadLabel.toJson (l : PadLabel) : Json α := .string l.name

def StreamKind.toJson : StreamKind → Json α
  | .video => .string "video"
  | .audio => .string "audio"

def Pad.toJson : Pad → Json α
  | .input index stream =>
    .object [("input", .object [("index", .whole index), ("stream", stream.toJson)])]
  | .label l => .object [("label", l.toJson)]

def ArgValue.toJson : ArgValue → Json α
  | .plain s => .object [("kind", .string "plain"), ("value", .string s)]
  | .expression s => .object [("kind", .string "expr"), ("value", .string s)]

def Arg.toJson (a : Arg) : Json α :=
  .object [("key", Json.ofOption .string a.key), ("value", a.value.toJson)]

def Stage.toJson (s : Stage) : Json α :=
  .object [("name", .string s.name), ("args", .array (s.args.map Arg.toJson))]

def Chain.toJson (c : Chain) : Json α :=
  .object
    [("inputs", .array (c.inputs.map Pad.toJson)), ("stages", .array (c.stages.map Stage.toJson)),
     ("outputs", .array (c.outputs.map PadLabel.toJson))]

def FilterGraph.toJson (g : FilterGraph) : Json α :=
  .object [("chains", .array (g.chains.map Chain.toJson))]

namespace Render

/-- The value of an input; how long it is shown is left out where there is nothing to say. -/
def Input.toJson (i : Input α) : Json α :=
  .object
    ([("index", .whole i.index), ("clip_id", i.clipId.toJson), ("local_name", .string i.localName),
      ("mime", .string i.mime), ("is_still_image", .bool i.isStill)]
      ++ (i.hold.map fun seconds => ("hold_duration_secs", Json.ofScalar seconds)).toList)

def OutputMap.toJson (m : OutputMap) : Json α :=
  .object [("video", m.video.toJson), ("audio", Json.ofOption PadLabel.toJson m.audio)]

def Encoding.toJson (e : Encoding α) : Json α :=
  .object
    [("video_codec", .string e.videoCodec), ("profile", .string e.profile),
     ("level", .string e.level), ("pixel_format", .string e.pixelFormat),
     ("preset", .string e.preset), ("crf", .whole e.rateFactor.toNat),
     ("frame_rate", .whole e.frameRate.toNat),
     ("audio_codec", Json.ofOption .string e.audioCodec),
     ("audio_bitrate_kbps", Json.ofOption (fun rate => .whole rate.toNat) e.audioBitrate),
     ("audio_sample_rate", Json.ofOption (fun rate => .whole rate.toNat) e.audioSampleRate),
     ("total_duration_secs", Json.ofScalar e.totalDuration),
     ("output_container_hint", .string e.container)]

def Job.toJson (job : Job α) : Json α :=
  .object
    [("inputs", .array (job.inputs.map Input.toJson)), ("filter_graph", job.graph.toJson),
     ("output_map", job.outputs.toJson), ("encode_params", job.encoding.toJson)]

end Render

end Montage
