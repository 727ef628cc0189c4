import Montage.Config.Record
import Montage.Json.Record

/-!
Contract: the configuration in its file.

Owns: the JSON value of a configuration and the strict reading of it.
-/

set_option autoImplicit false

namespace Montage

variable {α : Type} [Scalar α]

open Json (members? required defaulted optional)

namespace EditorConfig

def fields : List Json.Field := Json.defaultedFields ["timeline_zoom_px_per_sec", "drag_updates_hz"]

def toJson (c : EditorConfig α) : Json α :=
  .object
    [("timeline_zoom_px_per_sec", Json.ofScalar c.zoom),
     ("drag_updates_hz", .whole c.dragRate.toNat)]

def ofJson? (j : Json α) : Option (EditorConfig α) := do
  let m ← members? fields j
  let usual : EditorConfig α := .usual
  some
    { zoom := ← defaulted m "timeline_zoom_px_per_sec" usual.zoom Json.scalar?
      dragRate := ← defaulted m "drag_updates_hz" usual.dragRate Json.uint32? }

end EditorConfig

namespace EngineConfig

def fields : List Json.Field :=
  Json.defaultedFields
    ["ffmpeg_binary", "ffprobe_binary", "write_debug_report", "stall_warning_secs"]

def toJson (c : EngineConfig) : Json α :=
  .object
    [("ffmpeg_binary", .string c.transcoder), ("ffprobe_binary", .string c.prober),
     ("write_debug_report", .bool c.writesReport),
     ("stall_warning_secs", .whole c.stallSeconds.toNat)]

def ofJson? (j : Json α) : Option EngineConfig := do
  let m ← members? fields j
  let usual : EngineConfig := {}
  some
    { transcoder := ← defaulted m "ffmpeg_binary" usual.transcoder Json.string?
      prober := ← defaulted m "ffprobe_binary" usual.prober Json.string?
      writesReport := ← defaulted m "write_debug_report" usual.writesReport Json.bool?
      stallSeconds := ← defaulted m "stall_warning_secs" usual.stallSeconds Json.uint64? }

end EngineConfig

namespace LogConfig

def fields : List Json.Field := Json.requiredFields ["level", "json", "file"]

def toJson (c : LogConfig) : Json α :=
  .object
    [("level", .string c.level), ("json", .bool c.json), ("file", Json.ofOption .string c.file)]

/-- Reads the logging part. The file may be absent, though not from an array. -/
def ofJson? (j : Json α) : Option LogConfig := do
  let m ← members? fields j
  some
    { level := ← required m "level" Json.string?
      json := ← required m "json" Json.bool?
      file := ← optional m "file" Json.string? }

end LogConfig

namespace Config

def fields : List Json.Field :=
  Json.requiredFields ["projects_dir"] ++ Json.defaultedFields ["editor", "export"]
    ++ Json.requiredFields ["logging"]

def toJson (c : Config α) : Json α :=
  .object
    [("projects_dir", .string c.projectsDirectory), ("editor", c.editor.toJson),
     ("export", c.engine.toJson), ("logging", c.logging.toJson)]

/-- Reads a configuration. The parts on editor and engine may be absent. -/
def ofJson? (j : Json α) : Option (Config α) := do
  let m ← members? fields j
  some
    { projectsDirectory := ← required m "projects_dir" Json.string?
      editor := ← defaulted m "editor" .usual EditorConfig.ofJson?
      engine := ← defaulted m "export" {} EngineConfig.ofJson?
      logging := ← required m "logging" LogConfig.ofJson? }

end Config

end Montage
