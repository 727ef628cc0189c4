import Montage.Project.Record
import Montage.Stored.Element

/-!
Contract: projects, assets and settings in files.

Owns: their JSON values and the strict reading of them.
-/

set_option autoImplicit false

namespace Montage

variable {α : Type} [Scalar α]

open Json (members? required defaulted optional)

namespace Asset

def fields : List Json.Field :=
  Json.requiredFields ["asset_ref", "file_name", "path", "mime"]
    ++ Json.defaultedFields ["duration_secs", "has_audio"]

def toJson (a : Asset α) : Json α :=
  .object
    [("asset_ref", .string a.ref), ("file_name", .string a.fileName), ("path", .string a.path),
     ("mime", .string a.mime), ("duration_secs", Json.ofOption Json.ofScalar a.duration),
     ("has_audio", .bool a.hasAudio)]

/-- Reads an asset. Length and sound may be absent. -/
def ofJson? (j : Json α) : Option (Asset α) := do
  let m ← members? fields j
  some
    { ref := ← required m "asset_ref" Json.string?
      fileName := ← required m "file_name" Json.string?
      path := ← required m "path" Json.string?
      mime := ← required m "mime" Json.string?
      duration := ← optional m "duration_secs" Json.scalar?
      hasAudio := ← defaulted m "has_audio" false Json.bool? }

end Asset

def Quality.toJson (q : Quality) : Json α := .string q.name

def Quality.ofJson? (j : Json α) : Option Quality := j.name? false Quality.ofName?

def Speed.toJson (s : Speed) : Json α := .string s.name

def Speed.ofJson? (j : Json α) : Option Speed := j.name? false Speed.ofName?

namespace ExportSettings

def fields : List Json.Field := Json.defaultedFields ["quality", "speed", "audio_bitrate_kbps"]

def toJson (s : ExportSettings) : Json α :=
  .object
    [("quality", s.quality.toJson), ("speed", s.speed.toJson),
     ("audio_bitrate_kbps", .whole s.audioBitrate.toNat)]

def ofJson? (j : Json α) : Option ExportSettings := do
  let m ← members? fields j
  let usual : ExportSettings := {}
  some
    { quality := ← defaulted m "quality" usual.quality Quality.ofJson?
      speed := ← defaulted m "speed" usual.speed Speed.ofJson?
      audioBitrate := ← defaulted m "audio_bitrate_kbps" usual.audioBitrate Json.uint32? }

end ExportSettings

def Timestamp.toJson (t : Timestamp) : Json α := .string t.text

def Timestamp.ofJson? (j : Json α) : Option Timestamp := j.string?.bind Timestamp.read?

namespace Project

def fields : List Json.Field :=
  Json.requiredFields ["version", "name", "id", "created_at", "modified_at"]
    ++ Json.defaultedFields ["assets", "export"]

def toJson (p : Project α) : Json α :=
  .object
    [("version", .string p.version), ("name", .string p.name), ("id", p.id.toJson),
     ("created_at", p.createdAt.toJson), ("modified_at", p.modifiedAt.toJson),
     ("assets", .array (p.assets.map Asset.toJson)), ("export", p.settings.toJson)]

/-- Reads a project. Assets and settings may be absent. -/
def ofJson? (j : Json α) : Option (Project α) := do
  let m ← members? fields j
  some
    { version := ← required m "version" Json.string?
      name := ← required m "name" Json.string?
      id := ← required m "id" Identity.ofJson?
      createdAt := ← required m "created_at" Timestamp.ofJson?
      modifiedAt := ← required m "modified_at" Timestamp.ofJson?
      assets := ← defaulted m "assets" [] (Json.array? Asset.ofJson?)
      settings := ← defaulted m "export" {} ExportSettings.ofJson? }

end Project

end Montage
