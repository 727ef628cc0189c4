import Montage.Json.Record
import Montage.Overlay

/-!
Contract: clips and overlays in files.

Owns: the JSON values of clips, crops, overlays, colours and identities, and the strict reading of them.

Does **not** own: the forgiving reading of a timeline that another program wrote
(`Montage.Stored.Forgiving`).
-/

set_option autoImplicit false

namespace Montage

variable {α : Type} [Scalar α]

open Json (members? required defaulted optional)

def Identity.toJson (id : Identity) : Json α := .string id.text

def Identity.ofJson? (j : Json α) : Option Identity := j.string?.bind Identity.read?

def Color.toJson (c : Color) : Json α := .string c.text

def Color.ofJson? (j : Json α) : Option Color := j.string?.bind fun s => (Color.read s).toOption

def MediaKind.toJson (kind : MediaKind) : Json α := .string kind.name

def MediaKind.ofJson? (inCommand : Bool) (j : Json α) : Option MediaKind :=
  j.name? inCommand MediaKind.ofName?

/-- The value of a position between elements of the picture. -/
def zIndexToJson (z : Int32) : Json α := .whole z.toInt

namespace Crop

def fields : List Json.Field := Json.requiredFields ["x", "y", "width", "height"]

def toJson (r : Crop α) : Json α :=
  .object
    [("x", Json.ofScalar r.x), ("y", Json.ofScalar r.y), ("width", Json.ofScalar r.width),
     ("height", Json.ofScalar r.height)]

def ofJson? (j : Json α) : Option (Crop α) := do
  let m ← members? fields j
  some
    { x := ← required m "x" Json.scalar?
      y := ← required m "y" Json.scalar?
      width := ← required m "width" Json.scalar?
      height := ← required m "height" Json.scalar? }

end Crop

namespace Clip

def fields : List Json.Field :=
  Json.requiredFields
      ["id", "asset_ref", "media_kind", "file_name", "source_in", "source_out", "source_duration",
       "timeline_start", "timeline_end", "x", "y", "width", "height"]
    ++ Json.defaultedFields ["rotation_deg"] ++ Json.requiredFields ["opacity_percent"]
    ++ Json.defaultedFields ["z_index", "crop_rect"] ++ Json.requiredFields ["volume_percent"]

def toJson (c : Clip α) : Json α :=
  .object
    [("id", c.id.toJson), ("asset_ref", .string c.asset), ("media_kind", c.kind.toJson),
     ("file_name", .string c.fileName), ("source_in", Json.ofScalar c.sourceIn),
     ("source_out", Json.ofScalar c.sourceOut),
     ("source_duration", Json.ofScalar c.sourceDuration),
     ("timeline_start", Json.ofScalar c.timelineStart),
     ("timeline_end", Json.ofScalar c.timelineEnd), ("x", Json.ofScalar c.x),
     ("y", Json.ofScalar c.y), ("width", Json.ofScalar c.width), ("height", Json.ofScalar c.height),
     ("rotation_deg", Json.ofScalar c.rotation), ("opacity_percent", Json.ofScalar c.opacity),
     ("z_index", zIndexToJson c.zIndex), ("crop_rect", Json.ofOption Crop.toJson c.crop),
     ("volume_percent", Json.ofScalar c.volume)]

/-- Reads a clip. Rotation, `z_index` and crop may be absent. -/
def ofJson? (inCommand : Bool) (j : Json α) : Option (Clip α) := do
  let m ← members? fields j
  some
    { id := ← required m "id" Identity.ofJson?
      asset := ← required m "asset_ref" Json.string?
      kind := ← required m "media_kind" (MediaKind.ofJson? inCommand)
      fileName := ← required m "file_name" Json.string?
      sourceIn := ← required m "source_in" Json.scalar?
      sourceOut := ← required m "source_out" Json.scalar?
      sourceDuration := ← required m "source_duration" Json.scalar?
      timelineStart := ← required m "timeline_start" Json.scalar?
      timelineEnd := ← required m "timeline_end" Json.scalar?
      x := ← required m "x" Json.scalar?
      y := ← required m "y" Json.scalar?
      width := ← required m "width" Json.scalar?
      height := ← required m "height" Json.scalar?
      rotation := ← defaulted m "rotation_deg" 0 Json.scalar?
      opacity := ← required m "opacity_percent" Json.scalar?
      zIndex := ← defaulted m "z_index" 0 Json.int32?
      crop := ← optional m "crop_rect" Crop.ofJson?
      volume := ← required m "volume_percent" Json.scalar? }

end Clip

namespace Overlay

def fields : List Json.Field :=
  Json.requiredFields
      ["id", "text", "timeline_start", "timeline_end", "x", "y", "font_family", "font_size_px",
       "color", "opacity_percent"]
    ++ Json.defaultedFields ["z_index"]

def toJson (o : Overlay α) : Json α :=
  .object
    [("id", o.id.toJson), ("text", .string o.text),
     ("timeline_start", Json.ofScalar o.timelineStart),
     ("timeline_end", Json.ofScalar o.timelineEnd), ("x", Json.ofScalar o.x),
     ("y", Json.ofScalar o.y), ("font_family", .string o.fontFamily),
     ("font_size_px", Json.ofScalar o.fontSize), ("color", o.color.toJson),
     ("opacity_percent", Json.ofScalar o.opacity), ("z_index", zIndexToJson o.zIndex)]

/-- Reads an overlay. Its `z_index` may be absent. -/
def ofJson? (j : Json α) : Option (Overlay α) := do
  let m ← members? fields j
  some
    { id := ← required m "id" Identity.ofJson?
      text := ← required m "text" Json.string?
      timelineStart := ← required m "timeline_start" Json.scalar?
      timelineEnd := ← required m "timeline_end" Json.scalar?
      x := ← required m "x" Json.scalar?
      y := ← required m "y" Json.scalar?
      fontFamily := ← required m "font_family" Json.string?
      fontSize := ← required m "font_size_px" Json.scalar?
      color := ← required m "color" Color.ofJson?
      opacity := ← required m "opacity_percent" Json.scalar?
      zIndex := ← defaulted m "z_index" 0 Json.int32? }

end Overlay

end Montage
