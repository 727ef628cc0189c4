import Montage.Stored.Element
import Montage.Timeline
import Montage.Mapping

/-!
Contract: timelines and zoom levels in files.

Owns: their JSON values and the strict reading of them.
-/

set_option autoImplicit false

namespace Montage

variable {α : Type} [Scalar α]

open Json (members? required defaulted)

namespace Canvas

def fields : List Json.Field := Json.requiredFields ["width", "height"]

def toJson (c : Canvas) : Json α :=
  .object [("width", .whole c.width.toNat), ("height", .whole c.height.toNat)]

def ofJson? (j : Json α) : Option Canvas := do
  let m ← members? fields j
  some { width := ← required m "width" Json.uint32?, height := ← required m "height" Json.uint32? }

end Canvas

namespace Timeline

def fields : List Json.Field :=
  Json.requiredFields ["version"]
    ++ Json.defaultedFields ["frame_rate", "canvas", "clips", "overlays"]

def toJson (t : Timeline α) : Json α :=
  .object
    [("version", .string t.version), ("frame_rate", .whole t.frameRate.toNat),
     ("canvas", t.canvas.toJson), ("clips", .array (t.clips.map Clip.toJson)),
     ("overlays", .array (t.overlays.map Overlay.toJson))]

/-- Reads a timeline. All but the version may be absent. -/
def ofJson? (j : Json α) : Option (Timeline α) := do
  let m ← members? fields j
  some
    { version := ← required m "version" Json.string?
      frameRate := ← defaulted m "frame_rate" standardFrameRate Json.uint32?
      canvas := ← defaulted m "canvas" Canvas.standard Canvas.ofJson?
      clips := ← defaulted m "clips" [] (Json.array? (Clip.ofJson? false))
      overlays := ← defaulted m "overlays" [] (Json.array? Overlay.ofJson?) }

end Timeline

namespace Zoom

def toJson (z : Zoom α) : Json α := Json.ofScalar z.pixelsPerSecond

def ofJson? (j : Json α) : Option (Zoom α) := j.scalar?.bind Zoom.ofScale?

end Zoom

end Montage
