import Montage.Edit.Command
import Montage.Stored.Element

/-!
Contract: editing commands in files.

Owns: the JSON values of commands and patches and the strict reading of them.

A command carries its kind in the member `op`, or as the first item when it is an array. It is taken in
as a whole before its fields are read, so that even its unknown members must stand for something.
-/

set_option autoImplicit false

namespace Montage

variable {α : Type} [Scalar α]

open Json (members? required optional)

namespace ClipPatch

def fields : List Json.Field :=
  Json.defaultedFields
    ["x", "y", "width", "height", "rotation_deg", "opacity_percent", "volume_percent", "z_index",
     "crop_rect"]

/-- The value of a patch. A change that takes the crop away has no value of its own. -/
def toJson (p : ClipPatch α) : Json α :=
  .object
    [("x", Json.ofOption Json.ofScalar p.x), ("y", Json.ofOption Json.ofScalar p.y),
     ("width", Json.ofOption Json.ofScalar p.width),
     ("height", Json.ofOption Json.ofScalar p.height),
     ("rotation_deg", Json.ofOption Json.ofScalar p.rotation),
     ("opacity_percent", Json.ofOption Json.ofScalar p.opacity),
     ("volume_percent", Json.ofOption Json.ofScalar p.volume),
     ("z_index", Json.ofOption zIndexToJson p.zIndex),
     ("crop_rect", Json.ofOption (Json.ofOption Crop.toJson) p.crop)]

def ofJson? (j : Json α) : Option (ClipPatch α) := do
  let m ← members? fields j
  some
    { x := ← optional m "x" Json.scalar?
      y := ← optional m "y" Json.scalar?
      width := ← optional m "width" Json.scalar?
      height := ← optional m "height" Json.scalar?
      rotation := ← optional m "rotation_deg" Json.scalar?
      opacity := ← optional m "opacity_percent" Json.scalar?
      volume := ← optional m "volume_percent" Json.scalar?
      zIndex := ← optional m "z_index" Json.int32?
      crop := ← optional m "crop_rect" (Json.nullable Crop.ofJson?) }

end ClipPatch

namespace TextPatch

def fields : List Json.Field :=
  Json.defaultedFields
    ["text", "x", "y", "font_family", "font_size_px", "color", "opacity_percent", "z_index"]

def toJson (p : TextPatch α) : Json α :=
  .object
    [("text", Json.ofOption .string p.text), ("x", Json.ofOption Json.ofScalar p.x),
     ("y", Json.ofOption Json.ofScalar p.y), ("font_family", Json.ofOption .string p.fontFamily),
     ("font_size_px", Json.ofOption Json.ofScalar p.fontSize),
     ("color", Json.ofOption Color.toJson p.color),
     ("opacity_percent", Json.ofOption Json.ofScalar p.opacity),
     ("z_index", Json.ofOption zIndexToJson p.zIndex)]

def ofJson? (j : Json α) : Option (TextPatch α) := do
  let m ← members? fields j
  some
    { text := ← optional m "text" Json.string?
      x := ← optional m "x" Json.scalar?
      y := ← optional m "y" Json.scalar?
      fontFamily := ← optional m "font_family" Json.string?
      fontSize := ← optional m "font_size_px" Json.scalar?
      color := ← optional m "color" Color.ofJson?
      opacity := ← optional m "opacity_percent" Json.scalar?
      zIndex := ← optional m "z_index" Json.int32? }

end TextPatch

namespace Command

/-- The value of a command of a kind that names an element and carries further members. -/
def tagged (op : String) (id : Identity) (members : Json.Members α) : Json α :=
  .object (("op", .string op) :: ("id", id.toJson) :: members)

def toJson : Command α → Json α
  | .addClip c => .object [("op", .string "add_clip"), ("clip", c.toJson)]
  | .addText o => .object [("op", .string "add_text"), ("overlay", o.toJson)]
  | .split id position => tagged "split" id [("at", Json.ofScalar position)]
  | .duplicate id => tagged "duplicate" id []
  | .delete id => tagged "delete" id []
  | .trimStart id request => tagged "trim_start" id [("source_in", Json.ofScalar request)]
  | .trimEnd id request => tagged "trim_end" id [("source_out", Json.ofScalar request)]
  | .clearTrim id => tagged "clear_trim" id []
  | .reposition id start => tagged "reposition" id [("timeline_start", Json.ofScalar start)]
  | .resizeRight id request => tagged "resize_right" id [("timeline_end", Json.ofScalar request)]
  | .updateClip id patch => tagged "update_clip" id [("patch", patch.toJson)]
  | .updateText id patch => tagged "update_text" id [("patch", patch.toJson)]

/-- The kind of a command and the value of its fields. -/
def tag? : Json α → Option (String × Json α)
  | .object members =>
    match members.filter fun member => member.1 == "op" with
    | [(_, .string op)] => some (op, .object (members.filter fun member => member.1 != "op"))
    | _ => none
  | .array (.string op :: rest) => some (op, .array rest)
  | _ => none

def idOnly (make : Identity → Command α) (j : Json α) : Option (Command α) := do
  let m ← members? (Json.requiredFields ["id"]) j
  some (make (← required m "id" Identity.ofJson?))

def idAnd {β : Type} (make : Identity → β → Command α) (name : String) (read : Json α → Option β)
    (j : Json α) : Option (Command α) := do
  let m ← members? (Json.requiredFields ["id", name]) j
  some (make (← required m "id" Identity.ofJson?) (← required m name read))

def only {β : Type} (make : β → Command α) (name : String) (read : Json α → Option β) (j : Json α) :
    Option (Command α) := do
  let m ← members? (Json.requiredFields [name]) j
  some (make (← required m name read))

def ofFields? (op : String) (j : Json α) : Option (Command α) :=
  if op = "add_clip" then only .addClip "clip" (Clip.ofJson? true) j
  else if op = "add_text" then only .addText "overlay" Overlay.ofJson? j
  else if op = "split" then idAnd .split "at" Json.scalar? j
  else if op = "duplicate" then idOnly .duplicate j
  else if op = "delete" then idOnly .delete j
  else if op = "trim_start" then idAnd .trimStart "source_in" Json.scalar? j
  else if op = "trim_end" then idAnd .trimEnd "source_out" Json.scalar? j
  else if op = "clear_trim" then idOnly .clearTrim j
  else if op = "reposition" then idAnd .reposition "timeline_start" Json.scalar? j
  else if op = "resize_right" then idAnd .resizeRight "timeline_end" Json.scalar? j
  else if op = "update_clip" then idAnd .updateClip "patch" ClipPatch.ofJson? j
  else if op = "update_text" then idAnd .updateText "patch" TextPatch.ofJson? j
  else none

def ofJson? (j : Json α) : Option (Command α) :=
  if j.isReadable then (tag? j).bind fun (op, fields) => ofFields? op fields else none

end Command

end Montage
