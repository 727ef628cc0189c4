import Montage.Number.Layout
import Montage.Repair
import Montage.Stored.Timeline

/-!
Contract: reading a timeline that another program, an older version or a person wrote.

Owns: the replacement of missing and unusable parts by defaults, and `Timeline.load?`.

Does **not** own: the mending of numbers that are out of bounds (`Montage.Repair`), which is done on
everything that is read here.

A number may be absent, `null`, a text, or of another type altogether; it is then replaced. The types of
the other parts are strict.
-/

set_option autoImplicit false

namespace Montage

variable {α : Type} [Scalar α]

open Json (members? defaulted optional)

namespace Forgiving

def looseNumber : Json α → Option α
  | .whole n => some (Scalar.ofInt n)
  | .real x => some x
  | .string s => Layout.read? (Text.trim s)
  | _ => none

/-- A finite number, if the value holds one; fails on what stands for no value. -/
def number? (j : Json α) : Option (Option α) :=
  if j.isReadable then some ((looseNumber j).filter Scalar.isFinite) else none

def numberField (members : Json.Members α) (name : String) : Option (Option α) :=
  defaulted members name none number?

/-- An element that still lacks its identity, unless one was stored. -/
structure Draft (β : Type) where
  id : Option Identity
  withId : Identity → β

/-- Gives each draft its identity, a stored one or a fresh one. -/
def complete {β : Type} (supply : IdSupply) : List (Draft β) → List β × IdSupply
  | [] => ([], supply)
  | draft :: rest =>
    match draft.id with
    | some id =>
      let (others, left) := complete supply rest
      (draft.withId id :: others, left)
    | none =>
      let (others, left) := complete (supply.advance 1) rest
      (draft.withId supply.next :: others, left)

def id? (text : Option String) : Option Identity := text.bind Identity.read?

/-- A position between elements of the picture, from any number. -/
def zIndex (z : Option α) : Int32 :=
  match z with
  | some z => Int32.ofInt (Scalar.roundWithin (-0x80000000) 0x7FFFFFFF z)
  | none => 0

def crop? (width height : α) (j : Json α) : Option (Crop α) := do
  let m ← members? (Json.defaultedFields ["x", "y", "width", "height"]) j
  some
    { x := (← numberField m "x").getD 0
      y := (← numberField m "y").getD 0
      width := (← numberField m "width").getD width
      height := (← numberField m "height").getD height }

def clip? (j : Json α) : Option (Draft (Clip α)) := do
  let m ← members? (Clip.fields.map fun field => { field with mayEnd := true }) j
  let id ← optional m "id" Json.string?
  let asset ← optional m "asset_ref" Json.string?
  let kind ← optional m "media_kind" (MediaKind.ofJson? false)
  let fileName ← optional m "file_name" Json.string?
  let sourceDuration :=
    ((← numberField m "source_duration").filter fun d => decide (0 < d)).getD defaultMediaDuration
  let sourceIn := (← numberField m "source_in").getD 0
  let sourceOut := (← numberField m "source_out").getD sourceDuration
  let timelineStart := (← numberField m "timeline_start").getD 0
  let timelineEnd := (← numberField m "timeline_end").getD (timelineStart + (sourceOut - sourceIn))
  let x := (← numberField m "x").getD 0
  let y := (← numberField m "y").getD 0
  let width := (← numberField m "width").getD 1920
  let height := (← numberField m "height").getD 1080
  let rotation := (← numberField m "rotation_deg").getD 0
  let opacity := (← numberField m "opacity_percent").getD 100
  let z := zIndex (← numberField m "z_index")
  let crop ← optional m "crop_rect" (crop? width height)
  let volume := (← numberField m "volume_percent").getD 100
  some
    { id := id? id
      withId := fun id =>
        Clip.repair
          { id, sourceDuration, sourceIn, sourceOut, timelineStart, timelineEnd, x, y, width, height,
            rotation, opacity, crop, volume
            asset := asset.getD ""
            kind := kind.getD .video
            fileName := fileName.getD ""
            zIndex := z } }

def overlay? (j : Json α) : Option (Draft (Overlay α)) := do
  let m ← members? (Overlay.fields.map fun field => { field with mayEnd := true }) j
  let id ← optional m "id" Json.string?
  let text ← optional m "text" Json.string?
  let timelineStart := (← numberField m "timeline_start").getD 0
  let timelineEnd := (← numberField m "timeline_end").getD (timelineStart + defaultTextDuration)
  let x := (← numberField m "x").getD 600
  let y := (← numberField m "y").getD 500
  let font ← optional m "font_family" Json.string?
  let fontSize := (← numberField m "font_size_px").getD 24
  let color ← optional m "color" Json.string?
  let opacity := (← numberField m "opacity_percent").getD 100
  let z := zIndex (← numberField m "z_index")
  some
    { id := id? id
      withId := fun id =>
        Overlay.repair
          { id, timelineStart, timelineEnd, x, y, fontSize, opacity
            text := text.getD ""
            fontFamily :=
              (font.filter fun font => !Text.isBlankText font).getD Overlay.defaultFont
            color := (color.bind fun s => (Color.read s).toOption).getD .white
            zIndex := z } }

def frameRate (rate : Option α) : UInt32 :=
  match rate with
  | some rate =>
    if 1 ≤ rate ∧ rate ≤ 240 then UInt32.ofNat (Scalar.roundWithin 0 0xFFFFFFFF rate).toNat
    else standardFrameRate
  | none => standardFrameRate

end Forgiving

/-- Reads a timeline and mends it. Elements without a usable identity take one from the supply. -/
def Timeline.load? (supply : IdSupply) (j : Json α) : Option (Timeline α × IdSupply) := do
  let m ← members? (Timeline.fields.map fun field => { field with mayEnd := true }) j
  let version ← optional m "version" Json.string?
  let rate ← Forgiving.numberField m "frame_rate"
  let canvas ← optional m "canvas" Canvas.ofJson?
  let clips ← defaulted m "clips" [] (Json.array? Forgiving.clip?)
  let overlays ← defaulted m "overlays" [] (Json.array? Forgiving.overlay?)
  let (clips, supply) := Forgiving.complete supply clips
  let (overlays, supply) := Forgiving.complete supply overlays
  let read : Timeline α :=
    { version := version.getD "1.0"
      frameRate := Forgiving.frameRate rate
      canvas := canvas.getD .standard
      clips
      overlays }
  some (read.repair, supply)

end Montage
