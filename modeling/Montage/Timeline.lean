import Montage.Overlay
import Montage.Text.Blank

/-!
Contract: the editing timeline.

Owns: the timeline record, the look-up of elements by identity or by the beginning of its text, and the
total duration.

Storage order matters for the place of inserted elements and between elements of one `zIndex` only.
-/

set_option autoImplicit false

namespace Montage

/-- The size of the output picture, in pixels. -/
structure Canvas where
  width : UInt32
  height : UInt32
  deriving DecidableEq, Repr

def Canvas.standard : Canvas := ⟨1920, 1080⟩

def standardFrameRate : UInt32 := 30

/-- The clips and overlays of a video. -/
structure Timeline (α : Type) where
  version : String
  frameRate : UInt32
  canvas : Canvas
  clips : List (Clip α)
  overlays : List (Overlay α)
  deriving DecidableEq

/-- An element of either kind. -/
inductive Element (α : Type) where
  | clip (c : Clip α)
  | text (o : Overlay α)

namespace Element

variable {α : Type}

def span : Element α → α × α
  | .clip c => (c.timelineStart, c.timelineEnd)
  | .text o => (o.timelineStart, o.timelineEnd)

def id : Element α → Identity
  | .clip c => c.id
  | .text o => o.id

end Element

namespace Timeline

variable {α : Type}

def empty : Timeline α :=
  { version := "1.0", frameRate := standardFrameRate, canvas := .standard, clips := [], overlays := [] }

def isEmpty (t : Timeline α) : Bool :=
  t.clips.isEmpty && t.overlays.isEmpty

def clip? (t : Timeline α) (id : Identity) : Option (Clip α) :=
  t.clips.find? fun c => c.id == id

def overlay? (t : Timeline α) (id : Identity) : Option (Overlay α) :=
  t.overlays.find? fun o => o.id == id

/-- The first element with an identity, clips before overlays. -/
def element? (t : Timeline α) (id : Identity) : Option (Element α) :=
  match t.clip? id with
  | some c => some (.clip c)
  | none => (t.overlay? id).map .text

/-- The identities of all elements, clips before overlays. -/
def ids (t : Timeline α) : List Identity :=
  t.clips.map (·.id) ++ t.overlays.map (·.id)

/-- The elements, clips before overlays. -/
def elements (t : Timeline α) : List (Element α) :=
  t.clips.map .clip ++ t.overlays.map .text

/-- The element meant by a text: a whole identity, or the beginning of exactly one identity's text in
any letter case. -/
def resolve (t : Timeline α) (needle : String) : Option Identity :=
  match Identity.read? needle with
  | some id => (t.element? id).map fun _ => id
  | none =>
    let start := (Text.lowercase needle).toList
    match t.ids.filter fun id => start.isPrefixOf id.text.toList with
    | [id] => some id
    | _ => none

variable [Scalar α]

/-- The latest finite end of an element, and one second at least. -/
def totalDuration (t : Timeline α) : α :=
  ((t.elements.map fun e => e.span.2).filter Scalar.isFinite).foldl Scalar.max 1

end Timeline

end Montage
