import Montage.Edit.Command
import Montage.Edit.Splice

/-!
Contract: what each command does to a timeline.

Owns: `Timeline.apply` and the change that each command makes to its element.

Does **not** own: the mending of elements that are already out of bounds (`Montage.Repair`).

A value out of bounds is moved to the nearest bound, and a value that is no number changes nothing. The
speed of a clip survives every change of its edges: the new placement is computed from the new source
window at the old speed, or the other way round.
-/

set_option autoImplicit false

namespace Montage

variable {α : Type} [Scalar α]

/-- How far a half may stay below the shortest source window. -/
def spanTolerance : α := 1e-9

namespace Clip

/-- The two halves of a clip cut at a timeline position, if the position lies strictly inside and both
halves keep the shortest source window. -/
def halves? (c : Clip α) (first second : Identity) (position : α) : Option (Clip α × Clip α) :=
  if c.timelineStart < position ∧ position < c.timelineEnd then
    let ratio := (position - c.timelineStart) / c.timelineSpan
    let cut := c.sourceIn + ratio * c.sourceSpan
    let least : α := minimumSpan - spanTolerance
    if cut - c.sourceIn < least ∨ c.sourceOut - cut < least then none
    else
      some ({ c with id := first, timelineEnd := position, sourceOut := cut },
        { c with id := second, timelineStart := position, sourceIn := cut })
  else none

/-- Moves the start of the source window; the end of the placement stays. -/
def trimStart (c : Clip α) (request : α) : Clip α :=
  if Scalar.isNaN request then c
  else
    let speed := c.speed
    let latest := c.sourceOut - minimumSpan
    let wanted := Scalar.max (Scalar.min request latest) 0
    let earliest := c.sourceOut - c.timelineEnd * speed
    let sourceIn := if wanted < earliest then Scalar.min earliest latest else wanted
    { c with
      sourceIn
      timelineStart := Scalar.max (c.timelineEnd - (c.sourceOut - sourceIn) / speed) 0 }

/-- Whether a request for an end can be met. An infinite one cannot where nothing bounds it. -/
def acceptsEnd (c : Clip α) (request : α) : Bool :=
  !Scalar.isNaN request && (Scalar.isFinite request || Scalar.isFinite c.sourceLimit)

/-- Moves the end of the source window; the start of the placement stays. -/
def trimEnd (c : Clip α) (request : α) : Clip α :=
  if c.acceptsEnd request then
    let speed := c.speed
    let sourceOut := Scalar.max (Scalar.min request c.sourceLimit) (c.sourceIn + minimumSpan)
    { c with
      sourceOut
      timelineEnd := c.timelineStart + (sourceOut - c.sourceIn) / speed }
  else c

/-- Opens the source window to the whole asset; that of a still image keeps its length. -/
def clearTrim (c : Clip α) : Clip α :=
  let speed := c.speed
  let span :=
    if Scalar.isFinite c.sourceLimit then Scalar.max c.sourceDuration minimumSpan else c.sourceSpan
  { c with sourceIn := 0, sourceOut := span, timelineEnd := c.timelineStart + span / speed }

def reposition (c : Clip α) (start : α) : Clip α :=
  if Scalar.isFinite start then
    let newStart := Scalar.max start 0
    { c with timelineStart := newStart, timelineEnd := newStart + c.timelineSpan }
  else c

/-- Moves the end of the placement; the source window follows at the same speed. -/
def resizeRight (c : Clip α) (request : α) : Clip α :=
  if c.acceptsEnd request then
    let speed := c.speed
    let longest := Scalar.max (c.sourceLimit - c.sourceIn) minimumSpan
    let span := Scalar.max (Scalar.min ((request - c.timelineStart) * speed) longest) minimumSpan
    { c with sourceOut := c.sourceIn + span, timelineEnd := c.timelineStart + span / speed }
  else c

end Clip

namespace Crop

def isFinite (r : Crop α) : Bool :=
  [r.x, r.y, r.width, r.height].all Scalar.isFinite

/-- Whether a crop may be set: finite, not before the corner, at least one pixel in size. -/
def isSettable (r : Crop α) : Bool :=
  r.isFinite && decide (0 ≤ r.x ∧ 0 ≤ r.y ∧ 1 ≤ r.width ∧ 1 ≤ r.height)

end Crop

/-- The requested value if it is finite, fitted by `fit`; else the present one. -/
def changed (request : Option α) (present : α) (fit : α → α) : α :=
  match request with
  | some value => if Scalar.isFinite value then fit value else present
  | none => present

def atLeastOne (x : α) : α := Scalar.max x 1

def percentage (largest x : α) : α := Scalar.clamp x 0 largest

def ClipPatch.apply (p : ClipPatch α) (c : Clip α) : Clip α :=
  { c with
    x := changed p.x c.x id
    y := changed p.y c.y id
    width := changed p.width c.width atLeastOne
    height := changed p.height c.height atLeastOne
    rotation := changed p.rotation c.rotation fun angle => Scalar.remainder angle 360
    opacity := changed p.opacity c.opacity (percentage 100)
    volume := changed p.volume c.volume (percentage maximumVolume)
    zIndex := p.zIndex.getD c.zIndex
    crop :=
      match p.crop with
      | some crop => crop.filter Crop.isSettable
      | none => c.crop }

/-- An overlay with the changes of a patch. A font name must not be blank. -/
def TextPatch.apply (p : TextPatch α) (o : Overlay α) : Overlay α :=
  { o with
    text := p.text.getD o.text
    x := changed p.x o.x id
    y := changed p.y o.y id
    fontFamily := (p.fontFamily.filter fun font => !Text.isBlankText font).getD o.fontFamily
    fontSize := changed p.fontSize o.fontSize atLeastOne
    color := p.color.getD o.color
    opacity := changed p.opacity o.opacity (percentage 100)
    zIndex := p.zIndex.getD o.zIndex }

namespace Overlay

/-- The two halves of an overlay cut strictly inside its placement. -/
def halves? (o : Overlay α) (first second : Identity) (position : α) :
    Option (Overlay α × Overlay α) :=
  if o.timelineStart < position ∧ position < o.timelineEnd then
    some ({ o with id := first, timelineEnd := position },
      { o with id := second, timelineStart := position })
  else none

def reposition (o : Overlay α) (start : α) : Overlay α :=
  if Scalar.isFinite start then
    let newStart := Scalar.max start 0
    { o with timelineStart := newStart, timelineEnd := newStart + o.timelineSpan }
  else o

def resizeRight (o : Overlay α) (request : α) : Overlay α :=
  if Scalar.isFinite request then
    { o with timelineEnd := Scalar.max request (o.timelineStart + minimumSpan) }
  else o

end Overlay

namespace Timeline

def latestEnd (ends : List α) : α := ends.foldl Scalar.max 0

/-- Appends a clip where the last one of its kind ends. -/
def addClip (t : Timeline α) (c : Clip α) : Timeline α :=
  let start := latestEnd ((t.clips.filter fun d => d.kind == c.kind).map (·.timelineEnd))
  { t with
    clips := t.clips ++ [{ c with timelineStart := start, timelineEnd := start + c.timelineSpan }] }

/-- Appends an overlay where the last one ends. -/
def addText (t : Timeline α) (o : Overlay α) : Timeline α :=
  let start := latestEnd (t.overlays.map (·.timelineEnd))
  { t with
    overlays :=
      t.overlays ++ [{ o with timelineStart := start, timelineEnd := start + o.timelineSpan }] }

def spliceClip (t : Timeline α) (id : Identity) (parts : Clip α → List (Clip α)) :
    Option (Timeline α) :=
  (Edit.spliceFirst (fun c => c.id == id) parts t.clips).map fun clips => { t with clips }

def spliceOverlay (t : Timeline α) (id : Identity) (parts : Overlay α → List (Overlay α)) :
    Option (Timeline α) :=
  (Edit.spliceFirst (fun o => o.id == id) parts t.overlays).map fun overlays => { t with overlays }

/-- Puts parts in the place of an element of either kind, a clip if there is one. -/
def spliceElement (t : Timeline α) (id : Identity) (clipParts : Clip α → List (Clip α))
    (overlayParts : Overlay α → List (Overlay α)) : Option (Timeline α) :=
  (t.spliceClip id clipParts).or (t.spliceOverlay id overlayParts)

def changeClip (t : Timeline α) (id : Identity) (change : Clip α → Clip α) :
    Except (EditError α) (Timeline α) :=
  match t.spliceClip id fun c => [change c] with
  | some next => .ok next
  | none => .error (.elementNotFound id)

def changeOverlay (t : Timeline α) (id : Identity) (change : Overlay α → Overlay α) :
    Except (EditError α) (Timeline α) :=
  match t.spliceOverlay id fun o => [change o] with
  | some next => .ok next
  | none => .error (.elementNotFound id)

def replaceElement (t : Timeline α) (id : Identity) (clipParts : Clip α → List (Clip α))
    (overlayParts : Overlay α → List (Overlay α)) : Except (EditError α) (Timeline α) :=
  match t.spliceElement id clipParts overlayParts with
  | some next => .ok next
  | none => .error (.elementNotFound id)

/-- Cuts an element in two, the halves taking the two given identities. -/
def split (t : Timeline α) (id first second : Identity) (position : α) :
    Except (EditError α) (Timeline α) :=
  match t.element? id with
  | none => .error (.elementNotFound id)
  | some element =>
    let refusal := .error (.splitOutOfRange id position element.span.1 element.span.2)
    match element with
    | .clip c =>
      match c.halves? first second position with
      | some (a, b) => t.replaceElement id (fun _ => [a, b]) fun o => [o]
      | none => refusal
    | .text o =>
      match o.halves? first second position with
      | some (a, b) => t.replaceElement id (fun c => [c]) fun _ => [a, b]
      | none => refusal

/-- Applies a command. The supply gives the identities of new elements; what is left of it is returned
with the new timeline. -/
def apply (t : Timeline α) (supply : IdSupply) :
    Command α → Except (EditError α) (Timeline α × IdSupply)
  | .addClip c => .ok (t.addClip c, supply)
  | .addText o => .ok (t.addText o, supply)
  | .split id position =>
    (t.split id supply.next (supply.advance 1).next position).map fun next =>
      (next, supply.advance 2)
  | .duplicate id =>
    (t.replaceElement id (fun c => [c, { c with id := supply.next }])
      fun o => [o, { o with id := supply.next }]).map fun next => (next, supply.advance 1)
  | .delete id => (t.replaceElement id (fun _ => []) fun _ => []).map fun next => (next, supply)
  | .trimStart id request => (t.changeClip id (·.trimStart request)).map fun next => (next, supply)
  | .trimEnd id request => (t.changeClip id (·.trimEnd request)).map fun next => (next, supply)
  | .clearTrim id => (t.changeClip id (·.clearTrim)).map fun next => (next, supply)
  | .reposition id start =>
    (t.replaceElement id (fun c => [c.reposition start]) fun o => [o.reposition start]).map
      fun next => (next, supply)
  | .resizeRight id request =>
    (t.replaceElement id (fun c => [c.resizeRight request]) fun o => [o.resizeRight request]).map
      fun next => (next, supply)
  | .updateClip id patch => (t.changeClip id patch.apply).map fun next => (next, supply)
  | .updateText id patch => (t.changeOverlay id patch.apply).map fun next => (next, supply)

end Timeline

end Montage
