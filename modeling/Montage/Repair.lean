import Montage.Edit.Apply

/-!
Contract: mending elements whose numbers are out of bounds.

Owns: the repair of clips, overlays and timelines.

A repair keeps as much as it can: each number is replaced only where it is no number, or moved to the
nearest bound, and the speed of a clip is kept where the stored spans give one.
-/

set_option autoImplicit false

namespace Montage

variable {α : Type} [Scalar α]

namespace Crop

/-- Whether a stored crop is kept: finite and at least one pixel in size. -/
def isKept (r : Crop α) : Bool :=
  r.isFinite && decide (1 ≤ r.width ∧ 1 ≤ r.height)

end Crop

namespace Clip

/-- The speed given by the stored spans, or normal speed where they give none. -/
def storedSpeed (c : Clip α) : α :=
  let speed := c.sourceSpan / c.timelineSpan
  if Scalar.isFinite speed && decide (0 < speed) then speed else 1

/-- The start of the source window, moved within the limit of the asset if there is one. -/
def repairedIn (c : Clip α) (limit : α) : α :=
  let sourceIn := Scalar.max (Scalar.finiteOr c.sourceIn 0) 0
  if Scalar.isFinite limit then Scalar.max (Scalar.min sourceIn (limit - minimumSpan)) 0
  else sourceIn

/-- The end of the source window, within the limit and late enough after the start. -/
def repairedOut (c : Clip α) (sourceIn limit : α) : α :=
  Scalar.max
    (Scalar.min (Scalar.finiteOr c.sourceOut (sourceIn + defaultMediaDuration)) limit)
    (sourceIn + minimumSpan)

def repair (c : Clip α) : Clip α :=
  let sourceDuration :=
    Scalar.max (Scalar.finiteOr c.sourceDuration defaultMediaDuration) minimumSpan
  let limit := { c with sourceDuration }.sourceLimit
  let sourceIn := c.repairedIn limit
  let sourceOut := c.repairedOut sourceIn limit
  let timelineStart := Scalar.max (Scalar.finiteOr c.timelineStart 0) 0
  { c with
    sourceDuration
    sourceIn
    sourceOut
    timelineStart
    timelineEnd := timelineStart + (sourceOut - sourceIn) / c.storedSpeed
    x := Scalar.finiteOr c.x 0
    y := Scalar.finiteOr c.y 0
    width := atLeastOne (Scalar.finiteOr c.width 1920)
    height := atLeastOne (Scalar.finiteOr c.height 1080)
    rotation := Scalar.remainder (Scalar.finiteOr c.rotation 0) 360
    opacity := percentage 100 (Scalar.finiteOr c.opacity 100)
    volume := percentage maximumVolume (Scalar.finiteOr c.volume 100)
    crop := c.crop.filter Crop.isKept }

end Clip

namespace Overlay

def repair (o : Overlay α) : Overlay α :=
  let timelineStart := Scalar.max (Scalar.finiteOr o.timelineStart 0) 0
  let stop := Scalar.finiteOr o.timelineEnd (timelineStart + defaultTextDuration)
  { o with
    x := Scalar.finiteOr o.x 0
    y := Scalar.finiteOr o.y 0
    fontSize := atLeastOne (Scalar.finiteOr o.fontSize 24)
    opacity := percentage 100 (Scalar.finiteOr o.opacity 100)
    timelineStart
    timelineEnd := Scalar.max stop (timelineStart + minimumSpan) }

end Overlay

namespace Timeline

def repair (t : Timeline α) : Timeline α :=
  { t with
    frameRate := if t.frameRate = 0 then standardFrameRate else t.frameRate
    canvas := if t.canvas.width = 0 ∨ t.canvas.height = 0 then .standard else t.canvas
    clips := t.clips.map Clip.repair
    overlays := t.overlays.map Overlay.repair }

end Timeline

end Montage
