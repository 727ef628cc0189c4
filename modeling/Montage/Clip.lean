import Montage.Identity
import Montage.Media
import Montage.Number.Scalar

/-!
Contract: media clips.

Owns: the clip record, the limits on its source window, and its speed.

Does **not** own: the operations that change a clip (`Montage.Edit`) and the mending of stored ones
(`Montage.Repair`).

A clip plays the source window from `sourceIn` to `sourceOut` while the timeline runs from
`timelineStart` to `timelineEnd`. Its speed is not stored; it is the ratio of the two spans.
-/

set_option autoImplicit false

namespace Montage

/-- The name under which a clip refers to an imported asset. -/
abbrev AssetRef := String

/-- A part of the decoded frame, in source pixels. -/
structure Crop (α : Type) where
  x : α
  y : α
  width : α
  height : α
  deriving DecidableEq, Repr

/-- A media clip on the timeline. -/
structure Clip (α : Type) where
  id : Identity
  asset : AssetRef
  kind : MediaKind
  fileName : String
  sourceIn : α
  sourceOut : α
  sourceDuration : α
  timelineStart : α
  timelineEnd : α
  x : α
  y : α
  width : α
  height : α
  rotation : α
  opacity : α
  zIndex : Int32
  crop : Option (Crop α)
  volume : α
  deriving DecidableEq

variable {α : Type} [Scalar α]

/-- The shortest source window, in seconds. -/
def minimumSpan : α := 0.1

/-- The length taken for media whose length is unknown, in seconds. -/
def defaultMediaDuration : α := 30

def maximumVolume : α := 200

/-- A time of placement: not before zero, and zero for what is no time. -/
def placement (start : α) : α :=
  if Scalar.isFinite start then Scalar.max start 0 else 0

namespace Clip

/-- A clip that plays a whole asset on the full canvas. A length that is unknown or too short is
replaced by the default. -/
def ofAsset (id : Identity) (asset : AssetRef) (kind : MediaKind) (fileName : String)
    (duration : Option α) (start : α) : Clip α :=
  let usable := duration.filter fun d => Scalar.isFinite d && decide ((minimumSpan : α) ≤ d)
  let length := usable.getD defaultMediaDuration
  { id, asset, kind, fileName
    sourceIn := 0
    sourceOut := length
    sourceDuration := length
    timelineStart := placement start
    timelineEnd := placement start + length
    x := 0
    y := 0
    width := 1920
    height := 1080
    rotation := 0
    opacity := 100
    zIndex := 0
    crop := none
    volume := 100 }

def sourceSpan (c : Clip α) : α := c.sourceOut - c.sourceIn

def timelineSpan (c : Clip α) : α := c.timelineEnd - c.timelineStart

/-- Source seconds played per timeline second. -/
def speed (c : Clip α) : α :=
  if 0 < c.timelineSpan then c.sourceSpan / c.timelineSpan else 1

/-- The latest possible `sourceOut`; a still image has no end. -/
def sourceLimit (c : Clip α) : α :=
  match c.kind with
  | .image => 1 / 0
  | _ => c.sourceDuration

end Clip

end Montage
