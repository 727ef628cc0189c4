import Montage.Clip
import Montage.Number.Binary64

/-!
Contract: the maps between source time, timeline position and screen pixels.

Owns: zoom levels and the maps of one clip.

A value outside the domain of a map has no image; it is never moved into the domain, except for the
pixels that miss an edge by rounding.
-/

set_option autoImplicit false

namespace Montage

variable {α : Type} [Scalar α]

/-- A scale in pixels per second, finite and positive. -/
structure Zoom (α : Type) [Scalar α] where
  pixelsPerSecond : α
  valid : Scalar.isFinite pixelsPerSecond = true ∧ 0 < pixelsPerSecond

namespace Zoom

/-- The zoom with a scale, if it is finite and positive. -/
def ofScale? (scale : α) : Option (Zoom α) :=
  if h : Scalar.isFinite scale = true ∧ 0 < scale then some ⟨scale, h⟩ else none

def usual : Zoom Float := ⟨100, by decide⟩

def toPixels (z : Zoom α) (seconds : α) : α := seconds * z.pixelsPerSecond

def toSeconds (z : Zoom α) (pixels : α) : α := pixels / z.pixelsPerSecond

end Zoom

/-- Moves a value of a map into the range between two ends. -/
def between (low high value : α) : α := Scalar.min (Scalar.max value low) high

namespace Clip

/-- The source time that plays at a timeline position. -/
def sourceAt? (c : Clip α) (position : α) : Option α :=
  if c.timelineStart ≤ position ∧ position ≤ c.timelineEnd ∧ ¬ c.timelineEnd ≤ c.timelineStart then
    let ratio := (position - c.timelineStart) / (c.timelineEnd - c.timelineStart)
    some (between c.sourceIn c.sourceOut (c.sourceIn + ratio * (c.sourceOut - c.sourceIn)))
  else none

/-- The timeline position at which a source time plays. -/
def positionOf? (c : Clip α) (source : α) : Option α :=
  if c.sourceIn ≤ source ∧ source ≤ c.sourceOut ∧ ¬ c.sourceOut ≤ c.sourceIn then
    let ratio := (source - c.sourceIn) / (c.sourceOut - c.sourceIn)
    some (between c.timelineStart c.timelineEnd
      (c.timelineStart + ratio * (c.timelineEnd - c.timelineStart)))
  else none

/-- The pixels from the left edge of a clip to a source time. -/
def pixelsOf? (c : Clip α) (zoom : Zoom α) (source : α) : Option α :=
  (c.positionOf? source).map fun position =>
    zoom.toPixels position - zoom.toPixels c.timelineStart

/-- How far pixels may lie beyond an edge, relative to the width of the clip. -/
def edgeSlack : α := 1e-9

/-- The source time under a pixel counted from the left edge of a clip. A pixel that misses an edge by
the slack counts as that edge. -/
def sourceAtPixel? (c : Clip α) (zoom : Zoom α) (pixels : α) : Option α :=
  let width := zoom.toPixels c.timelineSpan
  let slack := edgeSlack * Scalar.max (Scalar.abs width) 1
  if 0 - slack ≤ pixels ∧ pixels ≤ width + slack then
    c.sourceAt? (between c.timelineStart c.timelineEnd (c.timelineStart + zoom.toSeconds pixels))
  else none

end Clip

end Montage
