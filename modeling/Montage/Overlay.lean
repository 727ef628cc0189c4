import Montage.Clip
import Montage.Color

/-!
Contract: text overlays.

Owns: the overlay record and the style of a new one.
-/

set_option autoImplicit false

namespace Montage

/-- A text overlay on the timeline. -/
structure Overlay (α : Type) where
  id : Identity
  text : String
  timelineStart : α
  timelineEnd : α
  x : α
  y : α
  fontFamily : String
  fontSize : α
  color : Color
  opacity : α
  zIndex : Int32
  deriving DecidableEq

variable {α : Type} [Scalar α]

/-- How long a new overlay is shown, in seconds. -/
def defaultTextDuration : α := 10

namespace Overlay

def defaultFont : String := "Arial"

def ofText (id : Identity) (text : String) (start : α) : Overlay α :=
  { id, text
    timelineStart := placement start
    timelineEnd := placement start + defaultTextDuration
    x := 600
    y := 500
    fontFamily := defaultFont
    fontSize := 24
    color := .white
    opacity := 100
    zIndex := 0 }

def timelineSpan (o : Overlay α) : α := o.timelineEnd - o.timelineStart

end Overlay

end Montage
