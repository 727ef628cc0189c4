import Montage.Number.Layout
import Montage.Timeline

/-!
Contract: listings of a timeline.

Owns: the line of an element and the listing of all of them with the total duration.
-/

set_option autoImplicit false

namespace Montage.Cli

variable {α : Type} [Scalar α]

/-- A time with two places. -/
def seconds (x : α) : String := Layout.fixed 2 x

/-- A time with two places in a column of seven. -/
def secondsColumn (x : α) : String := Layout.alignRight 7 (seconds x)

/-- The beginning of a line: short identity, kind and placement. -/
def lineHead (id : Identity) (kind : String) (start stop : α) : String :=
  "  " ++ id.short ++ " " ++ Layout.alignLeft 6 kind ++ " [" ++ secondsColumn start ++ " - "
    ++ secondsColumn stop ++ "]  "

def elementLine : Element α → String
  | .clip c =>
    lineHead c.id c.kind.name c.timelineStart c.timelineEnd ++ "source [" ++ seconds c.sourceIn
      ++ " - " ++ seconds c.sourceOut ++ "]  z=" ++ toString c.zIndex.toInt ++ "  " ++ c.fileName
  | .text o =>
    lineHead o.id "text" o.timelineStart o.timelineEnd ++ "z=" ++ toString o.zIndex.toInt ++ "  \""
      ++ o.text ++ "\""

/-- The lines of all elements, clips before overlays, and the total duration. -/
def listing (t : Timeline α) : String :=
  String.join (t.elements.map fun e => elementLine e ++ "\n") ++ "Duration: "
    ++ seconds t.totalDuration ++ "s\n"

end Montage.Cli
