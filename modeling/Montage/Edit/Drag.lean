import Montage.Edit.Apply
import Montage.Mapping
import Montage.Throttle

/-!
Contract: dragging an element with the pointer.

Owns: the state of a drag, the commands that its movements release, and the timeline that results when all
commands of a drag are applied, those released on the way and the one that its end releases.

A movement is given in pixels since the drag began, so every command is computed from where the drag
began and not from the command before it.
-/

set_option autoImplicit false

namespace Montage

/-- The part of an element that is dragged. -/
inductive Handle where
  | body
  | leftEdge
  | rightEdge
  deriving DecidableEq, Repr

/-- A drag in progress: what is dragged, the value it had, and the source seconds per timeline second. -/
structure Drag (α : Type) [Scalar α] where
  target : Identity
  handle : Handle
  zoom : Zoom α
  origin : α
  speed : α
  throttle : Throttle α

namespace Drag

variable {α : Type} [Scalar α]

/-- The handle that is dragged in truth, the value it stands for, and the speed. The left edge of an
overlay has no source behind it and drags the body. -/
def grip (element : Element α) (handle : Handle) : Handle × α × α :=
  match element, handle with
  | .clip c, .leftEdge => (.leftEdge, c.sourceIn, c.speed)
  | .text o, .leftEdge => (.body, o.timelineStart, 1)
  | element, .body => (.body, element.span.1, 1)
  | element, .rightEdge => (.rightEdge, element.span.2, 1)

/-- Begins a drag at a number of updates per second. -/
def start (t : Timeline α) (target : Identity) (handle : Handle) (zoom : Zoom α) (rate : Nat) :
    Except (EditError α) (Drag α) :=
  match t.element? target with
  | none => .error (.elementNotFound target)
  | some element =>
    let (held, origin, speed) := grip element handle
    .ok { target, handle := held, zoom, origin, speed, throttle := .ofRate rate }

/-- The value of the handle after a movement. -/
def value (d : Drag α) (pixels : α) : α :=
  let seconds := d.zoom.toSeconds pixels
  match d.handle with
  | .leftEdge => d.origin + seconds * d.speed
  | _ => d.origin + seconds

def command (d : Drag α) (value : α) : Command α :=
  match d.handle with
  | .body => .reposition d.target value
  | .leftEdge => .trimStart d.target value
  | .rightEdge => .resizeRight d.target value

/-- A movement; it releases a command unless the throttle holds it back. -/
def update (d : Drag α) (pixels : α) (now : Nat) : Option (Command α) × Drag α :=
  let (released, throttle) := d.throttle.offer (d.value pixels) now
  (released.map d.command, { d with throttle })

/-- The end of the drag; it releases the command held back. -/
def finish (d : Drag α) : Option (Command α) :=
  d.throttle.flush.1.map d.command

end Drag

end Montage

/-! ## A whole drag at once -/

namespace Montage.Drag

variable {α : Type} [Scalar α]

/-- The commands that a drag releases for movements, each with the moment it is made, and by its end. -/
def released (d : Drag α) : List (α × Nat) → List (Command α)
  | [] => d.finish.toList
  | (pixels, now) :: rest =>
    let (command, next) := d.update pixels now
    command.toList ++ released next rest

end Montage.Drag

namespace Montage.Timeline

variable {α : Type} [Scalar α]

/-- Applies commands in order, up to one that is refused. -/
def applyAll (t : Timeline α) (supply : IdSupply) :
    List (Command α) → Except (EditError α) (Timeline α × IdSupply)
  | [] => .ok (t, supply)
  | command :: rest =>
    match t.apply supply command with
    | .error e => .error e
    | .ok (next, supply) => applyAll next supply rest

end Montage.Timeline
