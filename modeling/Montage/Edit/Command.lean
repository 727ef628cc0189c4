import Montage.Timeline

/-!
Contract: editing commands.

Owns: the twelve commands, the property changes that two of them carry, and the reasons for which a
command is refused.

Does **not** own: what a command does (`Montage.Edit.Apply`).
-/

set_option autoImplicit false

namespace Montage

/-- Changes to the properties of a clip; an absent one leaves the property alone. A crop that is present
but empty takes the crop away. -/
structure ClipPatch (α : Type) where
  x : Option α := none
  y : Option α := none
  width : Option α := none
  height : Option α := none
  rotation : Option α := none
  opacity : Option α := none
  volume : Option α := none
  zIndex : Option Int32 := none
  crop : Option (Option (Crop α)) := none
  deriving DecidableEq

/-- Changes to the properties of a text overlay; an absent one leaves the property alone. -/
structure TextPatch (α : Type) where
  text : Option String := none
  x : Option α := none
  y : Option α := none
  fontFamily : Option String := none
  fontSize : Option α := none
  color : Option Color := none
  opacity : Option α := none
  zIndex : Option Int32 := none
  deriving DecidableEq

/-- An editing command. -/
inductive Command (α : Type) where
  /-- Appends a clip after the last one of its kind. -/
  | addClip (clip : Clip α)
  /-- Appends an overlay after the last one. -/
  | addText (overlay : Overlay α)
  /-- Cuts an element in two at a timeline position. -/
  | split (id : Identity) (position : α)
  /-- Puts a copy of an element right after it. -/
  | duplicate (id : Identity)
  | delete (id : Identity)
  /-- Moves the start of a clip's source window, its end staying in place. -/
  | trimStart (id : Identity) (sourceIn : α)
  /-- Moves the end of a clip's source window, its start staying in place. -/
  | trimEnd (id : Identity) (sourceOut : α)
  /-- Opens the source window to the whole asset. -/
  | clearTrim (id : Identity)
  /-- Moves an element to another start. -/
  | reposition (id : Identity) (timelineStart : α)
  /-- Moves the end of an element. -/
  | resizeRight (id : Identity) (timelineEnd : α)
  | updateClip (id : Identity) (patch : ClipPatch α)
  | updateText (id : Identity) (patch : TextPatch α)
  deriving DecidableEq

/-- Why a command is refused. -/
inductive EditError (α : Type) where
  | splitOutOfRange (id : Identity) (position start stop : α)
  | elementNotFound (id : Identity)
  deriving DecidableEq

def EditError.message {α : Type} [Scalar α] : EditError α → String
  | .splitOutOfRange id position start stop =>
    "split position " ++ Scalar.written position ++ " is outside element " ++ id.text ++ " ("
      ++ Scalar.written start ++ ".." ++ Scalar.written stop ++ ")"
  | .elementNotFound id => "no element with id " ++ id.text

end Montage
