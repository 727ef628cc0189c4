import Montage.Cli.Action
import Montage.Cli.Task
import Montage.Config.Record
import Montage.Edit.Drag

/-!
Contract: editing a project from the command line.

Owns: the command that a request means, and the edit and the drag of a project.

An element is named by its identity or a beginning of it that no other element has.
-/

set_option autoImplicit false

namespace Montage.Cli

/-- The element that a text names. -/
def identify (t : Timeline Float) (needle : String) : Except String Identity :=
  match t.resolve needle with
  | some id => .ok id
  | none => .error ("No unique clip or overlay matches '" ++ needle ++ "'")

namespace EditRequest

def command (t : Timeline Float) (supply : IdSupply) :
    EditRequest → Except String (Command Float × IdSupply)
  | .addText text => .ok (.addText (.ofText supply.next text 0), supply.advance 1)
  | .split id position => (identify t id).map fun id => (.split id position, supply)
  | .trimStart id sourceIn => (identify t id).map fun id => (.trimStart id sourceIn, supply)
  | .trimEnd id sourceOut => (identify t id).map fun id => (.trimEnd id sourceOut, supply)
  | .move id start => (identify t id).map fun id => (.reposition id start, supply)
  | .resize id stop => (identify t id).map fun id => (.resizeRight id stop, supply)
  | .duplicate id => (identify t id).map fun id => (.duplicate id, supply)
  | .delete id => (identify t id).map fun id => (.delete id, supply)

def apply (request : EditRequest) (t : Timeline Float) (supply : IdSupply) :
    Except String (Timeline Float × IdSupply) := do
  let (command, supply) ← request.command t supply
  (t.apply supply command).mapError rejected

end EditRequest

def handle? (name : String) : Option Handle :=
  match name with
  | "body" => some .body
  | "left" => some .leftEdge
  | "right" => some .rightEdge
  | _ => none

def dragTimeline (editor : EditorConfig Float) (id : String) (handle : Handle)
    (movements : List (Float × Nat)) (t : Timeline Float) (supply : IdSupply) :
    Except String (Timeline Float × IdSupply) := do
  let target ← identify t id
  let zoom := (Zoom.ofScale? editor.zoom).getD .usual
  let drag ←
    (Drag.start t target handle zoom editor.dragRate.toNat).mapError fun e =>
      "Cannot start drag: " ++ e.message
  (t.applyAll supply (drag.released movements)).mapError rejected

variable {m : Type → Type} [Monad m] [Host m]

def runEdit (root : Path) (request : EditRequest) : Task m Unit := do
  changeTimeline (← loadFolder root) request.apply

/-- Gives each movement the moment at which it is made. -/
def timed (offsets : List Float) : m (List (Float × Nat)) :=
  offsets.mapM fun offset => do pure (offset, ← Host.ticks)

def runDrag (editor : EditorConfig Float) (root : Path) (id handle : String)
    (offsets : List Float) : Task m Unit := do
  match handle? handle with
  | none => fail ("Unknown handle: " ++ handle ++ ". Use: body, left, right")
  | some handle =>
    let folder ← loadFolder root
    let movements ← simply (timed offsets)
    changeTimeline folder (dragTimeline editor id handle movements)

end Montage.Cli
