import Montage.Failure
import Montage.Host
import Montage.Render.Job

/-!
Contract: making the inputs of a job readable for the engine.

Owns: the temporary directory for inputs that are bytes in memory, and the paths of all inputs.

The directory is made for the first input that needs it and holds a file for each such input. It is known
as soon as it exists, so that it can be taken away however far the staging got.
-/

set_option autoImplicit false

namespace Montage.Engine

open Render (Input Source)

/-- How far inputs are staged: the directory, if there is one, and the paths so far. -/
structure Staged where
  directory : Option Path
  paths : List Path
  deriving DecidableEq, Repr

def Staged.nothing : Staged := { directory := none, paths := [] }

def stagingName (id : Identity) : String := "clipforge-render-" ++ id.text

variable {α : Type} {m : Type → Type} [Monad m] [Host m]

/-- The directory for inputs in memory, made if there is none yet. -/
def stagingDirectory (staged : Staged) : m (Except DiskError Path) := do
  match staged.directory with
  | some directory => pure (.ok directory)
  | none =>
    let directory := (← Host.temporary).join (stagingName (← Host.freshId))
    match ← Host.makeDirectories directory with
    | .ok () => pure (.ok directory)
    | .error e => pure (.error e)

/-- Stages one input after others. The first part of the answer says how it was refused, if it was. -/
def stageInput (staged : Staged) (input : Input α) : m (Option DiskError × Staged) := do
  match input.source with
  | .file path => pure (none, { staged with paths := staged.paths ++ [⟨path⟩] })
  | .bytes content =>
    match ← stagingDirectory staged with
    | .error e => pure (some e, staged)
    | .ok directory =>
      let path := directory.join input.localName
      match ← Host.writeFile path content with
      | .error e => pure (some e, { staged with directory := some directory })
      | .ok () => pure (none, { directory := some directory, paths := staged.paths ++ [path] })

/-- Stages inputs in order, up to one that is refused. -/
def stageInputs (staged : Staged) : List (Input α) → m (Option DiskError × Staged)
  | [] => pure (none, staged)
  | input :: rest => do
    match ← stageInput staged input with
    | (none, next) => stageInputs next rest
    | refused => pure refused

/-- Takes the temporary directory away. -/
def Staged.discard (staged : Staged) : m Unit := do
  match staged.directory with
  | some directory => do
    let _ ← Host.removeDirectory directory
    pure ()
  | none => pure ()

end Montage.Engine
