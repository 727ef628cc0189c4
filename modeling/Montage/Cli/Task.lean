import Montage.Cli.Listing
import Montage.Project.Folder

/-!
Contract: activities of the command line.

Owns: the type of an activity, its ways to stop and to speak, and the loading and saving of a project as
part of one.

Does **not** own: what becomes of a message (`Montage.Cli.Run`).
-/

set_option autoImplicit false

namespace Montage.Cli

/-- Why an activity is not carried out to its end. -/
inductive Stop where
  | failed (message : String)
  /-- It goes on for ever. -/
  | endless
  deriving DecidableEq, Repr

abbrev Task (m : Type → Type) := ExceptT Stop m

variable {m : Type → Type} [Monad m] [Host m]

def fail {β : Type} (message : String) : Task m β := throw (.failed message)

def orFail {β : Type} (result : Except String β) : Task m β := ExceptT.mk (pure (result.mapError .failed))

/-- Writes to the output. -/
def say (text : String) : Task m Unit := liftM (Host.print text : m Unit)

def sayLines (lines : List String) : Task m Unit :=
  say (String.join (lines.map fun line => line ++ "\n"))

/-- Does what cannot fail. -/
def simply {β : Type} (activity : m β) : Task m β := liftM activity

def explain {β ε : Type} (text : ε → String) (activity : m (Except ε β)) : Task m β :=
  ExceptT.mk do pure ((← activity).mapError fun e => .failed (text e))

def loadFolder (root : Path) : Task m Folder :=
  explain (fun e => "Failed to load project: " ++ e.message) (Folder.load root).run

/-- Saves a project as changed now. -/
def saveFolder (folder : Folder) : Task m Unit :=
  explain (fun e => "Failed to save project: " ++ e.message) do pure (← Folder.save folder).1

def saveAndList (folder : Folder) : Task m Unit := do
  saveFolder folder
  say (listing folder.timeline)

/-- The text of a refused command. -/
def rejected (e : EditError Float) : String := "Edit rejected: " ++ e.message

def lending {β : Type} (change : IdSupply → Except String (β × IdSupply)) (supply : IdSupply) :
    Except String β × IdSupply :=
  match change supply with
  | .error message => (.error message, supply)
  | .ok (value, left) => (.ok value, left)

/-- Changes the timeline of a project, saves the project and lists its elements. Nothing is saved if the
change is refused. -/
def changeTimeline (folder : Folder)
    (change : Timeline Float → IdSupply → Except String (Timeline Float × IdSupply)) :
    Task m Unit := do
  let timeline ← explain id (Host.withIds (lending (change folder.timeline)))
  saveAndList { folder with timeline }

end Montage.Cli
