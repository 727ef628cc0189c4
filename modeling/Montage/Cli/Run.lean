import Montage.Cli.Edit
import Montage.Cli.Import
import Montage.Cli.Render
import Montage.Config.Store

/-!
Contract: running the command line.

Owns: the making of a project, the choice of the activity, and the exit code.

The configuration is loaded, and the log file of the configuration opened, before anything is done.
-/

set_option autoImplicit false

namespace Montage.Cli

def versionText : String := "clipforge 0.1.0"

/-- How the program is used. -/
def usageText : String := "Usage: clipforge [OPTIONS] <COMMAND>"

/-- What is told of a new project. -/
def creationLines (folder : Folder) (name : String) : List String :=
  ["Project created successfully:", "  Directory: " ++ folder.root.text,
   "  Canvas: " ++ canvasText folder.timeline, "", "Directory structure:", "  " ++ name ++ "/",
   "  ├── sources/     (imported media)", "  ├── meta/        (project.json, timeline.json)",
   "  └── exports/     (rendered output)"]

variable {m : Type → Type} [Monad m] [Host m]

def runInit (name : String) (directory : Path) : Task m Unit := do
  let root := directory.join name
  sayLines ["Creating project '" ++ name ++ "' at " ++ root.text]
  let folder ←
    explain (fun e => "Failed to create project: " ++ e.message) (Folder.create root name).run
  sayLines (creationLines folder name)

/-- Does what the user asks for. -/
def perform (config : Config Float) : Action → Task m Unit
  | .init name directory => runInit name (directory.getD ⟨config.projectsDirectory⟩)
  | .importMedia root file => runImport config.engine.prober root file
  | .edit root request => runEdit root request
  | .drag root id handle offsets => runDrag config.editor root id handle offsets
  | .info root => runInfo root
  | .validate root => runValidate root
  | .compile root json allowEmpty => runCompile root json allowEmpty
  | .render root output quality speed allowEmpty =>
    runExport config.engine root output quality speed allowEmpty
  | .check => runCheck config

def openLog (logging : LogConfig) : m Unit := do
  match logging.file with
  | none => pure ()
  | some file =>
    match ← Host.openToAppend ⟨file⟩ with
    | .ok () => pure ()
    | .error e =>
      Host.complain ("Failed to open log file " ++ file ++ ": " ++ e.message ++ "\n")

/-- Carries out a command line that was understood; the answer is the exit code, if there is an end. -/
def carryOut (invocation : Invocation) : m (Option Nat) := do
  let config ← Config.load
  openLog config.logging
  match ← (perform config invocation.action).run with
  | .ok () => pure (some 0)
  | .error (.failed message) =>
    Host.complain ("Error: " ++ message ++ "\n")
    pure (some 1)
  | .error .endless => pure none

/-- Runs a command line; the answer is the exit code, if there is an end. -/
def run (list : List String) : m (Option Nat) := do
  match readCommandLine list with
  | .read invocation => carryOut invocation
  | .help =>
    Host.printLine usageText
    pure (some 0)
  | .version =>
    Host.printLine versionText
    pure (some 0)
  | .misuse =>
    Host.complain (usageText ++ "\n")
    pure (some 2)

end Montage.Cli
