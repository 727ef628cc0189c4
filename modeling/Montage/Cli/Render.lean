import Montage.Cli.Overview
import Montage.Config.Record
import Montage.Engine.Run
import Montage.Export.Session
import Montage.Stored.Job

/-!
Contract: compiling and exporting a project, and the check of the tools.

Owns: the choice of the settings and of the output, and what the user is told.

Does **not** own: the compilation (`Montage.Render.Compile`) and the session (`Montage.Export.Session`).
-/

set_option autoImplicit false

namespace Montage.Cli

open Render (Job Options)

def optionsOf (settings : ExportSettings) (allowEmpty : Bool) : Options :=
  { Options.ofSettings settings with allowEmpty }

/-- The path under which the engine would find an input. -/
def inputPath (input : Render.Input Float) : Path :=
  match input.source with
  | .file path => ⟨path⟩
  | .bytes _ => ⟨input.localName⟩

/-- The job as the engine would be asked for it, after its summary. -/
def jobText (job : Job Float) (output : Path) : Except String String :=
  match job.arguments (job.inputs.map fun input => (inputPath input).bytes) output.bytes with
  | .ok arguments => .ok (job.summary ++ "ffmpeg " ++ Text.join " " arguments ++ "\n")
  | .error failure => .error failure.message

def jobJsonText (job : Job Float) : String := Json.pretty job.toJson ++ "\n"

/-- The quality that a user asks for, or the one of the project. -/
def chosenQuality (usual : Quality) : Option String → Except String Quality
  | none => .ok usual
  | some name =>
    match Quality.ofName? name with
    | some quality => .ok quality
    | none => .error ("Unknown quality: " ++ name ++ ". Use: low, medium, high, ultra")

/-- The speed that a user asks for, or the one of the project. -/
def chosenSpeed (usual : Speed) : Option String → Except String Speed
  | none => .ok usual
  | some name =>
    match Speed.ofName? name with
    | some speed => .ok speed
    | none => .error ("Unknown speed: " ++ name ++ ". Use: fastest, fast, balanced, slow")

/-- The line of a report of progress, which writes over the one before. -/
def progressText (p : Engine.Progress Float) : String :=
  "\r  Progress: " ++ Layout.alignRight 5 (Layout.fixed 1 p.percent) ++ "% (" ++ p.timemark ++ " @ "
    ++ Layout.fixed 1 p.framesPerSecond ++ " fps)  "

def exportLines (output : Path) (settings : ExportSettings) (t : Timeline Float) : List String :=
  ["  Output: " ++ output.text,
   "  Quality: " ++ qualityText settings.quality ++ ", speed: " ++ speedText settings.speed,
   "  Duration: " ++ seconds t.totalDuration ++ "s"]

variable {m : Type → Type} [Monad m] [Host m]

/-- Compiles a project and shows the job. -/
def runCompile (root : Path) (json allowEmpty : Bool) : Task m Unit := do
  let folder ← loadFolder root
  let assets ← simply (Folder.assets folder)
  let options := optionsOf folder.project.settings allowEmpty
  match Render.compile folder.timeline assets options with
  | none => throw .endless
  | some (.error e) => fail ("Compilation failed: " ++ e.message)
  | some (.ok job) =>
    if json then say (jobJsonText job)
    else
      let text ← orFail (jobText job (Folder.defaultOutput root))
      say text

def engineOf (program : String) (output : Path) (job : Job Float) : m Export.Ending := do
  let send (p : Engine.Progress Float) : m Unit := Host.print (progressText p)
  match ← Engine.execute program job output send false with
  | .ok output => pure (.delivered output)
  | .error failure => pure (.failed failure)

def runExport (engine : EngineConfig) (root : Path) (output : Option Path)
    (quality speed : Option String) (allowEmpty : Bool) : Task m Unit := do
  sayLines ["Exporting project at: " ++ root.text]
  let folder ← loadFolder root
  let quality ← orFail (chosenQuality folder.project.settings.quality quality)
  let speed ← orFail (chosenSpeed folder.project.settings.speed speed)
  let settings := { folder.project.settings with quality, speed }
  let output := output.getD (Folder.defaultOutput root)
  sayLines (exportLines output settings folder.timeline)
  let program := engine.transcoder
  if !(← simply (Engine.exists? program)) then
    fail ("ffmpeg not found ('" ++ program ++ "'). Run `clipforge check` for details.")
  let assets ← simply (Folder.assets folder)
  let request : Export.Request Float :=
    { timeline := folder.timeline, assets, options := optionsOf settings allowEmpty, output,
      writesReport := engine.writesReport }
  let send (p : Engine.Progress Float) : m Unit := Host.print (progressText p)
  match ← simply (Export.perform request send (engineOf program output) .free) with
  | none => throw .endless
  | some (_, .ok path) => sayLines ["", "Export complete: " ++ path.text]
  | some (_, .error failure) =>
    sayLines [""]
    fail ("Export failed: " ++ failure.message)

def engineLines (program : String) (found : Bool) (version : Option String) : List String :=
  if found then
    ["[OK] ffmpeg: " ++ program ++ " (" ++ version.getD "unknown version" ++ ")"]
  else
    ["[FAIL] ffmpeg: '" ++ program ++ "' not found",
     "       Install ffmpeg or set export.ffmpeg_binary in the config file."]

def proberLine (program : String) (found : Bool) : String :=
  if found then "[OK] ffprobe: " ++ program
  else "[WARN] ffprobe: '" ++ program ++ "' not found (imports fall back to a 30s duration)"

/-- Whether an export is possible. -/
def verdict (found : Bool) : String :=
  if found then "All required tools are available. ClipForge is ready."
  else "Export is unavailable until ffmpeg is installed."

/-- Checks the tools and tells what is found as it is found, since a tool may write something itself when
it is looked for. -/
def runCheck (config : Config Float) : Task m Unit := do
  sayLines ["ClipForge System Check", String.ofList (List.replicate 50 '=')]
  let program := config.engine.transcoder
  let found ← simply (Engine.exists? program)
  let version ← simply (if found then Engine.version? program else pure none)
  sayLines (engineLines program found version)
  let proberFound ← simply (Engine.exists? config.engine.prober)
  sayLines
    [proberLine config.engine.prober proberFound,
     "[OK] Projects directory: " ++ config.projectsDirectory, "", verdict found]

end Montage.Cli
