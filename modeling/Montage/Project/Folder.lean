import Montage.Failure
import Montage.Host
import Montage.Json.Reader
import Montage.Json.Writer
import Montage.Render.Source
import Montage.Stored.Forgiving
import Montage.Stored.Project

/-!
Contract: projects in their directories.

Owns: the layout of a project directory, making, loading and saving a project, and finding its assets.

A project directory holds `meta/project.json`, `meta/timeline.json`, the imported media under `sources`
and the rendered videos under `exports`. The project file is read strictly; the timeline, which may be
missing, is mended.
-/

set_option autoImplicit false

namespace Montage

/-- Why a project cannot be loaded or saved. -/
inductive FolderError where
  | disk (path : Path) (cause : DiskError)
  | parse (path : Path)
  deriving DecidableEq, Repr

def FolderError.message : FolderError → String
  | .disk path cause => "I/O error at " ++ path.text ++ ": " ++ cause.message
  | .parse path => "Parse error in " ++ path.text ++ ":"

def FolderError.failure (e : FolderError) : Failure := .project e.message

/-- A loaded project: where it lies, its record and its timeline. -/
structure Folder where
  root : Path
  project : Project Float
  timeline : Timeline Float

namespace Folder

/-! ## Layout -/

def metaDirectory (root : Path) : Path := root.join "meta"

def projectFile (root : Path) : Path := (metaDirectory root).join "project.json"

def timelineFile (root : Path) : Path := (metaDirectory root).join "timeline.json"

/-- The file of a render, unless another one is asked for. -/
def defaultOutput (root : Path) : Path := (root.join "exports").join "output.mp4"

/-- The directories of a project, in the order in which they are made. -/
def directories : List String := ["sources", "meta", "exports"]

def assetFile (root : Path) (asset : Asset Float) : Path := root.join asset.path

/-! ## Text -/

def parseProject (text : String) : Option (Project Float) :=
  (Json.read? text).bind Project.ofJson?

def parseTimeline (text : String) (supply : IdSupply) : Option (Timeline Float) × IdSupply :=
  match (Json.read? text).bind (Timeline.load? supply) with
  | some (timeline, left) => (some timeline, left)
  | none => (none, supply)

variable {m : Type → Type} [Monad m] [Host m]

/-! ## Loading -/

def readFile (p : Path) : ExceptT FolderError m String := ExceptT.mk do
  match ← Host.readText p with
  | .ok text => pure (.ok text)
  | .error e => pure (.error (.disk p e))

def loadProject (root : Path) : ExceptT FolderError m (Project Float) := do
  match parseProject (← readFile (projectFile root)) with
  | some project => pure project
  | none => throw (.parse (projectFile root))

/-- Loads the timeline; an empty one if there is no file. -/
def loadTimeline (root : Path) : ExceptT FolderError m (Timeline Float) := do
  if ← liftM (Host.pathExists (timelineFile root) : m Bool) then
    let text ← readFile (timelineFile root)
    match ← liftM (Host.withIds (parseTimeline text) : m (Option (Timeline Float))) with
    | some timeline => pure timeline
    | none => throw (.parse (timelineFile root))
  else pure .empty

def load (root : Path) : ExceptT FolderError m Folder := do
  let project ← loadProject root
  let timeline ← loadTimeline root
  pure { root, project, timeline }

/-! ## Saving -/

def makeDirectory (p : Path) : ExceptT FolderError m Unit := ExceptT.mk do
  match ← Host.makeDirectories p with
  | .ok () => pure (.ok ())
  | .error e => pure (.error (.disk p e))

def writeFile (p : Path) (value : Json Float) : ExceptT FolderError m Unit := ExceptT.mk do
  match ← Host.writeText p (Json.pretty value) with
  | .ok () => pure (.ok ())
  | .error e => pure (.error (.disk p e))

/-- Writes both files as the project stands. -/
def write (folder : Folder) : ExceptT FolderError m Unit := do
  makeDirectory (metaDirectory folder.root)
  writeFile (projectFile folder.root) folder.project.toJson
  writeFile (timelineFile folder.root) folder.timeline.toJson

/-- A project that is changed now. -/
def touch (folder : Folder) : m Folder := do
  let now ← Host.now
  pure { folder with project := { folder.project with modifiedAt := now } }

/-- Saves a project as changed now; the time counts even if the saving fails. -/
def save (folder : Folder) : m (Except FolderError Unit × Folder) := do
  let touched ← touch folder
  pure (← (write touched).run, touched)

def makeDirectories (root : Path) : List String → ExceptT FolderError m Unit
  | [] => pure ()
  | name :: rest => do
    makeDirectory (root.join name)
    makeDirectories root rest

/-- Makes an empty project in a directory. -/
def create (root : Path) (name : String) : ExceptT FolderError m Folder := do
  makeDirectories root directories
  let id ← liftM (Host.freshId : m Identity)
  let now ← liftM (Host.now : m Timestamp)
  let folder : Folder := { root, project := .ofName id now name, timeline := .empty }
  write folder
  pure folder

/-! ## Assets -/

/-- An asset as the engine reads it, if its file is there. -/
def resolveAsset (root : Path) (asset : Asset Float) : m (AssetRef × Option Render.Resolved) := do
  let file := assetFile root asset
  if ← Host.isFile file then
    pure (asset.ref, some { source := .file file.text, mime := asset.mime, hasAudio := asset.hasAudio })
  else pure (asset.ref, none)

def assets (folder : Folder) : m Render.Store := do
  let entries ← folder.project.assets.mapM (resolveAsset folder.root)
  pure fun ref => (entries.lookup ref).join

/-- What is said about an asset whose path leads nowhere. -/
def missingSource (asset : Asset Float) : String :=
  "Asset " ++ asset.fileName ++ " source missing: " ++ asset.path

def unknownAsset (c : Clip Float) : String :=
  "Clip " ++ c.id.short ++ " references unknown asset " ++ c.asset

/-- What is wrong with the sources of a project: first on assets, then on clips. -/
def sourceFaults (folder : Folder) : m (List String) := do
  let missing ← folder.project.assets.filterM fun asset => do
    pure !(← Host.pathExists (assetFile folder.root asset))
  let unknown := folder.timeline.clips.filter fun c => (folder.project.asset? c.asset).isNone
  pure (missing.map missingSource ++ unknown.map unknownAsset)

end Folder

end Montage
