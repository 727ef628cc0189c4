import Montage.Cli.Probe
import Montage.Cli.Task
import Montage.Edit.Apply

/-!
Contract: importing a media file into a project.

Owns: the choice of the media type, the copy under `sources`, and the clip that plays the file.

A file whose sound is unknown is taken to have sound if it is an audio file. Still images are not probed.
-/

set_option autoImplicit false

namespace Montage.Cli

/-- The media type of a file and its kind, by the extension of the file. -/
def mediaType (file : Path) : Except String (String × MediaKind) :=
  let extension := file.extension?.getD ""
  match Media.mimeFor extension with
  | none => .error ("Unsupported media type: ." ++ extension)
  | some mime =>
    match Media.kindFor mime with
    | some kind => .ok (mime, kind)
    | none => .error ("Unsupported media type: " ++ mime)

/-- Where the copy of an imported file lies within a project. -/
def storedPath (ref : AssetRef) (mime : String) (file : Path) : String :=
  "sources/" ++ ref ++ "." ++ (Media.extensionFor mime).getD (file.extension?.getD "")

def importedAsset (ref : AssetRef) (mime : String) (kind : MediaKind) (file : Path)
    (probed : Probed) : Asset Float :=
  { ref
    fileName := file.fileName?.getD "media"
    path := storedPath ref mime file
    mime
    duration := probed.duration
    hasAudio := kind.canCarryAudio && probed.hasAudio.getD (decide (kind = .audio)) }

def importLine (asset : Asset Float) (kind : MediaKind) (c : Clip Float) : String :=
  let doubt := if asset.duration.isNone && kind != .image then ", duration unknown" else ""
  "Imported " ++ asset.fileName ++ " as " ++ kind.title ++ " (" ++ seconds c.sourceDuration ++ "s"
    ++ doubt ++ ")"

variable {m : Type → Type} [Monad m] [Host m]

def copyFile (source target : Path) : m (Except DiskError Unit) := do
  match ← Host.readFile source with
  | .error e => pure (.error e)
  | .ok content => Host.writeFile target content

def probe (prober : String) (kind : MediaKind) (file : Path) : m Probed :=
  if kind = .image then pure .nothing else Probed.ask prober file

def runImport (prober : String) (root file : Path) : Task m Unit := do
  let folder ← loadFolder root
  if !(← simply (Host.isFile file)) then fail ("No such file: " ++ file.text)
  let (mime, kind) ← orFail (mediaType file)
  let probed ← simply (probe prober kind file)
  let ref ← simply (Host.freshId : m Identity)
  let asset := importedAsset ref.text mime kind file probed
  explain (fun e => "Failed to copy " ++ file.text ++ ": " ++ e.message)
    (copyFile file (root.join asset.path))
  let id ← simply (Host.freshId : m Identity)
  let c := Clip.ofAsset id asset.ref kind asset.fileName asset.duration 0
  sayLines [importLine asset kind c]
  let project := { folder.project with assets := folder.project.assets ++ [asset] }
  changeTimeline { folder with project } fun t supply =>
    (t.apply supply (.addClip c)).mapError rejected

end Montage.Cli
