import Montage.Cli.Task

/-!
Contract: telling about a project without changing it.

Owns: the overview of a project and the report on its sources.
-/

set_option autoImplicit false

namespace Montage.Cli

/-- The numbers of clips and overlays. -/
def elementCounts (t : Timeline Float) : String :=
  toString t.clips.length ++ " clip(s), " ++ toString t.overlays.length ++ " text overlay(s)"

def canvasText (t : Timeline Float) : String :=
  toString t.canvas.width.toNat ++ "x" ++ toString t.canvas.height.toNat ++ " @ "
    ++ toString t.frameRate.toNat ++ "fps"

def durationText : Option Float → String
  | some d => Layout.fixed 1 d ++ "s"
  | none => "?"

def assetLine (asset : Asset Float) : String :=
  "  " ++ asset.ref ++ " " ++ asset.fileName ++ " (" ++ asset.mime ++ ", "
    ++ durationText asset.duration ++ (if asset.hasAudio then ", audio" else "") ++ ")"

/-- The quality of an export with its value for the encoder. -/
def qualityText (quality : Quality) : String :=
  quality.title ++ " (crf " ++ toString quality.rateFactor.toNat ++ ")"

/-- The speed of an export with its value for the encoder. -/
def speedText (speed : Speed) : String := speed.title ++ " (preset " ++ speed.preset ++ ")"

def overview (folder : Folder) : String :=
  let p := folder.project
  let lines (list : List String) : String := String.join (list.map fun line => line ++ "\n")
  lines
      (["Project: " ++ p.name, "  ID: " ++ p.id.text, "  Created: " ++ p.createdAt.listed,
        "  Modified: " ++ p.modifiedAt.listed, "", "Assets:"]
        ++ p.assets.map assetLine
        ++ ["", "Timeline: " ++ canvasText folder.timeline ++ ", " ++ elementCounts folder.timeline])
    ++ listing folder.timeline
    ++ lines
      ["", "Export settings:", "  Quality: " ++ qualityText p.settings.quality,
       "  Speed: " ++ speedText p.settings.speed,
       "  Audio bitrate: " ++ toString p.settings.audioBitrate.toNat ++ " kbps"]

/-- What is known of a project before its sources are looked at. -/
def recordLines (folder : Folder) : List String :=
  ["  Name: " ++ folder.project.name, "  Version: " ++ folder.project.version,
   "  Assets: " ++ toString folder.project.assets.length,
   "  Timeline: " ++ elementCounts folder.timeline ++ ", " ++ seconds folder.timeline.totalDuration
     ++ "s"]

def findingLines (faults : List String) : List String :=
  if faults.isEmpty then ["  Sources: All present", "", "Project is valid."]
  else
    ["", "Validation issues:"] ++ faults.map (fun fault => "  - " ++ fault)
      ++ ["", toString faults.length ++ " issue(s) found. Export will fail until they are fixed."]

variable {m : Type → Type} [Monad m] [Host m]

/-- Gives an overview of a project. -/
def runInfo (root : Path) : Task m Unit := do
  say (overview (← loadFolder root))

/-- Reports on the sources of a project. -/
def runValidate (root : Path) : Task m Unit := do
  sayLines ["Validating project at: " ++ root.text]
  let folder ← loadFolder root
  sayLines (recordLines folder)
  let faults ← simply (Folder.sourceFaults folder)
  sayLines (findingLines faults)

end Montage.Cli
