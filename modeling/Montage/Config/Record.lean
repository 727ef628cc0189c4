import Montage.Number.Scalar

/-!
Contract: the configuration of a user.

Owns: the record and its defaults.

Does **not** own: where it is stored (`Montage.Config.Store`).
-/

set_option autoImplicit false

namespace Montage

/-- Defaults of the timeline editor. -/
structure EditorConfig (α : Type) where
  /-- Pixels per second. -/
  zoom : α
  /-- Updates per second while dragging. -/
  dragRate : UInt32
  deriving DecidableEq, Repr

/-- The external tools and what is written beside an export. -/
structure EngineConfig where
  transcoder : String := "ffmpeg"
  prober : String := "ffprobe"
  /-- Whether a report is written next to every export. -/
  writesReport : Bool := true
  /-- Seconds without progress before a warning. -/
  stallSeconds : UInt64 := 10
  deriving DecidableEq, Repr

/-- Where log lines go. -/
structure LogConfig where
  level : String := "info"
  json : Bool := false
  file : Option String := none
  deriving DecidableEq, Repr

/-- The configuration of a user. -/
structure Config (α : Type) where
  projectsDirectory : String
  editor : EditorConfig α
  engine : EngineConfig
  logging : LogConfig
  deriving DecidableEq, Repr

variable {α : Type} [Scalar α]

def EditorConfig.usual : EditorConfig α := { zoom := 100, dragRate := 60 }

def Config.usual (projectsDirectory : String) : Config α :=
  { projectsDirectory, editor := .usual, engine := {}, logging := {} }

end Montage
