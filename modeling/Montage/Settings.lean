/-!
Contract: how a video is encoded.

Owns: the choices of quality and speed, their values for the encoder, and the settings of a project.
-/

set_option autoImplicit false

namespace Montage

/-- How faithful the picture is. -/
inductive Quality where
  | low
  | medium
  | high
  | ultra
  deriving DecidableEq, Repr

namespace Quality

/-- The constant rate factor; smaller is better. -/
def rateFactor : Quality → UInt8
  | .low => 28
  | .medium => 23
  | .high => 20
  | .ultra => 18

def name : Quality → String
  | .low => "low"
  | .medium => "medium"
  | .high => "high"
  | .ultra => "ultra"

/-- The name with a capital. -/
def title : Quality → String
  | .low => "Low"
  | .medium => "Medium"
  | .high => "High"
  | .ultra => "Ultra"

def all : List Quality := [.low, .medium, .high, .ultra]

def ofName? (s : String) : Option Quality := all.find? fun quality => quality.name == s

end Quality

/-- How fast the encoder works. -/
inductive Speed where
  | fastest
  | fast
  | balanced
  | slow
  deriving DecidableEq, Repr

namespace Speed

def preset : Speed → String
  | .fastest => "ultrafast"
  | .fast => "veryfast"
  | .balanced => "medium"
  | .slow => "slow"

def name : Speed → String
  | .fastest => "fastest"
  | .fast => "fast"
  | .balanced => "balanced"
  | .slow => "slow"

/-- The name with a capital. -/
def title : Speed → String
  | .fastest => "Fastest"
  | .fast => "Fast"
  | .balanced => "Balanced"
  | .slow => "Slow"

def all : List Speed := [.fastest, .fast, .balanced, .slow]

def ofName? (s : String) : Option Speed := all.find? fun speed => speed.name == s

end Speed

/-- The settings of an export. -/
structure ExportSettings where
  quality : Quality := .high
  speed : Speed := .balanced
  /-- Kilobits per second. -/
  audioBitrate : UInt32 := 192
  deriving DecidableEq, Repr

end Montage
