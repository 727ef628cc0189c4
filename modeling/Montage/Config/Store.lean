import Montage.Host
import Montage.Json.Reader
import Montage.Json.Writer
import Montage.Stored.Config

/-!
Contract: the configuration of the user on disk.

Owns: where the configuration file and the projects of a user lie, loading and saving.

Loading never fails: a file that is missing, unreadable or not understood counts as the usual
configuration.
-/

set_option autoImplicit false

namespace Montage.Config

variable {m : Type → Type} [Monad m] [Host m]

/-- A base directory: that of a variable, or the one that lies in the home directory. -/
def baseDirectory (name : String) (inHome : List String) : m Path := do
  match ← Host.environment? name with
  | some directory => pure ⟨directory⟩
  | none =>
    let home := (← Host.environment? "HOME").getD "/tmp"
    pure (inHome.foldl Path.join ⟨home⟩)

def file : m Path := do
  let base ← baseDirectory "XDG_CONFIG_HOME" [".config"]
  pure ((base.join "clipforge").join "config.json")

def usualProjects : m Path := do
  let base ← baseDirectory "XDG_DATA_HOME" [".local", "share"]
  pure ((base.join "clipforge").join "projects")

def parse (text : String) : Option (Config Float) := (Json.read? text).bind Config.ofJson?

/-- The configuration in the file, if it can be read and understood. -/
def stored? : m (Option (Config Float)) := do
  match ← Host.readText (← file) with
  | .ok text => pure (parse text)
  | .error _ => pure none

def load : m (Config Float) := do
  match ← stored? with
  | some config => pure config
  | none => pure (.usual (← usualProjects).text)

def save (config : Config Float) : m (Except DiskError Unit) := do
  Host.establish (← file) (Json.pretty config.toJson)

end Montage.Config
