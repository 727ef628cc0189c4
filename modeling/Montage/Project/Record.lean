import Montage.Asset
import Montage.Identity
import Montage.Settings
import Montage.Timestamp

/-!
Contract: what a project is.

Owns: the record of a project and the look-up of its assets.
-/

set_option autoImplicit false

namespace Montage

/-- A project: its imported media and export settings. -/
structure Project (α : Type) where
  version : String
  name : String
  id : Identity
  createdAt : Timestamp
  modifiedAt : Timestamp
  assets : List (Asset α)
  settings : ExportSettings
  deriving DecidableEq

namespace Project

variable {α : Type}

def ofName (id : Identity) (now : Timestamp) (name : String) : Project α :=
  { version := "1.0", name, id, createdAt := now, modifiedAt := now, assets := [], settings := {} }

def asset? (p : Project α) (ref : AssetRef) : Option (Asset α) :=
  p.assets.find? fun asset => asset.ref == ref

end Project

end Montage
