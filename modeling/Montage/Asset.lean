import Montage.Clip

/-!
Contract: imported media.

Owns: the record of an imported file.

Does **not** own: where the file lies at run time (`Montage.Render.Source`).
-/

set_option autoImplicit false

namespace Montage

/-- A media file that was copied into a project. -/
structure Asset (α : Type) where
  ref : AssetRef
  fileName : String
  /-- The path of the copy, relative to the project. -/
  path : String
  mime : String
  /-- The length in seconds, where it is known. -/
  duration : Option α
  hasAudio : Bool
  deriving DecidableEq, Repr

def Asset.kind {α : Type} (a : Asset α) : Option MediaKind := Media.kindFor a.mime

end Montage
