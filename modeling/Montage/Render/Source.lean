import Montage.Asset
import Montage.Text.Bytes

/-!
Contract: where the media of a render come from.

Owns: resolved assets and the stores that resolve references.
-/

set_option autoImplicit false

namespace Montage.Render

/-- Where the bytes of an asset lie. -/
inductive Source where
  /-- A file that the engine can read itself. -/
  | file (path : String)
  /-- Bytes in memory, which have to be written to a file first. -/
  | bytes (content : ByteArray)
  deriving DecidableEq

/-- An asset that was found. -/
structure Resolved where
  source : Source
  mime : String
  hasAudio : Bool
  deriving DecidableEq

/-- A store finds the assets of references, or does not. -/
abbrev Store := AssetRef → Option Resolved

/-- The store that holds a list of assets; the last one of a reference counts. -/
def Store.ofList (entries : List (AssetRef × Resolved)) : Store :=
  fun ref => entries.reverse.lookup ref

end Montage.Render
