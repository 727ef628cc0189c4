import Montage.Text.Blank

/-!
Contract: the kinds of media and the file formats that can be imported.

Owns: the table of media types with their file extensions, and the three look-ups in it.
-/

set_option autoImplicit false

namespace Montage

/-- What a clip plays. -/
inductive MediaKind where
  | video
  | audio
  | image
  deriving DecidableEq, Repr

namespace MediaKind

def isVisual : MediaKind → Bool
  | .video => true
  | .image => true
  | .audio => false

/-- Whether a clip of this kind can have sound. -/
def canCarryAudio : MediaKind → Bool
  | .video => true
  | .audio => true
  | .image => false

def name : MediaKind → String
  | .video => "video"
  | .audio => "audio"
  | .image => "image"

/-- The name with a capital, used in messages. -/
def title : MediaKind → String
  | .video => "Video"
  | .audio => "Audio"
  | .image => "Image"

def all : List MediaKind := [.video, .audio, .image]

def ofName? (s : String) : Option MediaKind :=
  all.find? fun kind => kind.name == s

end MediaKind

namespace Media

/-- Importable media types with the extension of their files; earlier entries win a look-up. -/
def formats : List (String × String) :=
  [("video/mp4", "mp4"), ("video/quicktime", "mov"), ("video/webm", "webm"),
   ("video/x-msvideo", "avi"), ("video/x-matroska", "mkv"), ("audio/mpeg", "mp3"),
   ("audio/wav", "wav"), ("audio/x-wav", "wav"), ("audio/aac", "aac"), ("audio/mp4", "m4a"),
   ("audio/x-m4a", "m4a"), ("image/jpeg", "jpg"), ("image/png", "png"), ("image/webp", "webp"),
   ("image/gif", "gif")]

/-- A media type without parameters and surrounding white space, in lower case. -/
def essence (mime : String) : String :=
  let beforeParameters := mime.toList.takeWhile (· != ';')
  String.ofList ((Text.trimChars beforeParameters).map Char.toLower)

/-- The file extension of an importable media type. -/
def extensionFor (mime : String) : Option String :=
  (formats.find? fun entry => entry.1 == essence mime).map (·.2)

/-- An extension without leading points, in lower case, `jpeg` read as `jpg`. -/
def plainExtension (extension : String) : String :=
  let plain := String.ofList ((extension.toList.dropWhile (· == '.')).map Char.toLower)
  if plain = "jpeg" then "jpg" else plain

/-- The media type of files with an extension. -/
def mimeFor (extension : String) : Option String :=
  (formats.find? fun entry => entry.2 == plainExtension extension).map (·.1)

/-- The kind named by the part of a media type before the slash. -/
def kindOfEssence (essence : String) : Option MediaKind :=
  MediaKind.all.find? fun kind => (kind.name ++ "/").toList.isPrefixOf essence.toList

def kindFor (mime : String) : Option MediaKind :=
  if (extensionFor mime).isSome then kindOfEssence (essence mime) else none

end Media

end Montage
