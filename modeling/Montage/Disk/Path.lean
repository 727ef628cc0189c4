import Montage.Text.Blank

/-!
Contract: paths of files and directories.

Owns: the parts of a path, the joining of paths, and the name, stem and extension of the last part.

Does **not** own: what lies at a path (`Montage.Disk.Tree`).

A path keeps the text it was written with. Empty parts and single points say nothing and are passed over,
save a point at the very beginning.
-/

set_option autoImplicit false

namespace Montage

/-- A path as it is written. -/
structure Path where
  text : String
  deriving DecidableEq, Repr

namespace Path

def bytes (p : Path) : ByteArray := p.text.toUTF8

/-- The parts between slashes, as they are written. -/
def rawParts (p : Path) : List String :=
  (Text.splitOn '/' p.text.toList).map String.ofList

def isAbsolute (p : Path) : Bool := p.text.toList.head? == some '/'

def endsWithSlash (p : Path) : Bool := p.text.toList.getLast? == some '/'

/-- A path continued by another one; an absolute one takes its place. -/
def join (p : Path) (rest : String) : Path :=
  if isAbsolute ⟨rest⟩ || p.text.isEmpty then ⟨rest⟩
  else if p.endsWithSlash then ⟨p.text ++ rest⟩
  else ⟨p.text ++ "/" ++ rest⟩

/-- Whether a part says nothing, given that it is not the first one. -/
def isIdle (part : String) : Bool := part == "" || part == "."

/-- Parts from the last one back to the first one, without the idle ones at the end. -/
def withoutIdle : List String → List String
  | [] => []
  | [first] => if first == "" then [] else [first]
  | part :: before => if isIdle part then withoutIdle before else part :: before

/-- The parts up to the last one that says something, the last one first. -/
def reversedParts (p : Path) : List String := withoutIdle p.rawParts.reverse

/-- The path of the directory that holds the last part; none if there is no part. -/
def parent? (p : Path) : Option Path :=
  match p.reversedParts with
  | [] => none
  | _ :: before =>
    let kept := Text.join "/" (withoutIdle before).reverse
    some ⟨if p.isAbsolute && kept.isEmpty then "/" else kept⟩

/-- The last part, unless it stands for a directory above or for the present one. -/
def fileName? (p : Path) : Option String :=
  match p.reversedParts with
  | [] => none
  | last :: _ => if last == "." || last == ".." then none else some last

/-- A name cut at its last point, if there is one behind the first character. -/
def cutName (name : String) : String × Option String :=
  let reversed := name.toList.reverse
  let after := reversed.takeWhile (· != '.')
  match reversed.drop after.length with
  | _ :: before@(_ :: _) => (String.ofList before.reverse, some (String.ofList after.reverse))
  | _ => (name, none)

/-- The last part up to its last point. -/
def stem? (p : Path) : Option String := p.fileName?.map fun name => (cutName name).1

/-- The last part behind its last point. -/
def extension? (p : Path) : Option String := p.fileName?.bind fun name => (cutName name).2

/-- A path with an extension behind the stem of its last part, and nothing behind that. -/
def extendStem (p : Path) (extension : String) : Path :=
  match p.stem?, p.reversedParts with
  | some stem, _ :: before => ⟨Text.join "/" ((stem ++ "." ++ extension) :: before).reverse⟩
  | _, _ => p

/-- A path with another extension. The length of the present extension is taken off the end first, so
that a name which is left with two points keeps only these. -/
def withExtension (p : Path) (extension : String) : Path :=
  let length := (p.extension?.getD "").length
  extendStem ⟨String.ofList (p.text.toList.take (p.text.length - length))⟩ extension

/-- A path and the directories above it, each holding the one before. -/
def lineageWithin : Nat → Path → List Path
  | 0, _ => []
  | depth + 1, p =>
    if p.text.isEmpty then []
    else
      match p.parent? with
      | some above => p :: lineageWithin depth above
      | none => [p]

/-- A path and all directories above it that it names. -/
def lineage (p : Path) : List Path := lineageWithin (p.text.length + 1) p

end Path

end Montage
