import Montage.Disk.Error
import Montage.Disk.Path
import Montage.Text.Bytes

/-!
Contract: directories and files.

Owns: the state of a disk, the meaning of a path on it, and the changes that can be made to it.

A place is the list of names from the root. Every name of a path but the last one has to be a directory
that exists; the last one may be missing.
-/

set_option autoImplicit false

namespace Montage

/-- The names from the root to a file or directory. -/
abbrev Place := List String

/-- What lies at a place. -/
inductive Node where
  | directory
  | file (content : ByteArray)
  deriving DecidableEq

/-- What kind of thing lies at a place. -/
inductive NodeKind where
  | directory
  | file
  deriving DecidableEq, Repr

def Node.kind : Node → NodeKind
  | .directory => .directory
  | .file _ => .file

/-- The state of a disk: what lies at each place below the root, and the directory from which relative
paths begin. -/
structure Disk where
  nodes : List (Place × Node)
  working : Place

namespace Disk

/-- A disk without files, on which paths begin at the root. -/
def empty : Disk := ⟨[], []⟩

/-- What lies at a place. The root is always there. -/
def node? (d : Disk) (place : Place) : Option Node :=
  if place = [] then some .directory else d.nodes.lookup place

def put (d : Disk) (place : Place) (node : Node) : Disk :=
  { d with nodes := (place, node) :: d.nodes.filter fun entry => entry.1 != place }

/-- Takes a place away with all that is below it. -/
def erase (d : Disk) (place : Place) : Disk :=
  { d with nodes := d.nodes.filter fun entry => !place.isPrefixOf entry.1 }

/-- The places strictly below a place, as names from there. -/
def below (d : Disk) (place : Place) : List Place :=
  (d.nodes.filter fun entry => place.isPrefixOf entry.1 && entry.1 != place).map
    fun entry => entry.1.drop place.length

/-! ## The meaning of a path -/

/-- The largest number of bytes of a name. -/
def longestName : Nat := 255

/-- The largest number of bytes of a path. -/
def longestPath : Nat := 4095

/-- Accepts a place if a directory lies there. -/
def enter (d : Disk) (place : Place) : Except DiskError Place :=
  match d.node? place with
  | some .directory => .ok place
  | some (.file _) => .error .notDirectory
  | none => .error .notFound

def follow (d : Disk) (place : Place) : List String → Except DiskError Place
  | [] => .ok place
  | name :: rest =>
    if longestName < name.utf8ByteSize then .error .nameTooLong
    else if Path.isIdle name then follow d place rest
    else if name == ".." then follow d place.dropLast rest
    else if rest.isEmpty then .ok (place ++ [name])
    else
      match d.enter (place ++ [name]) with
      | .ok next => follow d next rest
      | .error e => .error e

def resolve (d : Disk) (p : Path) : Except DiskError Place :=
  if p.text.toList.contains '\x00' then .error .zeroInPath
  else if p.text.isEmpty then .error .notFound
  else if longestPath < p.text.utf8ByteSize then .error .nameTooLong
  else d.follow (if p.isAbsolute then [] else d.working) p.rawParts

/-- The place that a path means which need not exist, so that slashes at its end mean nothing. -/
def resolveNew (d : Disk) (p : Path) : Except DiskError Place :=
  let reversed := p.text.toList.reverse
  let kept := reversed.dropWhile (· == '/')
  d.resolve ⟨if kept.isEmpty then p.text else String.ofList kept.reverse⟩

/-! ## Looking -/

/-- What kind of thing a path leads to, if it leads anywhere. -/
def kind? (d : Disk) (p : Path) : Option NodeKind :=
  match d.resolve p with
  | .ok place => (d.node? place).map Node.kind
  | .error _ => none

/-- The content of a file. -/
def read (d : Disk) (p : Path) : Except DiskError ByteArray :=
  match d.resolve p with
  | .error e => .error e
  | .ok place =>
    match d.node? place with
    | some (.file content) => .ok content
    | some .directory => .error .isDirectory
    | none => .error .notFound

def names (d : Disk) (p : Path) : Except DiskError (List String) :=
  match d.resolve p with
  | .error e => .error e
  | .ok place =>
    match d.node? place with
    | some .directory =>
      .ok ((d.below place).filterMap fun names =>
        match names with
        | [name] => some name
        | _ => none)
    | some (.file _) => .error .notDirectory
    | none => .error .notFound

/-- The paths of all that lies under a path; each directory before what it holds, names in order. -/
def pathsUnder (d : Disk) (p : Path) : List Path :=
  match d.resolve p with
  | .error _ => []
  | .ok place =>
    ((d.below place).mergeSort fun a b => !(decide (b < a))).map fun names => names.foldl Path.join p

/-! ## Changing -/

/-- The place of a file that may be written: an old one, or a new one in a directory that exists. -/
def writable (d : Disk) (p : Path) : Except DiskError Place :=
  if p.endsWithSlash then
    match d.resolveNew p with
    | .ok _ => .error .isDirectory
    | .error e => .error e
  else
    match d.resolve p with
    | .error e => .error e
    | .ok place => if d.node? place = some .directory then .error .isDirectory else .ok place

def write (d : Disk) (p : Path) (content : ByteArray) : Except DiskError Disk :=
  (d.writable p).map fun place => d.put place (.file content)

/-- Opens a file to be continued; a new one is empty. -/
def openToAppend (d : Disk) (p : Path) : Except DiskError Disk :=
  (d.writable p).map fun place =>
    match d.node? place with
    | some _ => d
    | none => d.put place (.file ByteArray.empty)

def makeDirectory (d : Disk) (p : Path) : Except DiskError Disk :=
  match d.resolveNew p with
  | .error e => .error e
  | .ok place =>
    match d.node? place with
    | some _ => .error .alreadyExists
    | none => .ok (d.put place .directory)

/-- Takes a directory away with all that is in it. -/
def removeDirectory (d : Disk) (p : Path) : Except DiskError Disk :=
  match d.resolve p with
  | .error e => .error e
  | .ok place =>
    match d.node? place with
    | some .directory => .ok (d.erase place)
    | some (.file _) => .error .notDirectory
    | none => .error .notFound

/-- Takes away what a path leads to, with all that is in it. -/
def remove (d : Disk) (p : Path) : Except DiskError Disk :=
  match d.resolve p with
  | .error e => .error e
  | .ok place => if (d.node? place).isSome then .ok (d.erase place) else .error .notFound

end Disk

end Montage
