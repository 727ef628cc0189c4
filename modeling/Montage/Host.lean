import Montage.Disk.Tree
import Montage.Identity
import Montage.Program
import Montage.Timestamp

/-!
Contract: what the application asks of the system it runs on.

Owns: the requests, and the few composite ones that are made of them.

Does **not** own: who answers them. `Montage.Machine` answers from a value; the program asks the
operating system.
-/

set_option autoImplicit false

namespace Montage

/-- A system that answers requests in a monad. -/
class Host (m : Type → Type) where
  /-- What kind of thing a path leads to, if it leads anywhere. -/
  kind? : Path → m (Option NodeKind)
  readFile : Path → m (Except DiskError ByteArray)
  /-- Gives a file a content; a new one is made. -/
  writeFile : Path → ByteArray → m (Except DiskError Unit)
  /-- Opens a file to be continued; a new one is made. -/
  openToAppend : Path → m (Except DiskError Unit)
  /-- Makes a directory in one that exists. -/
  makeDirectory : Path → m (Except DiskError Unit)
  /-- Takes a directory away with all that is in it. -/
  removeDirectory : Path → m (Except DiskError Unit)
  /-- Runs a program with arguments until it ends. -/
  run : String → List String → m (Except DiskError Finished)
  /-- Has the command interpreter carry out a text. What is written meanwhile goes where the words of the
  application go. -/
  interpret : String → m (Except DiskError ExitStatus)
  /-- An environment variable, if it is set. -/
  environment? : String → m (Option String)
  /-- Lends identities never used before; what is left of them is taken back. -/
  withIds : {β : Type} → (IdSupply → β × IdSupply) → m β
  /-- The time of day. -/
  now : m Timestamp
  /-- Nanoseconds since some moment. -/
  ticks : m Nat
  /-- The directory for temporary files. -/
  temporary : m Path
  /-- Writes to the output. -/
  print : String → m Unit
  /-- Writes to the error output. -/
  complain : String → m Unit

namespace Host

variable {m : Type → Type} [Monad m] [Host m]

def pathExists (p : Path) : m Bool := do
  pure (← Host.kind? p).isSome

def isFile (p : Path) : m Bool := do
  pure ((← Host.kind? p) == some .file)

def isDirectory (p : Path) : m Bool := do
  pure ((← Host.kind? p) == some .directory)

def readText (p : Path) : m (Except DiskError String) := do
  match ← Host.readFile p with
  | .error e => pure (.error e)
  | .ok content =>
    match textOf? content with
    | some text => pure (.ok text)
    | none => pure (.error .notText)

def writeText (p : Path) (text : String) : m (Except DiskError Unit) :=
  Host.writeFile p text.toUTF8

def freshId : m Identity := Host.withIds IdSupply.draw

def printLine (text : String) : m Unit := Host.print (text ++ "\n")

/-- Accepts the making of a directory that is there already. -/
def settle (p : Path) (made : Except DiskError Unit) : m (Except DiskError Unit) := do
  match made with
  | .ok () => pure (.ok ())
  | .error e => if ← isDirectory p then pure (.ok ()) else pure (.error e)

/-- Makes a directory, given with those above it from the nearest one up. The ones above are made only
if it cannot be made without them. -/
def makeLineage : List Path → m (Except DiskError Unit)
  | [] => pure (.ok ())
  | p :: above => do
    match ← Host.makeDirectory p with
    | .error .notFound =>
      match ← makeLineage above with
      | .error e => pure (.error e)
      | .ok () => settle p (← Host.makeDirectory p)
    | made => settle p made

def makeDirectories (p : Path) : m (Except DiskError Unit) := makeLineage p.lineage

/-- Gives a file a text and makes the directories above it. -/
def establish (p : Path) (text : String) : m (Except DiskError Unit) := do
  match ← makeDirectories (p.parent?.getD ⟨""⟩) with
  | .error e => pure (.error e)
  | .ok () => writeText p text

/-- A host stays one when a state of its own is kept beside it. -/
instance {σ : Type} : Host (StateT σ m) where
  kind? p := liftM (Host.kind? p : m _)
  readFile p := liftM (Host.readFile p : m _)
  writeFile p content := liftM (Host.writeFile p content : m _)
  openToAppend p := liftM (Host.openToAppend p : m _)
  makeDirectory p := liftM (Host.makeDirectory p : m _)
  removeDirectory p := liftM (Host.removeDirectory p : m _)
  run program arguments := liftM (Host.run program arguments : m _)
  interpret text := liftM (Host.interpret text : m _)
  environment? name := liftM (Host.environment? name : m _)
  withIds use := liftM (Host.withIds use : m _)
  now := liftM (Host.now : m _)
  ticks := liftM (Host.ticks : m _)
  temporary := liftM (Host.temporary : m _)
  print text := liftM (Host.print text : m _)
  complain text := liftM (Host.complain text : m _)

end Host

end Montage
