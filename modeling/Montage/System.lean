import Montage.Host
import Std.Time.DateTime.Timestamp

/-!
Contract: the operating system as a host.

Owns: the answers of the operating system to the requests of `Montage.Host`.

Does **not** own: the running of other programs, the command interpreter among them. Every attempt is
refused, so that a project is edited and compiled here and rendered elsewhere.
-/

set_option autoImplicit false

namespace Montage.System

/-- The code of a refusal, which some requests give with a minus sign. -/
def codeOf (given : UInt32) : Nat := given.toInt32.toInt.natAbs

/-- Why the system refused a request. -/
def refusal : IO.Error → DiskError
  | .alreadyExists _ code reason | .otherError code reason | .resourceBusy code reason
  | .resourceVanished code reason | .unsupportedOperation code reason | .hardwareFault code reason
  | .unsatisfiedConstraints code reason | .illegalOperation code reason | .protocolError code reason
  | .timeExpired code reason | .interrupted _ code reason | .noFileOrDirectory _ code reason
  | .invalidArgument _ code reason | .permissionDenied _ code reason
  | .resourceExhausted _ code reason | .inappropriateType _ code reason
  | .noSuchThing _ code reason => .ofCode (codeOf code) reason
  | e => .other (toString e)

/-- Asks the system, which may refuse. -/
def attempt {β : Type} (request : IO β) : IO (Except DiskError β) := do
  try
    pure (.ok (← request))
  catch e => pure (.error (refusal e))

/-- What kind of thing a path leads to: a directory can be opened but not read. -/
def kind? (p : Path) : IO (Option NodeKind) := do
  match ← attempt do (← IO.FS.Handle.mk p.text .read).read 1 with
  | .ok _ => pure (some .file)
  | .error .isDirectory => pure (some .directory)
  | .error _ => pure none

def now : IO Timestamp := do
  let count := (← Std.Time.Timestamp.now).toNanosecondsSinceUnixEpoch.val
  pure { seconds := count / 1000000000, nanos := (count % 1000000000).toNat }

/-- Lends identities from a random seed. -/
def withIds {β : Type} (use : IdSupply → β × IdSupply) : IO β := do
  let bytes ← IO.getRandomBytes 16
  let seed := bytes.toList.foldl (fun n byte => n * 256 + byte.toNat) 0
  pure (use (.ofSeed seed)).1

def write (stream : IO.FS.Stream) (text : String) : IO Unit := do
  stream.putStr text
  stream.flush

instance : Host IO where
  kind? := kind?
  readFile p := attempt (IO.FS.readBinFile p.text)
  writeFile p content := attempt (IO.FS.writeBinFile p.text content)
  openToAppend p := attempt do
    let _ ← IO.FS.Handle.mk p.text .append
  makeDirectory p := attempt (IO.FS.createDir p.text)
  removeDirectory p := attempt (IO.FS.removeDirAll p.text)
  run _ _ := pure (.error (.other "programs cannot be run from here"))
  interpret _ := pure (.error (.other "commands cannot be interpreted from here"))
  environment? name := IO.getEnv name
  withIds := withIds
  now := now
  ticks := IO.monoNanosNow
  temporary := do pure ⟨(← IO.getEnv "TMPDIR").getD "/tmp"⟩
  print text := do write (← IO.getStdout) text
  complain text := do write (← IO.getStderr) text

end Montage.System
