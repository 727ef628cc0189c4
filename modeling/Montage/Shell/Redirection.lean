import Montage.Shell.Expansion

/-!
Contract: redirections.

Owns: where redirections let streams lead, and what is said when they cannot.

The names of all redirections of a command are expanded first. Then they are carried out one after the
other, so that a later one sees what an earlier one has changed.
-/

set_option autoImplicit false

namespace Montage.Shell

variable {m : Type → Type} [Monad m] [Ground m]

/-- A redirection whose name is known. -/
inductive Target where
  | file (opening : Opening) (name : String)
  /-- The stream of which this one is to be a copy, or nothing if it is to be closed. -/
  | copy (source : Option Nat)
  | text (number : Nat)

def targetsOf (run : Runner m) : List Redirection → Act m (List (Nat × Target))
  | [] => pure []
  | first :: rest => do
    let target ←
      match first with
      | .file stream opening name => do
        pure (stream, .file opening (← expandText run name))
      | .copy stream source => do
        match (← expandText run source).toList with
        | ['-'] => pure (stream, .copy none)
        | digits =>
          if digits.length == 1 && digits.all Char.isDigit then
            pure (stream, .copy (some (Integer.ofDigits 10 digits)))
          else
            modify fun s => { s with line := s.reached }
            fail "Syntax error: Bad fd number"
      | .text stream number => pure (stream, .text number)
    pure (target :: (← targetsOf run rest))

def refusal : DiskError → String
  | .isDirectory => "Is a directory"
  | .notFound | .notDirectory => "Directory nonexistent"
  | .nameTooLong => "File name too long"
  | _ => "Permission denied"

/-- The channel of a file that is to be written, once it is there. -/
def made (name : String) (channel : Channel) (result : Except DiskError Unit) : Act m Channel :=
  match result with
  | .ok () => pure channel
  | .error e => fail ("cannot create " ++ name ++ ": " ++ refusal e)

def openFile (opening : Opening) (name : String) : Act m Channel := do
  if name == "/dev/null" then pure (.nothing true)
  else
    let path ← pathOf name
    let kind ← kindOf? name
    let isKept := opening == .writing && (← hasOption "noclobber")
    match opening with
    | .reading =>
      match kind with
      | none => fail ("cannot open " ++ name ++ ": No such file")
      | some .directory => pure (.nothing false)
      | some .file => pure (.file path 0 true false false)
    | .writing | .overwriting =>
      match if isKept then kind else none with
      | some .file => fail ("cannot create " ++ name ++ ": File exists")
      | some .directory => fail ("cannot open " ++ name ++ ": Is a directory")
      | none => do
        made name (.file path 0 false true false) (← ask (Host.writeFile path ByteArray.empty))
    | .appending => do
      made name (.file path 0 false true true) (← ask (Host.openToAppend path))
    | .both => do
      made name (.file path 0 true true false) (← ask (Host.openToAppend path))

/-- Carries out redirections. Where they are taken back later, a stream is put aside before it is made a
copy of another one, so that nothing can be said on it if there is no other one. -/
def redirect (run : Runner m) (isLasting : Bool) : List (Nat × Target) → Act m Unit
  | [] => pure ()
  | (stream, target) :: rest => do
    match target with
    | .file opening name =>
      let number ← newChannel (← openFile opening name)
      lead stream (some number)
    | .text number =>
      let text ← expandPlain run ((← get).texts.get number)
      let number ← newChannel (.pipe text.toList)
      lead stream (some number)
    | .copy none => lead stream none
    | .copy (some source) =>
      if source != stream then
        match ← channelOf? source with
        | some (number, _) => lead stream (some number)
        | none =>
          if !isLasting then lead stream none
          fail (toString source ++ ": Bad file descriptor")
    redirect run isLasting rest

/-- Carries out redirections that are taken back later; the answer is whether that was possible. -/
def redirectOrNot (run : Runner m) (targets : List (Nat × Target)) : Act m Bool := do
  let whole : Act m Bool := do
    redirect run false targets
    pure true
  tryCatch whole fun leaving =>
    match leaving with
    | .failed => pure false
    | leaving => throw leaving

end Montage.Shell
