/-!
Contract: refusals of the disk and of the system.

Owns: the reasons and the text of each.
-/

set_option autoImplicit false

namespace Montage

/-- Why the system refuses a request. -/
inductive DiskError where
  | notFound
  | accessDenied
  | alreadyExists
  | notDirectory
  | isDirectory
  | nameTooLong
  /-- The content is no UTF-8 text. -/
  | notText
  /-- A path holds the character zero. -/
  | zeroInPath
  /-- An argument of a program holds the character zero. -/
  | zeroInArgument
  /-- Any other reason, in the system's words. -/
  | other (reason : String)
  deriving DecidableEq, Repr

def DiskError.message : DiskError → String
  | .notFound => "No such file or directory (os error 2)"
  | .accessDenied => "Permission denied (os error 13)"
  | .alreadyExists => "File exists (os error 17)"
  | .notDirectory => "Not a directory (os error 20)"
  | .isDirectory => "Is a directory (os error 21)"
  | .nameTooLong => "File name too long (os error 36)"
  | .notText => "stream did not contain valid UTF-8"
  | .zeroInPath => "file name contained an unexpected NUL byte"
  | .zeroInArgument => "nul byte found in provided data"
  | .other reason => reason

/-- The refusal of a code of the system, given the system's words for it. -/
def DiskError.ofCode (code : Nat) (reason : String) : DiskError :=
  match code with
  | 2 => .notFound
  | 13 => .accessDenied
  | 17 => .alreadyExists
  | 20 => .notDirectory
  | 21 => .isDirectory
  | 36 => .nameTooLong
  | _ => .other (reason ++ " (os error " ++ toString code ++ ")")

end Montage
