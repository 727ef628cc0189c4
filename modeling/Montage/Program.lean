import Montage.Text.Bytes

/-!
Contract: what comes back from a program that was run.

Owns: the outputs and the exit status of a program, and the text of a status.
-/

set_option autoImplicit false

namespace Montage

/-- How a program ended. -/
inductive ExitStatus where
  | exited (code : Nat)
  | killed (signal : Nat)
  deriving DecidableEq, Repr

namespace ExitStatus

def isSuccess (s : ExitStatus) : Bool := s == .exited 0

def text : ExitStatus → String
  | .exited code => "exit status: " ++ toString code
  | .killed signal => "signal: " ++ toString signal

end ExitStatus

/-- A program that ended, with what it wrote. -/
structure Finished where
  output : ByteArray
  errors : ByteArray
  status : ExitStatus
  deriving DecidableEq

end Montage
