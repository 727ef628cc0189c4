import Montage.Cli.Run
import Montage.System

/-!
Contract: the program.

Owns: the start of the command line on the operating system.
-/

set_option autoImplicit false

/-- Runs the arguments of the program as a command line. An activity without end is broken off here. -/
def main (arguments : List String) : IO UInt32 := do
  match ← Montage.Cli.run arguments with
  | some code => pure code.toUInt32
  | none => throw (IO.userError "compilation without end")
