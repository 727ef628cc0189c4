import Montage.Shell.Builtin.Declaration
import Montage.Shell.Builtin.Input
import Montage.Shell.Builtin.Jobs
import Montage.Shell.Builtin.Leaving
import Montage.Shell.Builtin.Naming
import Montage.Shell.Builtin.Surroundings
import Montage.Shell.Builtin.Writing
import Montage.Shell.Condition

/-!
Contract: the commands that are part of the interpreter.

Owns: which command a name means, and the commands that carry out a text.

Does **not** own: the commands that carry out another command by its name (`Montage.Shell.Run`).
-/

set_option autoImplicit false

namespace Montage.Shell.Builtin

variable {m : Type → Type} [Monad m] [Ground m]

def firstFile : List String → Act m (Option String)
  | [] => pure none
  | path :: rest => do if (← kindOf? path) == some .file then pure (some path) else firstFile rest

/-- Carries out the text of a file, which is looked for where programs are if its name has no slash. -/
def includeFile (run : Runner m) (arguments : List String) : Act m Nat := do
  match ← withoutOptions arguments with
  | [] => pure 0
  | name :: _ =>
    let found ←
      if name.toList.contains '/' then pure (some name)
      else firstFile (candidates name (← searchPath))
    match found with
    | none => fail (name ++ ": not found")
    | some path =>
      if (← kindOf? path).isNone then fail ("cannot open " ++ path ++ ": No such file")
      let text := (← contentOf? path).getD ""
      modify fun s => { s with activity := some path }
      let status ← runText run false true text
      modify fun s =>
        { s with
          skip :=
            match s.skip with
            | .function _ => .none
            | skip => skip }
      pure status

/-- Carries out a command of the interpreter that is not about other commands. -/
def runPlain (run : Runner m) (isAsked : Bool) (name : String) (arguments : List String) : Act m Nat :=
  match name with
  | ":" | "true" => pure 0
  | "false" => pure 1
  | "." => includeFile run arguments
  | "eval" => runText run isAsked false (" ".intercalate arguments)
  | "echo" => echo arguments
  | "printf" => printForm arguments
  | "test" | "[" => Condition.run name arguments
  | "read" => read arguments
  | "getopts" => getopts arguments
  | "export" => mark name .exported (·.isExported) arguments
  | "readonly" => mark name .readonly (·.isReadonly) arguments
  | "local" => keepLocal arguments
  | "unset" => unset arguments
  | "set" => configure arguments
  | "shift" => shift arguments
  | "alias" => setOrShowAliases arguments
  | "unalias" => unalias arguments
  | "hash" => programs arguments
  | "type" => describeAll arguments
  | "command" => answer arguments
  | "cd" | "chdir" => changeDirectory arguments
  | "pwd" => tellDirectory arguments
  | "umask" => fileMask arguments
  | "ulimit" => tellLimits arguments
  | "times" => tellTimes
  | "break" => leaveLoops false arguments
  | "continue" => leaveLoops true arguments
  | "return" => leaveFunction arguments
  | "exit" => leave arguments
  | "trap" => trap arguments
  | "kill" => kill arguments
  | "wait" => wait run arguments
  | "jobs" => tellJobs arguments
  | _ => resume arguments

end Montage.Shell.Builtin
