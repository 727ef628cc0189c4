import Montage.Shell.Escape
import Montage.Shell.Form
import Montage.Shell.State

/-!
Contract: the commands of the interpreter that write.

Owns: `echo` and `printf`.
-/

set_option autoImplicit false

namespace Montage.Shell.Builtin

variable {m : Type → Type} [Monad m] [Ground m]

/-- Arguments with their escapes carried out, with blanks between them and an ending behind them, unless
an escape ends all writing. -/
def echoed (ending : String) : List String → List Char
  | [] => ending.toList
  | [last] =>
    let (text, isOver) := Escape.expand last
    if isOver then text else text ++ ending.toList
  | first :: rest =>
    let (text, isOver) := Escape.expand first
    if isOver then text else text ++ ' ' :: echoed ending rest

def echo (arguments : List String) : Act m Nat := do
  put
    (String.ofList
      (match arguments with
       | "-n" :: rest => echoed "" rest
       | all => echoed "\n" all))
  pure 0

def printForm (arguments : List String) : Act m Nat := do
  match ← withoutOptions arguments with
  | [] => fail "usage: printf format [arg ...]"
  | form :: arguments =>
    let filling := Form.ofArguments form arguments
    put (String.ofList filling.written.reverse)
    for message in filling.complaints do
      complain message
    match filling.failure with
    | some message => fail message
    | none => pure (if filling.complaints.isEmpty then 0 else 1)

end Montage.Shell.Builtin
