import Montage.Edit.Command

/-!
Contract: the failures that reach a user.

Owns: one type for the failures of all activities and the text of each.

Does **not** own: their causes, which the activities report in types of their own.
-/

set_option autoImplicit false

namespace Montage

/-- A failure of an activity. -/
inductive Failure where
  | project (message : String)
  | operation (message : String)
  | compile (message : String)
  | render (message : String)
  /-- The engine's own words. -/
  | engine (reason : String)
  /-- The session is already exporting. -/
  | busy
  | cancelled
  | configuration (message : String)
  /-- The disk's own words. -/
  | disk (message : String)
  deriving DecidableEq, Repr

def Failure.message : Failure → String
  | .project message => "Project error: " ++ message
  | .operation message => "Timeline operation rejected: " ++ message
  | .compile message => "Render compilation aborted: " ++ message
  | .render message => "Render error: " ++ message
  | .engine reason => "Engine failure: " ++ reason
  | .busy => "An export is already running for this session"
  | .cancelled => "Export cancelled"
  | .configuration message => "Configuration error: " ++ message
  | .disk message => message

def EditError.failure {α : Type} [Scalar α] (e : EditError α) : Failure :=
  .operation e.message

end Montage
