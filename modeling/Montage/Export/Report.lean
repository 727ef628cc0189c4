import Montage.Disk.Path
import Montage.Render.Job

/-!
Contract: the report written beside an export.

Owns: where the report lies and its text.
-/

set_option autoImplicit false

namespace Montage.Export

open Render (Job)

variable {α : Type} [Scalar α]

def reportPath (output : Path) : Path := output.withExtension "ffmpeg-debug.txt"

/-- The arguments of a job on one line, inputs in memory under their local names. -/
def argumentLine (job : Job α) (output : Path) : String :=
  match job.arguments (job.inputs.map fun input => input.localName.toUTF8) output.bytes with
  | .ok arguments => Text.join " " arguments
  | .error failure => "<unavailable: " ++ failure.message ++ ">"

/-- The text of a report: the summary, the graph and the arguments. -/
def reportText (job : Job α) (output : Path) : String :=
  String.join
    [job.summary, "filter_complex=", job.graph.text, "\nffmpeg_args=", argumentLine job output, "\n"]

end Montage.Export
