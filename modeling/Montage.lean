import Montage.Machine
import Montage.Main
import Montage.Number.Exact
import Montage.Proofs.Abbreviation
import Montage.Proofs.Cli.Edit
import Montage.Proofs.Clip.Absorption
import Montage.Proofs.Clip.Bounds
import Montage.Proofs.Clip.Inverse
import Montage.Proofs.Clip.Mapping
import Montage.Proofs.Clip.Parts
import Montage.Proofs.Clip.Pixels
import Montage.Proofs.Clip.Position
import Montage.Proofs.Clip.Range
import Montage.Proofs.Clip.Retiming
import Montage.Proofs.Clip.Times
import Montage.Proofs.Clip.Window
import Montage.Proofs.Config
import Montage.Proofs.Disk.Names
import Montage.Proofs.Edit.Appending
import Montage.Proofs.Edit.Bounds
import Montage.Proofs.Edit.Cut
import Montage.Proofs.Edit.Drag
import Montage.Proofs.Edit.Identities
import Montage.Proofs.Edit.Locality
import Montage.Proofs.Edit.Outcome
import Montage.Proofs.Edit.Place
import Montage.Proofs.Edit.Pointer
import Montage.Proofs.Edit.Properties
import Montage.Proofs.Edit.Retiming
import Montage.Proofs.Edit.Survival
import Montage.Proofs.Engine.Clearing
import Montage.Proofs.Engine.Percent
import Montage.Proofs.Engine.Progress
import Montage.Proofs.Engine.Run
import Montage.Proofs.Engine.Staging
import Montage.Proofs.Export.Session
import Montage.Proofs.Graph.Faults
import Montage.Proofs.Graph.Loops
import Montage.Proofs.Graph.Reading
import Montage.Proofs.Graph.Trail
import Montage.Proofs.Graph.Wiring
import Montage.Proofs.Media
import Montage.Proofs.Number.Binary64
import Montage.Proofs.Number.Compact
import Montage.Proofs.Number.Exact
import Montage.Proofs.Number.Nearest
import Montage.Proofs.Number.Product
import Montage.Proofs.Number.Quotient
import Montage.Proofs.Number.Rounding
import Montage.Proofs.Overlay.Bounds
import Montage.Proofs.Project.Sources
import Montage.Proofs.Render.Acceptance
import Montage.Proofs.Render.Arguments
import Montage.Proofs.Render.Compile
import Montage.Proofs.Render.Composition
import Montage.Proofs.Render.Drawing
import Montage.Proofs.Render.Ending
import Montage.Proofs.Render.Labels
import Montage.Proofs.Render.Pace
import Montage.Proofs.Render.Showing
import Montage.Proofs.Render.Storage
import Montage.Proofs.Render.Tempo
import Montage.Proofs.Render.Verdict
import Montage.Proofs.Render.Wiring
import Montage.Proofs.Stored.CommandText
import Montage.Proofs.Stored.Forgiving
import Montage.Proofs.Stored.Loading
import Montage.Proofs.Stored.Persistence
import Montage.Proofs.Stored.Tolerance
import Montage.Proofs.Throttle
import Montage.Proofs.Timemark
import Montage.Shell.Run
import Montage.Stored.Command
