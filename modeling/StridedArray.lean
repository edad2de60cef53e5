import StridedArray.Json.Codec
import StridedArray.View.Arithmetic
import StridedArray.View.Contents
import StridedArray.View.Repeat
import StridedArray.Proofs.Word
import StridedArray.Proofs.Outcome
import StridedArray.Proofs.Position
import StridedArray.Proofs.Broadcast
import StridedArray.Proofs.Route
import StridedArray.Proofs.Odometer
import StridedArray.Proofs.Storage
import StridedArray.Proofs.Workspace
import StridedArray.Proofs.Reach
import StridedArray.Proofs.RowMajor
import StridedArray.Proofs.Axis
import StridedArray.Proofs.ViewOp
import StridedArray.Proofs.Built
import StridedArray.Proofs.Residue
import StridedArray.Proofs.InBounds
import StridedArray.Proofs.Walk
import StridedArray.Proofs.Evened
import StridedArray.Proofs.Cursor
import StridedArray.Proofs.Overwrite
import StridedArray.Proofs.Create
import StridedArray.Proofs.Reachable
import StridedArray.Proofs.Fill
import StridedArray.Proofs.InPlace
import StridedArray.Proofs.Join
import StridedArray.Proofs.Conflict
import StridedArray.Proofs.Atomic
import StridedArray.Proofs.PastEnd
import StridedArray.Proofs.Store
import StridedArray.Proofs.Fit
import StridedArray.Proofs.Headroom
import StridedArray.Proofs.Carved
import StridedArray.Proofs.Display
import StridedArray.Proofs.Follow
import StridedArray.Proofs.Stretched
import StridedArray.Proofs.Packed
import StridedArray.Proofs.Values
import StridedArray.Proofs.RoundTrip
import StridedArray.Proofs.OutOfReach
import StridedArray.Proofs.AxisByAxis
import StridedArray.Proofs.Slots
import StridedArray.Proofs.Rendered
import StridedArray.Proofs.Lawful
import StridedArray.Proofs.Text
import StridedArray.Proofs.Tokens
import StridedArray.Proofs.Extremes
import StridedArray.Proofs.Listed
import StridedArray.Proofs.Recounted
import StridedArray.Proofs.Sweep
import StridedArray.Proofs.Rereads
import StridedArray.Proofs.Restretched
import StridedArray.Proofs.Laws
import StridedArray.Proofs.Batched
import StridedArray.Proofs.Swapped
import StridedArray.Proofs.Magnitude
import StridedArray.Proofs.Rounding
import StridedArray.Proofs.Refines
import StridedArray.Proofs.Nearest
import StridedArray.Proofs.Truncation
import StridedArray.Proofs.WriteBack
