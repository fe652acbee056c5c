import Marshal.Datum.Trace
import Marshal.Proofs.TypedValue.Recheck
import Marshal.Proofs.Wire.Delimited
import Marshal.Proofs.Wire.Agreement
import Marshal.Proofs.Wire.Counts
import Marshal.Proofs.Wire.Unambiguous
import Marshal.Proofs.Datum.Coerced
import Marshal.Proofs.Signature.Offsets
import Marshal.Proofs.Wire.Orders
import Marshal.Proofs.Datum.Calls
import Marshal.Proofs.Datum.Visits
import Marshal.Proofs.Path
import Marshal.Proofs.Text.Quoted
import Marshal.Proofs.Value.Display
import Marshal.Proofs.Wire.Least
import Marshal.Proofs.Signature.DepthLimit
