import OnAir.Main
import OnAir.Proofs.Atomicity
import OnAir.Proofs.Meaning
import OnAir.Proofs.Repeat
import OnAir.Proofs.Counting
import OnAir.Proofs.Versions
import OnAir.Proofs.Made
import OnAir.Proofs.Acceptance
import OnAir.Proofs.Origins
import OnAir.Proofs.Commutation
import OnAir.Proofs.Cancellation
import OnAir.Proofs.Snapshot.RoundTrip
import OnAir.Proofs.Undo
import OnAir.Proofs.Coverage
import OnAir.Proofs.Json.RoundTrip
import OnAir.Proofs.Json.Decode
import OnAir.Proofs.Rundown.RoundTrip
import OnAir.Proofs.Snapshot.Rewriting
import OnAir.Proofs.Fresh
import OnAir.Proofs.Lookup
import OnAir.Proofs.Refusal
import OnAir.Proofs.Placement
import OnAir.Proofs.AllOrNothing
import OnAir.Proofs.Resume
import OnAir.Proofs.Faults
import OnAir.Proofs.Edit.RoundTrip
import OnAir.Proofs.Json.Presentation
import OnAir.Proofs.Rundown.Presentation
import OnAir.Proofs.Contents
