import Statechart.Diagram.Document
import Statechart.Draft.Chart
import Statechart.Draft.Machine
import Statechart.Machine.Session
import Statechart.State.Table
import Statechart.Proofs.Chart.Soundness
import Statechart.Proofs.Fallible
import Statechart.Proofs.Patch.Faults
import Statechart.Proofs.Machine.Choice
import Statechart.Proofs.Machine.Descent
import Statechart.Proofs.Machine.Chain
import Statechart.Proofs.Machine.Course
import Statechart.Proofs.Machine.Invariant
import Statechart.Proofs.Machine.Failure
import Statechart.Proofs.Machine.Fidelity
import Statechart.Proofs.Machine.InternalStep
import Statechart.Proofs.Machine.Passage
import Statechart.Proofs.Machine.Termination
import Statechart.Proofs.Machine.Resumption
import Statechart.Proofs.Machine.Landing
import Statechart.Proofs.Machine.Execution
import Statechart.Proofs.Machine.Parallel
import Statechart.Proofs.Machine.Continuation
import Statechart.Proofs.Number.Digits
import Statechart.Proofs.Json.Exactness
import Statechart.Proofs.Json.Scanning
import Statechart.Proofs.Json.Rereading
import Statechart.Proofs.Time.Rereading
import Statechart.Proofs.Memory.Rereading
import Statechart.Proofs.Patch.Exactness
import Statechart.Proofs.Machine.Persistence
import Statechart.Proofs.Machine.Selection
import Statechart.Proofs.Machine.Transaction
import Statechart.Proofs.State.Nesting
import Statechart.Proofs.State.Coherence
import Statechart.Proofs.Chart.Validation
import Statechart.Proofs.Machine.Shadowing
import Statechart.Proofs.Patch.Decoding
import Statechart.Proofs.Patch.Reference
import Statechart.Proofs.Patch.Semantics
import Statechart.Proofs.Patch.Spelling
import Statechart.Proofs.Patch.Locality
import Statechart.Proofs.Patch.Moving
import Statechart.Proofs.Patch.Mirroring
import Statechart.Proofs.Memory.Retention
import Statechart.Proofs.Diagram.Rereading
import Statechart.Proofs.Diagram.Placement
import Statechart.Proofs.Diagram.Shapes
import Statechart.Proofs.Diagram.Exporting
import Statechart.Proofs.Diagram.Naming
import Statechart.Proofs.Machine.Rebuilding
import Statechart.Proofs.Machine.Trail
import Statechart.Proofs.State.Rereading
import Statechart.Proofs.State.Declarations
import Statechart.Proofs.Json.Fields
import Statechart.Proofs.Diagram.Texts
