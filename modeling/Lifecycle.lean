import Lifecycle.Discovery.Query
import Lifecycle.Document.Text
import Lifecycle.Orchestrator
import Lifecycle.Readiness.Poll
import Lifecycle.Reference.Kind
import Lifecycle.Telemetry.Subscriber
import Lifecycle.Play
import Lifecycle.Proofs.Convergence
import Lifecycle.Proofs.Protocol
import Lifecycle.Proofs.Release
import Lifecycle.Proofs.Accounting
import Lifecycle.Proofs.Rounds
import Lifecycle.Proofs.Serial
import Lifecycle.Proofs.Cancellation
import Lifecycle.Proofs.Course
import Lifecycle.Proofs.Passes
import Lifecycle.Proofs.Isolation
import Lifecycle.Proofs.InUse
import Lifecycle.Proofs.Favoured
import Lifecycle.Proofs.Retry
import Lifecycle.Proofs.Causes
import Lifecycle.Proofs.Freshness
import Lifecycle.Proofs.Punctual
import Lifecycle.Proofs.Separation
import Lifecycle.Proofs.Steadiness
import Lifecycle.Proofs.Handover
import Lifecycle.Proofs.Abandoned
import Lifecycle.Proofs.Promptness
import Lifecycle.Proofs.Tenure
import Lifecycle.Proofs.Closing
import Lifecycle.Proofs.Timing
import Lifecycle.Proofs.Rereading
import Lifecycle.Proofs.Pacing
import Lifecycle.Proofs.Availability
import Lifecycle.Proofs.Overrides
import Lifecycle.Proofs.Acceptance
import Lifecycle.Proofs.Canonical
import Lifecycle.Proofs.Wording
import Lifecycle.Proofs.Installation
import Lifecycle.Proofs.Repetition
