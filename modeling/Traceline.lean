import Traceline.Egress.Theorems.Executions
import Traceline.Egress.Theorems.Listener
import Traceline.Egress.Theorems.Metering
import Traceline.Execution.Theorems.Convergence
import Traceline.Jobs.Theorems.Fairness
import Traceline.Jobs.Theorems.Fencing
import Traceline.Jobs.Theorems.Transitions
import Traceline.Versions.Theorems.Linear
import Traceline.Versions.Theorems.Migration
import Traceline.Exports.Theorems.Frozen
import Traceline.Artifacts.Theorems.Integrity
import Traceline.Knowledge.Theorems.Review
import Traceline.Operations.Theorems.DryRun
import Traceline.Schedules.Theorems.Slots
import Traceline.Sources.Theorems.Digest
import Traceline.Calibration.Theorems.Current
import Traceline.Calibration.Theorems.Kappa
import Traceline.Json
import Traceline.Plans.Theorems.Execute
import Traceline.Library.Except
import Traceline.Library.Logged
import Traceline.Library.Machine
import Traceline.Library.Pool
import Traceline.Library.Table
import Traceline.Datasets.Theorems.Formats
import Traceline.Datasets.Theorems.Identity
import Traceline.Datasets.Theorems.Pointers
import Traceline.Engine.Theorems.Cancellation
import Traceline.Engine.Theorems.Authority
import Traceline.Engine.Theorems.Reconciliation
import Traceline.Engine.Theorems.Skipped
import Traceline.Evaluators.Theorems.Equality
import Traceline.Evaluators.Theorems.Aggregation
import Traceline.Evaluators.Theorems.Agreement
import Traceline.Evaluators.Theorems.Missing
import Traceline.Evaluators.Theorems.Selection
import Traceline.Evaluators.Theorems.Versions
import Traceline.Predicates.Theorems.Grammar
import Traceline.Predicates.Theorems.Monotone
import Traceline.Predicates.Theorems.Totality
import Traceline.Redaction.Theorems.Leakage
import Traceline.Secrets.Theorems.Migration
import Traceline.Streaming.Theorems.Limits
import Traceline.Targets.HttpJob
import Traceline.Targets.Theorems.Conversation
import Traceline.Targets.Theorems.Credentials
import Traceline.Targets.Theorems.Distinct
import Traceline.Targets.Theorems.Golden
import Traceline.TraceRules.Theorems.Evidence
import Traceline.TraceRules.Theorems.Permutation
import Traceline.TraceRules.Theorems.Precedence
import Traceline.TraceRules.Theorems.Shapes
import Traceline.Authoring.Theorems.Prepared
import Traceline.Transactions.Theorems.Atomicity
import Traceline.Library.Wp
import Traceline.Traces.Theorems.Readers
import Traceline.Library.Base64
import Traceline.Storage.Runs
import Traceline.Jobs.Theorems.Times
import Traceline.Jobs.Theorems.Turns
import Traceline.TraceRules.Theorems.Stored
import Traceline.Dashboard.Theorems.Layout
import Traceline.Dashboard.Theorems.Soundness
import Traceline.Targets.Local
import Traceline.Schedules.Daily
