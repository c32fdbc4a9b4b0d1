import Omp2.Render.Scrollback
import Omp2.Cli.Mirror
import Omp2.Server.Finality
import Omp2.Server.Commands
import Omp2.Server.Confinement
import Omp2.Tools.WorkerPatch
import Omp2.Tools.Settlement
import Omp2.Control.Supervision
import Omp2.Control.RegistryRuns
import Omp2.Control.Coverage
import Omp2.Control.Pinning
import Omp2.Server.Artifacts
import Omp2.Control.Chronology
import Omp2.Render.Viewport
import Omp2.Runtime.Diff
import Omp2.Inference.LeakedCalls
import Omp2.Control.Budget
import Omp2.Control.EffectReplay
import Omp2.Control.Invocation
import Omp2.Inference.Repaired
import Omp2.Server.Delivery
import Omp2.Tools.HashlineRoundTrip
import Omp2.Inference.Streamed
import Omp2.Tools.ReadAgree
import Omp2.Tools.Originals
import Omp2.Control.DirectorStack
import Omp2.Runtime.Integrity
import Omp2.Inference.Assembled
import Omp2.Runtime.JobOutput
import Omp2.Cli.Pastes
import Omp2.Control.Settled
import Omp2.Tools.SshTarget
import Omp2.Render.Wrapped
import Omp2.State.Legible
import Omp2.Cli.Restarted
import Omp2.Python.RemoteImports
import Omp2.Cli.View
import Omp2.Types.Expansion
import Omp2.Control.Truncation
import Omp2.Runtime.CommandLine
import Omp2.Tools.StructuralSummary
import Omp2.Inference.Repetition
import Omp2.Inference.Revisions
import Omp2.Tools.EditFile
import Omp2.Server.NetworkRuns
