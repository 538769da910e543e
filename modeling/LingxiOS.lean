import LingxiOS.WorkStore.Guarantees
import LingxiOS.Request.Capture
import LingxiOS.Runtime.Recovery
import LingxiOS.Runtime.Inventory
import LingxiOS.Model.Conversation
import LingxiOS.WorkStore.Preemption
import LingxiOS.WorkStore.Cancellation
import LingxiOS.Kernel.Wire
import LingxiOS.Kernel.Suspension
import LingxiOS.Kernel.Lifecycle
import LingxiOS.Runtime.PreviewStream
import LingxiOS.Model.Settlement
import LingxiOS.ControlPlane.CellHistory
import LingxiOS.ControlPlane.Commits
import LingxiOS.ControlPlane.Approvals
import LingxiOS.ControlPlane.AppendOnly
import LingxiOS.Runtime.EventSequence
import LingxiOS.Collaboration.Guarantees
import LingxiOS.Ledger.Agreement
import LingxiOS.WorkStore.ClaimAgreement
import LingxiOS.ControlPlane.WriteGate
import LingxiOS.ControlPlane.Checkpoints
import LingxiOS.Outbox.Guarantees
import LingxiOS.Delegation.Authority
import LingxiOS.Delegation.Wakeups
import LingxiOS.Runtime.EvidenceReplay
import LingxiOS.ControlPlane.CommitReplay
import LingxiOS.Memory.Activation
import LingxiOS.Memory.Forgotten
import LingxiOS.Compaction.Candidates
import LingxiOS.App.Answers
import LingxiOS.App.Reopened
import LingxiOS.Ui.Monotone
import LingxiOS.App.Subscriber
import LingxiOS.App.WorkspaceObjects
import LingxiOS.WorkStore.Retries
import LingxiOS.ControlPlane.Wakeup
import LingxiOS.ControlPlane.DeadlinePool
import LingxiOS.Runtime.ResourceQuota
import LingxiOS.App.Background
import LingxiOS.Model.ServerSentEvents
import LingxiOS.Host.PreviewUpload
import LingxiOS.Model.CandidateJson
import LingxiOS.Compaction.Room
import LingxiOS.Runtime.SameObservation
import LingxiOS.Collaboration.Graphs
import LingxiOS.Memory.Chunks
import LingxiOS.Memory.Snapshot
import LingxiOS.Compaction.Bounds
import LingxiOS.Runtime.BoundedOutput
import LingxiOS.Ui.EnvelopeJson
import LingxiOS.Context.Compiler
import LingxiOS.Collaboration.History
import LingxiOS.Memory.Expiry
import LingxiOS.Outcome.CandidateHash
import LingxiOS.Worker.Slots
import LingxiOS.Runtime.RecoveredOutputs
import LingxiOS.Tools.Discovery
import LingxiOS.Runtime.ByteBudget
