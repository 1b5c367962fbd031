import Cosmos3.Basis.Runs
import Cosmos3.Lease.Stability
import Cosmos3.Link.ExactlyOnce
import Cosmos3.Orchestrator.Progress
import Cosmos3.Orchestrator.Truthful
import Cosmos3.Sse.Client
import Cosmos3.Sse.Cut
import Cosmos3.Sse.RoundTrip
import Cosmos3.Streams.Complete
import Cosmos3.Studio.JobState
import Cosmos3.Basis.Python
import Cosmos3.Basis.Dumps
import Cosmos3.Worker.Framing
import Cosmos3.Lease.Steps
import Cosmos3.Lease.Terminal
import Cosmos3.Lease.History
import Cosmos3.Lease.Order
import Cosmos3.Lease.Withdrawn
import Cosmos3.Orchestrator.Evictions
import Cosmos3.Lease.Freed
import Cosmos3.Orchestrator.Arming
import Cosmos3.Lease.Idle
import Cosmos3.Basis.Base64
import Cosmos3.Basis.Wave
import Cosmos3.Edge.Limits
import Cosmos3.Edge.Media
import Cosmos3.Edge.ActionSchema
import Cosmos3.Edge.Paths
import Cosmos3.Edge.Submission
import Cosmos3.Edge.Total
import Cosmos3.Edge.Accepted
import Cosmos3.Worker.Request
import Cosmos3.Worker.Fits
import Cosmos3.Edge.Identity
import Cosmos3.Sse.Chunks
import Cosmos3.Sse.Reconnect
import Cosmos3.Edge.Rectangular
import Cosmos3.Lease.Metered
import Cosmos3.Reasoning.Fidelity
import Cosmos3.Reasoning.Frames
import Cosmos3.Basis.Loads
import Cosmos3.Basis.Canon
import Cosmos3.Edge.Enqueue
import Cosmos3.Edge.Idempotent
import Cosmos3.Basis.Files
import Cosmos3.Basis.Table
import Cosmos3.Checkpoint.Safetensors
import Cosmos3.Checkpoint.Mutation
import Cosmos3.Checkpoint.Sidecars
import Cosmos3.Checkpoint.Rewrite
import Cosmos3.Checkpoint.Slices
import Cosmos3.Checkpoint.Written
import Cosmos3.Checkpoint.Scan
import Cosmos3.Checkpoint.Applied
import Cosmos3.Checkpoint.Run
import Cosmos3.Checkpoint.Commit
import Cosmos3.Checkpoint.Outcome
import Cosmos3.Checkpoint.Fidelity
import Cosmos3.Checkpoint.Reversible
import Cosmos3.Basis.Components
import Cosmos3.Edge.Containment
import Cosmos3.Edge.Dimensions
import Cosmos3.Checkpoint.Tiles
import Cosmos3.Worker.Conditioning
import Cosmos3.Basis.Traced
import Cosmos3.Worker.Client
import Cosmos3.Worker.Polls
import Cosmos3.Worker.PollLaws
import Cosmos3.Worker.Generation
import Cosmos3.Worker.ArtifactPath
import Cosmos3.Worker.Returned
import Cosmos3.Worker.AllOrNothing
import Cosmos3.Basis.Multipart
import Cosmos3.Worker.Multipart
import Cosmos3.Preflight.Verdict
import Cosmos3.Preflight.Shards
import Cosmos3.Preflight.Sound
import Cosmos3.Preflight.Closed
import Cosmos3.Sse.Retry
import Cosmos3.Basis.Recent
import Cosmos3.Basis.Stringify
import Cosmos3.Studio.History
import Cosmos3.Basis.Posix
import Cosmos3.Basis.RealPath
import Cosmos3.Basis.Confined
import Cosmos3.SelfContained.Copy
import Cosmos3.SelfContained.Safe
import Cosmos3.SelfContained.Delivered
import Cosmos3.Basis.Resolve
import Cosmos3.SelfContained.Verify
import Cosmos3.SelfContained.Parents
import Cosmos3.SelfContained.Verdict
import Cosmos3.Checkpoint.Probe
import Cosmos3.Checkpoint.ProbeLaws
import Cosmos3.Checkpoint.Agree
import Cosmos3.Chat.ChatStream
import Cosmos3.Chat.Transcript
import Cosmos3.Chat.Reply
import Cosmos3.Worker.Call
import Cosmos3.Studio.Submitted
import Cosmos3.Worker.Switch
import Cosmos3.Checkpoint.Once
import Cosmos3.Proxy.Forward
import Cosmos3.Studio.Shown
import Cosmos3.Reasoning.Answered
import Cosmos3.Viewer.Predicted
import Cosmos3.Viewer.Workspace
import Cosmos3.Orchestrator.PlaneWorker
