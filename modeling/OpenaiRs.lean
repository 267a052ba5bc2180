import OpenaiRs.Rust.Str
import OpenaiRs.Rust.Update
import OpenaiRs.Rust.BTreeMap
import OpenaiRs.Text.Lines
import OpenaiRs.Text.Outcome
import OpenaiRs.Text.Incremental
import OpenaiRs.Text.Cell
import OpenaiRs.Sse.Decoder
import OpenaiRs.Sse.LineRun
import OpenaiRs.Sse.Reference
import OpenaiRs.Sse.Stream
import OpenaiRs.Sse.Segment
import OpenaiRs.Sse.StreamRun
import OpenaiRs.Sse.Terminal
import OpenaiRs.Sse.Reader
import OpenaiRs.Direct.Sse
import OpenaiRs.Direct.LineRun
import OpenaiRs.Direct.Agreement
import OpenaiRs.Responses.Event
import OpenaiRs.Responses.EventStream
import OpenaiRs.Responses.Accumulator
import OpenaiRs.Responses.Operations
import OpenaiRs.Responses.Reconstruction
import OpenaiRs.Responses.Identity
import OpenaiRs.Responses.Rejection
import OpenaiRs.Direct.Grammar
import OpenaiRs.Direct.Transport
import OpenaiRs.Direct.Delivery
import OpenaiRs.Direct.Lifecycle
import OpenaiRs.Serde.Value
import OpenaiRs.Chat.Snapshot
import OpenaiRs.Webhooks.SignedBytes
import OpenaiRs.AppServer.Draining
import OpenaiRs.AppServer.Failure
import OpenaiRs.TokenManager.SingleFlight
import OpenaiRs.TokenManager.Rotation
import OpenaiRs.Sse.Resources
import OpenaiRs.Batches.Records
import OpenaiRs.Batches.RoundTrip
import OpenaiRs.WorkloadIdentity.Failure
import OpenaiRs.X509.Invalidation
import OpenaiRs.X509.Delivery
import OpenaiRs.Catalog.Reversible
import OpenaiRs.StrictSchema.Shape
import OpenaiRs.StrictSchema.Closure
import OpenaiRs.StrictSchema.Fixpoint
import OpenaiRs.StrictSchema.Idempotence
import OpenaiRs.StrictSchema.Growth
import OpenaiRs.StrictSchema.Omittable
import OpenaiRs.StrictSchema.Pointers
import OpenaiRs.AppServer.Codec
import OpenaiRs.Chat.Indexed
import OpenaiRs.Sse.Flush
import OpenaiRs.Preview.Secrets
import OpenaiRs.Preview.Limit
import OpenaiRs.StrictSchema.Termination
import OpenaiRs.Retry.Agreement
import OpenaiRs.Retry.Deadline
import OpenaiRs.WebSocket.Retirement
import OpenaiRs.WebSocket.Keepalive
import OpenaiRs.Sse.Dropping
import OpenaiRs.Responses.BetaEventStream
import OpenaiRs.Legacy.Streams
import OpenaiRs.Replay.InputStability
import OpenaiRs.Replay.MessageParts
import OpenaiRs.Polling.Bounded
import OpenaiRs.Query.Agreement
import OpenaiRs.ToolResult.Lossless
import OpenaiRs.IdToken.PublishedKeys
import OpenaiRs.Drift.Completeness
import OpenaiRs.Pagination.Traversal
import OpenaiRs.Provenance.Audit
import OpenaiRs.Rmcp.Cancellation
import OpenaiRs.Rmcp.Bridge
import OpenaiRs.Login.Acceptance
