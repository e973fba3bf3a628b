import RpcEcho.Server
import RpcEcho.Proofs.Envelope.Framing
import RpcEcho.Proofs.Envelope.Schedule
import RpcEcho.Proofs.Call.Waiting
import RpcEcho.Proofs.Request.Stream
import RpcEcho.Proofs.Request.Single
import RpcEcho.Proofs.Server.Admission
import RpcEcho.Proofs.Json.RoundTrip
import RpcEcho.Proofs.Api.EchoMessages
import RpcEcho.Proofs.Header.Metadata
import RpcEcho.Proofs.Response.Unary
import RpcEcho.Proofs.Services.Echo
import RpcEcho.Proofs.Json.Tokens
import RpcEcho.Proofs.Proto.Messages
import RpcEcho.Proofs.Trailers.Status
import RpcEcho.Proofs.Response.Outcome
import RpcEcho.Proofs.Call.Progress
import RpcEcho.Proofs.Services.Watch
import RpcEcho.Proofs.Proto.BinaryForm
import RpcEcho.Proofs.Text.Base64
import RpcEcho.Proofs.Proto.JsonForm
import RpcEcho.Proofs.Api.Lossless
import RpcEcho.Proofs.Services.Join
import RpcEcho.Proofs.Call.Prompt
import RpcEcho.Proofs.Services.ServerStream
import RpcEcho.Proofs.Services.Stopped
import RpcEcho.Proofs.Request.Agreement
import RpcEcho.Proofs.Services.Bidirectional
import RpcEcho.Proofs.Services.Failures
import RpcEcho.Proofs.Services.Undisturbed
import RpcEcho.Proofs.Server.Layers
import RpcEcho.Proofs.Response.EchoedHeaders
import RpcEcho.Proofs.Proto.ReadValues
import RpcEcho.Proofs.Proto.Rereading
import RpcEcho.Proofs.Descriptor.Symbols
import RpcEcho.Proofs.Descriptor.Dependencies
import RpcEcho.Proofs.Services.Reflection
import RpcEcho.Proofs.Services.CarriedMetadata
import RpcEcho.Proofs.Descriptor.Lookups
import RpcEcho.Proofs.Api.Merging
import RpcEcho.Proofs.Api.Presentations
import RpcEcho.Proofs.Descriptor.Closure
import RpcEcho.Proofs.Call.Arbitration
import RpcEcho.Proofs.Timeout.Grammar
import RpcEcho.Proofs.Services.Delay
import RpcEcho.Proofs.Trailers.Skipping
import RpcEcho.Proofs.Services.LongMessages
import RpcEcho.Proofs.Config.Layering
import RpcEcho.Proofs.Text.Escapes
