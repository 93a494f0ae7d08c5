import MetalPool.SortedMap
import MetalPool.Target
import MetalPool.Text.Blank
import MetalPool.Text.Decimal
import MetalPool.Text.Bytes
import MetalPool.Text.Percent
import MetalPool.Json.Basic
import MetalPool.Json.Merge
import MetalPool.Json.Magnitude
import MetalPool.Json.Reader
import MetalPool.Json.Quoted
import MetalPool.Json.Printer
import MetalPool.Timestamp.Basic
import MetalPool.Timestamp.Printer
import MetalPool.Timestamp.Reader
import MetalPool.Span
import MetalPool.Server.Basic
import MetalPool.Server.Record
import MetalPool.Power.Error
import MetalPool.Power.Command
import MetalPool.Lifecycle
import MetalPool.Store.Error
import MetalPool.Store.Session
import MetalPool.Store.Memory
import MetalPool.Store.Patch
import MetalPool.Store.Cluster
import MetalPool.Pool.Types
import MetalPool.Pool.Error
import MetalPool.Pool.Scaling
import MetalPool.Wire.Varint
import MetalPool.Wire.Field
import MetalPool.Wire.Codec
import MetalPool.Wire.Messages
import MetalPool.Pool.Service
import MetalPool.Power.Backends
import MetalPool.Plant
import MetalPool.Metrics.Basic
import MetalPool.Metrics.Exposition
import MetalPool.Metrics.Endpoint
import MetalPool.Controller.Error
import MetalPool.World.Basic
import MetalPool.Reconcile
import MetalPool.World.Step
import MetalPool.SocketAddress
import MetalPool.Pool.Listener
import MetalPool.Config
import MetalPool.Backoff
import MetalPool.Watch.Retries
import MetalPool.Watch.Gate
import MetalPool.Power.Mac
import MetalPool.Power.Wake
import MetalPool.Power.Tool
import MetalPool.Power.Ping
import MetalPool.Power.Ssh
import MetalPool.Power.Ipmi
import MetalPool.Power.Rig
import MetalPool.Watch.Watcher
import MetalPool.Watch.Timeline
import MetalPool.Controller.Run
import MetalPool.Yaml
import MetalPool.Manifest
import MetalPool.Main
import MetalPool.Proofs.Store.Write
import MetalPool.Proofs.Store.Requests
import MetalPool.Proofs.Store.Redacted
import MetalPool.Proofs.Pool.Requests
import MetalPool.Proofs.Reconcile.Round
import MetalPool.Proofs.World.Run
import MetalPool.Proofs.World.Streak
import MetalPool.Proofs.Power.Plan
import MetalPool.Proofs.World.Command
import MetalPool.Proofs.World.Phase
import MetalPool.Proofs.Store.History
import MetalPool.Proofs.World.Result
import MetalPool.Proofs.World.Threshold
import MetalPool.Proofs.World.Quiescence
import MetalPool.Proofs.Store.Crowd
import MetalPool.Proofs.Pool.Growth
import MetalPool.Proofs.Pool.Runs
import MetalPool.Proofs.Pool.Refusals
import MetalPool.Proofs.Store.Origin
import MetalPool.Proofs.Reconcile.Course
import MetalPool.Proofs.Reconcile.Traced
import MetalPool.Proofs.World.Writers
import MetalPool.Proofs.Json.Fields
import MetalPool.Proofs.Text.Decimal
import MetalPool.Proofs.Timestamp.RoundTrip
import MetalPool.Proofs.Json.RoundTrip
import MetalPool.Proofs.Server.RoundTrip
import MetalPool.Proofs.Json.Merge
import MetalPool.Proofs.Store.Patched
import MetalPool.Proofs.World.Reset
import MetalPool.Proofs.Reconcile.Effect
import MetalPool.Proofs.World.Independence
import MetalPool.Proofs.World.Accounting
import MetalPool.Proofs.Watch.Backoff
import MetalPool.Proofs.Watch.Gate
import MetalPool.Proofs.Watch.Retries
import MetalPool.Proofs.Watch.Schedule
import MetalPool.Proofs.Watch.Pace
import MetalPool.Proofs.Watch.Delays
import MetalPool.Proofs.Config.Times
import MetalPool.Proofs.Text.ByteOrder
import MetalPool.Proofs.Pool.Queries
import MetalPool.Proofs.Power.Secrecy
import MetalPool.Proofs.World.Secrecy
import MetalPool.Proofs.World.Idle
import MetalPool.Proofs.Pool.Resize
import MetalPool.Proofs.Store.Listing
import MetalPool.Proofs.Pool.Selection
import MetalPool.Proofs.Wire.Varint
import MetalPool.Proofs.Wire.Field
import MetalPool.Proofs.Wire.Message
import MetalPool.Proofs.Wire.Slots
import MetalPool.Proofs.Wire.Protocol
import MetalPool.Proofs.Wire.Calls
import MetalPool.Proofs.Pool.Batches
import MetalPool.Proofs.Pool.Deletion
import MetalPool.Proofs.Watch.Notes
import MetalPool.Proofs.Watch.Failures
import MetalPool.Proofs.Config.Acceptance
import MetalPool.Proofs.Text.Hex
import MetalPool.Proofs.Power.Wake
import MetalPool.Proofs.World.Probed
import MetalPool.Proofs.Pool.GpuTypes
import MetalPool.Proofs.Power.Ping
