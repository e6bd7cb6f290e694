import Z4jCelery.Py.Effect
import Z4jCelery.Py.Number
import Z4jCelery.Lib.Lru
import Z4jCelery.Lib.Breaker
import Z4jCelery.Offload
import Z4jCelery.Events.Mapper.Noninterference
import Z4jCelery.Events.Signals.Sampling
import Z4jCelery.Events.Broker.Redaction
import Z4jCelery.Events.Broker.Dispatch
import Z4jCelery.Events.Broker.NameRecovery
import Z4jCelery.Actions.Retry.Theorems
import Z4jCelery.Actions.Retry.Provenance
import Z4jCelery.Actions.BulkRetry.Theorems
import Z4jCelery.Actions.Purge.Theorems
import Z4jCelery.Tracebacks
import Z4jCelery.Tracebacks.Truncation
import Z4jCelery.Discovery.Agreement
import Z4jCelery.Engine.Workers.Noninterference
import Z4jCelery.Engine.EventQueue.Conservation
import Z4jCelery.Engine.Capture
import Z4jCelery.Engine.Registry.Watched
import Z4jCelery.Events.Broker.Batch
import Z4jCelery.Events.Broker.FieldShapes
import Z4jCelery.Actions.Timeouts
import Z4jCelery.Actions.RateLimit
import Z4jCelery.Actions.Purge.Interleaving
import Z4jCelery.Discovery.Merge
import Z4jCelery.Engine.Workers.Connections
import Z4jCelery.Engine.Workers.QueueDepths
import Z4jCelery.Bootstrap.CommandLine
import Z4jCelery.Bootstrap.Lifecycle
import Z4jCelery.Discovery.Decorators
import Z4jCelery.Discovery.Opens
import Z4jCelery.Engine.Workers.Pace
import Z4jCelery.Events.Broker.ExceptionClass
import Z4jCelery.Events.Broker.Receiver
import Z4jCelery.Events.Signals.Registry
import Z4jCelery.Tracebacks.Tail
import Z4jCelery.Actions.Commands.Answers
import Z4jCelery.Actions.Commands.Hung
import Z4jCelery.Actions.Purge.OnPool
import Z4jCelery.Actions.Purge.Token
import Z4jCelery.Offload.Executor
import Z4jCelery.Offload.Calls.Stalled
import Z4jCelery.Offload.Threads
import Z4jCelery.Actions.Commands.Ends
import Z4jCelery.Engine.Captured
import Z4jCelery.Events.Broker.Fleet
import Z4jCelery.Events.Broker.Scrubbed
import Z4jCelery.Events.Signals.Scrubbed
import Z4jCelery.Events.Broker.PerTask
