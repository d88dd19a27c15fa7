import FastapiBoilerplate.Resilience.CircuitProbes
import FastapiBoilerplate.Idempotency.AtMostOnce
import FastapiBoilerplate.Idempotency.Ownership
import FastapiBoilerplate.Auth.Rotation
import FastapiBoilerplate.Auth.Family
import FastapiBoilerplate.Resilience.BulkheadReset
import FastapiBoilerplate.DistributedLock.Section
import FastapiBoilerplate.DistributedLock.Refinement
import FastapiBoilerplate.DistributedLock.Fence
import FastapiBoilerplate.RedisStreams.NoLoss
import FastapiBoilerplate.RedisStreams.DeliveryCap
import FastapiBoilerplate.RedisStreams.ClaimCount
import FastapiBoilerplate.RedisStreams.Retire
import FastapiBoilerplate.RedisStreams.Cycle
import FastapiBoilerplate.Streaming.Export
import FastapiBoilerplate.Parallel.Admission
import FastapiBoilerplate.Tenancy.Binding
import FastapiBoilerplate.Ws.Handshake
import FastapiBoilerplate.Webhooks.Once
import FastapiBoilerplate.Auth.Alone
import FastapiBoilerplate.Users.NoLostUpdate
import FastapiBoilerplate.Outbox.AtLeastOnce
import FastapiBoilerplate.Outbox.Drain
import FastapiBoilerplate.Dlq.DueOrder
import FastapiBoilerplate.Dlq.Stalls
import FastapiBoilerplate.Dlq.Replays
import FastapiBoilerplate.Dlq.Stamping
import FastapiBoilerplate.Kafka.Assignment
import FastapiBoilerplate.Resilience.Retries
import FastapiBoilerplate.Resilience.RetryAfter
import FastapiBoilerplate.Ws.Writer
import FastapiBoilerplate.Storage.Atomic
import FastapiBoilerplate.Storage.Keys
import FastapiBoilerplate.Ws.Memberships
import FastapiBoilerplate.Idempotency.Fingerprint
import FastapiBoilerplate.Idempotency.Reissued
import FastapiBoilerplate.Idempotency.Resolved
import FastapiBoilerplate.Payments.Exact
import FastapiBoilerplate.DistributedLock.Leaving
import FastapiBoilerplate.Decorators.Cache
import FastapiBoilerplate.Health.Registry
