import Golusoris.Lib.Machine
import Golusoris.Idempotency.Store
import Golusoris.Idempotency.Calls
import Golusoris.Idempotency.Ledger
import Golusoris.Idempotency.Middleware
import Golusoris.Idempotency.Turns
import Golusoris.Idempotency.Exclusion
import Golusoris.Lib.Placement
import Golusoris.Lib.Utf8
import Golusoris.Idempotency.SqlRows
import Golusoris.Idempotency.SqlStore
import Golusoris.Idempotency.SqlSimulation
import Golusoris.Idempotency.Linearization
import Golusoris.Idempotency.Replay
import Golusoris.Lib.Crash
import Golusoris.Storage.Key
import Golusoris.Storage.Local
import Golusoris.Storage.Cells
import Golusoris.Storage.Exchange
import Golusoris.Storage.Recovery
import Golusoris.Storage.Atomicity
import Golusoris.Lib.Decimal
import Golusoris.Jcs.Parser
import Golusoris.Jcs.Grammar
import Golusoris.Jcs.Tokens
import Golusoris.Jcs.Layout
import Golusoris.Jcs.Names
import Golusoris.Jcs.Steps
import Golusoris.Jcs.Acceptance
import Golusoris.Jcs.Numbers
import Golusoris.Jcs.Canonical
import Golusoris.Subs.Service
import Golusoris.Subs.Terminal
import Golusoris.Leader.Gate
import Golusoris.Leader.Safety
import Golusoris.Lib.Linked
import Golusoris.Tus.Locker
import Golusoris.Tus.LockerState
import Golusoris.Tus.LockerSteps
import Golusoris.Tus.LockerHandoff
import Golusoris.Tus.LockerSafety
import Golusoris.Idempotency.RedisStore
import Golusoris.Idempotency.RedisAgreement
import Golusoris.Oauth2server.Requests
import Golusoris.Oauth2server.Checks
import Golusoris.Oauth2server.SingleUse
import Golusoris.Cdc.Consumer
import Golusoris.Cdc.Session
import Golusoris.Cdc.Acknowledge
import Golusoris.Tus.Completion
import Golusoris.Tus.Handler
import Golusoris.Tus.Coherence
import Golusoris.Tus.Durable
import Golusoris.Tus.Termination
import Golusoris.Tus.Resume
import Golusoris.Twotier.Cache
import Golusoris.Twotier.Fence
import Golusoris.Twotier.Coherence
import Golusoris.Twotier.Reads
import Golusoris.Twotier.Effects
import Golusoris.Twotier.Cluster
import Golusoris.Twotier.Convergence
import Golusoris.Lockout.Deadline
import Golusoris.Sessions.Fixation
import Golusoris.Lib.Glob
import Golusoris.Twotier.Prefix
import Golusoris.Twotier.Views
import Golusoris.Subs.Sequential
import Golusoris.Subs.ChangeLog
import Golusoris.Lib.Lexical
import Golusoris.Storage.Listing
import Golusoris.Storage.ListExact
import Golusoris.Storage.Namespace
import Golusoris.Outbox.Drainer
import Golusoris.Outbox.ExactlyOnce
import Golusoris.Registry.Collect
import Golusoris.Cdc.Rows
import Golusoris.Leader.Status
import Golusoris.Safety.Gate
import Golusoris.Lib.Postorder
import Golusoris.Registry.CopyOrder
import Golusoris.Registry.Delete
import Golusoris.Registry.Unlist
import Golusoris.Registry.Discovery
import Golusoris.Lib.JsonString
import Golusoris.Lib.Dict
import Golusoris.Lib.JsonValue
import Golusoris.Storage.Walk
import Golusoris.Lib.Base64
import Golusoris.Metricdef.Guard
import Golusoris.Tiny.Agreement
import Golusoris.Tiny.Versions
import Golusoris.Lib.Layers
import Golusoris.Config.Sources
import Golusoris.Config.Reload
import Golusoris.Config.Exposure
import Golusoris.Oidc.Flow
import Golusoris.Oidc.SingleUse
import Golusoris.Lib.Digits
import Golusoris.Lib.JsonItems
import Golusoris.Idempotency.Codec
import Golusoris.Lib.Timestamp
import Golusoris.Lib.Hex
import Golusoris.Receipts.Signer
import Golusoris.Receipts.Binding
import Golusoris.Lib.IpAddr
import Golusoris.Lib.NetUrl
import Golusoris.Lib.NetUrlText
import Golusoris.Oauth2server.Redirects
import Golusoris.Oauth2server.Agreement
import Golusoris.Httpx.TrustProxy
import Golusoris.Lockout.Bursts
import Golusoris.Lib.EventStream
import Golusoris.Sse.Format
import Golusoris.Sse.Hub
import Golusoris.Cloudevents.Header
import Golusoris.Lib.Ranking
import Golusoris.Search.Multi
import Golusoris.Search.Pages
import Golusoris.Tiny.Fleet
import Golusoris.Webhooks.Out
import Golusoris.Webhooks.Record
import Golusoris.Config.Precedence
import Golusoris.Lib.Readers
import Golusoris.Selfupdate.Release
import Golusoris.Selfupdate.Manifest
import Golusoris.Selfupdate.Archive
import Golusoris.Selfupdate.Update
import Golusoris.Lib.Base64Url
import Golusoris.Notify.Tracking
import Golusoris.Audio.Peaks
import Golusoris.Audio.Resample
import Golusoris.Audio.Waveform
import Golusoris.Lib.Buffered
import Golusoris.Fasta.Parse
import Golusoris.Fasta.Lines
import Golusoris.Fasta.Records
import Golusoris.Fasta.Faithful
import Golusoris.Jsonschema.Config
import Golusoris.Jsonschema.Acyclic
import Golusoris.Lib.Masking
import Golusoris.Notify.Redact
import Golusoris.Lib.EventLines
import Golusoris.Llm.Stream
import Golusoris.Llm.Delivery
import Golusoris.Tiny.JsonMarshal
import Golusoris.Tiny.JsonSize
import Golusoris.Tiny.JsonAccounting
import Golusoris.Tiny.InputSize
import Golusoris.Tiny.Admission
import Golusoris.Idempotency.Capture
import Golusoris.Money.Amounts
import Golusoris.Money.Text
import Golusoris.Trainerio.Segments
import Golusoris.Trainerio.Storable
import Golusoris.Trainerio.Tenants
import Golusoris.Httpx.Vite
import Golusoris.Images.CacheControl
import Golusoris.Images.Token
import Golusoris.Impersonate.Requests
import Golusoris.Safety.Orientation
import Golusoris.Idempotency.Scoping
import Golusoris.Audio.Frames
import Golusoris.Junit.Report
import Golusoris.Junit.WellFormed
import Golusoris.Lib.Regex
import Golusoris.Jsonschema.Duration
