import Licensecc.Device.Recover
import Licensecc.Device.Changes
import Licensecc.Conc.World
import Licensecc.Device.Slots
import Licensecc.Device.Issue
import Licensecc.Device.ExactlyOnce
import Licensecc.Device.Admit
import Licensecc.Device.Agreement
import Licensecc.Device.Trial
import Licensecc.Device.Enroll
import Licensecc.Codec.Base64
import Licensecc.Codec.Decimal
import Licensecc.Codec.Lines
import Licensecc.Protocol.Script
import Licensecc.Protocol.Native
import Licensecc.Protocol.LeaseCodec
import Licensecc.Codec.Json
import Licensecc.Protocol.Signing
import Licensecc.Protocol.BoundProtocol
import Licensecc.Conc.Dialog
import Licensecc.Client.Lease
import Licensecc.Client.Checkpoint
import Licensecc.Client.CheckpointStore
import Licensecc.Conc.Machine
import Licensecc.Webhook.Endpoint
import Licensecc.Webhook.Delivery
import Licensecc.Webhook.Dispatch
import Licensecc.Webhook.Effect
import Licensecc.Webhook.Log
import Licensecc.Webhook.Lease
import Licensecc.Webhook.Attempts
import Licensecc.Schema.Catalog
import Licensecc.Grants.Record
import Licensecc.Projection.Plan
import Licensecc.Catalog.Manifest
import Licensecc.Projection.Actions
import Licensecc.Catalog.Effects
import Licensecc.Schema.Orders
import Licensecc.Schema.Store
import Licensecc.Grants.Sequence
import Licensecc.Projection.Classes
import Licensecc.Projection.Apply
import Licensecc.Projection.Converge
import Licensecc.Projection.Agreement
import Licensecc.Projection.Snapshot
import Licensecc.Catalog.Edits
import Licensecc.Catalog.Apply
import Licensecc.Catalog.System
import Licensecc.Catalog.Writes
import Licensecc.Sql.Puts
import Licensecc.Catalog.Commit
import Licensecc.Catalog.Derivation
import Licensecc.Catalog.Imports
import Licensecc.Order
import Licensecc.Catalog.Ready
import Licensecc.Catalog.Addons
import Licensecc.Catalog.Export
import Licensecc.Catalog.Sound
import Licensecc.Catalog.RoundTrip
import Licensecc.Codec.JsNumber
import Licensecc.Sql.Rowid
import Licensecc.Audit.Digest
import Licensecc.Audit.Chain
import Licensecc.Conc.Serial
import Licensecc.Conc.Schedule
import Licensecc.Audit.Append
import Licensecc.Audit.Tamper
import Licensecc.Audit.Overlap
import Licensecc.Client.Anchor
import Licensecc.Webhook.Source
import Licensecc.Webhook.Enqueue
import Licensecc.Webhook.Cursor
import Licensecc.Webhook.OrderReports
import Licensecc.Conc.Credit
import Licensecc.Conc.Stable
import Licensecc.Sql.Budget
import Licensecc.Portal.Store
import Licensecc.Portal.Statements
import Licensecc.Portal.Requests
import Licensecc.Portal.Effects
import Licensecc.Portal.Steps
import Licensecc.Portal.OneTime
import Licensecc.Portal.Programs
import Licensecc.Portal.Invariant
import Licensecc.Portal.Promises
import Licensecc.Portal.OneLive
import Licensecc.Portal.Rotation
import Licensecc.Portal.WayIn
import Licensecc.Codec.Fields
import Licensecc.Token.Base64
import Licensecc.Token.SignatureVerifier
import Licensecc.Token.SignedToken
import Licensecc.Token.Canonical
import Licensecc.Token.Decision
import Licensecc.Codec.Texts
import Licensecc.Token.Sdk
import Licensecc.Token.Keys
import Licensecc.Token.Verifiers
import Licensecc.Codec.Frames
import Licensecc.License.Canonical
import Licensecc.License.HwIdentifier
import Licensecc.License.Limits
import Licensecc.License.SimpleIni
import Licensecc.License.IniLines
import Licensecc.License.Reader
import Licensecc.Orders.Event
import Licensecc.Orders.Mutation
import Licensecc.Conc.Quota
import Licensecc.Device.Rate
import Licensecc.Orders.Withdrawals
import Licensecc.Device.RateLimits
import Licensecc.Codec.JsText
import Licensecc.Codec.JsonValue
import Licensecc.Webhook.Signature
import Licensecc.Codec.JsonText
import Licensecc.Webhook.Scope
import Licensecc.Webhook.Queued
import Licensecc.Webhook.Isolation
import Licensecc.Http.Address
import Licensecc.Http.SourceIdentity
import Licensecc.Http.SourceLaws
import Licensecc.Orders.Hmac
import Licensecc.Orders.Nonces
import Licensecc.Backup.Save
import Licensecc.Backup.Manifests
import Licensecc.Codec.JsonMembers
import Licensecc.Orders.Normalize
import Licensecc.Orders.Redelivery
import Licensecc.Token.Base64Agreement
import Licensecc.Codec.Natural
import Licensecc.Codec.Der
import Licensecc.Identity.Spki
import Licensecc.Token.Reads
import Licensecc.Token.Pkcs1
import Licensecc.Codec.Find
import Licensecc.Identity.Callback
import Licensecc.Codec.JsonGrammar
import Licensecc.Codec.JsonShape
import Licensecc.Http.UnsignedJson
import Licensecc.Identity.BoundJson
import Licensecc.Identity.BoundReplies
