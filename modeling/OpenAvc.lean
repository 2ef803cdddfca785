import OpenAvc.Run.Machine
import OpenAvc.Macro.Engine
import OpenAvc.Macro.Moves
import OpenAvc.Macro.Registry
import OpenAvc.Macro.Preemption
import OpenAvc.Device.Children
import OpenAvc.Device.Presence
import OpenAvc.Device.PendingSettings
import OpenAvc.Device.PendingKept
import OpenAvc.Data.Lookup
import OpenAvc.Data.Json
import OpenAvc.Data.JsonPath
import OpenAvc.Logins.Store
import OpenAvc.Logins.Project
import OpenAvc.Run.Outcome
import OpenAvc.Logins.Unreadable
import OpenAvc.Logins.Finding
import OpenAvc.Logins.Copying
import OpenAvc.Logins.Filing
import OpenAvc.Logins.Restoring
import OpenAvc.Logins.Moved
import OpenAvc.Panels.Devices
import OpenAvc.Panels.Approvals
import OpenAvc.Panels.Admission
import OpenAvc.Data.JsonLimits
import OpenAvc.Data.JsonText
import OpenAvc.Updater.Marker
import OpenAvc.Updater.Attempts
import OpenAvc.Updater.Startups
import OpenAvc.Updater.Rollback
import OpenAvc.Updater.Exclusion
import OpenAvc.Files.Tree
import OpenAvc.Files.Unpack
import OpenAvc.Updater.Backup
import OpenAvc.Updater.Restored
import OpenAvc.Updater.AutoRollback
import OpenAvc.Updater.Together
import OpenAvc.Data.JsonSorted
import OpenAvc.Cloud.Canonical
import OpenAvc.Cloud.Signing
import OpenAvc.Cloud.Sequencer
import OpenAvc.Cloud.Replay
import OpenAvc.Cloud.StateRelay
import OpenAvc.Cloud.Convergence
import OpenAvc.Cloud.Refusals
import OpenAvc.Data.Double
import OpenAvc.Data.FloatText
import OpenAvc.Conditions.Evaluation
import OpenAvc.Conditions.Parity
import OpenAvc.Triggers.Cron
import OpenAvc.Triggers.Effects
import OpenAvc.Triggers.Depth
import OpenAvc.Macro.Stems
import OpenAvc.Triggers.Inside
import OpenAvc.Triggers.Cooldown
import OpenAvc.Triggers.Overlap
import OpenAvc.Data.Fnmatch
import OpenAvc.State.Store
import OpenAvc.State.Deliveries
import OpenAvc.State.Order
import OpenAvc.Isc.Handshake
import OpenAvc.Isc.MutualAuth
import OpenAvc.Isc.Mirror
import OpenAvc.Isc.Converges
import OpenAvc.State.Matching
import OpenAvc.Push.Converges
import OpenAvc.Data.Utf8Codec
import OpenAvc.Snmp.Ber
import OpenAvc.State.Persister
import OpenAvc.Snmp.Oid
import OpenAvc.Snmp.Codec
import OpenAvc.Snmp.RoundTrip
import OpenAvc.Driver.Framing
import OpenAvc.Driver.SignIn
import OpenAvc.Driver.Throttle
import OpenAvc.Data.Rounding
import OpenAvc.Driver.Gates
import OpenAvc.Driver.ThrottleConverges
import OpenAvc.Driver.GatesExact
import OpenAvc.Data.Cuts
import OpenAvc.Driver.Placeholders
import OpenAvc.Driver.SendRegex
import OpenAvc.Data.Semver
import OpenAvc.Updater.Checker
import OpenAvc.Updater.Precedence
import OpenAvc.Updater.WindowsRollback
import OpenAvc.Panels.Matrix
import OpenAvc.Panels.RequestOrigin
import OpenAvc.Redaction.Masking
import OpenAvc.Redaction.Kept
import OpenAvc.Redaction.Changed
import OpenAvc.State.Bindings
import OpenAvc.State.Follows
import OpenAvc.State.Following
import OpenAvc.State.Cascades
import OpenAvc.Data.StableSort
import OpenAvc.Discovery.TierMatcher
import OpenAvc.Discovery.Arrival
import OpenAvc.Library.Saving
import OpenAvc.Library.Copying
import OpenAvc.Library.Written
import OpenAvc.Library.FiledLogins
import OpenAvc.Library.Unfailing
import OpenAvc.Library.Swapped
import OpenAvc.Library.Replaced
import OpenAvc.Restore.Archive
import OpenAvc.Restore.Restoring
import OpenAvc.Restore.Parts
import OpenAvc.Osc.Codec
import OpenAvc.Snmp.Ranges
import OpenAvc.Osc.RoundTrip
import OpenAvc.Osc.Bundle
import OpenAvc.Saves.Atomic
import OpenAvc.Staging.Integrity
import OpenAvc.Panels.MatrixCheck
import OpenAvc.Panels.MatrixDrawn
import OpenAvc.Data.Base64
import OpenAvc.Data.JsonWhole
import OpenAvc.Bundle.Sealing
import OpenAvc.Bundle.Payload
import OpenAvc.Bundle.Opened
import OpenAvc.Bundle.Sealed
import OpenAvc.Auth.Authority
import OpenAvc.Auth.Alone
import OpenAvc.Auth.Sockets
import OpenAvc.Auth.Ledger
import OpenAvc.Auth.Retained
import OpenAvc.Data.Framer
import OpenAvc.Driver.FrameParsers
import OpenAvc.Driver.Chunked
import OpenAvc.Driver.SendFrames
import OpenAvc.Driver.Slip
import OpenAvc.Cloud.Downstream
import OpenAvc.Cloud.SendBuffer
import OpenAvc.Data.Hex
import OpenAvc.Ir.Pronto
import OpenAvc.Ir.Stable
import OpenAvc.Data.Chains
import OpenAvc.Migration.Adoption
import OpenAvc.Migration.Adopted
import OpenAvc.Macro.Guards
import OpenAvc.Macro.Reports
import OpenAvc.Macro.WaitUntil
import OpenAvc.Macro.Awaited
import OpenAvc.Data.Windows
import OpenAvc.Device.PageStarts
import OpenAvc.Driver.Escaping
import OpenAvc.Driver.Conversion
import OpenAvc.Driver.ValueMap
import OpenAvc.Data.JsonPairs
import OpenAvc.Data.JsonSame
import OpenAvc.Driver.JsonReply
import OpenAvc.Driver.JsonMerging
import OpenAvc.Driver.JsonSplits
import OpenAvc.Data.LastChange
import OpenAvc.Data.SlidingLog
import OpenAvc.Limits.Buckets
import OpenAvc.Limits.Budgets
import OpenAvc.Listen.Deadline
import OpenAvc.Scripts.InOrder
import OpenAvc.Cloud.AlertMonitor
import OpenAvc.Cloud.Alerting
import OpenAvc.Cloud.TileAgrees
import OpenAvc.Data.Newest
import OpenAvc.Traffic.Recorder
import OpenAvc.Traffic.Holds
import OpenAvc.Traffic.Readers
import OpenAvc.Traffic.Kept
