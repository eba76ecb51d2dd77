import PPBase.Lexer
import PPBase.Grammar
import PPBase.Dict
import PPBase.Failing
import PPBase.Schema
import PPBase.Sql
import PPBase.RelationIndex
import PPBase.Filter
import PPBase.ClientGuard
import PPBase.Splice
import PPBase.Macros
import PPBase.Rules
import PPBase.ListRule
import PPBase.FilterCongr
import PPBase.Realtime
import PPBase.Response
import PPBase.Expand
import PPBase.Delivery
import PPBase.Session
import PPBase.RecordStore
import PPBase.AuthFlows
import PPBase.Tokens
import PPBase.BodyMacros
import PPBase.Interleaving
import PPBase.OneTime
import PPBase.Superusers
import PPBase.RecordApi
import PPBase.Mutations
import PPBase.OAuth
import PPBase.Accounts
import PPBase.Verified
import PPBase.Takeover
import PPBase.RequestLog
import PPBase.ViewSource
import PPBase.Files
import PPBase.Restore
import PPBase.LiveRestore
import PPBase.Cleanup
import PPBase.Storage
import PPBase.Batch
import PPBase.BatchSequence
import PPBase.Coordinator
import PPBase.Counters
import PPBase.SharedFiles
import PPBase.RoundTrip
import PPBase.Fidelity
import PPBase.Modifiers
import PPBase.SchemaPlan
import PPBase.Registry
import PPBase.Canonical
import PPBase.Cascade
import PPBase.DatabaseSchema
import PPBase.DdlNames
import PPBase.HookChain
import PPBase.ArchiveRuns
import PPBase.HookOwnership
import PPBase.CanonicalJson
import PPBase.ZipAgreement
import PPBase.BackupRoundTrip
import PPBase.MigrationFiles
import PPBase.ByteRange
import PPBase.RangeServing
import PPBase.AuthOptions
import PPBase.FieldFormats
import PPBase.Pagination
import PPBase.Replay
import PPBase.UpdateMigration
import PPBase.MigrationRuns
import PPBase.RateLimit
import PPBase.RestartSlot
import PPBase.SettingsRuns
import PPBase.WriteBarrier
import PPBase.BackupCron
import PPBase.BackupRetention
import PPBase.ManagedIndexes
import PPBase.Secrets
import PPBase.FileNames
import PPBase.IndexDetection
import PPBase.FilterErrors
import PPBase.IndexRewriting
import PPBase.MigrationOrder
import PPBase.SegmentReading
import PPBase.SnapshotOrder
import PPBase.SqlConsole
import PPBase.ObjectGraph
import PPBase.SharedExpansion
import PPBase.FieldContract
import PPBase.FieldStability
import PPBase.ModifiedFields
import PPBase.GeneratedFiles
import PPBase.ViewOrder
import PPBase.FieldRoundTrip
import PPBase.OptionalAuth
import PPBase.Quoting
import PPBase.StorageNames
import PPBase.UploadNames
import PPBase.LogTransparency
import PPBase.Passwords
import PPBase.RowRendering
import PPBase.IndexSync
import PPBase.WriteAgreement
import PPBase.Shield
import PPBase.Quiescence
import PPBase.Leases
import PPBase.OperationLeases
import PPBase.OperationLeaseRuns
