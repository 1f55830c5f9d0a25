import NewtonDB.Lib.OrderedMap
import NewtonDB.Lib.Except
import NewtonDB.Lib.Occ
import NewtonDB.Lib.Fails
import NewtonDB.Lib.Transition
import NewtonDB.Lib.Register
import NewtonDB.Lib.Mailbox
import NewtonDB.OverlayMap
import NewtonDB.OverlayHeap
import NewtonDB.Js.Text
import NewtonDB.Js.Utf8
import NewtonDB.Js.Number
import NewtonDB.Js.NumberOrder
import NewtonDB.Js.Json
import NewtonDB.Js.JsonData
import NewtonDB.Js.JsonText
import NewtonDB.Js.PropertyOrder
import NewtonDB.Js.Digits
import NewtonDB.Js.Value
import NewtonDB.Errors
import NewtonDB.Path
import NewtonDB.Pointer
import NewtonDB.Schema
import NewtonDB.Key
import NewtonDB.Document
import NewtonDB.Query
import NewtonDB.Engine.Indexes
import NewtonDB.Engine.Collection
import NewtonDB.Engine.Write
import NewtonDB.Engine.Transaction
import NewtonDB.Engine.Query
import NewtonDB.Engine.SortOrder
import NewtonDB.Engine.Commit
import NewtonDB.Engine.Serializability
import NewtonDB.Engine.IndexInvariant
import NewtonDB.Engine.CollectionInvariant
import NewtonDB.Engine.CollectionCheck
import NewtonDB.Storage
import NewtonDB.Engine.TransactionInvariant
import NewtonDB.Engine.Declarations
import NewtonDB.Engine.QueryPlans
import NewtonDB.Engine.Failures
import NewtonDB.Store.StoreKey
import NewtonDB.Store.Store
import NewtonDB.Store.Refinement
import NewtonDB.Store.Simulation
import NewtonDB.Store.Scripts
import NewtonDB.Engine.FailedWrites
import NewtonDB.Database.State
import NewtonDB.Database.Runtime
import NewtonDB.Database.Effects
import NewtonDB.Database.Specs
import NewtonDB.Database.Queue
import NewtonDB.Database.Programs
import NewtonDB.Database.Moves
import NewtonDB.Database.Publications
import NewtonDB.Database.Frames
import NewtonDB.Database.Rejections
import NewtonDB.Database.Representation
import NewtonDB.Database.Queries
import NewtonDB.Database.OrderedQueries
import NewtonDB.Database.AdapterCalls
import NewtonDB.Database.Snapshots
import NewtonDB.Database.Durability
import NewtonDB.Database.Closing
import NewtonDB.Database.Degraded
import NewtonDB.Database.Handles
import NewtonDB.Database.Recovery
import NewtonDB.Database.Open
import NewtonDB.Database.Instances
import NewtonDB.Database.StoreAnswers
import NewtonDB.Database.LostUpdates
import NewtonDB.Database.Events
import NewtonDB.Database.Receipts
import NewtonDB.Node.JsonDuplicates
import NewtonDB.Lib.Program
import NewtonDB.Lib.Directory
import NewtonDB.Node.SnapshotFile
import NewtonDB.Node.JsonFileAdapter
import NewtonDB.Node.AdapterSpecs
import NewtonDB.Node.LockSpecs
import NewtonDB.Node.LoadSpecs
import NewtonDB.Node.Frames
import NewtonDB.Node.TemporaryNames
import NewtonDB.Node.LockRelease
import NewtonDB.Node.BackupRecovery
import NewtonDB.Node.StaleTemps
import NewtonDB.Node.StoreSpecs
import NewtonDB.Node.StoreRetry
import NewtonDB.Lib.Outcome
import NewtonDB.Lib.StableSort
import NewtonDB.PlainData
import NewtonDB.DocumentWalk
import NewtonDB.DocumentOutcome
import NewtonDB.DocumentContract
import NewtonDB.Catalogs
import NewtonDB.Lib.Runs
import NewtonDB.Js.JsonSchema
import NewtonDB.QueryGrammar
import NewtonDB.QueryScalars
import NewtonDB.QueryParsing
import NewtonDB.QueryWalk
import NewtonDB.QueryComparisons
import NewtonDB.QueryOutcome
import NewtonDB.QueryReading
import NewtonDB.QuerySchema
import NewtonDB.QueryContract
import NewtonDB.QueryAdmission
import NewtonDB.Lib.Interleaving
import NewtonDB.Node.Cluster
import NewtonDB.Node.ClusterRules
import NewtonDB.Node.ClusterLock
import NewtonDB.Node.ClusterStore
import NewtonDB.Node.ClusterSafety
import NewtonDB.Js.JsonGrammar
import NewtonDB.Js.JsonWritten
import NewtonDB.Node.ScanGrammar
import NewtonDB.Node.ScanWritten
import NewtonDB.Node.FileRoundTrip
import NewtonDB.Lib.EditLog
import NewtonDB.Engine.EventLog
import NewtonDB.Database.Replicas
import NewtonDB.DocumentCopies
import NewtonDB.Engine.Records
import NewtonDB.Store.Rebuild
import NewtonDB.Store.Reseeding
import NewtonDB.Database.Archive
import NewtonDB.Database.Reopening
import NewtonDB.Database.ClosedStorage
