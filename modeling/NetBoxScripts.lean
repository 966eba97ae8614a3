import NetBoxScripts.Python.Text
import NetBoxScripts.Python.Json
import NetBoxScripts.Python.JsonText
import NetBoxScripts.Python.Raise
import NetBoxScripts.Python.Ordered
import NetBoxScripts.Storage.Paths
import NetBoxScripts.Storage.Manifest
import NetBoxScripts.Storage.ManifestText
import NetBoxScripts.Models.Rows
import NetBoxScripts.Storage.ScriptFiles
import NetBoxScripts.Runtime.Introspection
import NetBoxScripts.Runtime.Resolution
import NetBoxScripts.Validation.Run
import NetBoxScripts.Validation.Verdict
import NetBoxScripts.Concurrency.Program
import NetBoxScripts.Concurrency.Pool
import NetBoxScripts.Concurrency.Table
import NetBoxScripts.Models.Declarations
import NetBoxScripts.Activation.Scripts
import NetBoxScripts.Database.World
import NetBoxScripts.Database.Updates
import NetBoxScripts.Database.Statements
import NetBoxScripts.Services.Store
import NetBoxScripts.Activation.Reconciliation
import NetBoxScripts.Activation.Refinement
import NetBoxScripts.Activation.Synchronization
import NetBoxScripts.Api.ProjectLocks
import NetBoxScripts.Concurrency.Alone
import NetBoxScripts.Concurrency.Course
import NetBoxScripts.Concurrency.EachStep
import NetBoxScripts.Concurrency.History
import NetBoxScripts.Concurrency.Labelled
import NetBoxScripts.Concurrency.Moments
import NetBoxScripts.Concurrency.Trace
import NetBoxScripts.Execution.Blocks
import NetBoxScripts.Execution.Promise
import NetBoxScripts.Execution.Rollback
import NetBoxScripts.Execution.RunScript
import NetBoxScripts.Graph.Avoiding
import NetBoxScripts.Graph.Waiting
import NetBoxScripts.Jobs.Pinning
import NetBoxScripts.Jobs.Queue
import NetBoxScripts.Jobs.Settings
import NetBoxScripts.Migration.ActivateStaged
import NetBoxScripts.Migration.Cleanup
import NetBoxScripts.Migration.Cutover
import NetBoxScripts.Migration.Dialects
import NetBoxScripts.Migration.EventRules
import NetBoxScripts.Migration.Grouping
import NetBoxScripts.Migration.Invariant
import NetBoxScripts.Migration.Journal
import NetBoxScripts.Migration.Mapping
import NetBoxScripts.Migration.Passes
import NetBoxScripts.Migration.Permissions
import NetBoxScripts.Migration.References
import NetBoxScripts.Migration.Replay
import NetBoxScripts.Migration.Runs
import NetBoxScripts.Migration.Schedules
import NetBoxScripts.Migration.Staging
import NetBoxScripts.Migration.Verified
import NetBoxScripts.Models.DataPaths
import NetBoxScripts.Models.Edits
import NetBoxScripts.Models.ProjectTrees
import NetBoxScripts.Models.Projects
import NetBoxScripts.Models.Selection
import NetBoxScripts.Python.Dict
import NetBoxScripts.Python.JsonEqual
import NetBoxScripts.Python.JsonKeys
import NetBoxScripts.Python.Traced
import NetBoxScripts.Python.WriteLog
import NetBoxScripts.Runtime.Cache
import NetBoxScripts.Runtime.Discovery
import NetBoxScripts.Runtime.Loader
import NetBoxScripts.Runtime.LocalTree
import NetBoxScripts.Runtime.PrivateRoot
import NetBoxScripts.Runtime.Publication
import NetBoxScripts.Services.Accounting
import NetBoxScripts.Services.Deletion
import NetBoxScripts.Services.Fencing
import NetBoxScripts.Services.Lifecycle
import NetBoxScripts.Services.Outcomes
import NetBoxScripts.Services.Publication
import NetBoxScripts.Services.Reading
import NetBoxScripts.Services.Reclaiming
import NetBoxScripts.Services.Repair
import NetBoxScripts.Services.Requests
import NetBoxScripts.Services.Revisions
import NetBoxScripts.Services.Safekeeping
import NetBoxScripts.Services.Serial
import NetBoxScripts.Services.Sources
import NetBoxScripts.Services.Staging
import NetBoxScripts.Services.StoreFailures
import NetBoxScripts.Services.StoredTrees
import NetBoxScripts.Services.Storehouse
import NetBoxScripts.Services.Sweep
import NetBoxScripts.Services.Uploads
import NetBoxScripts.Services.Vanishing
import NetBoxScripts.Services.Warrants
import NetBoxScripts.Services.Workers
import NetBoxScripts.Storage.Layout
import NetBoxScripts.Storage.ManifestAcceptance
import NetBoxScripts.Storage.ManifestDigest
import NetBoxScripts.Storage.SnapshotText
import NetBoxScripts.Storage.StoredText
import NetBoxScripts.Storage.TreeNodes
import NetBoxScripts.Storage.VerifiedStream
import NetBoxScripts.Validation.Readings
import NetBoxScripts.Validation.Sanitizer
