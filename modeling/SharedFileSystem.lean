import SharedFileSystem.SessionCommits
import SharedFileSystem.MetadataCodec
import SharedFileSystem.ConcurrentCommits
import SharedFileSystem.CrashConsistency
import SharedFileSystem.BeginRace
import SharedFileSystem.LockNames
import SharedFileSystem.MetadataHandlers
import SharedFileSystem.Transfer
import SharedFileSystem.Convergence
import SharedFileSystem.Failover
import SharedFileSystem.AclCodec
import SharedFileSystem.AccessCommands
import SharedFileSystem.Moves
import SharedFileSystem.PermissionCache
import SharedFileSystem.CreateRace
import SharedFileSystem.ContentAccess
import SharedFileSystem.Registration
import SharedFileSystem.ContentLines
import SharedFileSystem.AclFetch
import SharedFileSystem.AccessRestores
import SharedFileSystem.InfoCounts
import SharedFileSystem.PathConfinement
import SharedFileSystem.ReplySteps
import SharedFileSystem.FileMerges
import SharedFileSystem.CompleteFailover
import SharedFileSystem.FailureDetection
import SharedFileSystem.Pairing
import SharedFileSystem.SentenceIds
import SharedFileSystem.CommandNames
import SharedFileSystem.FailedCommits
import SharedFileSystem.UndoHistory
import SharedFileSystem.RestoreFaults
import SharedFileSystem.SingleSession
import SharedFileSystem.Lib.Cuts
import SharedFileSystem.ParserSpec
import SharedFileSystem.KeptText
import SharedFileSystem.ContentViews
import SharedFileSystem.EditTransfer
import SharedFileSystem.MovedRecords
import SharedFileSystem.MovedRequests
import SharedFileSystem.WriteConnection
import SharedFileSystem.ReadLists
import SharedFileSystem.ApprovedAccess
import SharedFileSystem.PartialLines
import SharedFileSystem.CheckpointHistory
import SharedFileSystem.PermissionMap
import SharedFileSystem.IndexMap
import SharedFileSystem.RecentFiles
import SharedFileSystem.FolderIndex
import SharedFileSystem.FoundAgain
import SharedFileSystem.Listings
import SharedFileSystem.ListedFiles
import SharedFileSystem.LockTables
import SharedFileSystem.WorkerQueue
import SharedFileSystem.RenderPasses
import SharedFileSystem.ExportedRenderer
import SharedFileSystem.Placement
import SharedFileSystem.RequestQueue
import SharedFileSystem.StoredCounts
import SharedFileSystem.LoadCounters
import SharedFileSystem.Lib.Wakeup
import SharedFileSystem.WorkerWakeups
import SharedFileSystem.Lib.LinkedQueue
import SharedFileSystem.JobWorker
import SharedFileSystem.WriteDialogue
import SharedFileSystem.ExecOutput
import SharedFileSystem.ClientRoster
import SharedFileSystem.Lib.Inodes
import SharedFileSystem.SnapshotReads
import SharedFileSystem.Lib.Since
import SharedFileSystem.PairHistory
import SharedFileSystem.RequestDesk
import SharedFileSystem.CheckpointListing
import SharedFileSystem.Lib.Levels
import SharedFileSystem.Browsing
import SharedFileSystem.FolderScreen
import SharedFileSystem.RecordCopy
import SharedFileSystem.UserList
