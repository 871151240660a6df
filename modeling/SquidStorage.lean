import SquidStorage.BigEndian
import SquidStorage.Wire
import SquidStorage.FrameCodec
import SquidStorage.TextStream
import SquidStorage.TrimmedText
import SquidStorage.PathNames
import SquidStorage.LexicalPath
import SquidStorage.ScopedLock
import SquidStorage.Formatter
import SquidStorage.Protocol
import SquidStorage.Rounds
import SquidStorage.ClientSession
import SquidStorage.SessionQueue
import SquidStorage.Conversation
import SquidStorage.RequestMatching
import SquidStorage.Handshake
import SquidStorage.Runs
import SquidStorage.ReplicaWatcher
import SquidStorage.PromotionEpochs
import SquidStorage.LastWrite
import SquidStorage.RunningMax
import SquidStorage.KeyedLoop
import SquidStorage.FileVersions
import SquidStorage.ConfigFile
import SquidStorage.Disk
import SquidStorage.VersionLines
import SquidStorage.CrashAtomicity
import SquidStorage.PersistedMaps
import SquidStorage.VersionWriters
import SquidStorage.DataNodeSession
import SquidStorage.DataNodeInventory
import SquidStorage.StorageConfinement
import SquidStorage.StreamAlignment
import SquidStorage.Pieces
import SquidStorage.Channel
import SquidStorage.ChannelFidelity
import SquidStorage.FailedTransfers
import SquidStorage.FrameReading
import SquidStorage.Reordering
import SquidStorage.SyncBurst
import SquidStorage.ByteFile
import SquidStorage.SquidFS
import SquidStorage.CacheCounts
import SquidStorage.FileRefinement
import SquidStorage.UnflushedWrites
import SquidStorage.HandleAccounting
import SquidStorage.QuietCalls
import SquidStorage.FuseCallbacks
import SquidStorage.CallbackTraces
import SquidStorage.Failover
import SquidStorage.Replication
import SquidStorage.WriteQuorum
import SquidStorage.ReplicationRuns
import SquidStorage.Registration
import SquidStorage.HolderSets
import SquidStorage.Eviction
import SquidStorage.Rebalancing
import SquidStorage.ReplicaLabels
import SquidStorage.ReadLastWrite
import SquidStorage.Deletions
import SquidStorage.Locks
import SquidStorage.LockSections
import SquidStorage.ExpirySweep
import SquidStorage.ClientLink
import SquidStorage.HolderReads
import SquidStorage.RequestDispatch
import SquidStorage.Interleaving
import SquidStorage.ConcurrentWrites
import SquidStorage.StandbyJoin
import SquidStorage.StandbyReplication
import SquidStorage.HolderReplication
import SquidStorage.MapTransfer
import SquidStorage.ClientVersions
import SquidStorage.DirectoryTree
import SquidStorage.DirectoryListing
import SquidStorage.SyncPlanner
import SquidStorage.WriteReplies
import SquidStorage.VersionConvergence
import SquidStorage.Cluster
import SquidStorage.Responders
import SquidStorage.NodeStore
import SquidStorage.FileServer
import SquidStorage.WiredServer
import SquidStorage.SharedMounts
import SquidStorage.ThreadPool
import SquidStorage.Takeover
import SquidStorage.WriteSurvival
import SquidStorage.ServerRestart
