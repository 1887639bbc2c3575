import Godis.Datastruct.DictScan
import Godis.Datastruct.QuickList
import Godis.Datastruct.QuickListRefine
import Godis.Cluster.Fsm
import Godis.Cluster.FsmInv
import Godis.Cluster.Rebalance
import Godis.Cluster.Routing
import Godis.Datastruct.QuickListRun
import Godis.Replication.ExactlyOnce
import Godis.Aof.DeadlineLogs
import Godis.Aof.KeyLogs
import Godis.Aof.Replay
import Godis.Aof.TimedReplay
import Godis.Database.DeclaredKeys
import Godis.Database.Emptying
import Godis.Database.NonEmpty
import Godis.Database.Replica
import Godis.Datastruct.SkiplistHeap
import Godis.Datastruct.SkiplistInsert
import Godis.Datastruct.SkiplistRemove
import Godis.Datastruct.SortedSetInv
import Godis.Datastruct.SortedSetShape
import Godis.Golang.Reader
import Godis.Redis.Framing
import Godis.Redis.ParserV2
import Godis.Redis.ReplyCodec
import Godis.Redis.Servers
import Godis.Cluster.Del
import Godis.Cluster.MSet
import Godis.Cluster.Restoring
import Godis.Cluster.MasterSlaves
import Godis.Cluster.Snapshot
import Godis.Cluster.Watch
import Godis.Database.UndoLines
import Godis.Replication.Stopping
import Godis.Replication.Backlogs
import Godis.Aof.Persister
import Godis.Aof.RdbLoading
import Godis.Cluster.KeyIndex
import Godis.Cluster.Migration
import Godis.Cluster.ShardLocks
import Godis.Cluster.SlotLocks
import Godis.Database.Sessions
import Godis.Redis.Connection
import Godis.Lib.Neighbor
import Godis.Lib.Pool
import Godis.Redis.Client
import Godis.Pubsub.Hub
import Godis.Database.Ranges
import Godis.Cluster.Recreating
import Godis.Database.Bitmap
import Godis.Database.SlowLog
import Godis.Golang.Duration
import Godis.Lib.Timewheel
import Godis.Cluster.Serving
import Godis.Database.Watched
