import MemStream.Lib.Outcome
import MemStream.Lib.LittleEndian
import MemStream.Lib.Block
import MemStream.Lib.Machine
import MemStream.Lib.OrdMap
import MemStream.Db.Impl.SegLog
import MemStream.Lib.Assoc
import MemStream.Db.Impl.SegList
import MemStream.Db.Spec.Log
import MemStream.Db.Spec.Queues
import MemStream.Db.Lemmas.SegLog.Basic
import MemStream.Db.Lemmas.SegLog.Append
import MemStream.Db.Lemmas.SegLog.Trim
import MemStream.Db.Lemmas.SegLog.ReadRange
import MemStream.Db.Lemmas.SegLog.History
import MemStream.Db.Lemmas.SegList.Basic
import MemStream.Db.Lemmas.SegList.Push
import MemStream.Db.Lemmas.SegList.Drain
import MemStream.Db.Lemmas.SegList.History
import MemStream.Db.Impl.Lru
import MemStream.Db.Lemmas.Lru.Basic
import MemStream.Db.Spec.Recency
import MemStream.Db.Lemmas.Lru.Rep
import MemStream.Db.Lemmas.Lru.Slots
import MemStream.Db.Lemmas.Lru.Refine
import MemStream.Db.Impl.Groups
import MemStream.Db.Lemmas.Groups.Basic
import MemStream.Db.Lemmas.Groups.Read
import MemStream.Db.Lemmas.Groups.Manager
import MemStream.Db.Impl.Aof
import MemStream.Db.Impl.Db
import MemStream.Db.Lemmas.Db.Basic
import MemStream.Db.Lemmas.Db.Follower
import MemStream.Db.Lemmas.Db.Run
import MemStream.Db.Lemmas.Db.Durability
import MemStream.Db.Lemmas.Db.KvDurability
import MemStream.Db.Impl.Pipeline
import MemStream.Db.Lemmas.Pipeline.Atomicity
import MemStream.Db.Impl.Dispatcher
import MemStream.Db.Lemmas.Pipeline.Steps
import MemStream.Db.Lemmas.Pipeline.Stranded
import MemStream.Db.Lemmas.Pipeline.Locks
import MemStream.Db.Lemmas.Pipeline.Wakeup
import MemStream.Client.Impl.StreamClient
import MemStream.Lib.Fallible
import MemStream.Server.Impl.Proto
import MemStream.Server.Lemmas.Proto
import MemStream.Client.Lemmas.Lists
import MemStream.Client.Lemmas.Requests
import MemStream.Db.Lemmas.Pipeline.Exclusion
import MemStream.Client.Impl.Answers
import MemStream.Server.Impl.Response
import MemStream.Client.Lemmas.Answers
import MemStream.Db.Impl.AofFile
import MemStream.Db.Lemmas.Db.Load
import MemStream.Db.Lemmas.Kv.Expiry
import MemStream.Db.Lemmas.Db.Lifetime
import MemStream.Client.Impl.Pool
import MemStream.Client.Lemmas.Pool.Capacity
import MemStream.Client.Lemmas.Pool.Exchanges
import MemStream.Server.Impl.Ha
import MemStream.Server.Lemmas.Ha.Flush
import MemStream.Server.Lemmas.Ha.Steps
import MemStream.Server.Lemmas.Ha.Once
import MemStream.Db.Lemmas.Kv.Evict
import MemStream.Db.Lemmas.Db.Eviction
import MemStream.Server.Lemmas.Grammar
import MemStream.Server.Impl.Codec
import MemStream.Server.Lemmas.Codec
import MemStream.Db.Impl.Base64
import MemStream.Db.Lemmas.Base64
import MemStream.Server.Impl.Sync
import MemStream.Server.Lemmas.Sync
import MemStream.Db.Lemmas.Lru.Run
import MemStream.Db.Lemmas.Kv.History
import MemStream.Db.Impl.Startup
import MemStream.Db.Lemmas.Db.Admits
import MemStream.Db.Lemmas.Db.Startup
import MemStream.Db.Lemmas.Db.Torn
import MemStream.Server.Impl.Main
import MemStream.Server.Lemmas.Main.Steps
import MemStream.Server.Lemmas.Main.Replication
import MemStream.Server.Lemmas.Main.Idle
import MemStream.Server.Impl.Registration
import MemStream.Server.Lemmas.Main.Registration
import MemStream.Db.Lemmas.SegList.Ownership
import MemStream.Db.Lemmas.SegList.Counts
import MemStream.Db.Lemmas.SegLog.Failure
import MemStream.Db.Lemmas.SegLog.Erase
import MemStream.Db.Lemmas.Groups.Ranges
import MemStream.Db.Lemmas.Kv.Bound
import MemStream.Db.Lemmas.Db.Partial
import MemStream.Db.Lemmas.Groups.Batch
import MemStream.Db.Spec.JobQueue
import MemStream.Lib.BinarySearch
import MemStream.Db.Lemmas.Pipeline.Queue
import MemStream.Client.Lemmas.Presence
import MemStream.Db.Impl.Display
import MemStream.Server.Impl.Handler
import MemStream.Server.Lemmas.Handler
import MemStream.Server.Lemmas.Ttl
import MemStream.Server.Lemmas.Ha.Followers
import MemStream.Server.Impl.Heartbeat
import MemStream.Server.Lemmas.Ha.Heartbeat
import MemStream.Db.Lemmas.SegList.OneKey
import MemStream.Server.Lemmas.Lists
import MemStream.Server.Lemmas.Isolation
import MemStream.Db.Lemmas.SegLog.Layout
import MemStream.Db.Lemmas.Lru.WellFormed
import MemStream.Db.Lemmas.SegList.Query
import MemStream.Db.Impl.Life
import MemStream.Db.Lemmas.Db.Life
import MemStream.Db.Lemmas.Pipeline.Serial
import MemStream.Server.Impl.Listener
import MemStream.Server.Lemmas.Listener
import MemStream.Client.Lemmas.Calls
import MemStream.Client.Lemmas.Concurrent
import MemStream.Db.Lemmas.Db.Overwrite
import MemStream.Server.Lemmas.Ha.Replica
import MemStream.Db.Lemmas.Db.KvLife
import MemStream.Client.Impl.Handlers
import MemStream.Client.Lemmas.Api.Basic
import MemStream.Client.Lemmas.Api.Kv
import MemStream.Client.Lemmas.Api.Log
