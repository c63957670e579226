import RedisPlus.Aof.Basic
import RedisPlus.Aof.Torn
import RedisPlus.Buffer
import RedisPlus.Bytes
import RedisPlus.Command.Dispatch
import RedisPlus.Command.Effect
import RedisPlus.Command.Frame
import RedisPlus.Command.Replay
import RedisPlus.Framework.Deadlines
import RedisPlus.Framework.Decimal
import RedisPlus.Framework.Delimiter
import RedisPlus.Framework.Endian
import RedisPlus.Framework.Incremental
import RedisPlus.Framework.Machine
import RedisPlus.Handler.Basic
import RedisPlus.Handler.Chunking
import RedisPlus.Persistence.Basic
import RedisPlus.Persistence.Recovery
import RedisPlus.Rdb.Format
import RedisPlus.Rdb.RoundTrip
import RedisPlus.Rdb.Termination
import RedisPlus.Replication.Basic
import RedisPlus.Replication.Fanout
import RedisPlus.Replication.Follow
import RedisPlus.Replication.Links
import RedisPlus.Replication.Replica
import RedisPlus.Replication.Stream
import RedisPlus.Replication.Sync
import RedisPlus.Resp.Chunks
import RedisPlus.Resp.Encode
import RedisPlus.Resp.Glob
import RedisPlus.Resp.Parse
import RedisPlus.Server.Asio
import RedisPlus.Server.Durability
import RedisPlus.Store.Basic
import RedisPlus.Store.View
import RedisPlus.Rdb.Truncated
import RedisPlus.Framework.Files
import RedisPlus.Persistence.SaveFile
import RedisPlus.Persistence.Savers
import RedisPlus.Command.Canonical
import RedisPlus.Store.Index
import RedisPlus.Store.Reap
import RedisPlus.Command.Reaping
import RedisPlus.Persistence.Restore
import RedisPlus.Resp.Grammar
import RedisPlus.Server.Poll
import RedisPlus.Server.ProtocolError
import RedisPlus.Command.ReadOnly
import RedisPlus.Aof.Faults
import RedisPlus.Resp.Value
import RedisPlus.Command.Reply
import RedisPlus.Server.Output
import RedisPlus.Server.Backlog
import RedisPlus.Server.Feeding
import RedisPlus.Replication.Promotion
import RedisPlus.Persistence.Phases
import RedisPlus.Framework.Register
import RedisPlus.Rdb.Checksum
import RedisPlus.Rdb.Failure
import RedisPlus.Framework.Wildcard
import RedisPlus.Resp.Tokens
import RedisPlus.Persistence.Rewrite
import RedisPlus.Framework.Choices
import RedisPlus.Persistence.Unsaved
import RedisPlus.Command.Options
import RedisPlus.Command.Deadline
import RedisPlus.Command.Clocked
import RedisPlus.Integers
import RedisPlus.Persistence.Accounts
import RedisPlus.Persistence.Settling
import RedisPlus.Aof.Unfinished
import RedisPlus.Persistence.LogLength
import RedisPlus.Framework.Sweep
import RedisPlus.Store.Cycle
import RedisPlus.Framework.Crc
import RedisPlus.Rdb.BitSerial
import RedisPlus.Command.Operations
import RedisPlus.Framework.Lagging
import RedisPlus.Rdb.Grammar
import RedisPlus.Replication.Cluster
import RedisPlus.Replication.Convergence
import RedisPlus.Replication.Reconnect
import RedisPlus.Command.Spec
import RedisPlus.Framework.FetchMax
import RedisPlus.Framework.Periodic
import RedisPlus.Server.PollLoop
import RedisPlus.Framework.Abstraction
import RedisPlus.Handler.Abstraction
import RedisPlus.Persistence.Restart
import RedisPlus.Server.Backends
import RedisPlus.Server.EverySec
