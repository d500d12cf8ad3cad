import KVCacheRaft.Consensus.Majority
import KVCacheRaft.Raft.Cluster
import KVCacheRaft.Raft.Pending
import KVCacheRaft.Raft.Places
import KVCacheRaft.Raft.Steps
import KVCacheRaft.Raft.Calls
import KVCacheRaft.Raft.Simulation
import KVCacheRaft.Raft.SimVote
import KVCacheRaft.Raft.SimAppend
import KVCacheRaft.Raft.SimLeader
import KVCacheRaft.Raft.SimSnapshot
import KVCacheRaft.Raft.Refinement
import KVCacheRaft.Raft.Safety
import KVCacheRaft.Raft.Election
import KVCacheRaft.Raft.Indices
import KVCacheRaft.Raft.Deadlock
import KVCacheRaft.Raft.Replies
import KVCacheRaft.Raft.Stable
import KVCacheRaft.Raft.Unlocked
import KVCacheRaft.Store.Arrays
import KVCacheRaft.Wal.Rolls
import KVCacheRaft.Wal.Follower
import KVCacheRaft.Wal.Leader
import KVCacheRaft.Wal.Answers
import KVCacheRaft.Wal.Covers
import KVCacheRaft.Wal.Filter
import KVCacheRaft.Wal.Rollback
import KVCacheRaft.Server.Follow
import KVCacheRaft.Server.Requests
import KVCacheRaft.Server.Fresh
import KVCacheRaft.Rpc.Provider
import KVCacheRaft.Codec.Sizes
import KVCacheRaft.Machine.Rounds
import KVCacheRaft.Raft.Entries
import KVCacheRaft.Raft.Lagging
import KVCacheRaft.Rpc.Channel
import KVCacheRaft.Rpc.Limits
import KVCacheRaft.Wal.Late
import KVCacheRaft.Raft.MatchIndex
import KVCacheRaft.Raft.Commit
import KVCacheRaft.Wal.Acknowledged
import KVCacheRaft.Wal.Counter
import KVCacheRaft.Wal.Metadata
import KVCacheRaft.Wal.Stores
import KVCacheRaft.Wal.Torn
import KVCacheRaft.Wal.Recovered
import KVCacheRaft.Codec.Sockets
import KVCacheRaft.Rpc.Responses
import KVCacheRaft.Rpc.Synchronous
import KVCacheRaft.Server.WaitChannels
import KVCacheRaft.Server.Linearizable
import KVCacheRaft.Raft.Progress
import KVCacheRaft.Raft.Final
import KVCacheRaft.Server.Replication
import KVCacheRaft.Machine.Monitor
import KVCacheRaft.Common.LockQueue
import KVCacheRaft.Codec.Decimal
import KVCacheRaft.Wal.Names
import KVCacheRaft.Rpc.Config
import KVCacheRaft.Codec.Message
import KVCacheRaft.Rpc.Messages
import KVCacheRaft.Rpc.Delivery
import KVCacheRaft.Rpc.Session
import KVCacheRaft.Raft.Bounds
import KVCacheRaft.Raft.Rounds
import KVCacheRaft.Raft.Availability
import KVCacheRaft.Store.Memory
import KVCacheRaft.Server.Streams
import KVCacheRaft.Server.Cache
