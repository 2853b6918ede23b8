import TestCluster.Semantics.Machine
import TestCluster.Semantics.Table
import TestCluster.Semantics.Interleaving
import TestCluster.Semantics.ByteOrder
import TestCluster.Semantics.Memory
import TestCluster.Skynet.Malloc
import TestCluster.BeeCluster.LuaValue
import TestCluster.BeeCluster.Request
import TestCluster.BeeCluster.UnpackRequest
import TestCluster.BeeCluster.Parts
import TestCluster.BeeCluster.Reassembly
import TestCluster.BeeCluster.Response
import TestCluster.BeeCluster.Emitted
import TestCluster.BeeCluster.Channel
import TestCluster.BeeCluster.Concat
import TestCluster.BeeCluster.Canonical
import TestCluster.BeeCluster.Agent
import TestCluster.BeeCluster.Clusterd
import TestCluster.BeeCluster.Frame
import TestCluster.BeeCluster.Opening
import TestCluster.BeeCluster.Reload
import TestCluster.BeeCluster.Senders
import TestCluster.BeeCluster.OneSender
import TestCluster.BeeCluster.Proxy
import TestCluster.BeeCluster.Cluster
import TestCluster.BeeCluster.Queued
import TestCluster.BeeCluster.HandOver
import TestCluster.Common.OutPack
import TestCluster.Common.InPack
import TestCluster.Common.Compress
import TestCluster.Common.PackFailure
import TestCluster.Common.ServicePoll
import TestCluster.Common.RpcClient
import TestCluster.Common.ActingUid
import TestCluster.Common.Rpc
import TestCluster.Common.RpcCalls
import TestCluster.Lua.StringPack
import TestCluster.Lua.Protopack
import TestCluster.Lua.Memcache
import TestCluster.Lpersistence.Mysqlpool
import TestCluster.Lpersistence.Waiters
import TestCluster.Lpersistence.Reconnection
import TestCluster.BeeCluster.Sockets
import TestCluster.BeeCluster.Sessions
import TestCluster.Lua.Dispatcher
import TestCluster.ActivityMaster.Forwarding
import TestCluster.ActivityMaster.Shards
import TestCluster.Semantics.Queue
import TestCluster.BeeCluster.Names
import TestCluster.BeeCluster.RegisterName
import TestCluster.BeeCluster.NameCache
import TestCluster.BeeCluster.NameLookup
import TestCluster.Semantics.Decimal
import TestCluster.Common.TextParm
import TestCluster.Lua.HandlerNames
import TestCluster.Semantics.Visited
import TestCluster.Lua.Tables
import TestCluster.Lua.TableCopy
import TestCluster.Semantics.Nested
import TestCluster.Lua.Dump
import TestCluster.Semantics.Inherit
import TestCluster.Lua.Class2
import TestCluster.Lobby.ServiceHandles
import TestCluster.Semantics.Memo
import TestCluster.Skynet.Protobuf
import TestCluster.Semantics.Loop
import TestCluster.Common.Zlib
import TestCluster.Semantics.Filing
import TestCluster.Skynet.Timer
import TestCluster.Skynet.Timeouts
import TestCluster.Semantics.RingBuffer
import TestCluster.Semantics.Threads
import TestCluster.Skynet.MessageQueue
import TestCluster.Skynet.Dispatch
import TestCluster.Skynet.DispatchInvariant
import TestCluster.Skynet.DispatchSafety
import TestCluster.Skynet.DispatchSteps
import TestCluster.Semantics.Framing
import TestCluster.Semantics.Chains
import TestCluster.Skynet.Netpack
import TestCluster.Skynet.Forwarding
import TestCluster.Skynet.Gate
import TestCluster.BeeCluster.Delivery
import TestCluster.Semantics.Blocks
import TestCluster.Skynet.Seri
import TestCluster.Semantics.Reading
import TestCluster.Skynet.SeriStream
import TestCluster.Skynet.SocketBuffer
import TestCluster.Skynet.SocketRead
import TestCluster.BeeCluster.Answers
import TestCluster.Skynet.SendBuffer
import TestCluster.BeeCluster.Wire
import TestCluster.Semantics.Bisection
import TestCluster.Semantics.Slots
import TestCluster.Skynet.HandleStorage
