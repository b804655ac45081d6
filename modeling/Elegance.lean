import Elegance.Proofs.Packer
import Elegance.Proofs.Framing
import Elegance.Proofs.Chunking
import Elegance.Proofs.PartialFrames
import Elegance.Proofs.NestedCalls
import Elegance.Endpoint
import Elegance.Lib.Run
import Elegance.Socket
import Elegance.Network
import Elegance.Lib.IdPool
import Elegance.Proofs.NetworkManager
import Elegance.Proofs.Network
import Elegance.Proofs.Attribution
import Elegance.Proofs.Routing
import Elegance.Proofs.Isolation
import Elegance.RpcSession
import Elegance.Proofs.RpcSession
import Elegance.Proofs.RpcCalls
import Elegance.Proofs.RpcPending
import Elegance.Proofs.RpcLink
import Elegance.RpcThreads
import Elegance.Proofs.RpcThreads
import Elegance.Lib.StdString
import Elegance.RpcHandshake
import Elegance.Proofs.RpcHandshake
import Elegance.ByteArray
import Elegance.QueueByteArray
import Elegance.Lib.Memory
import Elegance.Proofs.QueueByteArray
import Elegance.StaticByteArray
import Elegance.AnyByteArray
import Elegance.Proofs.StaticByteArray
import Elegance.Proofs.AnyByteArray
import Elegance.Proofs.ShortReads
import Elegance.Proofs.Transfer
import Elegance.StaticBounds
import Elegance.Proofs.StaticBounds
import Elegance.CppCreator
import Elegance.Generated
import Elegance.Proofs.Generated
import Elegance.Proofs.Overwrites
import Elegance.Proofs.Transmitted
import Elegance.LargeValues
import Elegance.Proofs.LargeValues
import Elegance.Lib.Slots
import Elegance.MemoryPool
import Elegance.Proofs.MemoryPool
import Elegance.HandleNetTask
import Elegance.Proofs.HandleNetTask
import Elegance.SerializeManager
import Elegance.Proofs.SerializeManager
import Elegance.Listener
import Elegance.Proofs.Listener
import Elegance.Lib.LockOrder
import Elegance.RpcLocks
import Elegance.Proofs.RpcLocks
import Elegance.Lib.Sessions
import Elegance.NetworkThreads
import Elegance.Proofs.NetworkThreads
import Elegance.Proofs.NetIdPool
import Elegance.Proofs.NetCallbacks
import Elegance.SerializeThreads
import Elegance.Proofs.SerializeThreads
import Elegance.Lib.Handover
import Elegance.ThreadPool
import Elegance.Proofs.ThreadPool
import Elegance.Lib.Brackets
import Elegance.RpcSessions
import Elegance.Proofs.RpcSessions
import Elegance.Proofs.SessionActivity
import Elegance.Proofs.SessionBinding
import Elegance.Proofs.SessionEndpoint
import Elegance.Proofs.RpcPair
import Elegance.Lib.PartialWrite
import Elegance.Wires
import Elegance.Proofs.Wires
import Elegance.Proofs.SocketLoops
import Elegance.Proofs.SocketObjects
import Elegance.SendQueue
import Elegance.Proofs.SendQueue
import Elegance.Lib.CheckedInt
import Elegance.Random
import Elegance.Proofs.Random
import Elegance.ReceiveBuffer
import Elegance.Proofs.ReceiveBuffer
import Elegance.Signal
import Elegance.Proofs.Signal
import Elegance.Lib.Blocks
import Elegance.HeapBuffer
import Elegance.Proofs.HeapBuffer
import Elegance.MemoryPoolSizes
import Elegance.Proofs.MemoryPoolSizes
import Elegance.Lib.RecursiveMutex
import Elegance.MemoryPoolThreads
import Elegance.Proofs.MemoryPoolThreads
import Elegance.RpcLengths
import Elegance.Proofs.RpcLengths
import Elegance.RpcReads
import Elegance.Proofs.RpcReads
import Elegance.SerializeReads
import Elegance.Proofs.SerializeReads
import Elegance.Lib.Loop
import Elegance.Lib.Decimal
import Elegance.MysqlConnector
import Elegance.Proofs.MysqlConnector
import Elegance.Lib.Refinement
import Elegance.Lib.FramedStream
import Elegance.RpcStreams
import Elegance.Proofs.ByteLink
import Elegance.Proofs.RpcStreams
import Elegance.Thread
import Elegance.Proofs.Thread
import Elegance.Proofs.GetFreeThread
import Elegance.Proofs.WaitAllThread
import Elegance.Proofs.PoolProgress
import Elegance.Managers
import Elegance.Proofs.WireOwners
import Elegance.Proofs.Managers
import Elegance.Lib.Holders
import Elegance.TaskMemory
import Elegance.Proofs.TaskMemory
import Elegance.EventPool
import Elegance.Proofs.EventPool
import Elegance.Proofs.EventDrain
import Elegance.Proofs.EventStop
import Elegance.Lib.Client
import Elegance.ByteStore
import Elegance.Proofs.ByteStore
import Elegance.CompletionPort
import Elegance.Proofs.CompletionPort
