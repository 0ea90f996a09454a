import OtNode.Lib.Pool
import OtNode.Lib.Poll
import OtNode.Lib.Status
import OtNode.Lib.Threads
import OtNode.Lib.Posix
import OtNode.Lib.Utf
import OtNode.Lib.Json
import OtNode.Operation.Service
import OtNode.Operation.Machine
import OtNode.Operation.Polling
import OtNode.Operation.Simulation
import OtNode.Operation.Verdict
import OtNode.Operation.Publish
import OtNode.Operation.Ask
import OtNode.Operation.Get
import OtNode.Operation.Records
import OtNode.Operation.Signatures
import OtNode.Operation.Receiver
import OtNode.Finalization.Machine
import OtNode.Finalization.Store
import OtNode.Operation.Status
import OtNode.Executor.Retry
import OtNode.Executor.Reply
import OtNode.Network.Wire
import OtNode.Network.Inbound
import OtNode.Cache.Files
import OtNode.Cache.Interference
import OtNode.Listener.Events
import OtNode.Listener.Fetch
import OtNode.Listener.Dependent
import OtNode.Listener.Processed
import OtNode.Listener.Replace
import OtNode.Listener.Shared
import OtNode.Listener.Isolation
import OtNode.Lib.Table
import OtNode.Network.Sharding
import OtNode.Paranet.SyncList
import OtNode.Finalization.Acks
import OtNode.Migration.Assertions
import OtNode.Operation.FindShard
import OtNode.Operation.Update
import OtNode.TripleStore.NamedGraphs
import OtNode.Migration.Batches
import OtNode.Executor.Custody
import OtNode.Executor.Delay
import OtNode.Executor.Chains
import OtNode.Executor.Blocking
import OtNode.Lib.Align
import OtNode.TripleStore.PrivateGraphs
import OtNode.TripleStore.GraphInserts
import OtNode.TripleStore.Insertion
import OtNode.TripleStore.CanonicalOrder
import OtNode.TripleStore.Assertions
import OtNode.TripleStore.LocalGet
import OtNode.TripleStore.LocalMetadata
import OtNode.Lib.Number
import OtNode.Lib.Split
import OtNode.Ual.Grammar
import OtNode.Lib.Casing
import OtNode.Ual.RoundTrip
import OtNode.Lib.RoundRobin
import OtNode.Blockchain.Queues
import OtNode.Blockchain.Wallets
import OtNode.Network.Pull
import OtNode.Paranet.Repositories
import OtNode.Paranet.Identity
import OtNode.Lib.Replace
import OtNode.Query.Rewrite
import OtNode.Blockchain.Reverts
import OtNode.Query.Union
import OtNode.Lib.Decoder
import OtNode.TripleStore.Blazegraph
import OtNode.Lib.Sparql
import OtNode.Query.Federation
import OtNode.Lib.Runs
import OtNode.TripleStore.ConnectedGroups
import OtNode.Cache.PendingStorage
import OtNode.Modules.Registry
import OtNode.Cleaner.Archive
import OtNode.Paranet.Retries
import OtNode.Network.RateLimit
import OtNode.Network.Dialing
import OtNode.Network.Sessions
import OtNode.Migration.Termination
import OtNode.Lib.Network
import OtNode.Finalization.Protocol
import OtNode.Operation.StoreProtocol
import OtNode.Operation.GetResult
import OtNode.Operation.RemoteGet
import OtNode.Lib.JsonLines
import OtNode.Operation.SignatureStorage
import OtNode.Lib.Replay
import OtNode.Listener.Hub
import OtNode.Listener.Addresses
import OtNode.Listener.Losses
