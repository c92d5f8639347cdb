import MiniJam.Lib.Collections
import MiniJam.Lib.Footprint
import MiniJam.Lib.Balance
import MiniJam.Lib.KeyedQueue
import MiniJam.Lib.OnceRegistry
import MiniJam.Lib.Ballot
import MiniJam.Lib.Fungible
import MiniJam.Lib.Scale
import MiniJam.Lib.StakeBook
import MiniJam.Lib.Trace
import MiniJam.Lib.JobPool
import MiniJam.Lib.Tx
import MiniJam.Lib.LeastLoaded
import MiniJam.Lib.Watermark
import MiniJam.Lib.Framing
import MiniJam.Lib.Codec
import MiniJam.Lib.Updates
import MiniJam.Protocol.Executor
import MiniJam.Protocol.Types
import MiniJam.Protocol.Delta
import MiniJam.Runtime.Frame
import MiniJam.Workers.Storage
import MiniJam.Workers.Pallet
import MiniJam.Workers.Run
import MiniJam.Workers.Engine
import MiniJam.Jam.Storage
import MiniJam.Jam.Works
import MiniJam.Jam.Ingress
import MiniJam.Jam.Execution
import MiniJam.Jam.Tasks
import MiniJam.Runtime.Chain
import MiniJam.Proofs.Footprints
import MiniJam.Proofs.VirtualBlock
import MiniJam.Runtime.Config
import MiniJam.Runtime.Reference
import MiniJam.Lib.Result
import MiniJam.Proofs.BlockInput
import MiniJam.Proofs.Import
import MiniJam.Proofs.Atomicity
import MiniJam.Proofs.Eviction
import MiniJam.Proofs.ExecutedItems
import MiniJam.Proofs.Failure
import MiniJam.Proofs.BlockQueues
import MiniJam.Proofs.Admission
import MiniJam.Proofs.IngressSteps
import MiniJam.Proofs.QueueAccounts
import MiniJam.Proofs.QueueIndex
import MiniJam.Proofs.Quarantine
import MiniJam.Proofs.SystemBatch
import MiniJam.Proofs.Allocations
import MiniJam.Proofs.AllocationLedger
import MiniJam.Proofs.AllocationOnce
import MiniJam.Proofs.WorkerCalls
import MiniJam.Proofs.Rounds
import MiniJam.Proofs.WorkLife
import MiniJam.Proofs.WorkSteps
import MiniJam.Proofs.RoundHistory
import MiniJam.Proofs.Quorum
import MiniJam.Proofs.GasBudget
import MiniJam.Proofs.StakeMoves
import MiniJam.Proofs.Stake
import MiniJam.SystemService.Accumulate
import MiniJam.SystemService.Reads
import MiniJam.Proofs.Service0
import MiniJam.Proofs.VoteKeys
import MiniJam.Proofs.WorkBook
import MiniJam.Proofs.WorkMoves
import MiniJam.Proofs.WorkersRuns
import MiniJam.Proofs.RoundBook
import MiniJam.Proofs.Lifecycle
import MiniJam.Proofs.SingleRuns
import MiniJam.Proofs.Progress
import MiniJam.Proofs.Service0Runs
import MiniJam.Proofs.Service0Decode
import MiniJam.Proofs.Commitments
import MiniJam.Proofs.DeltaSemantics
import MiniJam.Proofs.Selection
import MiniJam.Proofs.InputOrder
import MiniJam.Proofs.Registry
import MiniJam.Proofs.WorkerMoves
import MiniJam.Proofs.Snapshot
import MiniJam.Proofs.Suspension
import MiniJam.Proofs.Duties
import MiniJam.Proofs.Finalization
import MiniJam.Proofs.Tally
import MiniJam.Proofs.VoteRewards
import MiniJam.Proofs.Unbonding
import MiniJam.Proofs.OpenVotings
import MiniJam.Lib.Async
import MiniJam.Lib.Monitor
import MiniJam.ChainClient.Client
import MiniJam.Proofs.ClientRules
import MiniJam.Proofs.ClientNonces
import MiniJam.Worker.Bundle
import MiniJam.Worker.Lanes
import MiniJam.Worker.Prepare
import MiniJam.Worker.Runner
import MiniJam.Worker.Reference
import MiniJam.Worker.Builder
import MiniJam.Proofs.Lanes
import MiniJam.Proofs.RefineVotes
import MiniJam.Proofs.BuiltPackages
import MiniJam.Lib.Fifo
import MiniJam.Lib.JamNatural
import MiniJam.Lib.ByteMemory
import MiniJam.Lib.Blake2
import MiniJam.Lib.Hex
import MiniJam.Sdk.HostBridge
import MiniJam.Sdk.Calls
import MiniJam.Sdk.Crypto
import MiniJam.ChainClient.Hex
import MiniJam.Proofs.Equivocations
import MiniJam.Proofs.HashDomains
import MiniJam.Proofs.SystemCommands
import MiniJam.Proofs.EngineRounds
import MiniJam.Proofs.BatchAssignment
import MiniJam.Proofs.ExecutionOrder
import MiniJam.Proofs.SdkNaturals
import MiniJam.Proofs.SdkHostCalls
import MiniJam.Proofs.SdkResults
import MiniJam.Proofs.SdkStorage
import MiniJam.Proofs.SdkCrypto
import MiniJam.Proofs.HexDecoders
import MiniJam.Worker.Recovery
import MiniJam.Worker.StateDb
import MiniJam.Proofs.Recovery
import MiniJam.Proofs.StateOverlay
import MiniJam.Lib.Escrow
import MiniJam.Bridge.Ledger
import MiniJam.Proofs.Bridge
import MiniJam.Bulletin.Store
import MiniJam.Bulletin.Concurrent
import MiniJam.Proofs.Bulletin
import MiniJam.Proofs.BulletinReceipts
import MiniJam.Lib.Log
import MiniJam.Proofs.WorkerPolls
import MiniJam.Proofs.Fuel
import MiniJam.Proofs.VotePool
