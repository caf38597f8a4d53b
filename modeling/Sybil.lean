import Sybil.Lib.OrdMap
import Sybil.Lib.Report
import Sybil.Lib.Machine
import Sybil.Lib.Holdings
import Sybil.Lib.WorstCase
import Sybil.Lib.Sums
import Sybil.Primitives
import Sybil.L1Protocol
import Sybil.Engine.Types
import Sybil.Engine.Order
import Sybil.Engine.Settlement
import Sybil.Engine.Welfare
import Sybil.Sequencer.Settlement
import Sybil.Sequencer.BatchConservation
import Sybil.Verifier.Types
import Sybil.Signing
import Sybil.Verifier.Match
import Sybil.Verifier.System
import Sybil.Verifier.ClientAction
import Sybil.Verifier.KeyTransition
import Sybil.Verifier.Settlement
import Sybil.Verifier.Schema
import Sybil.Verifier.Block
import Sybil.Verifier.Orders
import Sybil.Verifier.Quarantine
import Sybil.Verifier.Sidecar.RestingOrders
import Sybil.Verifier.Sidecar.Bridge
import Sybil.Verifier.Sidecar.Markets
import Sybil.Verifier.Full
import Sybil.Verifier.SettlementEffects
import Sybil.Verifier.SystemEffects
import Sybil.Verifier.Completeness
import Sybil.Verifier.MintExposure
import Sybil.Verifier.ClientIntent
import Sybil.Verifier.RestingTerms
import Sybil.Lib.Run
import Sybil.Lib.Attempts
import Sybil.Lib.Logs
import Sybil.Lib.Merkle
import Sybil.Lib.HashBinding
import Sybil.Lib.MountainRange
import Sybil.Lib.CyclicOrder
import Sybil.Contracts.Vault
import Sybil.Contracts.VaultContract
import Sybil.Contracts.VaultRuns
import Sybil.Bridge.DepositTree
import Sybil.Sequencer.Bridge
import Sybil.Bridge.SinglePayment
import Sybil.Bridge.WithdrawalLife
import Sybil.Verifier.WithdrawalLedger
import Sybil.Bridge.ValueBinding
import Sybil.Verifier.Solvency
import Sybil.Verifier.ResolutionPayout
import Sybil.Verifier.Chain
import Sybil.Verifier.ResolutionFinality
import Sybil.Verifier.ResolvedTrading
import Sybil.Verifier.SettledState
import Sybil.Verifier.QuarantineLedger
import Sybil.Verifier.Universe
import Sybil.Sequencer.Validation
import Sybil.Sequencer.OrderBook
import Sybil.Sequencer.Restore
import Sybil.Verifier.NewResting
import Sybil.Verifier.Rejections
import Sybil.Verifier.KeySoundness
import Sybil.Verifier.MakerCapital
import Sybil.Verifier.KeyMigration
import Sybil.Lib.Tally
import Sybil.Sequencer.Reservations
import Sybil.Sequencer.BookReplay
import Sybil.Sequencer.BookRuns
import Sybil.Sequencer.Eviction
import Sybil.Sequencer.Admission
import Sybil.Sequencer.Production
import Sybil.Sequencer.Snapshots
import Sybil.Sequencer.RejectionRecords
import Sybil.Sequencer.OrderAccounting
import Sybil.Sequencer.SettlementReplay
import Sybil.Sequencer.ResolutionValue
import Sybil.Sequencer.Coverage
import Sybil.Sequencer.HonestWitness
import Sybil.Zk.Qmdb
import Sybil.Zk.RootBinding
import Sybil.Zk.Positions
import Sybil.Zk.OperationBinding
import Sybil.Zk.EventsRoot
import Sybil.Zk.Guest
import Sybil.Zk.Deposits
import Sybil.Zk.DepositBlocks
import Sybil.Zk.Epoch
import Sybil.Zk.NativeAgreement
import Sybil.Zk.DepositChain
import Sybil.Lib.FromBytes
import Sybil.Bridge.AbiCodec
import Sybil.Lib.SelfDelimiting
import Sybil.Signing.Messages
import Sybil.Lib.ByteOrder
import Sybil.Zk.KeyspaceCoverage
import Sybil.Lib.BinarySearch
import Sybil.Lib.CutDown
import Sybil.Lib.FoldFrames
import Sybil.Solver.Trim
import Sybil.Solver.Repair
import Sybil.Solver.Minting
import Sybil.Solver.Problem
import Sybil.Solver.SupportingPrices
