import Sybil.Engine.Settlement
import Sybil.Primitives

/-!
# The block witness

The data that the sequencer hands to the verifier after each block, and the
violations that the verifier reports.  A witness is plain data: nothing in it is
well formed before a pass has checked it, so the types carry no invariant and each
later theorem says which passes it relies on.

Identifiers, quantities and prices are naturals.  Amounts are integers, except
where the source stores an unsigned word.
-/

namespace Sybil.Verifier

open Engine

/-! ## Keys and authorizations -/

/-- A signing key of an account. -/
structure KeyRecord where
  authScheme : ℕ
  pubkeySec1 : FixedBytes 33
  capabilityMask : ℕ
  deriving DecidableEq

/-- The capability mask of an unrestricted key, `u32::MAX`. -/
def KeyRecord.fullCapabilityMask : ℕ := 4294967295

/-- A signature by one of the account's keys. -/
inductive KeyOpAuth where
  | rawP256 (signerPubkey : FixedBytes 33) (signature : FixedBytes 64)
  | webAuthn (signerPubkey : FixedBytes 33) (authenticatorData clientDataJson : Bytes)
      (signature : FixedBytes 64)
  deriving DecidableEq

namespace KeyOpAuth

/-- The key that claims to have signed. -/
def signerPubkey : KeyOpAuth → FixedBytes 33
  | rawP256 pubkey _ => pubkey
  | webAuthn pubkey _ _ _ => pubkey

/-- The scheme that the key must be registered for. -/
def signerAuthScheme : KeyOpAuth → ℕ
  | rawP256 _ _ => 0
  | webAuthn _ _ _ _ => 1

end KeyOpAuth

/-! ## Orders and rejections -/

/-- An accepted order with its owner. -/
structure WitnessOrder where
  order : Order
  accountId : ℕ
  isMm : Bool
  deriving DecidableEq

/-- Why an order was rejected. -/
inductive RejectionReason where
  | insufficientBalance (required available : ℤ)
  | insufficientPosition (market : MarketId) (outcome : ℕ) (required available : ℤ)
  | accountNotFound
  | completeSetFormation
  | atomicBundle
  | invalidOrder (reason : String)
  | expired (currentBlock expiresAtBlock : ℕ)
  deriving DecidableEq

/-- A rejected order with its owner. -/
structure WitnessRejection where
  order : Order
  accountId : ℕ
  reason : RejectionReason
  deriving DecidableEq

/-- The signed content of a market maker's bundle. -/
structure MmBundleTerms where
  orders : List Order
  orderSides : List MmSide
  maxCapital : Nanos
  deriving DecidableEq

/-- A signed client action. -/
inductive ClientActionWitness where
  | order (accountId : ℕ) (order : Order) (nonce : ℕ) (authorization : KeyOpAuth)
  | cancel (accountId orderId nonce : ℕ) (authorization : KeyOpAuth)
  | mmBundle (accountId : ℕ) (bundleId : Digest) (revision : ℕ) (terms : MmBundleTerms)
      (nonce : ℕ) (authorization : KeyOpAuth)
  | mmBundleReplace (accountId : ℕ) (bundleId : Digest) (expectedRevision newRevision : ℕ)
      (terms : MmBundleTerms) (nonce : ℕ) (authorization : KeyOpAuth)
  | mmBundleCancel (accountId : ℕ) (bundleId : Digest) (expectedRevision nonce : ℕ)
      (authorization : KeyOpAuth)
  deriving DecidableEq

/-! ## System events -/

/-- Why a withdrawal was refunded. -/
inductive WithdrawalRefundReasonWitness where
  | l1Cancelled
  | l1Expired (observedL1Height : ℕ)
  deriving DecidableEq

/-- Fields of a created withdrawal. -/
structure WithdrawalCreated where
  accountId : ℕ
  amount : ℤ
  withdrawalId : ℕ
  recipient : FixedBytes 20
  token : FixedBytes 20
  amountTokenUnits : ℕ
  expiryHeight : ℕ
  nullifier : Digest
  deriving DecidableEq

/-- A protocol-level event of a block, in the order in which it was applied. -/
inductive SystemEventWitness where
  | createAccount (accountId : ℕ) (initialBalance : ℤ) (initialKeys : List KeyRecord)
  | deposit (accountId : ℕ) (amount : ℤ)
  | l1Deposit (accountId : ℕ) (amount : ℤ) (depositId : ℕ) (depositRoot sybilAccountKey : Digest)
  | withdrawalCreated (w : WithdrawalCreated)
  | withdrawalRefunded (accountId withdrawalId : ℕ) (amount : ℤ)
      (reason : WithdrawalRefundReasonWitness)
  | withdrawalFinalized (accountId withdrawalId : ℕ) (amount : ℤ)
  | l1BlockObserved (height : ℕ)
  | marketResolved (marketId : MarketId) (payoutNanos : Nanos) (affectedAccounts : List ℕ)
  | orderCancelled (accountId orderId : ℕ) (marketIds : List MarketId) (side : OrderDirection)
      (remainingQuantity : ℕ)
  | marketGroupExtended (groupId : ℕ) (marketId : MarketId)
  | keyRegistered (accountId : ℕ) (key : KeyRecord) (authorization : KeyOpAuth)
  | keyRevoked (accountId : ℕ) (key : KeyRecord) (authorization : KeyOpAuth)
  | depositQuarantined (amount : ℤ) (depositId : ℕ) (depositRoot sybilAccountKey : Digest)
  | quarantineClaimed (accountId : ℕ) (amount : ℤ) (sybilAccountKey : Digest)
  | clientActionAuthorized (action : ClientActionWitness)
  deriving DecidableEq

/-! ## Deposits -/

/-- A deposit leaf of the L1 vault. -/
structure L1DepositWitness where
  depositId : ℕ
  chainId : ℕ
  vaultAddress : FixedBytes 20
  tokenAddress : FixedBytes 20
  sender : FixedBytes 20
  sybilAccountKey : Digest
  amountTokenUnits : ℕ
  depositRoot : Digest
  deriving DecidableEq

/-- The deposit tree frontier before the block, and the leaves appended by it. -/
structure DepositAccumulatorWitness where
  preFrontier : Vector Digest 32
  preCount : ℕ
  newDeposits : List L1DepositWitness
  deriving DecidableEq

/-! ## Account and sidecar snapshots -/

/-- A position entry: market, outcome, quantity. -/
abbrev PositionEntry := MarketId × ℕ × ℤ

/-- An account at a fixed point of the block. -/
structure AccountSnapshot where
  id : ℕ
  balance : ℤ
  totalDeposited : ℤ
  positions : List PositionEntry
  eventsDigest : Digest
  keysDigest : Digest
  lastTradingNonce : ℕ
  deriving DecidableEq

/-- Who resolved a market. -/
inductive OracleSourceSnapshot where
  | admin
  | dataFeed (id : ℕ)
  deriving DecidableEq

/-- The record of a resolution. -/
structure ResolutionRecordSnapshot where
  payoutNanos : Nanos
  resolvedBy : OracleSourceSnapshot
  resolvedAtMs : ℕ
  deriving DecidableEq

/-- Status of a market. -/
inductive MarketStatusSnapshot where
  | active
  | resolved (record : ResolutionRecordSnapshot)
  deriving DecidableEq

/-- A market of the committed state. -/
structure MarketSnapshot where
  marketId : MarketId
  name : String
  numOutcomes : ℕ
  status : MarketStatusSnapshot
  metadataDigest : Digest
  resolutionTemplate : String
  lastClearingPrices : List Nanos
  deriving DecidableEq

/-- A market group of the committed state. -/
structure MarketGroupSnapshot where
  groupId : ℕ
  name : String
  creationKey : Option String
  markets : List MarketId
  deriving DecidableEq

/-- Credit of a deposit whose account does not exist yet. -/
structure QuarantineEntrySnapshot where
  sybilAccountKey : Digest
  amount : ℤ
  deriving DecidableEq

/-- A pending withdrawal. -/
structure WithdrawalSnapshot where
  withdrawalId : ℕ
  accountId : ℕ
  recipient : FixedBytes 20
  token : FixedBytes 20
  amountTokenUnits : ℕ
  amountNanos : ℕ
  expiryHeight : ℕ
  nullifier : Digest
  deriving DecidableEq

/-- The bridge part of the committed state. -/
structure BridgeStateSnapshot where
  depositCursor : ℕ
  depositRoot : Digest
  observedL1Height : ℕ
  nextWithdrawalId : ℕ
  withdrawals : List WithdrawalSnapshot
  quarantine : List QuarantineEntrySnapshot
  deriving DecidableEq

/-- An order resting in the book, with what it reserves. -/
structure RestingOrderSnapshot where
  order : Order
  accountId : ℕ
  createdAt : ℕ
  expiresAtBlock : ℕ
  reservedBalance : ℤ
  reservedPositions : List PositionEntry
  deriving DecidableEq

/-- What the resting orders of an account reserve in total. -/
structure AccountReservationSnapshot where
  accountId : ℕ
  reservedBalance : ℤ
  reservedPositions : List PositionEntry
  deriving DecidableEq

/-- The committed state besides the accounts. -/
structure StateSidecarSnapshot where
  bridge : BridgeStateSnapshot
  markets : List MarketSnapshot
  marketGroups : List MarketGroupSnapshot
  restingOrders : List RestingOrderSnapshot
  accountReservations : List AccountReservationSnapshot
  deriving DecidableEq

/-! ## The witness -/

/-- A block header. -/
structure WitnessBlockHeader where
  height : ℕ
  parentHash : Digest
  stateRoot : Digest
  eventsRoot : Digest
  orderCount : ℕ
  fillCount : ℕ
  timestampMs : ℕ
  deriving DecidableEq

/-- Everything the verifier is given about one block. -/
structure BlockWitness where
  header : WitnessBlockHeader
  previousHeader : Option WitnessBlockHeader
  genesisHash : Digest
  orders : List WitnessOrder
  rejections : List WitnessRejection
  systemEvents : List SystemEventWitness
  depositAccumulator : DepositAccumulatorWitness
  fills : List Fill
  clearingPrices : OrdMap MarketId (List Nanos)
  totalWelfare : ℤ
  mintingCost : ℤ
  mmConstraints : List MmConstraint
  marketGroups : List MarketGroup
  preState : List AccountSnapshot
  postSystemState : List AccountSnapshot
  postState : List AccountSnapshot
  accountKeys : List (ℕ × List KeyRecord)
  stateSidecar : StateSidecarSnapshot
  preStateSidecar : StateSidecarSnapshot
  resolvedMarkets : List MarketId

/-! ## Violations -/

/-- What a pass can find wrong. -/
inductive ViolationKind where
  | orderNotFound
  | quantityExceedsMax
  | priceExceedsLimit
  | duplicateFill
  | negativeWelfare
  | welfareMismatch
  | mmBudgetExceeded
  | zeroQuantityFill
  | uniformClearingPriceViolation
  | priceComplementarityViolation
  | resolvedMarketViolation
  | duplicateOrderId
  | conditionalActivationViolation
  | negativeBalance
  | negativePosition
  | settlementBalanceMismatch
  | settlementPositionMismatch
  | settlementOverflow
  | fillAccountMismatch
  | settlementAccountMismatch
  | systemStateMismatch
  | keyTransitionMismatch
  | clientActionMismatch
  | mintingWithoutClearingPrice
  | stateRootMismatch
  | eventRootMismatch
  | parentHashMismatch
  | heightNotConsecutive
  | orderCountMismatch
  | fillCountMismatch
  | genesisParentHashNonZero
  | insufficientBalance
  | insufficientPosition
  | intraBatchDoubleSpend
  | acceptedOrderMissingAccount
  | orderExpiryViolation
  | invalidOrder
  | falseRejection
  | incorrectRejectionReason
  | sidecarReservationMismatch
  | sidecarRestingOrderMismatch
  | sidecarWithdrawalMismatch
  | sidecarDepositCursorMismatch
  | sidecarDepositRootMismatch
  | sidecarMarketStatusMismatch
  | sidecarMarketGroupMismatch
  | preStateRootMismatch
  deriving DecidableEq, Repr

/-- A reported violation. -/
structure Violation where
  kind : ViolationKind
  details : String
  deriving DecidableEq, Repr

/-- Debug text of a market id. -/
def dbgMarket (market : MarketId) : String := s!"MarketId({market})"

/-- Hexadecimal text of bytes. -/
def hex {n : ℕ} (b : FixedBytes n) : String :=
  String.ofList (b.toBytes.flatMap fun byte =>
    [Nat.digitChar (byte.toNat / 16), Nat.digitChar (byte.toNat % 16)])

end Sybil.Verifier
