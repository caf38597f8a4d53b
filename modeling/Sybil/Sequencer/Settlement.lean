import Sybil.Engine.Settlement
import Sybil.Lib.Holdings
import Sybil.Primitives

/-!
# Settlement of a batch in the sequencer

The account store, the settlement of a list of fills and the application of the
MINT adjustments.  The workspace builds with overflow checks in every profile, so
an `i64` addition that leaves its range stops the process: such an operation
returns `none` here, and `some` means that no arithmetic overflowed.

Hash maps are iterated in key order.  The order is visible in the source only
through intermediate overflow.
-/

namespace Sybil.Sequencer

open Engine

/-- Key of a position: market, then outcome. -/
abbrev PositionKey := MarketId ×ₗ ℕ

/-- An account.  Profile, API keys and nonces play no part in settlement. -/
structure Account where
  id : ℕ
  balance : ℤ
  positions : OrdMap PositionKey ℤ
  totalDeposited : ℤ
  eventsDigest : Digest
  deriving DecidableEq

/-- The reserved account that holds the protocol's counterparty positions, `u64::MAX`. -/
def AccountId.mint : ℕ := 18446744073709551615

/-- The accounts of the sequencer. -/
structure AccountStore where
  accounts : OrdMap ℕ Account
  nextId : ℕ
  deriving DecidableEq

namespace Account

/-- A position; zero when there is none. -/
def position (a : Account) (market : MarketId) (outcome : ℕ) : ℤ :=
  a.positions.amount (toLex (market, outcome))

/-- `account.balance += delta`. -/
def addBalance (a : Account) (delta : ℤ) : Option Account :=
  (checkedI64 (a.balance + delta)).map fun balance => { a with balance }

/-- `*account.positions.entry((market, outcome)).or_insert(0) += delta`. -/
def addPosition (a : Account) (market : MarketId) (outcome : ℕ) (delta : ℤ) : Option Account :=
  (checkedI64 (a.position market outcome + delta)).map fun qty =>
    { a with positions := a.positions.insert (toLex (market, outcome)) qty }

theorem addBalance_eq_some {a a' : Account} {delta : ℤ} (h : a.addBalance delta = some a') :
    a' = { a with balance := a.balance + delta } := by
  obtain ⟨b, hb, rfl⟩ := Option.map_eq_some_iff.mp h
  rw [(checkedI64_eq_some_iff.mp hb).2]

theorem addPosition_eq_some {a a' : Account} {market outcome : ℕ} {delta : ℤ}
    (h : a.addPosition market outcome delta = some a') :
    a' = { a with
      positions := a.positions.insert (toLex (market, outcome))
        (a.position market outcome + delta) } := by
  obtain ⟨q, hq, rfl⟩ := Option.map_eq_some_iff.mp h
  rw [(checkedI64_eq_some_iff.mp hq).2]

end Account

/-! ## Event digests -/

/-- Chain an event into a digest. -/
def updateDigest (P : Primitives) (current : Digest) (eventBytes : Bytes) : Digest :=
  P.blake3 (current.toBytes ++ eventBytes)

/-- Digest bytes of a fill. -/
def encodeFillEvent (orderId fillQty fillPrice blockHeight : ℕ) : Bytes :=
  0x01 :: (leBytes 8 orderId ++ leBytes 8 fillQty ++ leBytes 8 fillPrice ++ leBytes 8 blockHeight)

/-- Digest bytes of the adjustments of a block. -/
def encodeMintEvent (adjustments : List MintAdjustment) (blockHeight : ℕ) : Bytes :=
  0x05 :: (leBytes 8 adjustments.length ++
    (adjustments.flatMap fun adj =>
      leBytes 4 adj.marketId ++ leBytes 1 adj.outcome ++ leBytesInt 8 adj.positionDelta ++
        leBytesInt 8 adj.balanceDelta) ++
    leBytes 8 blockHeight)

/-! ## Fills -/

/-- Why a fill could not be settled. -/
inductive UnsettleableFillReason where
  | missingOrder
  | missingAccount
  | settlementOverflow
  deriving DecidableEq

/-- A fill that the batch skipped. -/
structure UnsettleableFill where
  orderId : ℕ
  accountId : ℕ
  reason : UnsettleableFillReason
  deriving DecidableEq

/-- What the settlement loop carries. -/
structure BatchState where
  accounts : AccountStore
  failures : List UnsettleableFill
  /-- The position changes that were applied. -/
  positionDeltas : List (MarketId × ℕ × ℤ)
  deriving DecidableEq

/-- Apply a settlement delta to an account. -/
def applyDelta (account : Account) (delta : SettlementDelta) : Option Account := do
  let account ← account.addBalance delta.balanceDelta
  delta.positionDeltas.foldlM (fun a d => a.addPosition d.1 d.2.1 d.2.2) account

/-- Settle one fill of a batch; a fill that cannot be settled is recorded and skipped. -/
def settleBatchStep (P : Primitives) (orderMap : OrdMap ℕ Order) (blockHeight : ℕ)
    (st : BatchState) (fill : Fill) : Option BatchState :=
  let fail (reason : UnsettleableFillReason) : BatchState :=
    { st with failures := st.failures ++ [⟨fill.orderId, fill.accountId, reason⟩] }
  if fill.fillQty = 0 then some st
  else
    match orderMap.get? fill.orderId with
    | none => some (fail .missingOrder)
    | some order =>
      match st.accounts.accounts.get? fill.accountId with
      | none => some (fail .missingAccount)
      | some account =>
        match computeFillSettlement order fill with
        | none => some (fail .settlementOverflow)
        | some delta =>
          (applyDelta account delta).map fun account =>
            let event := encodeFillEvent fill.orderId fill.fillQty fill.fillPrice blockHeight
            let account :=
              { account with eventsDigest := updateDigest P account.eventsDigest event }
            { st with
              accounts := { st.accounts with
                accounts := st.accounts.accounts.insert fill.accountId account }
              positionDeltas := st.positionDeltas ++ delta.positionDeltas }

/-- The orders of a batch by id. -/
def orderMapOf (orders : List Order) : OrdMap ℕ Order :=
  OrdMap.ofList (orders.map fun o => (o.id, o))

/-- Settle a batch and return the position changes that were applied. -/
def settleBatchWithPositionDeltas (P : Primitives) (accounts : AccountStore) (fills : List Fill)
    (orders : List Order) (blockHeight : ℕ) : Option BatchState :=
  fills.foldlM (settleBatchStep P (orderMapOf orders) blockHeight) ⟨accounts, [], []⟩

/-! ## Minting -/

/-- Apply one adjustment to the MINT account. -/
def applyAdjustment (mint : Account) (adj : MintAdjustment) : Option Account := do
  let mint ← mint.addPosition adj.marketId adj.outcome adj.positionDelta
  mint.addBalance adj.balanceDelta

/-- Apply the adjustments of a block to the MINT account. -/
def applyMinting (P : Primitives) (mint : Account) (adjustments : List MintAdjustment)
    (blockHeight : ℕ) : Option Account :=
  (adjustments.foldlM applyAdjustment mint).map fun mint =>
    if adjustments.isEmpty then mint
    else { mint with
      eventsDigest := updateDigest P mint.eventsDigest (encodeMintEvent adjustments blockHeight) }

/-! ## Aggregates over all accounts -/

/-- Totals over the account store. -/
structure AccountAggregates where
  totalBalance : ℤ
  marketPositionTotals : OrdMap MarketId (ℤ × ℤ)
  negativeBalances : List (ℕ × ℤ)
  deriving DecidableEq

namespace AccountAggregates

/-- Nothing observed yet. -/
def default : AccountAggregates := ⟨0, ∅, []⟩

/-- Totals of a market; zero when it was not observed. -/
def totalsFor (agg : AccountAggregates) (market : MarketId) : ℤ × ℤ :=
  (agg.marketPositionTotals.get? market).getD (0, 0)

/-- Add a position change to the totals; outcomes other than YES and NO only create the entry. -/
def applyPositionDelta (agg : AccountAggregates) (market : MarketId) (outcome : ℕ)
    (qtyDelta : ℤ) : Option AccountAggregates :=
  let entry := agg.totalsFor market
  let updated :=
    match outcome with
    | 0 => (checkedI64 (entry.1 + qtyDelta)).map fun yes => (yes, entry.2)
    | 1 => (checkedI64 (entry.2 + qtyDelta)).map fun no => (entry.1, no)
    | _ => some entry
  updated.map fun entry =>
    { agg with marketPositionTotals := agg.marketPositionTotals.insert market entry }

/-- Add a list of position changes to the totals. -/
def applyPositionDeltas (agg : AccountAggregates) (deltas : List (MarketId × ℕ × ℤ)) :
    Option AccountAggregates :=
  deltas.foldlM (fun agg d => agg.applyPositionDelta d.1 d.2.1 d.2.2) agg

/-- Add one position of an account to the totals. -/
def observePosition (agg : AccountAggregates) (p : PositionKey × ℤ) : Option AccountAggregates :=
  if p.2 = 0 then some agg else agg.applyPositionDelta (ofLex p.1).1 (ofLex p.1).2 p.2

/-- Add an account to the aggregates. -/
def observeAccount (agg : AccountAggregates) (entry : ℕ × Account) :
    Option AccountAggregates := do
  let (accountId, account) := entry
  let totalBalance ← checkedI64 (agg.totalBalance + account.balance)
  let negativeBalances :=
    if accountId ≠ AccountId.mint ∧ account.balance < 0 then
      agg.negativeBalances ++ [(accountId, account.balance)]
    else agg.negativeBalances
  account.positions.entries.foldlM observePosition { agg with totalBalance, negativeBalances }

/-- Aggregate an account store. -/
def fromAccounts (accounts : AccountStore) : Option AccountAggregates :=
  accounts.accounts.entries.foldlM observeAccount default

/-- Per-market totals, in market order. -/
def mintingInputs (agg : AccountAggregates) : List (MarketId × ℤ × ℤ) :=
  agg.marketPositionTotals.entries

end AccountAggregates

/-! ## The settlement half of block finalization -/

/-- Accounts and adjustments after a batch was settled and minted. -/
structure FinalizedSettlement where
  accounts : AccountStore
  failures : List UnsettleableFill
  /-- The post-fill totals from which the adjustments were derived. -/
  marketTotals : List (MarketId × ℤ × ℤ)
  mintAdjustments : List MintAdjustment
  deriving DecidableEq

/-- Apply the adjustments to the store; the MINT account must exist when there are any. -/
def mintInto (P : Primitives) (store : AccountStore) (adjustments : List MintAdjustment)
    (blockHeight : ℕ) : Option AccountStore :=
  if adjustments.isEmpty then some store
  else do
    let mint ← store.accounts.get? AccountId.mint
    let mint ← applyMinting P mint adjustments blockHeight
    pure { store with accounts := store.accounts.insert AccountId.mint mint }

/-- `settle_batch`, then `derive_minting` on the post-fill totals, then `apply_minting`.  The
totals are those before the batch advanced by the applied position changes. -/
def finalizeSettlement (P : Primitives) (accounts : AccountStore) (fills : List Fill)
    (orders : List Order) (clearingPrices : OrdMap MarketId (List Nanos)) (blockHeight : ℕ) :
    Option FinalizedSettlement := do
  let preAggregates ← AccountAggregates.fromAccounts accounts
  let batch ← settleBatchWithPositionDeltas P accounts fills orders blockHeight
  let aggregates ← preAggregates.applyPositionDeltas batch.positionDeltas
  let mintAdjustments := deriveMinting clearingPrices aggregates.mintingInputs
  let accounts ← mintInto P batch.accounts mintAdjustments blockHeight
  pure
    { accounts, failures := batch.failures, marketTotals := aggregates.mintingInputs,
      mintAdjustments }

end Sybil.Sequencer
