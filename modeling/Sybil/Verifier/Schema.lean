import Sybil.Signing
import Sybil.Verifier.System

/-!
# Canonical bytes of state and events

The key/value leaves committed by the state root and the event leaves committed by
the events root.  Every list is sorted before it is written, so the bytes do not
depend on the order in which the host collected the data, and positions of quantity
zero are left out of the state.
-/

namespace Sybil.Verifier

open Engine

/-- Stable sort by a key. -/
def sortByKey {α K : Type} [LinearOrder K] (key : α → K) (l : List α) : List α :=
  l.mergeSort fun a b => decide (key a ≤ key b)

section SortByKey

variable {α K : Type} [LinearOrder K] {key : α → K} {l : List α}

theorem perm_sortByKey (key : α → K) (l : List α) : (sortByKey key l).Perm l :=
  List.mergeSort_perm l _

theorem pairwise_sortByKey (key : α → K) (l : List α) :
    (sortByKey key l).Pairwise fun a b => key a ≤ key b := by
  have hsorted := @List.pairwise_mergeSort α (fun a b => decide (key a ≤ key b))
    (fun a b c hab hbc => decide_eq_true ((of_decide_eq_true hab).trans (of_decide_eq_true hbc)))
    (fun a b => by simpa using le_total (key a) (key b)) l
  exact hsorted.imp fun h => of_decide_eq_true h

end SortByKey

/-! ## Fields -/

def appendString (value : String) : Bytes := leBytes 8 (utf8 value).length ++ utf8 value

def appendOptionalString : Option String → Bytes
  | some value => 1 :: appendString value
  | none => [0]

/-- An order with its id; unused slots are left out. -/
def appendOrder (order : Order) : Bytes :=
  leBytes 8 order.id ++ leBytes 1 order.numMarkets ++
    (order.markets.toList.take order.numMarkets).flatMap (leBytes 4) ++
    leBytes 1 order.numStates ++
    (order.payoffs.toList.take order.numStates).flatMap (leBytesInt 1) ++
    leBytes 8 order.limitPrice ++ leBytes 8 order.maxFill ++
    (match order.condition with
      | none => [0]
      | some condition =>
        1 :: (leBytes 4 condition.market ++ leBytes 8 condition.threshold ++
          [Signing.conditionDirByte condition.direction])) ++
    (match order.expiresAtBlock with
      | none => [0]
      | some expiresAtBlock => 1 :: leBytes 8 expiresAtBlock)

/-- Positions as the state root commits them: sorted, without zeros. -/
def appendStatePositions (positions : List PositionEntry) : Bytes :=
  let kept := (sortByKey (fun entry => toLex (entry.1, entry.2.1)) positions).filter
    fun entry => entry.2.2 ≠ 0
  leBytes 8 kept.length ++
    kept.flatMap fun entry => leBytes 4 entry.1 ++ leBytes 1 entry.2.1 ++ leBytesInt 8 entry.2.2

def appendOracleSource : OracleSourceSnapshot → Bytes
  | .admin => [0]
  | .dataFeed feedId => 1 :: leBytes 8 feedId

def appendMarketStatus : MarketStatusSnapshot → Bytes
  | .active => [0]
  | .resolved record =>
    1 :: (leBytes 8 record.payoutNanos ++ appendOracleSource record.resolvedBy ++
      leBytes 8 record.resolvedAtMs)

/-! ## State leaves -/

def accountLeafKey (accountId : ℕ) : Bytes := utf8 "acct/" ++ beBytes 8 accountId

def marketLeafKey (marketId : MarketId) : Bytes := utf8 "market/" ++ beBytes 4 marketId

def marketGroupLeafKey (groupId : ℕ) : Bytes := utf8 "market_group/" ++ beBytes 8 groupId

def withdrawalLeafKey (withdrawalId : ℕ) : Bytes := utf8 "withdrawal/" ++ beBytes 8 withdrawalId

def restingOrderLeafKey (orderId : ℕ) : Bytes := utf8 "order/" ++ beBytes 8 orderId

def accountReservationLeafKey (accountId : ℕ) : Bytes := utf8 "acct_resv/" ++ beBytes 8 accountId

def accountLeafValue (account : AccountSnapshot) : Bytes :=
  utf8 "sybil/state/acct" ++ leBytes 8 account.id ++ leBytesInt 8 account.balance ++
    leBytesInt 8 account.totalDeposited ++ appendStatePositions account.positions ++
    account.eventsDigest.toBytes ++ account.keysDigest.toBytes ++
    leBytes 8 account.lastTradingNonce

def sysU64LeafValue (name : String) (raw : ℕ) : Bytes :=
  utf8 "sybil/state/sys" ++ leBytes 1 (utf8 name).length ++ utf8 name ++ leBytes 8 raw

def sysBytes32LeafValue (name : String) (raw : Digest) : Bytes :=
  utf8 "sybil/state/sys" ++ leBytes 1 (utf8 name).length ++ utf8 name ++ raw.toBytes

def marketLeafValue (market : MarketSnapshot) : Bytes :=
  utf8 "sybil/state/market" ++ leBytes 4 market.marketId ++ appendString market.name ++
    leBytes 1 market.numOutcomes ++ appendMarketStatus market.status ++
    market.metadataDigest.toBytes ++ appendString market.resolutionTemplate ++
    leBytes 8 market.lastClearingPrices.length ++
    market.lastClearingPrices.flatMap (leBytes 8)

def marketGroupLeafValue (group : MarketGroupSnapshot) : Bytes :=
  utf8 "sybil/state/market-group" ++ leBytes 8 group.groupId ++ appendString group.name ++
    appendOptionalString group.creationKey ++ leBytes 8 group.markets.length ++
    (sortByKey id group.markets).flatMap (leBytes 4)

def withdrawalLeafValue (withdrawal : WithdrawalSnapshot) : Bytes :=
  utf8 "sybil/state/withdrawal" ++ leBytes 8 withdrawal.withdrawalId ++
    leBytes 8 withdrawal.accountId ++ withdrawal.recipient.toBytes ++ withdrawal.token.toBytes ++
    leBytes 8 withdrawal.amountTokenUnits ++ leBytes 8 withdrawal.amountNanos ++
    leBytes 8 withdrawal.expiryHeight ++ withdrawal.nullifier.toBytes

def restingOrderLeafValue (resting : RestingOrderSnapshot) : Bytes :=
  utf8 "sybil/state/order" ++ leBytes 8 resting.accountId ++ leBytes 8 resting.createdAt ++
    leBytes 8 resting.expiresAtBlock ++ leBytesInt 8 resting.reservedBalance ++
    appendStatePositions resting.reservedPositions ++ appendOrder resting.order

def accountReservationLeafValue (reservation : AccountReservationSnapshot) : Bytes :=
  utf8 "sybil/state/acct-resv" ++ leBytes 8 reservation.accountId ++
    leBytesInt 8 reservation.reservedBalance ++ appendStatePositions reservation.reservedPositions

/-- Digest of the whole quarantine ledger. -/
def quarantineLedgerDigest (P : Primitives) (entries : List QuarantineEntrySnapshot) : Digest :=
  P.sha256 (utf8 "sybil/state/deposit-quarantine-digest/v1" ++ leBytes 8 entries.length ++
    (sortByKey (fun entry => entry.sybilAccountKey) entries).flatMap fun entry =>
      entry.sybilAccountKey.toBytes ++ leBytesInt 8 entry.amount)

/-- The leaves committed by the state root, in key order. -/
def stateRootLeaves (P : Primitives) (accounts : List AccountSnapshot)
    (sidecar : StateSidecarSnapshot) : List (Bytes × Bytes) :=
  let leaves :=
    ((sortByKey (fun account => account.id) accounts).map fun account =>
      (accountLeafKey account.id, accountLeafValue account)) ++
    [(utf8 "sys/deposit_cursor", sysU64LeafValue "deposit_cursor" sidecar.bridge.depositCursor),
      (utf8 "sys/deposit_root", sysBytes32LeafValue "deposit_root" sidecar.bridge.depositRoot),
      (utf8 "sys/quarantine_digest", sysBytes32LeafValue "quarantine_digest"
        (quarantineLedgerDigest P sidecar.bridge.quarantine)),
      (utf8 "sys/observed_l1_height",
        sysU64LeafValue "observed_l1_height" sidecar.bridge.observedL1Height),
      (utf8 "sys/next_withdrawal_id",
        sysU64LeafValue "next_withdrawal_id" sidecar.bridge.nextWithdrawalId)] ++
    ((sortByKey (fun market => market.marketId) sidecar.markets).map fun market =>
      (marketLeafKey market.marketId, marketLeafValue market)) ++
    ((sortByKey (fun group => group.groupId) sidecar.marketGroups).map fun group =>
      (marketGroupLeafKey group.groupId, marketGroupLeafValue group)) ++
    ((sortByKey (fun withdrawal => withdrawal.withdrawalId) sidecar.bridge.withdrawals).map
      fun withdrawal =>
        (withdrawalLeafKey withdrawal.withdrawalId, withdrawalLeafValue withdrawal)) ++
    ((sortByKey (fun resting => resting.order.id) sidecar.restingOrders).map fun resting =>
      (restingOrderLeafKey resting.order.id, restingOrderLeafValue resting)) ++
    ((sortByKey (fun reservation => reservation.accountId) sidecar.accountReservations).map
      fun reservation =>
        (accountReservationLeafKey reservation.accountId,
          accountReservationLeafValue reservation))
  leaves.mergeSort fun left right => decide (left.1 ≤ right.1)

/-! ## Event leaves -/

def appendKeyRecord (key : KeyRecord) : Bytes :=
  leBytes 1 key.authScheme ++ key.pubkeySec1.toBytes ++ leBytes 4 key.capabilityMask

def appendKeyRecords (keys : List KeyRecord) : Bytes :=
  leBytes 8 keys.length ++ (sortByKey KeyRecord.canonicalSortKey keys).flatMap appendKeyRecord

def appendKeyOpAuth : KeyOpAuth → Bytes
  | .rawP256 signerPubkey signature => 0 :: (signerPubkey.toBytes ++ signature.toBytes)
  | .webAuthn signerPubkey authenticatorData clientDataJson signature =>
    1 :: (signerPubkey.toBytes ++ leBytes 8 authenticatorData.length ++ authenticatorData ++
      leBytes 8 clientDataJson.length ++ clientDataJson ++ signature.toBytes)

/-- Orders, sides and budget of a bundle. -/
def appendMmBundleTerms (terms : MmBundleTerms) : Bytes :=
  leBytes 8 terms.orders.length ++ terms.orders.flatMap appendOrder ++
    leBytes 8 terms.orderSides.length ++ terms.orderSides.map Signing.mmSideByte ++
    leBytes 8 terms.maxCapital

def appendClientAction : ClientActionWitness → Bytes
  | .order accountId order nonce authorization =>
    0 :: (leBytes 8 accountId ++ appendOrder order ++ leBytes 8 nonce ++
      appendKeyOpAuth authorization)
  | .cancel accountId orderId nonce authorization =>
    1 :: (leBytes 8 accountId ++ leBytes 8 orderId ++ leBytes 8 nonce ++
      appendKeyOpAuth authorization)
  | .mmBundle accountId bundleId revision terms nonce authorization =>
    2 :: (leBytes 8 accountId ++ bundleId.toBytes ++ leBytes 8 revision ++
      appendMmBundleTerms terms ++ leBytes 8 nonce ++ appendKeyOpAuth authorization)
  | .mmBundleReplace accountId bundleId expectedRevision newRevision terms nonce
      authorization =>
    3 :: (leBytes 8 accountId ++ bundleId.toBytes ++ leBytes 8 expectedRevision ++
      leBytes 8 newRevision ++ appendMmBundleTerms terms ++ leBytes 8 nonce ++
      appendKeyOpAuth authorization)
  | .mmBundleCancel accountId bundleId expectedRevision nonce authorization =>
    4 :: (leBytes 8 accountId ++ bundleId.toBytes ++ leBytes 8 expectedRevision ++
      leBytes 8 nonce ++ appendKeyOpAuth authorization)

def appendRefundReason : WithdrawalRefundReasonWitness → Bytes
  | .l1Cancelled => [0]
  | .l1Expired observedL1Height => 1 :: leBytes 8 observedL1Height

/-- Tag and fields of a system event. -/
def appendSystemEvent : SystemEventWitness → Bytes
  | .createAccount accountId initialBalance initialKeys =>
    0 :: (leBytes 8 accountId ++ leBytesInt 8 initialBalance ++ appendKeyRecords initialKeys)
  | .deposit accountId amount => 1 :: (leBytes 8 accountId ++ leBytesInt 8 amount)
  | .l1Deposit accountId amount depositId depositRoot sybilAccountKey =>
    2 :: (leBytes 8 accountId ++ leBytesInt 8 amount ++ leBytes 8 depositId ++
      depositRoot.toBytes ++ sybilAccountKey.toBytes)
  | .withdrawalCreated w =>
    3 :: (leBytes 8 w.accountId ++ leBytesInt 8 w.amount ++ leBytes 8 w.withdrawalId ++
      w.recipient.toBytes ++ w.token.toBytes ++ leBytes 8 w.amountTokenUnits ++
      leBytes 8 w.expiryHeight ++ w.nullifier.toBytes)
  | .marketResolved marketId payoutNanos affectedAccounts =>
    4 :: (leBytes 4 marketId ++ leBytes 8 payoutNanos ++ leBytes 8 affectedAccounts.length ++
      (sortByKey id affectedAccounts).flatMap (leBytes 8))
  | .orderCancelled accountId orderId marketIds side remainingQuantity =>
    5 :: (leBytes 8 accountId ++ leBytes 8 orderId ++ leBytes 8 marketIds.length ++
      (sortByKey id marketIds).flatMap (leBytes 4) ++ leBytes 1 side.toByte ++
      leBytes 8 remainingQuantity)
  | .marketGroupExtended groupId marketId => 6 :: (leBytes 8 groupId ++ leBytes 4 marketId)
  | .withdrawalRefunded accountId withdrawalId amount reason =>
    7 :: (leBytes 8 accountId ++ leBytes 8 withdrawalId ++ leBytesInt 8 amount ++
      appendRefundReason reason)
  | .withdrawalFinalized accountId withdrawalId amount =>
    8 :: (leBytes 8 accountId ++ leBytes 8 withdrawalId ++ leBytesInt 8 amount)
  | .l1BlockObserved height => 9 :: leBytes 8 height
  | .keyRegistered accountId key authorization =>
    10 :: (leBytes 8 accountId ++ appendKeyRecord key ++ appendKeyOpAuth authorization)
  | .keyRevoked accountId key authorization =>
    11 :: (leBytes 8 accountId ++ appendKeyRecord key ++ appendKeyOpAuth authorization)
  | .depositQuarantined amount depositId depositRoot sybilAccountKey =>
    12 :: (leBytesInt 8 amount ++ leBytes 8 depositId ++ depositRoot.toBytes ++
      sybilAccountKey.toBytes)
  | .quarantineClaimed accountId amount sybilAccountKey =>
    13 :: (leBytes 8 accountId ++ leBytesInt 8 amount ++ sybilAccountKey.toBytes)
  | .clientActionAuthorized action => 14 :: appendClientAction action

def systemEventLeafValue (event : SystemEventWitness) : Bytes :=
  utf8 "sybil/event/system" ++ appendSystemEvent event

def orderAcceptedLeafValue (event : WitnessOrder) : Bytes :=
  utf8 "sybil/event/order-accepted" ++ leBytes 8 event.accountId ++
    [if event.isMm then 1 else 0] ++ appendOrder event.order

def appendRejectionReason : RejectionReason → Bytes
  | .insufficientBalance required available =>
    0 :: (leBytesInt 8 required ++ leBytesInt 8 available)
  | .insufficientPosition market outcome required available =>
    1 :: (leBytes 4 market ++ leBytes 1 outcome ++ leBytesInt 8 required ++
      leBytesInt 8 available)
  | .accountNotFound => [2]
  | .completeSetFormation => [3]
  | .atomicBundle => [6]
  | .invalidOrder reason => 5 :: (leBytes 4 (utf8 reason).length ++ utf8 reason)
  | .expired currentBlock expiresAtBlock =>
    4 :: (leBytes 8 currentBlock ++ leBytes 8 expiresAtBlock)

def orderRejectedLeafValue (event : WitnessRejection) : Bytes :=
  utf8 "sybil/event/order-rejected" ++ leBytes 8 event.accountId ++ appendOrder event.order ++
    appendRejectionReason event.reason

def fillLeafValue (fill : Fill) : Bytes :=
  utf8 "sybil/event/fill" ++ leBytes 8 fill.orderId ++ leBytes 8 fill.fillQty ++
    leBytes 8 fill.fillPrice ++ leBytes 8 fill.accountId

/-- The leaves committed by the events root: system events, accepted orders, rejections, fills. -/
def eventLeafValues (w : BlockWitness) : List Bytes :=
  w.systemEvents.map systemEventLeafValue ++ w.orders.map orderAcceptedLeafValue ++
    w.rejections.map orderRejectedLeafValue ++ w.fills.map fillLeafValue

end Sybil.Verifier
