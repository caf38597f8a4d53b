import Sybil.Lib.Holdings
import Sybil.Verifier.System

/-!
# Layer 2: settlement

The verifier derives the post-state from the post-system state and the fills, with
the settlement functions of the matching engine, and compares it with the claimed
post-state.

Hash maps are iterated in key order.  The order is visible in the source only in
the order of the reports and in which partial sum of a market total overflows.
-/

namespace Sybil.Verifier

open Engine

/-- Id of the reserved account that takes the other side of minted shares, `u64::MAX`. -/
def mintId : ℕ := 18446744073709551615

/-- An account while the post-state is derived. -/
structure DerivedAccountState where
  balance : ℤ
  totalDeposited : ℤ
  positions : Positions
  eventsDigest : Digest
  lastTradingNonce : ℕ
  deriving DecidableEq

namespace DerivedAccountState

/-- The account that a fill creates. -/
def default : DerivedAccountState := ⟨0, 0, ∅, 0, 0⟩

end DerivedAccountState

/-- Position entries as a map; the last entry of an outcome counts. -/
def positionsOf (entries : List PositionEntry) : Positions :=
  OrdMap.ofList (entries.map fun entry => (toLex (entry.1, entry.2.1), entry.2.2))

/-- A snapshot as a working account. -/
def derivedOf (snapshot : AccountSnapshot) : DerivedAccountState where
  balance := snapshot.balance
  totalDeposited := snapshot.totalDeposited
  positions := positionsOf snapshot.positions
  eventsDigest := snapshot.eventsDigest
  lastTradingNonce := snapshot.lastTradingNonce

/-- Working accounts by id. -/
abbrev DerivedAccounts := OrdMap ℕ DerivedAccountState

/-- The working accounts before the first fill. -/
def startAccounts (snapshots : List AccountSnapshot) : DerivedAccounts :=
  OrdMap.ofList (snapshots.map fun snapshot => (snapshot.id, derivedOf snapshot))

/-- The account of an id, created when it is absent. -/
def entryOrDefault (accounts : DerivedAccounts) (accountId : ℕ) : DerivedAccountState :=
  (accounts.get? accountId).getD .default

/-- Report an overflow. -/
def overflow (details : String) : Violation := ⟨.settlementOverflow, details⟩

/-! ## Fills -/

/-- Digest bytes of a fill. -/
def encodeFillEvent (orderId fillQty fillPrice blockHeight : ℕ) : Bytes :=
  0x01 :: (leBytes 8 orderId ++ leBytes 8 fillQty ++ leBytes 8 fillPrice ++ leBytes 8 blockHeight)

/-- What the settlement loop carries. -/
structure FillSettlement where
  accounts : DerivedAccounts
  fillBalanceDelta : ℤ

/-- Add one position change. -/
def addPositionStep (accountId : ℕ) (positions : Positions) (delta : MarketId × ℕ × ℤ) :
    Positions × List Violation :=
  let key := toLex (delta.1, delta.2.1)
  match checkedI64 (positions.amount key + delta.2.2) with
  | none =>
    (positions.insert key (positions.amount key),
      [overflow
        (s!"Account {accountId} market {dbgMarket delta.1} outcome {delta.2.1}: position " ++
        s!"{positions.amount key} + delta {delta.2.2} overflowed")])
  | some updated => (positions.insert key updated, [])

/-- Apply the settlement of a fill to the account that is charged for it. -/
def settleDelta (P : Primitives) (blockHeight : ℕ) (accountId : ℕ) (st : FillSettlement)
    (fill : Fill) (delta : SettlementDelta) : FillSettlement × List Violation :=
  let account := entryOrDefault st.accounts accountId
  match checkedI64 (st.fillBalanceDelta + delta.balanceDelta) with
  | none =>
    ({ st with accounts := st.accounts.insert accountId account },
      [overflow s!"Order {fill.orderId}: accumulated fill balance delta overflowed"])
  | some fillBalanceDelta =>
    match checkedI64 (account.balance + delta.balanceDelta) with
    | none =>
      ({ accounts := st.accounts.insert accountId account, fillBalanceDelta },
        [overflow (s!"Account {accountId}: balance {account.balance} + delta " ++
          s!"{delta.balanceDelta} overflowed")])
    | some balance =>
      let run := reportLoop (addPositionStep accountId) account.positions delta.positionDeltas
      let event := encodeFillEvent fill.orderId fill.fillQty fill.fillPrice blockHeight
      ({ accounts := st.accounts.insert accountId
          { account with
            balance
            positions := run.1
            eventsDigest := updateDigest P account.eventsDigest event }
         fillBalanceDelta }, run.2)

/-- Debug text of a settlement error. -/
def dbgSettlementError : SettlementArithmeticError → String
  | .priceQuantityOverflow => "PriceQuantityOverflow"
  | .positionQuantityOverflow => "PositionQuantityOverflow"
  | .balanceOverflow => "BalanceOverflow"

/-- The account that a fill is charged to: the fill's own, or that of the order. -/
def chargedAccount (wo : WitnessOrder) (fill : Fill) : ℕ :=
  if fill.accountId ≠ 0 then fill.accountId else wo.accountId

/-- Settle a fill of a known order. -/
def settleOrderFill (P : Primitives) (blockHeight : ℕ) (wo : WitnessOrder) (st : FillSettlement)
    (fill : Fill) : FillSettlement × List Violation :=
  let accountId := chargedAccount wo fill
  if nanosPerDollar < wo.order.limitPrice then
    (st, [overflow (s!"Order {wo.order.id}: limit_price {wo.order.limitPrice} exceeds " ++
      s!"NANOS_PER_DOLLAR {nanosPerDollar}")])
  else if nanosPerDollar < fill.fillPrice then
    (st, [overflow (s!"Order {fill.orderId}: fill_price {fill.fillPrice} exceeds " ++
      s!"NANOS_PER_DOLLAR {nanosPerDollar}")])
  else
    let opened :=
      { st with accounts := st.accounts.insert accountId (entryOrDefault st.accounts accountId) }
    match computeFillSettlementChecked wo.order fill with
    | .ok (some delta) => settleDelta P blockHeight accountId st fill delta
    | .ok none => (opened, [])
    | .error error =>
      (opened, [overflow (s!"Order {fill.orderId}: settlement arithmetic overflow: " ++
        dbgSettlementError error)])

/-- The fill names the account of its order, or none. -/
def fillAccountViolations (wo : WitnessOrder) (fill : Fill) : List Violation :=
  reportIf (fill.accountId ≠ 0 ∧ fill.accountId ≠ wo.accountId)
    ⟨.fillAccountMismatch, s!"Order {fill.orderId}: fill account {fill.accountId} != witness " ++
      s!"order account {wo.accountId}"⟩

/-- Settle one fill; empty fills and fills without an order are skipped. -/
def settleFill (P : Primitives) (blockHeight : ℕ) (orders : OrdMap ℕ WitnessOrder)
    (st : FillSettlement) (fill : Fill) : FillSettlement × List Violation :=
  if fill.fillQty = 0 then (st, [])
  else
    match orders.get? fill.orderId with
    | none => (st, [])
    | some wo =>
      let settled := settleOrderFill P blockHeight wo st fill
      (settled.1, fillAccountViolations wo fill ++ settled.2)

/-! ## Minting -/

/-- Digest bytes of the adjustments of a block. -/
def encodeMintEvent (adjustments : List MintAdjustment) (blockHeight : ℕ) : Bytes :=
  0x05 :: (leBytes 8 adjustments.length ++
    (adjustments.flatMap fun adj =>
      leBytes 4 adj.marketId ++ leBytes 1 adj.outcome ++ leBytesInt 8 adj.positionDelta ++
        leBytesInt 8 adj.balanceDelta) ++
    leBytes 8 blockHeight)

/-- The markets in which some account has an entry, in order. -/
def allMarkets (accounts : DerivedAccounts) : List MarketId :=
  (OrdMap.ofList (accounts.values.flatMap fun account =>
    account.positions.keys.map fun key => ((ofLex key).1, ()))).keys

/-- Total of one outcome over all accounts. -/
def outcomeTotal (accounts : DerivedAccounts) (market : MarketId) (outcome : ℕ) : Option ℤ :=
  accounts.values.foldlM
    (fun sum account => checkedI64 (sum + account.positions.amount (toLex (market, outcome)))) 0

/-- Totals of a market over all accounts. -/
def marketTotalForAccounts (accounts : DerivedAccounts) (market : MarketId) :
    Except String (MarketId × ℤ × ℤ) := do
  let totalYes ← okOr (outcomeTotal accounts market 0)
    s!"Market {dbgMarket market}: YES position total overflowed"
  let totalNo ← okOr (outcomeTotal accounts market 1)
    s!"Market {dbgMarket market}: NO position total overflowed"
  pure (market, totalYes, totalNo)

/-- Totals of all markets; none when one overflows. -/
def marketTotals (accounts : DerivedAccounts) : List (MarketId × ℤ × ℤ) × List Violation :=
  match (allMarkets accounts).mapM (marketTotalForAccounts accounts) with
  | .ok totals => (totals, [])
  | .error details => ([], [overflow details])

/-- Adjustments of MINT for the totals after the fills. -/
def postFillAdjustments (clearingPrices : OrdMap MarketId (List Nanos))
    (totals : List (MarketId × ℤ × ℤ)) : List MintAdjustment × List Violation :=
  match deriveMintingChecked clearingPrices totals with
  | .ok adjustments => (adjustments, [])
  | .error error =>
    ([], [overflow ("Post-fill minting arithmetic overflow: " ++ dbgSettlementError error)])

/-- The minting cost of the fills. -/
def derivedMintingCost (fillBalanceDelta : ℤ) : ℤ × List Violation :=
  match mintingCostFromFillBalanceDeltaChecked fillBalanceDelta with
  | .ok cost => (cost, [])
  | .error error =>
    (0, [overflow ("Minting cost arithmetic overflow: " ++ dbgSettlementError error)])

/-- An adjustment that brings nothing had no clearing price. -/
def unpricedViolations (adj : MintAdjustment) : List Violation :=
  reportIf (adj.balanceDelta = 0)
    ⟨.mintingWithoutClearingPrice, s!"Market {dbgMarket adj.marketId}: position imbalance " ++
      s!"{adj.positionDelta.natAbs} but no " ++ (if adj.outcome = 0 then "YES" else "NO") ++
      " clearing price"⟩

/-- Apply one adjustment to MINT: the position first, then the balance. -/
def adjustMintStep (mint : DerivedAccountState) (adj : MintAdjustment) :
    DerivedAccountState × List Violation :=
  let key := toLex (adj.marketId, adj.outcome)
  match checkedI64 (mint.positions.amount key + adj.positionDelta) with
  | none =>
    ({ mint with positions := mint.positions.insert key (mint.positions.amount key) },
      [overflow (s!"MINT market {dbgMarket adj.marketId} outcome {adj.outcome}: position " ++
        s!"{mint.positions.amount key} + delta {adj.positionDelta} overflowed")])
  | some position =>
    let moved := { mint with positions := mint.positions.insert key position }
    match checkedI64 (mint.balance + adj.balanceDelta) with
    | none =>
      (moved, [overflow (s!"MINT balance {mint.balance} + delta {adj.balanceDelta} overflowed")])
    | some balance => ({ moved with balance }, [])

/-- Apply the adjustments of the block to MINT. -/
def adjustMint (P : Primitives) (blockHeight : ℕ) (accounts : DerivedAccounts)
    (adjustments : List MintAdjustment) : DerivedAccounts × List Violation :=
  if adjustments.isEmpty then (accounts, [])
  else
    let run := reportLoop adjustMintStep (entryOrDefault accounts mintId) adjustments
    let event := encodeMintEvent adjustments blockHeight
    (accounts.insert mintId
      { run.1 with eventsDigest := updateDigest P run.1.eventsDigest event },
      adjustments.flatMap unpricedViolations ++ run.2)

/-! ## The derived post-state -/

/-- The witness orders by id, with their owners. -/
def witnessOrderMap (orders : List WitnessOrder) : OrdMap ℕ WitnessOrder :=
  OrdMap.ofList (orders.map fun wo => (wo.order.id, wo))

/-- The accounts after the fills. -/
def settleFills (P : Primitives) (w : BlockWitness) : FillSettlement × List Violation :=
  reportLoop (settleFill P w.header.height (witnessOrderMap w.orders))
    ⟨startAccounts w.postSystemState, 0⟩ w.fills

/-- The adjustments of MINT in a block. -/
def mintAdjustmentsOf (P : Primitives) (w : BlockWitness) : List MintAdjustment :=
  (postFillAdjustments w.clearingPrices (marketTotals (settleFills P w).1.accounts).1).1

/-- The derived post-state. -/
structure DerivedSettlement where
  accounts : DerivedAccounts
  violations : List Violation
  mintingCost : ℤ

/-- Settle the fills, then mint. -/
def derivePostState (P : Primitives) (w : BlockWitness) : DerivedSettlement :=
  let settled := settleFills P w
  let totals := marketTotals settled.1.accounts
  let adjustments := postFillAdjustments w.clearingPrices totals.1
  let cost := derivedMintingCost settled.1.fillBalanceDelta
  let minted := adjustMint P w.header.height settled.1.accounts adjustments.1
  { accounts := minted.1
    violations := settled.2 ++ totals.2 ++ adjustments.2 ++ cost.2 ++ minted.2
    mintingCost := cost.1 }

/-! ## Comparison with the claimed post-state -/

/-- Balances are not negative; MINT is exempt. -/
def negativeBalanceViolations (entry : ℕ × DerivedAccountState) : List Violation :=
  reportIf (entry.2.balance < 0 ∧ entry.1 ≠ mintId)
    ⟨.negativeBalance,
      s!"Account {entry.1}: derived balance {entry.2.balance} < 0 after settlement"⟩

/-- Positions are not negative; MINT is exempt. -/
def negativePositionViolations (entry : ℕ × DerivedAccountState) : List Violation :=
  if entry.1 = mintId then []
  else entry.2.positions.entries.flatMap fun position =>
    reportIf (position.2 < 0)
      ⟨.negativePosition, s!"Account {entry.1} market {dbgMarket (ofLex position.1).1} outcome " ++
        s!"{(ofLex position.1).2}: derived position {position.2} < 0 after settlement"⟩

/-- A derived account and the claimed one agree besides balance and positions. -/
def compareDerivedMeta (accountId : ℕ) (derived : DerivedAccountState)
    (claimed : AccountSnapshot) : List Violation :=
  reportIf (derived.totalDeposited ≠ claimed.totalDeposited)
    ⟨.settlementAccountMismatch, s!"Account {accountId}: derived total_deposited " ++
      s!"{derived.totalDeposited} != claimed total_deposited {claimed.totalDeposited}"⟩ ++
  reportIf (derived.eventsDigest ≠ claimed.eventsDigest)
    ⟨.settlementAccountMismatch, s!"Account {accountId}: derived events_digest does not match " ++
      "claimed events_digest"⟩ ++
  reportIf (derived.lastTradingNonce ≠ claimed.lastTradingNonce)
    ⟨.settlementAccountMismatch, s!"Account {accountId}: trading nonce changed during settlement"⟩

/-- Derived and claimed positions agree; a missing entry counts as zero. -/
def comparePositions (accountId : ℕ) (derived claimed : Positions) : List Violation :=
  (OrdMap.ofList ((derived.keys ++ claimed.keys).map fun key => (key, ()))).keys.flatMap fun key =>
    reportIf (derived.amount key ≠ claimed.amount key)
      ⟨.settlementPositionMismatch, s!"Account {accountId} market {dbgMarket (ofLex key).1} " ++
        s!"outcome {(ofLex key).2}: derived {derived.amount key} != claimed " ++
        s!"{claimed.amount key}"⟩

/-- Compare one account. -/
def compareSettledAccount (accounts : DerivedAccounts) (post : Accounts) (accountId : ℕ) :
    List Violation :=
  let derived := entryOrDefault accounts accountId
  match post.get? accountId with
  | some claimed =>
    reportIf (derived.balance ≠ claimed.balance)
      ⟨.settlementBalanceMismatch, s!"Account {accountId}: derived balance {derived.balance} != " ++
        s!"claimed balance {claimed.balance}"⟩ ++
    (match accounts.get? accountId with
      | some derived => compareDerivedMeta accountId derived claimed
      | none => []) ++
    comparePositions accountId derived.positions (positionsOf claimed.positions)
  | none =>
    reportIf (derived.balance ≠ 0 ∨ ∃ qty ∈ derived.positions.values, qty ≠ 0)
      ⟨.settlementAccountMismatch,
        s!"Account {accountId} exists in derived state but not in claimed post-state"⟩

/-- Derive the post-state and compare it with the claimed one. -/
def verifySettlement (P : Primitives) (w : BlockWitness) : List Violation :=
  let derived := derivePostState P w
  let post := accountsOf w.postState
  derived.violations ++
  reportIf (derived.mintingCost ≠ w.mintingCost)
    ⟨.welfareMismatch, s!"Reported minting_cost {w.mintingCost} != settlement-derived " ++
      s!"minting_cost {derived.mintingCost}"⟩ ++
  derived.accounts.entries.flatMap negativeBalanceViolations ++
  derived.accounts.entries.flatMap negativePositionViolations ++
  (unionKeys derived.accounts post).flatMap (compareSettledAccount derived.accounts post)

end Sybil.Verifier
