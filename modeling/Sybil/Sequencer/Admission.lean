import Sybil.Sequencer.Bridge
import Sybil.Sequencer.Restore

/-!
# Admission

The state of the sequencer between two blocks and two of the calls that change it: a
market is resolved and its positions are paid out, and a submission is admitted or
deferred.

An order takes one of two ways into a block.  A single non-MM order is admitted
*directly*: it enters the book at once and reserves from its account.  Everything else
is *deferred* to the next block.  A market maker's bundle is deferred with a shared
budget, and its budget is compared with the balance of the account, not with what the
book has left of it.

An admission that fails may have changed the sequencer before it failed, so it returns
the sequencer it leaves behind together with its outcome.  Signatures and nonces are
checked by the actor before it makes a call; rate limits and the durable log can only
refuse a call.  Neither is part of the model.
-/

namespace Sybil.Sequencer

open Engine

open Verifier (SystemEventWitness ClientActionWitness KeyOpAuth KeyRecord RestingOrderSnapshot)

/-! ## Self-trade prevention -/

/-- Complementary buy limits of an account in one market. -/
structure BinaryBidState where
  yesLimit : Option Nanos
  noLimit : Option Nanos
  deriving DecidableEq

namespace BinaryBidState

def default : BinaryBidState := ⟨none, none⟩

/-- Keep the higher of two limits. -/
def recordHighestOptionalLimit (current : Option Nanos) (candidate : Nanos) : Option Nanos :=
  some (current.elim candidate fun limit => max limit candidate)

def recordYes (b : BinaryBidState) (limit : Nanos) : BinaryBidState :=
  { b with yesLimit := recordHighestOptionalLimit b.yesLimit limit }

def recordNo (b : BinaryBidState) (limit : Nanos) : BinaryBidState :=
  { b with noLimit := recordHighestOptionalLimit b.noLimit limit }

/-- The two limits pay for a share of each outcome. -/
def binaryLimitsCross (b : BinaryBidState) : Bool :=
  match b.yesLimit, b.noLimit with
  | some yes, some no => decide (nanosPerDollar ≤ yes + no)
  | _, _ => false

end BinaryBidState

/-- Highest YES limit of an account in each market of a group. -/
abbrev GroupBidState := OrdMap MarketId Nanos

def recordHighestLimit (limits : GroupBidState) (market : MarketId) (limit : Nanos) :
    GroupBidState :=
  limits.insert market (match limits.get? market with
    | some current => max current limit
    | none => limit)

/-- Every market of the group has a YES bid, and together they pay for a complete set. -/
def completeSetLimitsCross (limits : GroupBidState) (groupMarkets : List MarketId) : Bool :=
  match groupMarkets.mapM fun market => limits.get? market with
  | none => false
  | some bids => decide (nanosPerDollar ≤ bids.sum)

/-- Buy-side coverage of each account within the market groups. -/
structure GroupCoverageTracker where
  marketToGroup : OrdMap MarketId ℕ
  groupYesLimits : OrdMap (ℕ ×ₗ ℕ) GroupBidState
  binaryLimits : OrdMap (ℕ ×ₗ MarketId) BinaryBidState
  groupMarkets : List (List MarketId)
  deriving DecidableEq

namespace GroupCoverageTracker

/-- Nothing covered yet; of two groups with one market the later counts. -/
def new (marketGroups : List MarketGroup) : GroupCoverageTracker where
  marketToGroup := OrdMap.ofList
    (marketGroups.zipIdx.flatMap fun (group, gi) => group.markets.map fun market => (market, gi))
  groupYesLimits := ∅
  binaryLimits := ∅
  groupMarkets := marketGroups.map fun group => group.markets

/-- The group of a one-market order. -/
def groupOf (t : GroupCoverageTracker) (order : Order) : Option ℕ :=
  if order.numMarkets ≠ 1 ∨ order.numStates ≠ 2 then none
  else t.marketToGroup.get? (order.marketAt 0)

def binaryOf (t : GroupCoverageTracker) (accountId : ℕ) (market : MarketId) : BinaryBidState :=
  (t.binaryLimits.get? (toLex (accountId, market))).getD .default

def yesLimitsOf (t : GroupCoverageTracker) (accountId gi : ℕ) : GroupBidState :=
  (t.groupYesLimits.get? (toLex (accountId, gi))).getD ∅

/-- Would accepting the order let the account pay for a complete set on its own? -/
def wouldCompleteSet (t : GroupCoverageTracker) (accountId : ℕ) (order : Order) : Bool :=
  match t.groupOf order with
  | none => false
  | some gi =>
    let market := order.marketAt 0
    let binary := t.binaryOf accountId market
    if 0 < order.payoffAt 0 ∧ order.payoffAt 1 = 0 then
      (binary.recordYes order.limitPrice).binaryLimitsCross ||
        completeSetLimitsCross
          (recordHighestLimit (t.yesLimitsOf accountId gi) market order.limitPrice)
          (t.groupMarkets.getD gi [])
    else if order.payoffAt 0 = 0 ∧ 0 < order.payoffAt 1 then
      (binary.recordNo order.limitPrice).binaryLimitsCross
    else false

/-- Record an accepted order.  A sell leaves an empty entry behind. -/
def record (t : GroupCoverageTracker) (accountId : ℕ) (order : Order) : GroupCoverageTracker :=
  match t.groupOf order with
  | none => t
  | some gi =>
    let market := order.marketAt 0
    let key := toLex (accountId, market)
    let binary := t.binaryOf accountId market
    if 0 < order.payoffAt 0 ∧ order.payoffAt 1 = 0 then
      { t with
        binaryLimits := t.binaryLimits.insert key (binary.recordYes order.limitPrice)
        groupYesLimits := t.groupYesLimits.insert (toLex (accountId, gi))
          (recordHighestLimit (t.yesLimitsOf accountId gi) market order.limitPrice) }
    else if order.payoffAt 0 = 0 ∧ 0 < order.payoffAt 1 then
      { t with binaryLimits := t.binaryLimits.insert key (binary.recordNo order.limitPrice) }
    else { t with binaryLimits := t.binaryLimits.insert key binary }

end GroupCoverageTracker

/-! ## The sequencer between blocks -/

/-- Orders of one account, under a shared budget when they are a market maker's. -/
structure OrderSubmission where
  accountId : ℕ
  orders : List Order
  mmConstraint : Option MmConstraint

/-- A signed bundle that waits for the next block. -/
structure PendingSignedMmBundle where
  submission : OrderSubmission
  bundleId : Digest
  revision : ℕ

/-- The state of the sequencer that trading reads and writes. -/
structure TradingSequencer where
  accounts : AccountStore
  /-- Ids are unsigned words in the source; 2⁶⁴ of them are not used up. -/
  nextOrderId : ℕ
  orderBook : OrderBook
  height : ℕ
  markets : List MarketId
  nextMarketId : ℕ
  /-- Payout of the resolved markets; every other market is active. -/
  resolved : OrdMap MarketId Nanos
  marketGroups : List MarketGroup
  bridge : BridgeState
  pendingSystemEvents : List SystemEventWitness
  pendingBundles : List OrderSubmission
  pendingSignedMmBundles : List PendingSignedMmBundle
  /-- The resting orders of `committed_state_sidecar`. -/
  committedRestingOrders : List RestingOrderSnapshot
  minRestingOrderNotionalNanos : ℕ

/-- A refused order. -/
structure Rejection where
  orderId : ℕ
  accountId : ℕ
  reason : RejectionReason
  deriving DecidableEq

/-- A hard invariant that a produced block breaks. -/
inductive BlockInvariantFailure where
  | unsettleableFill (fill : UnsettleableFill)
  | balanceDeltaMismatch (balanceDelta expectedBalanceDelta : ℤ)
  | negativeBalance (accountId : ℕ) (balance : ℤ)
  | positionImbalance (market : MarketId) (totalYes totalNo : ℤ)
  deriving DecidableEq

/-- Why a call is refused. -/
inductive TradingError where
  | rejected (rejection : Rejection)
  | marketNotFound (market : MarketId)
  | marketNotTradeable (market : MarketId) (status : String)
  | oracleError (message : String)
  | invalidMmBundle (message : String)
  | mmBundleAlreadyPending (accountId : ℕ)
  | reservation (error : ReservationError)
  | blockInvariants (height : ℕ) (failures : List BlockInvariantFailure)
  /-- The process stopped on an overflow or a failed expectation. -/
  | stopped
  deriving DecidableEq

namespace TradingSequencer

def recordSystemEvent (s : TradingSequencer) (event : SystemEventWitness) : TradingSequencer :=
  { s with pendingSystemEvents := s.pendingSystemEvents ++ [event] }

def account? (s : TradingSequencer) (accountId : ℕ) : Option Account :=
  s.accounts.accounts.get? accountId

/-- The call has no account to act on. -/
def accountNotFound (accountId : ℕ) : TradingError := .rejected ⟨0, accountId, .accountNotFound⟩

/-! ## Markets -/

def isTradeable (s : TradingSequencer) (market : MarketId) : Bool := !s.resolved.contains market

/-- The status text of a market. -/
def statusText (s : TradingSequencer) (market : MarketId) : String :=
  if s.isTradeable market then "active" else "resolved"

/-- The market exists and can be traded. -/
def checkMarket (s : TradingSequencer) (market : MarketId) : Except TradingError Unit := do
  ensure (market ∈ s.markets) (.marketNotFound market)
  ensure (s.isTradeable market = true) (.marketNotTradeable market (s.statusText market))

/-- Pay out the positions of one account in a resolved market: YES first, then NO. -/
def resolveAccount (market : MarketId) (yesPayout : Nanos) (account : Account) : Option Account :=
  let pay (a : Account) (price : Nanos) (qty : ℤ) : Option Account :=
    (checkedI64 (Verifier.asI64 (notionalNanos price qty.natAbs) * qty.sign)).bind a.addBalance
  let closed :=
    { account with
      positions := (account.positions.erase (toLex (market, 0))).erase (toLex (market, 1)) }
  (pay closed yesPayout (account.position market 0)).bind fun paid =>
    pay paid (nanosPerDollar - yesPayout) (account.position market 1)

/-- Does the account hold shares of the market? -/
def holdsShares (market : MarketId) (account : Account) : Bool :=
  decide (account.position market 0 ≠ 0 ∨ account.position market 1 ≠ 0)

/-- Pay out the positions of every account. -/
def settleResolution (market : MarketId) (yesPayout : Nanos) (accounts : AccountStore) :
    Option AccountStore :=
  (accounts.accounts.entries.foldlM (fun m entry =>
    (resolveAccount market yesPayout entry.2).map fun account => m.insert entry.1 account)
    accounts.accounts).map fun m => { accounts with accounts := m }

/-- Remove a resolved market from its group; a group of one market is dropped. -/
def shrinkMarketGroupsAfterResolution (groups : List MarketGroup) (market : MarketId) :
    List MarketGroup :=
  groups.filterMap fun group =>
    if group.markets.contains market then
      let rest := group.markets.filter fun member => member ≠ market
      if 2 ≤ rest.length then some { group with markets := rest } else none
    else some group

/-- Resolve a market and pay its positions out. -/
def resolveMarket (s : TradingSequencer) (market : MarketId) (payout : Nanos) :
    Except TradingError TradingSequencer := do
  ensure (market ∈ s.markets) (.marketNotFound market)
  ensure (payout ≤ nanosPerDollar)
    (.oracleError s!"invalid payout: {payout} nanos (must be 0 to 1_000_000_000)")
  ensure (s.isTradeable market = true) (.oracleError "market already resolved")
  let affected :=
    (s.accounts.accounts.entries.filter fun entry => holdsShares market entry.2).map Prod.fst
  let accounts ← okOr (settleResolution market payout s.accounts) .stopped
  pure ({ s with
    accounts
    resolved := s.resolved.insert market payout
    marketGroups := shrinkMarketGroupsAfterResolution s.marketGroups market
    }.recordSystemEvent (.marketResolved market payout affected))

/-! ## Admission -/

/-- Give the orders of a submission the next ids. -/
def numberOrders (next : ℕ) (orders : List Order) : List Order :=
  orders.zipIdx.map fun (order, i) => { order with id := next + i }

/-- The budget of a bundle under the new ids of its orders. -/
def remapConstraint (constraint : MmConstraint) (orderIds : List ℕ) : MmConstraint :=
  constraint.orderIds.zipIdx.foldl (fun c (oldId, i) =>
    match orderIds[i]?, constraint.orderSides.get? oldId with
    | some orderId, some side => c.addOrder orderId side
    | _, _ => c) (.new constraint.mmId constraint.maxCapital)

/-- Assign ids to a submission. -/
def assignSubmissionOrderIds (next : ℕ) (submission : OrderSubmission) : OrderSubmission :=
  let orders := numberOrders next submission.orders
  { submission with
    orders
    mmConstraint := submission.mmConstraint.map fun constraint =>
      remapConstraint constraint (orders.map fun order => order.id) }

/-- Cover the tracker with the orders that an account has in the book and in waiting bundles. -/
def seedGroupCoverageForAccount (s : TradingSequencer) (accountId : ℕ) : GroupCoverageTracker :=
  let resting :=
    (s.orderBook.orders.filter fun ro => ro.accountId = accountId).map fun ro => ro.order
  let waiting (bundles : List OrderSubmission) : List Order :=
    (bundles.filter fun bundle => bundle.accountId = accountId).flatMap fun bundle => bundle.orders
  let signed := s.pendingSignedMmBundles.map fun pending => pending.submission
  (resting ++ waiting s.pendingBundles ++ waiting signed).foldl
    (fun stp order => stp.record accountId order) (.new s.marketGroups)

/-- Shape and markets of one submitted order. -/
def checkSubmittedOrder (s : TradingSequencer) (submission : OrderSubmission) (order : Order) :
    Except TradingError Unit := do
  (if submission.mmConstraint.isSome then validateOrderShape order
    else validateRestingOrderShape order s.minRestingOrderNotionalNanos).mapError
      fun reason => .rejected ⟨0, submission.accountId, reason⟩
  checkAll s.checkMarket order.activeMarkets

/-- The signed side of the `index`-th order is that of its payoff. -/
def checkBundleSide (submission : OrderSubmission) (constraint : MmConstraint) (seen : List ℕ)
    (entry : ℕ × ℕ) : Except TradingError (List ℕ) := do
  let (orderId, index) := entry
  let side ← okOr (constraint.orderSides.get? orderId)
    (.invalidMmBundle "shared constraint is missing an order side")
  ensure (orderId ∉ seen) (.invalidMmBundle "shared constraint contains a duplicate order")
  let order ← okOr (submission.orders[index]?) .stopped
  let derived ← (mmSideForOrder order).mapError fun reason =>
    .rejected ⟨orderId, submission.accountId, reason⟩
  ensure (derived = side) (.invalidMmBundle "signed side does not match its order payoff")
  pure (orderId :: seen)

/-- The orders of a bundle complete no set with what the account has. -/
def checkBundleCoverage (accountId : ℕ) (stp : GroupCoverageTracker) (order : Order) :
    Except TradingError GroupCoverageTracker := do
  ensure (stp.wouldCompleteSet accountId order = false)
    (.rejected ⟨order.id, accountId, .completeSetFormation⟩)
  pure (stp.record accountId order)

/-- Checks of a bundle.  The budget is compared with the whole balance of the account. -/
def checkBundle (s : TradingSequencer) (submission : OrderSubmission) (constraint : MmConstraint) :
    Except TradingError Unit := do
  let account ← okOr (s.account? submission.accountId) (accountNotFound submission.accountId)
  ensure (submission.orders ≠ []) (.invalidMmBundle "bundle must contain at least one order")
  ensure (constraint.maxCapital ≠ 0) (.invalidMmBundle "shared budget must be greater than zero")
  ensure (constraint.maxCapital ≤ account.balance.toNat)
    (.rejected ⟨0, submission.accountId,
      .insufficientBalance (min constraint.maxCapital (2 ^ 63 - 1)) account.balance⟩)
  ensure (constraint.orderIds.length = submission.orders.length ∧
      constraint.orderSides.size = submission.orders.length)
    (.invalidMmBundle "shared constraint must cover every order exactly once")
  let _ ← constraint.orderIds.zipIdx.foldlM (checkBundleSide submission constraint) []
  let _ ← submission.orders.foldlM (checkBundleCoverage submission.accountId)
    (s.seedGroupCoverageForAccount submission.accountId)
  pure ()

/-- Everything that is checked before ids are assigned. -/
def checkSubmission (s : TradingSequencer) (submission : OrderSubmission) :
    Except TradingError Unit := do
  checkAll (s.checkSubmittedOrder submission) submission.orders
  match submission.mmConstraint with
  | some constraint => s.checkBundle submission constraint
  | none => pure ()

/-- Can the submission enter the book at once? -/
def isDirect (submission : OrderSubmission) : Bool :=
  submission.mmConstraint.isNone && match submission.orders with
    | [order] => decide (order.numMarkets = 1)
    | _ => false

/-- What admission did with a submission. -/
inductive AdmitOutcome where
  | admitted (orderId : ℕ) (restingOrder : RestingOrder)
  | deferred (orderIds : List ℕ) (submission : OrderSubmission)
  | rejected (error : TradingError)

/-- Put a numbered order into the book. -/
def admitOrder (s : TradingSequencer) (accountId : ℕ) (order : Order) (nowMs : ℕ) :
    Except TradingError (OrderBook × RestingOrder) := do
  let account ← okOr (s.account? accountId) (accountNotFound accountId)
  let expiresAtBlock := order.effectiveExpiresAtBlock s.height s.orderBook.ttl
  ensure (s.height + 1 ≤ expiresAtBlock)
    (.rejected ⟨order.id, accountId, .expired (s.height + 1) expiresAtBlock⟩)
  ensure ((s.seedGroupCoverageForAccount accountId).wouldCompleteSet accountId order = false)
    (.rejected ⟨order.id, accountId, .completeSetFormation⟩)
  (s.orderBook.accept order accountId account s.height nowMs).mapError
    fun reason => .rejected ⟨order.id, accountId, reason⟩

/-- An IOC order takes part in the next block only. -/
def stampIoc (s : TradingSequencer) (isIoc : Bool) (submission : OrderSubmission) :
    OrderSubmission :=
  if isIoc then
    { submission with
      orders := submission.orders.map fun order =>
        { order with expiresAtBlock := some (s.height + 1) } }
  else submission

/-- Admit a submission to the book, or hand it back for the next block. -/
def tryAdmitDirectWithIoc (s : TradingSequencer) (submission : OrderSubmission) (nowMs : ℕ)
    (isIoc : Bool) : TradingSequencer × AdmitOutcome :=
  let submission := s.stampIoc isIoc submission
  match s.checkSubmission submission with
  | .error error => (s, .rejected error)
  | .ok () =>
    let numbered := assignSubmissionOrderIds s.nextOrderId submission
    -- Ids are used up even when the order is refused below.
    let next := { s with nextOrderId := s.nextOrderId + submission.orders.length }
    match numbered.orders with
    | [order] =>
      if isDirect numbered then
        match s.admitOrder numbered.accountId order nowMs with
        | .error error => (next, .rejected error)
        | .ok (orderBook, resting) => ({ next with orderBook }, .admitted order.id resting)
      else (next, .deferred [order.id] numbered)
    | orders => (next, .deferred (orders.map fun order => order.id) numbered)

/-! ## Client actions -/

/-- Record an authorized action. -/
def applyClientActionAuthorized (s : TradingSequencer) (action : ClientActionWitness) :
    TradingSequencer :=
  s.recordSystemEvent (.clientActionAuthorized action)

def activeSignedMmBundle (s : TradingSequencer) (accountId : ℕ) : Option PendingSignedMmBundle :=
  s.pendingSignedMmBundles.find? fun pending => pending.submission.accountId = accountId

def hasActiveMmBundle (s : TradingSequencer) (accountId : ℕ) : Bool :=
  (s.pendingBundles.any fun submission =>
    decide (submission.accountId = accountId) && submission.mmConstraint.isSome) ||
  (s.activeSignedMmBundle accountId).isSome

/-- `admit_or_defer_with_authorization`: admit or stage a submission, and record the action that
authorized it. -/
def admitOrDefer (s : TradingSequencer) (submission : OrderSubmission) (nowMs : ℕ) (isIoc : Bool)
    (authorization : Option (ℕ × KeyOpAuth)) : TradingSequencer × Except TradingError (List ℕ) :=
  if (s.account? submission.accountId).isNone then
    (s, .error (accountNotFound submission.accountId))
  else if submission.mmConstraint.isSome ∧ s.hasActiveMmBundle submission.accountId then
    (s, .error (.mmBundleAlreadyPending submission.accountId))
  else
    match s.tryAdmitDirectWithIoc submission nowMs isIoc with
    | (next, .rejected error) => (next, .error error)
    | (next, .admitted orderId resting) =>
      match authorization with
      | none => (next, .ok [orderId])
      | some (nonce, envelope) =>
        (next.applyClientActionAuthorized
          (.order resting.accountId resting.order nonce envelope), .ok [orderId])
    | (next, .deferred orderIds staged) =>
      let next := { next with pendingBundles := next.pendingBundles ++ [staged] }
      match authorization, staged.orders with
      | none, _ => (next, .ok orderIds)
      | some (nonce, envelope), order :: _ =>
        (next.applyClientActionAuthorized (.order staged.accountId order nonce envelope),
          .ok orderIds)
      | some _, [] => (next, .error .stopped)

end TradingSequencer

end Sybil.Sequencer
