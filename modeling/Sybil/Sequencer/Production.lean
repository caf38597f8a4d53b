import Sybil.Sequencer.Admission

/-!
# Block production

A block is produced on a copy of the sequencer in five phases: the recorded events
are ordered and folded into the account digests; expired and no longer valid orders
leave the book; the submissions are taken in, each order against the account as it was
when the block began; the solver's fills are settled and MINT takes the excess; the
book is settled and the witness assembled.  The copy replaces the sequencer when no
hard invariant is broken.

The solver is a parameter: a block is given its answer, the fills and the clearing
prices, and nothing is assumed of it.  So are the parts of a witness that trading does
not determine, among them the roots, the key sets and the markets of the sidecar.
The optional self-verification of a node and its fail-open switch are off, as they are
by default.
-/

namespace Sybil.Sequencer

open Engine

open Verifier (SystemEventWitness WitnessOrder WitnessRejection BlockWitness AccountSnapshot)

/-! ## System events -/

/-- Events that later signatures are checked against go first. -/
def isAuthorizationSensitive : SystemEventWitness → Bool
  | .createAccount _ _ _ => true
  | .keyRegistered _ _ _ => true
  | .keyRevoked _ _ _ => true
  | .clientActionAuthorized _ => true
  | _ => false

/-- The stable two-phase order of a block's events. -/
def phasedEvents (events : List SystemEventWitness) : List SystemEventWitness :=
  events.filter isAuthorizationSensitive ++
    events.filter fun event => !isAuthorizationSensitive event

/-- Chain an event into the digest of an account, if there is one. -/
def logEvent (P : Primitives) (accounts : AccountStore) (accountId : ℕ) (eventBytes : Bytes) :
    AccountStore :=
  match accounts.accounts.get? accountId with
  | none => accounts
  | some account =>
    { accounts with
      accounts := accounts.accounts.insert accountId
        { account with eventsDigest := updateDigest P account.eventsDigest eventBytes } }

/-- Chain a recorded event into the digests it concerns.  Key operations were chained when they
were admitted.  The encoders of the two crates write the same bytes. -/
def foldEventDigest (P : Primitives) (height : ℕ) (accounts : AccountStore) :
    SystemEventWitness → AccountStore
  | .createAccount accountId initialBalance _ =>
    logEvent P accounts accountId (Verifier.encodeCreateAccountEvent initialBalance height)
  | .deposit accountId amount =>
    logEvent P accounts accountId (Verifier.encodeDepositEvent amount height)
  | .l1Deposit accountId amount depositId depositRoot _ =>
    logEvent P accounts accountId
      (Verifier.encodeL1DepositEvent depositId amount depositRoot height)
  | .withdrawalCreated w =>
    logEvent P accounts w.accountId
      (Verifier.encodeWithdrawalCreatedEvent w.withdrawalId w.amount w.nullifier height)
  | .withdrawalRefunded accountId withdrawalId amount reason =>
    logEvent P accounts accountId
      (Verifier.encodeWithdrawalRefundedEvent withdrawalId amount reason height)
  | .marketResolved market payout affected =>
    affected.foldl (fun accounts accountId =>
      logEvent P accounts accountId (Verifier.encodeResolutionEvent market payout height)) accounts
  | .orderCancelled accountId orderId marketIds side remainingQuantity =>
    logEvent P accounts accountId
      (Verifier.encodeOrderCancelledEvent orderId marketIds side remainingQuantity height)
  | .quarantineClaimed accountId amount _ =>
    logEvent P accounts accountId (Verifier.encodeQuarantineClaimedEvent amount height)
  | _ => accounts

/-- The withdrawal that an event ends. -/
def terminalWithdrawal? : SystemEventWitness → Option ℕ
  | .withdrawalRefunded _ withdrawalId _ _ => some withdrawalId
  | .withdrawalFinalized _ withdrawalId _ => some withdrawalId
  | _ => none

/-! ## Submissions -/

/-- What the submission loop carries. -/
structure Intake where
  book : OrderBook
  nextOrderId : ℕ
  stp : GroupCoverageTracker
  orders : List WitnessOrder
  rejections : List WitnessRejection
  mmConstraints : List MmConstraint

/-- What the submission loop reads. -/
structure IntakeContext where
  accounts : AccountStore
  activeMarkets : List MarketId
  height : ℕ
  timestampMs : ℕ

/-- Every market of the order is tradeable. -/
def IntakeContext.marketsActive (ctx : IntakeContext) (order : Order) : Bool :=
  order.activeMarkets.all fun m => ctx.activeMarkets.contains m

namespace Intake

/-- Record a rejection. -/
def reject (st : Intake) (accountId : ℕ) (reason : RejectionReason) (order : Order) : Intake :=
  { st with rejections := st.rejections ++ [⟨order, accountId, reason⟩] }

/-- Check the quotes of a bundle; `none` when one of them cannot take part. -/
def quoteBundle (ctx : IntakeContext) (ttl accountId : ℕ) (constraint : MmConstraint) :
    List ℕ → GroupCoverageTracker → List Order → Except TradingError (Option GroupCoverageTracker)
  | _, stp, [] => .ok (some stp)
  | seen, stp, order :: orders => do
    let side ← okOr (constraint.orderSides.get? order.id)
      (.invalidMmBundle "MM shared constraint is missing an order side")
    ensure (order.id ∈ constraint.orderIds ∧ order.id ∉ seen)
      (.invalidMmBundle "MM shared constraint contains missing or duplicate orders")
    let derived ← (mmSideForOrder order).mapError fun reason =>
      .rejected ⟨order.id, accountId, reason⟩
    ensure (derived = side) (.invalidMmBundle "MM signed side does not match its payoff")
    if ctx.marketsActive order = false ∨
        order.effectiveExpiresAtBlock ctx.height ttl < ctx.height ∨
        stp.wouldCompleteSet accountId order = true then .ok none
    else
      quoteBundle ctx ttl accountId constraint (order.id :: seen) (stp.record accountId order)
        orders

/-- Take in a bundle: every quote and the budget, or every quote rejected.  The budget is compared
with the whole balance, and is recorded either way. -/
def takeBundle (ctx : IntakeContext) (account : Account) (sub : OrderSubmission)
    (constraint : MmConstraint) (st : Intake) : Except TradingError Intake := do
  ensure (sub.orders ≠ [] ∧ constraint.maxCapital ≠ 0 ∧
      constraint.orderIds.length = sub.orders.length ∧
      constraint.orderSides.size = sub.orders.length)
    (.invalidMmBundle "MM shared constraint does not cover the atomic bundle")
  let quoted ←
    if account.balance.toNat < constraint.maxCapital then .ok none
    else quoteBundle ctx st.book.ttl sub.accountId constraint [] st.stp sub.orders
  match quoted with
  | none =>
    let rejected :=
      sub.orders.foldl (fun st order => st.reject sub.accountId .atomicBundle order) st
    pure { rejected with mmConstraints := st.mmConstraints ++ [constraint] }
  | some stp =>
    pure { st with
      stp
      orders := st.orders ++ sub.orders.map fun order => ⟨order, sub.accountId, true⟩
      mmConstraints := st.mmConstraints ++ [constraint] }

/-- The id of an order in the block: its own when it was numbered before, else the next one. -/
def numberOrder (preassigned : Bool) (st : Intake) (order : Order) : Order × ℕ :=
  if preassigned then (order, max st.nextOrderId (order.id + 1))
  else ({ order with id := st.nextOrderId }, st.nextOrderId + 1)

/-- Accept a numbered order into the book, unless the account would trade with itself. -/
def acceptOrder (ctx : IntakeContext) (account : Account) (accountId : ℕ) (st : Intake)
    (order : Order) : Except TradingError Intake :=
  match st.book.accept order accountId account ctx.height ctx.timestampMs with
  | .error reason => .ok (st.reject accountId reason order)
  | .ok (book, _) =>
    if st.stp.wouldCompleteSet accountId order then
      -- Undo this acceptance; that it fails is an expectation of the source.
      match book.cancel accountId order.id with
      | .error _ => .error .stopped
      | .ok (book, _) => .ok ({ st with book }.reject accountId .completeSetFormation order)
    else
      .ok { st with
        book
        stp := st.stp.record accountId order
        orders := st.orders ++ [⟨order, accountId, false⟩] }

/-- Take in one order of a submission without a budget. -/
def takeOrder (ctx : IntakeContext) (preassigned : Bool) (account : Account) (accountId : ℕ)
    (st : Intake) (order : Order) : Except TradingError Intake :=
  if ctx.marketsActive order = false then .ok st
  else
    let (order, nextOrderId) := numberOrder preassigned st order
    let st := { st with nextOrderId }
    match validateOrderShape order with
    | .error reason => .ok (st.reject accountId reason order)
    | .ok () =>
      let expiresAtBlock := order.effectiveExpiresAtBlock ctx.height st.book.ttl
      if expiresAtBlock < ctx.height then
        .ok (st.reject accountId (.expired ctx.height expiresAtBlock) order)
      else acceptOrder ctx account accountId st order

/-- Number the orders of a bundle that come without ids, and keep the counter ahead of those that
come with them. -/
def numberBundle (preassigned : Bool) (st : Intake) (sub : OrderSubmission) :
    OrderSubmission × ℕ :=
  if preassigned then
    (sub, sub.orders.foldl (fun next order => max next (order.id + 1)) st.nextOrderId)
  else
    (TradingSequencer.assignSubmissionOrderIds st.nextOrderId sub,
      st.nextOrderId + sub.orders.length)

/-- Take in one submission. -/
def takeSubmission (ctx : IntakeContext) (st : Intake) (entry : OrderSubmission × Bool) :
    Except TradingError Intake :=
  let (sub, preassigned) := entry
  match ctx.accounts.accounts.get? sub.accountId with
  | none =>
    .ok (sub.orders.foldl (fun st order => st.reject sub.accountId .accountNotFound order) st)
  | some account =>
    if sub.mmConstraint.isSome then
      let (sub, nextOrderId) := numberBundle preassigned st sub
      match sub.mmConstraint with
      | some constraint => takeBundle ctx account sub constraint { st with nextOrderId }
      | none => .error .stopped
    else sub.orders.foldlM (takeOrder ctx preassigned account sub.accountId) st

end Intake

/-! ## Settlement of the fills -/

/-- What the solver returns for a block. -/
structure Solution where
  fills : List Fill
  clearingPrices : OrdMap MarketId (List Nanos)
  grossWelfare : ℤ

/-- Fills name the account of their order. -/
def chargeFills (orders : List WitnessOrder) (fills : List Fill) : List Fill :=
  let orderAccountMap := OrdMap.ofList (orders.map fun wo => (wo.order.id, wo.accountId))
  fills.map fun fill =>
    match orderAccountMap.get? fill.orderId with
    | some accountId => { fill with accountId }
    | none => fill

/-- Sum of `i64`s; stops on overflow. -/
def sumI64 (xs : List ℤ) : Option ℤ := xs.foldlM (fun sum x => checkedI64 (sum + x)) 0

/-- Balance changes of the fills that settle. -/
def fillBalanceDeltas (orderMap : OrdMap ℕ Order) (fills : List Fill) : List ℤ :=
  fills.filterMap fun fill =>
    ((orderMap.get? fill.orderId).bind fun order => computeFillSettlement order fill).map
      fun delta => delta.balanceDelta

/-- Complete-set cost of the fills; zero when its negation overflows. -/
def mintingCostFromFillBalanceDelta (fillBalanceDelta : ℤ) : ℤ :=
  match mintingCostFromFillBalanceDeltaChecked fillBalanceDelta with
  | .ok cost => cost
  | .error _ => 0

/-- Balances that are negative and markets that are not balanced. -/
def collectAccountInvariantFailures (aggregates : AccountAggregates) (markets : List MarketId) :
    List BlockInvariantFailure :=
  aggregates.negativeBalances.map (fun entry => .negativeBalance entry.1 entry.2) ++
    markets.flatMap fun market =>
      reportIf ((aggregates.totalsFor market).1 ≠ (aggregates.totalsFor market).2)
        (.positionImbalance market (aggregates.totalsFor market).1 (aggregates.totalsFor market).2)

/-- Accounts after the fills, and the invariants they break. -/
structure FinalizedBlockState where
  accounts : AccountStore
  mintingCost : ℤ
  invariantFailures : List BlockInvariantFailure

/-- Settle the fills, mint, and check the account invariants. -/
def finalizeBlockStatePhase (P : Primitives) (accounts : AccountStore) (markets : List MarketId)
    (fills : List Fill) (orders : List Order) (clearingPrices : OrdMap MarketId (List Nanos))
    (height : ℕ) : Option FinalizedBlockState := do
  let pre ← AccountAggregates.fromAccounts accounts
  let settled ← finalizeSettlement P accounts fills orders clearingPrices height
  let fillBalanceDelta ← sumI64 (fillBalanceDeltas (orderMapOf orders) fills)
  let post ← AccountAggregates.fromAccounts settled.accounts
  let balanceDelta ← checkedI64 (post.totalBalance - pre.totalBalance)
  let expected ←
    if balanceDelta = 0 then some 0
    else do
      let mintDelta ← sumI64 (settled.mintAdjustments.map fun adj => adj.balanceDelta)
      checkedI64 (fillBalanceDelta + mintDelta)
  pure
    { accounts := settled.accounts
      mintingCost := mintingCostFromFillBalanceDelta fillBalanceDelta
      invariantFailures :=
        settled.failures.map .unsettleableFill ++
        reportIf (balanceDelta ≠ 0 ∧ balanceDelta ≠ expected)
          (.balanceDeltaMismatch balanceDelta expected) ++
        collectAccountInvariantFailures post markets }

/-! ## The block -/

/-- What a block is given besides the state. -/
structure BlockInput where
  submissions : List OrderSubmission
  timestampMs : ℕ
  solution : Solution
  /-- The fields of the witness that trading does not determine. -/
  frame : BlockWitness
  /-- Key digest and trading nonce of each account. -/
  keyState : ℕ → Digest × ℕ

/-- Snapshot of an account; positions of zero are dropped. -/
def snapshotAccount (keyState : ℕ → Digest × ℕ) (account : Account) : AccountSnapshot where
  id := account.id
  balance := account.balance
  totalDeposited := account.totalDeposited
  positions := (account.positions.entries.filter fun entry => entry.2 ≠ 0).map fun entry =>
    ((ofLex entry.1).1, (ofLex entry.1).2, entry.2)
  eventsDigest := account.eventsDigest
  keysDigest := (keyState account.id).1
  lastTradingNonce := (keyState account.id).2

def snapshotAccounts (keyState : ℕ → Digest × ℕ) (accounts : AccountStore) :
    List AccountSnapshot :=
  accounts.accounts.values.map (snapshotAccount keyState)

/-- The book of a block after expiry and revalidation, and what left it. -/
structure BlockStart where
  book : OrderBook
  expired : List RestingOrder
  revalidated : List (RestingOrder × RestingRevalidationExit)

/-- A block before it is committed. -/
structure BlockProduction where
  next : TradingSequencer
  witness : BlockWitness
  start : BlockStart
  invariantFailures : List BlockInvariantFailure

namespace TradingSequencer

/-- The markets that can be traded. -/
def activeMarkets (s : TradingSequencer) : List MarketId := s.markets.filter s.isTradeable

/-- The accounts with the recorded events in their digests. -/
def loggedAccounts (P : Primitives) (s : TradingSequencer) : AccountStore :=
  (phasedEvents s.pendingSystemEvents).foldl (foldEventDigest P (s.height + 1)) s.accounts

/-- Orders leave the book at the start of a block: the expired ones, then the invalid ones. -/
def startBlock (P : Primitives) (s : TradingSequencer) : Except TradingError BlockStart := do
  let (book, expired) ← (s.orderBook.expire (s.height + 1)).mapError .reservation
  let (book, revalidated) ←
    (book.revalidate (s.loggedAccounts P) s.activeMarkets).mapError .reservation
  pure ⟨book, expired, revalidated⟩

/-- The first id of a submission; an empty one goes last. -/
def firstOrderId (submission : OrderSubmission) : ℕ :=
  (submission.orders.head?.map fun order => order.id).getD (2 ^ 64 - 1)

/-- The staged submissions in the order of their ids. -/
def stagedSubmissions (s : TradingSequencer) : List OrderSubmission :=
  (s.pendingBundles ++ s.pendingSignedMmBundles.map fun pending => pending.submission).insertionSort
    fun a b => firstOrderId a ≤ firstOrderId b

/-- The submissions of a block; the staged ones are numbered. -/
def blockSubmissions (s : TradingSequencer) (submissions : List OrderSubmission) :
    List (OrderSubmission × Bool) :=
  (s.stagedSubmissions.map fun sub => (sub, true)) ++ submissions.map fun sub => (sub, false)

/-- The submission loop starts with the resting orders. -/
def startIntake (s : TradingSequencer) (book : OrderBook) : Intake where
  book
  nextOrderId := s.nextOrderId
  stp := book.orders.foldl (fun stp ro => stp.record ro.accountId ro.order) (.new s.marketGroups)
  orders := book.orders.map fun ro => ⟨ro.order, ro.accountId, false⟩
  rejections := []
  mmConstraints := []

/-- What the submission loop of a block reads. -/
def intakeContext (P : Primitives) (s : TradingSequencer) (timestampMs : ℕ) : IntakeContext where
  accounts := s.loggedAccounts P
  activeMarkets := s.activeMarkets
  height := s.height + 1
  timestampMs

/-- The witness of a block. -/
def assembleWitness (P : Primitives) (s : TradingSequencer) (input : BlockInput) (intake : Intake)
    (fills : List Fill) (finalized : FinalizedBlockState) (totalWelfare : ℤ) (book : OrderBook) :
    BlockWitness :=
  { input.frame with
    header :=
      { input.frame.header with
        height := s.height + 1
        orderCount := intake.orders.length + intake.rejections.length
        fillCount := fills.length
        timestampMs := input.timestampMs }
    orders := intake.orders
    rejections := intake.rejections
    systemEvents := phasedEvents s.pendingSystemEvents
    fills
    clearingPrices := input.solution.clearingPrices
    totalWelfare
    mintingCost := finalized.mintingCost
    mmConstraints := intake.mmConstraints
    marketGroups := s.marketGroups
    postSystemState := snapshotAccounts input.keyState (s.loggedAccounts P)
    postState := snapshotAccounts input.keyState finalized.accounts
    stateSidecar :=
      { input.frame.stateSidecar with restingOrders := restingOrderSnapshots book.orders }
    preStateSidecar :=
      { input.frame.preStateSidecar with restingOrders := s.committedRestingOrders }
    resolvedMarkets := s.resolved.keys }

/-- `produce_block_in_place`, up to the decision about broken invariants. -/
def assembleBlock (P : Primitives) (s : TradingSequencer) (input : BlockInput) :
    Except TradingError BlockProduction := do
  let start ← s.startBlock P
  let ctx := s.intakeContext P input.timestampMs
  let intake ← (s.blockSubmissions input.submissions).foldlM (Intake.takeSubmission ctx)
    (s.startIntake start.book)
  let fills := chargeFills intake.orders input.solution.fills
  let finalized ← okOr (finalizeBlockStatePhase P ctx.accounts s.markets fills
    (intake.orders.map fun wo => wo.order) input.solution.clearingPrices ctx.height) .stopped
  let totalWelfare ←
    okOr (checkedI64 (input.solution.grossWelfare - finalized.mintingCost)) .stopped
  let mmOrderIds := (intake.orders.filter fun wo => wo.isMm).map fun wo => wo.order.id
  let (book, _) ← (intake.book.settle fills mmOrderIds ctx.height).mapError .reservation
  let witness := s.assembleWitness P input intake fills finalized totalWelfare book
  pure
    { next :=
        { s with
          accounts := finalized.accounts
          nextOrderId := intake.nextOrderId
          orderBook := book
          height := ctx.height
          bridge := s.bridge.removeLeaves (s.pendingSystemEvents.filterMap terminalWithdrawal?)
          pendingSystemEvents := []
          pendingBundles := []
          pendingSignedMmBundles := []
          committedRestingOrders := witness.stateSidecar.restingOrders }
      witness
      start
      invariantFailures := finalized.invariantFailures }

/-- The phases of a block that is assembled. -/
structure Assembled (P : Primitives) (s : TradingSequencer) (input : BlockInput)
    (production : BlockProduction) where
  start : BlockStart
  intake : Intake
  finalized : FinalizedBlockState
  totalWelfare : ℤ
  book : OrderBook
  left : List (RestingOrder × RestingExit)
  startBlock : s.startBlock P = .ok start
  takeIn : (s.blockSubmissions input.submissions).foldlM
    (Intake.takeSubmission (s.intakeContext P input.timestampMs)) (s.startIntake start.book) =
      .ok intake
  finalize : finalizeBlockStatePhase P (s.loggedAccounts P) s.markets
    (chargeFills intake.orders input.solution.fills) (intake.orders.map fun wo => wo.order)
    input.solution.clearingPrices (s.height + 1) = some finalized
  settle : intake.book.settle (chargeFills intake.orders input.solution.fills)
    ((intake.orders.filter fun wo => wo.isMm).map fun wo => wo.order.id) (s.height + 1) =
      .ok (book, left)
  witness_eq : production.witness = s.assembleWitness P input intake
    (chargeFills intake.orders input.solution.fills) finalized totalWelfare book
  start_eq : production.start = start
  failures_eq : production.invariantFailures = finalized.invariantFailures
  next_eq : production.next =
    { s with
      accounts := finalized.accounts
      nextOrderId := intake.nextOrderId
      orderBook := book
      height := s.height + 1
      bridge := s.bridge.removeLeaves (s.pendingSystemEvents.filterMap terminalWithdrawal?)
      pendingSystemEvents := []
      pendingBundles := []
      pendingSignedMmBundles := []
      committedRestingOrders := production.witness.stateSidecar.restingOrders }

theorem assembled_of_assembleBlock {P : Primitives} {s : TradingSequencer} {input : BlockInput}
    {production : BlockProduction} (h : s.assembleBlock P input = .ok production) :
    Nonempty (s.Assembled P input production) := by
  obtain ⟨start, hstart, h⟩ := bind_eq_ok.mp h
  obtain ⟨intake, hintake, h⟩ := bind_eq_ok.mp h
  obtain ⟨finalized, hfinalized, h⟩ := bind_eq_ok.mp h
  obtain ⟨totalWelfare, -, h⟩ := bind_eq_ok.mp h
  obtain ⟨⟨book, left⟩, hbook, h⟩ := bind_eq_ok.mp h
  cases h
  exact ⟨⟨start, intake, finalized, totalWelfare, book, left, hstart, hintake,
    okOr_eq_ok.mp hfinalized, mapError_eq_ok.mp hbook, rfl, rfl, rfl, rfl⟩⟩

/-- Prepare a block; a broken invariant discards it. -/
def prepareBlock (P : Primitives) (s : TradingSequencer) (input : BlockInput) :
    Except TradingError BlockProduction := do
  let production ← s.assembleBlock P input
  ensure (production.invariantFailures = [])
    (.blockInvariants (s.height + 1) production.invariantFailures)
  pure production

end TradingSequencer

end Sybil.Sequencer
