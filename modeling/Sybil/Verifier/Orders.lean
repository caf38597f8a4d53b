import Sybil.Verifier.Match
import Sybil.Verifier.System

/-!
# Layer 4: accepted and rejected orders

Accepted orders must have the admitted shape and be covered by the post-system
balance or position of their account; buys of one account are added up over the
batch.  Rejections must give a reason that holds.

Positions are looked up by the first entry of a snapshot, where the replay of
system events and the settlement read the last one.
-/

namespace Sybil.Verifier

open Engine

/-- Quantity of the first entry of an outcome; zero when there is none. -/
def firstPosition (positions : List PositionEntry) (market : MarketId) (outcome : ℕ) : ℤ :=
  ((positions.find? (isPosition market outcome)).map fun entry => entry.2.2).getD 0

/-- Has the order a positive payoff? -/
def hasPositive (order : Order) : Bool :=
  (order.payoffs.toList.take order.numStates).any fun p => decide (0 < p)

/-! ## Accepted orders -/

/-- Balance reserved so far, by account. -/
abbrev ReservedBalances := OrdMap ℕ ℤ

/-- Cover of a buy: the worst-case cost, on top of what the batch already reserved. -/
def verifyBuyCover (reserved : ReservedBalances) (wo : WitnessOrder) (snapshot : AccountSnapshot) :
    ReservedBalances × List Violation :=
  let order := wo.order
  match checkedPriceQtyCeil order.limitPrice order.maxFill with
  | none => (reserved, [⟨.settlementOverflow, s!"Order {order.id}: price*quantity overflow"⟩])
  | some maxCost =>
    let held := reserved.get? wo.accountId |>.getD 0
    match checkedI64 (snapshot.balance - held) with
    | none =>
      (reserved, [⟨.settlementOverflow, s!"Order {order.id} (account {wo.accountId}): balance " ++
        s!"{snapshot.balance} - reserved {held} overflowed"⟩])
    | some available =>
      let short := reportIf (available < maxCost)
        (⟨.insufficientBalance, s!"Order {order.id} (account {wo.accountId}): max_cost " ++
          s!"{maxCost} > available {available} (balance {snapshot.balance} - reserved {held})"⟩ :
          Violation)
      match checkedI64 (held + maxCost) with
      | none =>
        (reserved.insert wo.accountId held, short ++ [⟨.settlementOverflow,
          s!"Order {order.id} (account {wo.accountId}): reserved balance {held} + max_cost " ++
            s!"{maxCost} overflowed"⟩])
      | some updated => (reserved.insert wo.accountId updated, short)

/-- Cover of one sold outcome. -/
def verifySellOutcome (wo : WitnessOrder) (snapshot : AccountSnapshot) (outcome : ℕ) :
    List Violation :=
  let order := wo.order
  if 0 ≤ order.payoffAt outcome then []
  else
    match (checkedPositionQty (order.payoffAt outcome) order.maxFill).bind fun q =>
      checkedI64 (-q) with
    | none => [⟨.settlementOverflow, s!"Order {order.id}: sell quantity overflow"⟩]
    | some sellQty =>
      let available := firstPosition snapshot.positions (order.marketAt 0) outcome
      reportIf (available < sellQty)
        ⟨.insufficientPosition,
          s!"Order {order.id} (account {wo.accountId}): sell_qty {sellQty} " ++
          s!"> position {available} for market {dbgMarket (order.marketAt 0)} outcome {outcome}"⟩

/-- Cover of a sell. -/
def verifySellCover (wo : WitnessOrder) (snapshot : AccountSnapshot) : List Violation :=
  if wo.order.numMarkets = 1 then
    (List.range wo.order.numStates).flatMap (verifySellOutcome wo snapshot)
  else []

/-- Cover of an order; mixed payoffs are not checked. -/
def verifyCover (reserved : ReservedBalances) (wo : WitnessOrder) (snapshot : AccountSnapshot) :
    ReservedBalances × List Violation :=
  if hasPositive wo.order && !wo.order.isSeller then verifyBuyCover reserved wo snapshot
  else if wo.order.isSeller && !hasPositive wo.order then
    (reserved, verifySellCover wo snapshot)
  else (reserved, [])

/-- An order is not accepted after its last block. -/
def expiryViolations (height : ℕ) (order : Order) : List Violation :=
  match order.expiresAtBlock with
  | some expiresAtBlock =>
    reportIf (expiresAtBlock < height)
      ⟨.orderExpiryViolation, s!"Order {order.id}: expires_at_block {expiresAtBlock} < block " ++
        s!"height {height}"⟩
  | none => []

/-- Check an accepted order; market makers are exempt from cover. -/
def verifyAccepted (height : ℕ) (postSystem : Accounts) (reserved : ReservedBalances)
    (wo : WitnessOrder) : ReservedBalances × List Violation :=
  let order := wo.order
  if nanosPerDollar < order.limitPrice then
    (reserved, [⟨.settlementOverflow, s!"Order {order.id}: limit_price {order.limitPrice} " ++
      s!"exceeds NANOS_PER_DOLLAR {nanosPerDollar}"⟩])
  else
    match order.validateBinaryOneHot with
    | .error reason =>
      (reserved, [⟨.invalidOrder, s!"Order {order.id}: invalid order shape: {reason}"⟩])
    | .ok () =>
      let expiry := expiryViolations height order
      if wo.isMm then (reserved, expiry)
      else
        match postSystem.get? wo.accountId with
        | none =>
          (reserved, expiry ++ [⟨.acceptedOrderMissingAccount, s!"Order {order.id} (account " ++
            s!"{wo.accountId}): accepted order missing from post-system state"⟩])
        | some snapshot =>
          let cover := verifyCover reserved wo snapshot
          (cover.1, expiry ++ cover.2)

/-! ## Rejected orders -/

/-- Debug text of a rejection reason. -/
def dbgRejectionReason : RejectionReason → String
  | .insufficientBalance required available =>
    "InsufficientBalance \x7b required: " ++ s!"{required}, available: {available}" ++ " \x7d"
  | .insufficientPosition market outcome required available =>
    "InsufficientPosition \x7b market: " ++ dbgMarket market ++
      s!", outcome: {outcome}, required: {required}, available: {available}" ++ " \x7d"
  | .accountNotFound => "AccountNotFound"
  | .completeSetFormation => "CompleteSetFormation"
  | .atomicBundle => "AtomicBundle"
  | .invalidOrder reason => "InvalidOrder(" ++ reason.quote ++ ")"
  | .expired currentBlock expiresAtBlock =>
    "Expired \x7b current_block: " ++ s!"{currentBlock}, expires_at_block: {expiresAtBlock}" ++
      " \x7d"

/-- A rejection for lack of balance states the right cost. -/
def verifyBalanceRejection (order : Order) (required : ℤ) : List Violation :=
  if hasPositive order && !order.isSeller then
    match checkedPriceQtyCeil order.limitPrice order.maxFill with
    | none => [⟨.settlementOverflow, s!"Order {order.id}: price*quantity overflow"⟩]
    | some maxCost =>
      reportIf (maxCost ≠ required)
        ⟨.incorrectRejectionReason, s!"Order {order.id}: rejection says required={required} but " ++
          s!"computed max_cost={maxCost}"⟩
  else []

/-- The whole bundle of the order is rejected under one constraint, and nothing of it accepted. -/
def verifyAtomicRejection (w : BlockWitness) (rej : WitnessRejection) : List Violation :=
  match w.mmConstraints.filter fun c => c.orderIds.contains rej.order.id with
  | [constraint] =>
    let allRejectedTogether := constraint.orderIds.all fun orderId =>
      w.rejections.any fun candidate =>
        decide (candidate.order.id = orderId ∧ candidate.accountId = rej.accountId ∧
          candidate.reason = .atomicBundle)
    let anyAccepted := w.orders.any fun candidate => constraint.orderIds.contains candidate.order.id
    reportIf (allRejectedTogether = false ∨ anyAccepted = true)
      ⟨.incorrectRejectionReason,
        s!"Order {rej.order.id}: MM bundle was not rejected atomically"⟩
  | constraints =>
    [⟨.incorrectRejectionReason, s!"Order {rej.order.id}: atomic-bundle rejection has " ++
      s!"{constraints.length} containing constraints"⟩]

/-- A rejection of an existing account gives a reason that holds. -/
def verifyRejectionReason (w : BlockWitness) (snapshot : AccountSnapshot) (rej : WitnessRejection) :
    List Violation :=
  match rej.reason with
  | .insufficientBalance required _ => verifyBalanceRejection rej.order required
  | .insufficientPosition market outcome _ available =>
    let actual := firstPosition snapshot.positions market outcome
    reportIf (actual ≠ available)
      ⟨.incorrectRejectionReason, s!"Order {rej.order.id}: rejection says available={available} " ++
        s!"but actual position={actual}"⟩
  | .accountNotFound =>
    [⟨.falseRejection, s!"Order {rej.order.id} (account {rej.accountId}): rejected as " ++
      "AccountNotFound but account exists in post-system state"⟩]
  | .completeSetFormation => []
  | .atomicBundle => verifyAtomicRejection w rej
  | .invalidOrder reason =>
    reportIf (rej.order.validateBinaryOneHot.isOk = true)
      ⟨.falseRejection,
        s!"Order {rej.order.id}: rejected as invalid ({reason}) but shape is supported"⟩
  | .expired currentBlock expiresAtBlock =>
    reportIf (currentBlock ≤ expiresAtBlock)
      ⟨.incorrectRejectionReason, s!"Order {rej.order.id}: rejected as expired but " ++
        s!"current_block {currentBlock} <= expires_at_block {expiresAtBlock}"⟩

/-- Check a rejected order. -/
def verifyRejected (w : BlockWitness) (postSystem : Accounts) (rej : WitnessRejection) :
    List Violation :=
  match postSystem.get? rej.accountId with
  | none =>
    reportIf (rej.reason ≠ .accountNotFound)
      ⟨.incorrectRejectionReason, s!"Order {rej.order.id} (account {rej.accountId}): rejected " ++
        s!"for {dbgRejectionReason rej.reason} but account not in post-system state"⟩
  | some snapshot => verifyRejectionReason w snapshot rej

/-! ## The pass -/

/-- Verify accepted and rejected orders. -/
def verifyOrders (w : BlockWitness) : List Violation :=
  let postSystem := accountsOf w.postSystemState
  (reportLoop (verifyAccepted w.header.height postSystem) ∅ w.orders).2 ++
    w.rejections.flatMap (verifyRejected w postSystem)

/-- What a silent step says about an accepted order, whatever was reserved before. -/
theorem validate_of_verifyAccepted {height : ℕ} {postSystem : Accounts}
    {reserved : ReservedBalances} {wo : WitnessOrder}
    (h : (verifyAccepted height postSystem reserved wo).2 = []) :
    wo.order.limitPrice ≤ nanosPerDollar ∧ wo.order.validateBinaryOneHot = .ok () := by
  by_cases hlimit : nanosPerDollar < wo.order.limitPrice
  · simp [verifyAccepted, hlimit] at h
  · refine ⟨not_lt.mp hlimit, ?_⟩
    cases hshape : wo.order.validateBinaryOneHot with
    | error reason => simp [verifyAccepted, hlimit, hshape] at h
    | ok _ => rfl

theorem validate_of_verifyOrders {w : BlockWitness} (h : verifyOrders w = []) {wo : WitnessOrder}
    (hwo : wo ∈ w.orders) :
    wo.order.limitPrice ≤ nanosPerDollar ∧ wo.order.validateBinaryOneHot = .ok () := by
  obtain ⟨hrun, -⟩ := List.append_eq_nil_iff.mp h
  obtain ⟨reserved, -, hstep⟩ := exists_silent_at (P := fun _ => True) hrun
    (fun _ _ _ _ _ => trivial) trivial hwo
  exact validate_of_verifyAccepted hstep

end Sybil.Verifier
