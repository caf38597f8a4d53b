import Sybil.Verifier.System

/-!
# Sidecar: resting orders and reservations

What the resting orders of each account reserve must add up to the account's
reservation leaf, before and after the block.  A resting order stays, shrinks by
what was filled or leaves the book for one of four reasons; a new one must come
from an accepted order.

The transition looks at a pre-state leaf by its id only.  It compares a *new* leaf
with the accepted order of that id, and compares no *carried* order with the leaf
it was carried from.
-/

namespace Sybil.Verifier

open Engine

/-! ## Reservations -/

/-- What an account reserves. -/
structure ReservationTotals where
  reservedBalance : ℤ
  reservedPositions : Positions
  deriving DecidableEq

namespace ReservationTotals

/-- Nothing reserved. -/
def default : ReservationTotals := ⟨0, ∅⟩

def addBalance (totals : ReservationTotals) (delta : ℤ) : Except String ReservationTotals := do
  let reservedBalance ← okOr (checkedI64 (totals.reservedBalance + delta))
    "reservation balance overflowed"
  pure { totals with reservedBalance }

/-- Add to a reserved position; a position that becomes zero is removed. -/
def addPosition (totals : ReservationTotals) (entry : PositionEntry) :
    Except String ReservationTotals :=
  let key := toLex (entry.1, entry.2.1)
  if entry.2.2 = 0 then .ok totals
  else do
    let qty ← okOr
      (checkedI64 ((totals.reservedPositions.get? key).getD 0 + entry.2.2))
      s!"reservation position overflowed for {dbgMarket entry.1}/{entry.2.1}"
    pure { totals with
      reservedPositions :=
        if qty = 0 then totals.reservedPositions.erase key
        else totals.reservedPositions.insert key qty }

def isZero (totals : ReservationTotals) : Bool :=
  decide (totals.reservedBalance = 0) && totals.reservedPositions.entries.isEmpty

end ReservationTotals

/-- Reservations by account. -/
abbrev Reservations := OrdMap ℕ ReservationTotals

/-- Add a resting order to the reservations of its account. -/
def reserveStep (st : Reservations × List ℕ) (resting : RestingOrderSnapshot) :
    Except String (Reservations × List ℕ) := do
  ensure (resting.order.id ∉ st.2) s!"duplicate resting order id {resting.order.id} in sidecar"
  let totals ← ((st.1.get? resting.accountId).getD .default).addBalance resting.reservedBalance
  let totals ← resting.reservedPositions.foldlM ReservationTotals.addPosition totals
  pure (st.1.insert resting.accountId totals, resting.order.id :: st.2)

/-- Reservations that the resting orders add up to; zero totals are dropped. -/
def reservationsFromRestingOrders (restingOrders : List RestingOrderSnapshot) :
    Except String Reservations := do
  let st ← restingOrders.foldlM reserveStep (∅, [])
  pure (st.1.filterKeys fun accountId =>
    !((st.1.get? accountId).getD .default).isZero)

/-- Read a reservation leaf. -/
def claimStep (claimed : Reservations) (reservation : AccountReservationSnapshot) :
    Except Violation Reservations := do
  ensure (claimed.contains reservation.accountId = false)
    ⟨.sidecarReservationMismatch,
      s!"duplicate account reservation leaf for account {reservation.accountId}"⟩
  let totals ← (reservation.reservedPositions.foldlM ReservationTotals.addPosition
    ⟨reservation.reservedBalance, ∅⟩).mapError fun details =>
      (⟨.settlementOverflow, details⟩ : Violation)
  pure (if totals.isZero then claimed else claimed.insert reservation.accountId totals)

/-- Reservations of the leaves. -/
def reservationsFromAccountSnapshots (reservations : List AccountReservationSnapshot) :
    Except Violation Reservations :=
  reservations.foldlM claimStep ∅

/-- Debug text of reservations. -/
def dbgReservations (reservations : Reservations) : String :=
  let position (entry : (MarketId ×ₗ ℕ) × ℤ) : String :=
    s!"({dbgMarket (ofLex entry.1).1}, {(ofLex entry.1).2}): {entry.2}"
  let totals (entry : ℕ × ReservationTotals) : String :=
    s!"{entry.1}: ReservationTotals \x7b reserved_balance: {entry.2.reservedBalance}, " ++
      "reserved_positions: \x7b" ++
      ", ".intercalate (entry.2.reservedPositions.entries.map position) ++ "\x7d \x7d"
  "\x7b" ++ ", ".intercalate (reservations.entries.map totals) ++ "\x7d"

/-- The reservation leaves are what the resting orders add up to. -/
def verifyRestingOrderReservations (label : String) (restingOrders : List RestingOrderSnapshot)
    (reservations : List AccountReservationSnapshot) : List Violation :=
  match reservationsFromRestingOrders restingOrders with
  | .error details => [⟨.settlementOverflow, details⟩]
  | .ok expected =>
    match reservationsFromAccountSnapshots reservations with
    | .error violation => [violation]
    | .ok claimed =>
      reportIf (expected ≠ claimed)
        ⟨.sidecarReservationMismatch, s!"{label} account reservation sidecar does not equal " ++
          s!"resting-order reservation rollup: expected {dbgReservations expected}, claimed " ++
          dbgReservations claimed⟩

/-! ## Comparing orders -/

/-- The orders agree in everything but their quantity. -/
def orderShapeMatchesExceptQty (left right : Order) : Bool :=
  decide (left.id = right.id ∧ left.markets = right.markets ∧
    left.numMarkets = right.numMarkets ∧ left.payoffs = right.payoffs ∧
    left.numStates = right.numStates ∧ left.limitPrice = right.limitPrice ∧
    left.condition = right.condition ∧ left.expiresAtBlock = right.expiresAtBlock)

def ordersEqual (left right : Order) : Bool :=
  orderShapeMatchesExceptQty left right && decide (left.maxFill = right.maxFill)

def restingOrdersEqual (left right : RestingOrderSnapshot) : Bool :=
  decide (left.accountId = right.accountId ∧ left.createdAt = right.createdAt ∧
    left.expiresAtBlock = right.expiresAtBlock ∧
    left.reservedBalance = right.reservedBalance ∧
    left.reservedPositions = right.reservedPositions) &&
  ordersEqual left.order right.order

/-- The comparison covers every field of an order. -/
theorem ordersEqual_iff {left right : Order} : ordersEqual left right = true ↔ left = right := by
  cases left
  cases right
  simp only [ordersEqual, orderShapeMatchesExceptQty, Bool.and_eq_true, decide_eq_true_eq,
    Order.mk.injEq]
  tauto

/-! ## The transition -/

/-- `as u64` on a signed word. -/
def asU64 (x : ℤ) : ℕ := (x % 2 ^ 64).toNat

/-- `as i64` on an unsigned word. -/
def asI64 (n : ℕ) : ℤ := if n < 2 ^ 63 then n else (n : ℤ) - 2 ^ 64

/-- The leaf of an order after `filled` of it was executed; `none` when it leaves the book. -/
def expectedPostResting (pre : RestingOrderSnapshot) (filled height : ℕ) :
    Option RestingOrderSnapshot :=
  if pre.order.maxFill ≤ filled ∨ pre.expiresAtBlock ≤ height then none
  else if filled = 0 then some pre
  else
    let maxFill := pre.order.maxFill
    let remaining := maxFill - filled
    some
      { pre with
        order := { pre.order with maxFill := remaining }
        reservedBalance := asI64 (ceilMulRatio (asU64 pre.reservedBalance) remaining maxFill)
        reservedPositions := pre.reservedPositions.map fun entry =>
          (entry.1, entry.2.1, asI64 (ceilMulRatio (asU64 entry.2.2) remaining maxFill)) }

/-- Resting orders by id. -/
def keyedRestingOrders (restingOrders : List RestingOrderSnapshot) :
    OrdMap ℕ RestingOrderSnapshot × List Violation :=
  collectKeyed (fun resting => resting.order.id)
    (fun resting => ⟨.sidecarRestingOrderMismatch,
      s!"duplicate resting order id {resting.order.id}"⟩) restingOrders

/-- Add a fill to the quantity of its order; an overflow leaves the quantity as it was. -/
def fillQtyStep (quantities : OrdMap ℕ ℕ) (fill : Fill) : OrdMap ℕ ℕ × List Violation :=
  let qty := (quantities.get? fill.orderId).getD 0
  match checkedU64 (qty + fill.fillQty) with
  | some updated => (quantities.insert fill.orderId updated, [])
  | none =>
    (quantities.insert fill.orderId qty,
      [⟨.settlementOverflow, s!"fill quantity overflow for order {fill.orderId}"⟩])

/-- Filled quantity by order. -/
def fillQtyByOrder (fills : List Fill) : OrdMap ℕ ℕ × List Violation :=
  reportLoop fillQtyStep ∅ fills

/-- Id of a cancelled order. -/
def cancelledOrderId : SystemEventWitness → Option ℕ
  | .orderCancelled _ orderId _ _ _ => some orderId
  | _ => none

/-- Market of a resolution. -/
def resolvedMarketId : SystemEventWitness → Option MarketId
  | .marketResolved marketId _ _ => some marketId
  | _ => none

/-- Markets resolved in the block. -/
def resolvedMarketEvents (events : List SystemEventWitness) : List MarketId :=
  events.filterMap resolvedMarketId

/-- Check what became of a pre-state leaf. -/
def verifyCarriedResting (w : BlockWitness) (post : OrdMap ℕ RestingOrderSnapshot)
    (quantities : OrdMap ℕ ℕ) (entry : ℕ × RestingOrderSnapshot) : List Violation :=
  let (orderId, pre) := entry
  let filled := (quantities.get? orderId).getD 0
  match post.get? orderId with
  | some leaf =>
    match expectedPostResting pre filled w.header.height with
    | some expected =>
      reportIf (restingOrdersEqual expected leaf = false)
        ⟨.sidecarRestingOrderMismatch, s!"resting order {orderId} post leaf does not match the " ++
          "deterministic pre+fill transition"⟩
    | none =>
      [⟨.sidecarRestingOrderMismatch,
        s!"resting order {orderId} remains in post sidecar despite full fill or expiry"⟩]
  | none =>
    reportIf (¬ (orderId ∈ w.systemEvents.filterMap cancelledOrderId ∨
        pre.order.maxFill ≤ filled ∨ pre.expiresAtBlock ≤ w.header.height ∨
        ∃ market ∈ pre.order.activeMarkets, market ∈ resolvedMarketEvents w.systemEvents))
      ⟨.sidecarRestingOrderMismatch,
        s!"pre-existing resting order {orderId} was deleted without " ++
        "fill, expiry, cancellation, or market resolution"⟩

/-- Check a new leaf against the accepted order it comes from. -/
def verifyNewResting (pre : OrdMap ℕ RestingOrderSnapshot) (accepted : OrdMap ℕ WitnessOrder)
    (entry : ℕ × RestingOrderSnapshot) : List Violation :=
  let (orderId, leaf) := entry
  if pre.contains orderId then []
  else
    match accepted.get? orderId with
    | none =>
      [⟨.sidecarRestingOrderMismatch,
        s!"new post resting order {orderId} has no accepted order event"⟩]
    | some wo =>
      reportIf (wo.isMm = true)
        ⟨.sidecarRestingOrderMismatch, s!"MM order {orderId} must not appear as a resting order"⟩ ++
      reportIf (leaf.accountId ≠ wo.accountId ∨
          orderShapeMatchesExceptQty leaf.order wo.order = false)
        ⟨.sidecarRestingOrderMismatch,
          s!"new post resting order {orderId} does not match its accepted order"⟩

/-- Verify the transition of the resting book; a genesis block has none. -/
def verifyRestingOrderTransition (w : BlockWitness) : List Violation :=
  if w.previousHeader.isNone then []
  else
    let pre := keyedRestingOrders w.preStateSidecar.restingOrders
    let post := keyedRestingOrders w.stateSidecar.restingOrders
    let accepted := OrdMap.ofList (w.orders.map fun wo => (wo.order.id, wo))
    let quantities := fillQtyByOrder w.fills
    pre.2 ++ post.2 ++ quantities.2 ++
      pre.1.entries.flatMap (verifyCarriedResting w post.1 quantities.1) ++
      post.1.entries.flatMap (verifyNewResting pre.1 accepted)

end Sybil.Verifier
