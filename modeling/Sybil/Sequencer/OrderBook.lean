import Sybil.Sequencer.Validation
import Sybil.Verifier.Sidecar.RestingOrders

/-!
# The order book

Resting orders with what they reserve, and the two aggregates of it: reserved balance
by account, reserved shares by account and outcome.  Orders enter by `accept`, shrink
and leave by `settle`, and leave at the start of a block by `expire` and `revalidate`.

The aggregates are plain sums.  An addition that leaves the `i64` range would stop the
process; `accept` keeps every sum within the balance or the position it is reserved
from, so the model adds integers without a width.
-/

namespace Sybil.Sequencer

open Engine

/-! ## Orders and reservations -/

/-- A resting order. -/
structure RestingOrder where
  order : Order
  accountId : ℕ
  /-- Height at which the order was accepted. -/
  createdAt : ℕ
  /-- Last height at which the order may participate. -/
  expiresAtBlock : ℕ
  reservedBalance : ℤ
  reservedPositions : List (PositionKey × ℤ)
  hasBeenMatched : Bool
  originalMaxFill : Qty
  createdAtMs : ℕ
  deriving DecidableEq

/-- Reserved balance by account, reserved shares by account and outcome. -/
structure BookReservations where
  balance : OrdMap ℕ ℤ
  position : OrdMap (ℕ ×ₗ PositionKey) ℤ
  deriving DecidableEq

/-- The order book. -/
structure OrderBook where
  orders : List RestingOrder
  reservations : BookReservations
  /-- Longest life of an order, in blocks. -/
  ttl : ℕ
  deriving DecidableEq

/-- A release of more than is reserved. -/
inductive ReservationError where
  | negativeReplayReservation (accountId orderId : ℕ)
  | balanceOverRelease (accountId : ℕ) (currentlyReserved attemptedRelease : ℤ)
  | positionOverRelease (accountId : ℕ) (market : MarketId) (outcome : ℕ)
      (currentlyReserved attemptedRelease : ℤ)
  deriving DecidableEq

/-- Why an order left the book in `settle`. -/
inductive RestingExit where
  | settled
  | expired
  deriving DecidableEq

/-- Why an order left the book in `revalidate`. -/
inductive RestingRevalidationExit where
  | marketInactive
  | accountGone
  | accountInsolvent
  | rejected (reason : RejectionReason)
  deriving DecidableEq

namespace BookReservations

/-- Add what an order reserves; a balance of zero makes no entry. -/
def add (r : BookReservations) (ro : RestingOrder) : BookReservations where
  balance :=
    if 0 < ro.reservedBalance then
      r.balance.insert ro.accountId (r.balance.amount ro.accountId + ro.reservedBalance)
    else r.balance
  position := r.position.addAll (ro.reservedPositions.map fun entry =>
    (toLex (ro.accountId, entry.1), entry.2))

/-- Release a part of a reserved balance; an entry that becomes zero is removed. -/
def releaseBalance (r : BookReservations) (accountId : ℕ) (amount : ℤ) :
    Except ReservationError BookReservations := do
  let currentlyReserved := r.balance.amount accountId
  ensure (amount ≤ currentlyReserved)
    (.balanceOverRelease accountId currentlyReserved amount)
  if amount = currentlyReserved then pure { r with balance := r.balance.erase accountId }
  else if 0 < amount then
    pure { r with balance := r.balance.insert accountId (currentlyReserved - amount) }
  else pure r

/-- Release a part of a reserved position; an entry that becomes zero is removed. -/
def releasePosition (accountId : ℕ) (r : BookReservations) (entry : PositionKey × ℤ) :
    Except ReservationError BookReservations := do
  let key := toLex (accountId, entry.1)
  let currentlyReserved := r.position.amount key
  ensure (entry.2 ≤ currentlyReserved)
    (.positionOverRelease accountId (ofLex entry.1).1 (ofLex entry.1).2 currentlyReserved entry.2)
  if entry.2 = currentlyReserved then pure { r with position := r.position.erase key }
  else if 0 < entry.2 then
    pure { r with position := r.position.insert key (currentlyReserved - entry.2) }
  else pure r

/-- Release everything that an order reserves; nothing is released when one part is too much. -/
def release (r : BookReservations) (ro : RestingOrder) :
    Except ReservationError BookReservations := do
  ensure (ro.reservedBalance ≤ r.balance.amount ro.accountId)
    (.balanceOverRelease ro.accountId (r.balance.amount ro.accountId) ro.reservedBalance)
  checkAll (fun entry : PositionKey × ℤ =>
    let currentlyReserved := r.position.amount (toLex (ro.accountId, entry.1))
    ensure (entry.2 ≤ currentlyReserved)
      (.positionOverRelease ro.accountId (ofLex entry.1).1 (ofLex entry.1).2 currentlyReserved
        entry.2)) ro.reservedPositions
  let r ← if 0 < ro.reservedBalance then
    r.releaseBalance ro.accountId ro.reservedBalance else pure r
  ro.reservedPositions.foldlM (releasePosition ro.accountId) r

/-- The reserved positions of one account. -/
def acctPositions (r : BookReservations) (accountId : ℕ) : OrdMap PositionKey ℤ :=
  OrdMap.ofList ((r.position.entries.filter fun e => (ofLex e.1).1 = accountId).map fun e =>
    ((ofLex e.1).2, e.2))

end BookReservations

namespace OrderBook

/-- An empty book. -/
def new (ttl : ℕ) : OrderBook := ⟨[], ⟨∅, ∅⟩, ttl⟩

/-! ## Entering the book -/

/-- Accept an order: validate it against the account and the reservations, reserve, store. -/
def accept (book : OrderBook) (order : Order) (accountId : ℕ) (account : Account)
    (currentHeight createdAtMs : ℕ) : Except RejectionReason (OrderBook × RestingOrder) := do
  let cost ← validateOrderWithReservation order account
    (book.reservations.balance.amount accountId) (book.reservations.acctPositions accountId)
  let resting : RestingOrder :=
    { order
      accountId
      createdAt := currentHeight
      expiresAtBlock := order.effectiveExpiresAtBlock currentHeight book.ttl
      reservedBalance := cost
      reservedPositions := sellReservations order
      hasBeenMatched := false
      originalMaxFill := order.maxFill
      createdAtMs }
  pure ({ book with
    orders := book.orders ++ [resting]
    reservations := book.reservations.add resting }, resting)

/-- The order reserves no negative amount. -/
def hasValidReserve (ro : RestingOrder) : Bool :=
  decide (0 ≤ ro.reservedBalance) && ro.reservedPositions.all fun entry => decide (0 ≤ entry.2)

/-- Persisted form of a book; the aggregates follow from the orders. -/
def snapshot (book : OrderBook) : List RestingOrder := book.orders

/-- Rebuild a book from persisted orders; an order with a negative reserve is dropped. -/
def restore (orders : List RestingOrder) (ttl : ℕ) : OrderBook :=
  let valid := orders.filter hasValidReserve
  ⟨valid, valid.foldl BookReservations.add ⟨∅, ∅⟩, ttl⟩

/-- Put an acknowledged order back on recovery, without validating it again. -/
def reinsertForReplay (book : OrderBook) (resting : RestingOrder) :
    Except ReservationError OrderBook := do
  ensure (hasValidReserve resting = true)
    (.negativeReplayReservation resting.accountId resting.order.id)
  pure { book with
    orders := book.orders ++ [resting]
    reservations := book.reservations.add resting }

/-! ## Leaving the book -/

/-- Remove the orders that satisfy `leaves` and release their reservations. -/
def expireWhere (book : OrderBook) (leaves : RestingOrder → Bool) :
    Except ReservationError (OrderBook × List RestingOrder) := do
  let removed := book.orders.filter leaves
  let reservations ← removed.foldlM BookReservations.release book.reservations
  pure ({ book with orders := book.orders.filter (! leaves ·), reservations }, removed)

/-- Remove the orders that are expired at the start of a block. -/
def expire (book : OrderBook) (currentHeight : ℕ) :
    Except ReservationError (OrderBook × List RestingOrder) :=
  book.expireWhere fun ro => decide (ro.expiresAtBlock < currentHeight)

/-- Remove the orders whose last block is committed. -/
def expireCommittedThrough (book : OrderBook) (currentHeight : ℕ) :
    Except ReservationError (OrderBook × List RestingOrder) :=
  book.expireWhere fun ro => decide (ro.expiresAtBlock ≤ currentHeight)

/-- Why an order cannot stay, given the accounts and the tradeable markets. -/
def revalidationExit (book : OrderBook) (accounts : AccountStore) (activeMarkets : List MarketId)
    (ro : RestingOrder) : Option RestingRevalidationExit :=
  if ro.order.activeMarkets.all (fun m => activeMarkets.contains m) = false then
    some .marketInactive
  else
    match accounts.accounts.get? ro.accountId with
    | none => some .accountGone
    | some account =>
      if account.balance ≤ 0 then some .accountInsolvent
      else
        -- The order is validated against what the others reserve.
        let reservedWithoutSelf :=
          book.reservations.balance.amount ro.accountId - ro.reservedBalance
        let positionsWithoutSelf := ro.reservedPositions.foldl (fun m entry =>
          match m.get? entry.1 with
          | some qty => m.insert entry.1 (qty - entry.2)
          | none => m) (book.reservations.acctPositions ro.accountId)
        match validateOrderWithReservation ro.order account reservedWithoutSelf
          positionsWithoutSelf with
        | .ok _ => none
        | .error reason => some (.rejected reason)

/-- Remove the orders that are no longer valid.  All are judged by the reservations before the
first removal; they are removed from the last to the first. -/
def revalidate (book : OrderBook) (accounts : AccountStore) (activeMarkets : List MarketId) :
    Except ReservationError (OrderBook × List (RestingOrder × RestingRevalidationExit)) := do
  let exit := book.revalidationExit accounts activeMarkets
  let removed := (book.orders.filterMap fun ro => (exit ro).map fun reason => (ro, reason)).reverse
  let reservations ← removed.foldlM (fun r e => r.release e.1) book.reservations
  pure ({ book with orders := book.orders.filter (fun ro => (exit ro).isNone), reservations },
    removed)

/-- Why a cancellation is refused. -/
inductive CancelError where
  | notFound
  | wrongOwner
  | reservation (error : ReservationError)
  deriving DecidableEq

/-- Remove an order of an account and release its reservations. -/
def cancel (book : OrderBook) (accountId orderId : ℕ) :
    Except CancelError (OrderBook × RestingOrder) := do
  let ro ← okOr (book.orders.find? fun ro => ro.order.id = orderId) .notFound
  ensure (ro.accountId = accountId) .wrongOwner
  let reservations ← (book.reservations.release ro).mapError .reservation
  pure ({ book with
    orders := book.orders.eraseP fun ro => ro.order.id = orderId
    reservations }, ro)

/-- Undo an acceptance. -/
def cancelAccepted (book : OrderBook) (accepted : RestingOrder) :
    Except CancelError (OrderBook × RestingOrder) :=
  book.cancel accepted.accountId accepted.order.id

/-! ## Settlement -/

/-- Quantity filled of an order. -/
def filledQty (fills : List Fill) (orderId : ℕ) : ℕ :=
  ((fills.filter fun f => f.orderId = orderId).map fun f => f.fillQty).sum

/-- Shrink a partially filled order and what it reserves, in proportion and rounded up. -/
def remainder (ro : RestingOrder) (filled : ℕ) : RestingOrder :=
  let maxFill := ro.order.maxFill
  let remaining := maxFill - filled
  { ro with
    order := { ro.order with maxFill := remaining }
    reservedBalance :=
      Verifier.asI64 (ceilMulRatio (Verifier.asU64 ro.reservedBalance) remaining maxFill)
    reservedPositions := ro.reservedPositions.map fun entry =>
      (entry.1, Verifier.asI64 (ceilMulRatio (Verifier.asU64 entry.2) remaining maxFill))
    hasBeenMatched := true }

/-- Release what a remainder no longer reserves. -/
def releaseFilled (r : BookReservations) (ro rest : RestingOrder) :
    Except ReservationError BookReservations := do
  let released := ro.reservedBalance - rest.reservedBalance
  let r ← if 0 < released then r.releaseBalance ro.accountId released else pure r
  (ro.reservedPositions.zip rest.reservedPositions).foldlM (fun r entries =>
    let released := entries.1.2 - entries.2.2
    if 0 < released then BookReservations.releasePosition ro.accountId r (entries.1.1, released)
    else pure r) r

/-- What `settle` carries along the book. -/
structure SettleState where
  reservations : BookReservations
  kept : List RestingOrder
  removed : List (RestingOrder × RestingExit)

/-- Settle one order: it leaves when it is filled, when it is a market maker's or when its last
block was this one, and shrinks when it is partially filled. -/
def settleStep (fills : List Fill) (mmOrderIds : List ℕ) (currentHeight : ℕ) (st : SettleState)
    (ro : RestingOrder) : Except ReservationError SettleState := do
  let filled := filledQty fills ro.order.id
  let matched := { ro with hasBeenMatched := ro.hasBeenMatched || decide (0 < filled) }
  if ro.order.id ∈ mmOrderIds then
    let reservations ← st.reservations.release ro
    pure { st with reservations, removed := st.removed ++ [(ro, .settled)] }
  else if ro.order.maxFill ≤ filled then
    let reservations ← st.reservations.release matched
    pure { st with reservations, removed := st.removed ++ [(matched, .settled)] }
  else if ro.expiresAtBlock ≤ currentHeight then
    let reservations ← st.reservations.release matched
    pure { st with reservations, removed := st.removed ++ [(matched, .expired)] }
  else if 0 < filled then
    let rest := remainder ro filled
    let reservations ← releaseFilled st.reservations ro rest
    pure { st with reservations, kept := st.kept ++ [rest] }
  else pure { st with kept := st.kept ++ [ro] }

/-- After solving: remove what is filled or expired, shrink what is partially filled. -/
def settle (book : OrderBook) (fills : List Fill) (mmOrderIds : List ℕ) (currentHeight : ℕ) :
    Except ReservationError (OrderBook × List (RestingOrder × RestingExit)) := do
  let st ← book.orders.foldlM (settleStep fills mmOrderIds currentHeight)
    ⟨book.reservations, [], []⟩
  pure ({ book with orders := st.kept, reservations := st.reservations }, st.removed)

/-- The last check of a revalidation: a valid order stays. -/
theorem verdict_eq_none_iff (x : Except RejectionReason ℤ) :
    (match x with
      | .ok _ => none
      | .error reason => some (RestingRevalidationExit.rejected reason)) = none ↔
        ∃ c, x = .ok c := by
  rcases x with reason | c <;> simp

end OrderBook

end Sybil.Sequencer
