import Sybil.Sequencer.OrderBook
import Sybil.Verifier.Schema

/-!
# Restoring a book

A node that starts from disk, and an operator that takes over from a witness, rebuild
the book from resting orders that somebody else wrote down.  They do not trust the
reservations that come with them: `validateRestoredReservations` recomputes them and
refuses to serve on any difference.

A sidecar leaf does not say whether its order was matched before.  The import infers
it from the reserved balance, so of an imported leaf the check asks three things
(`validateRestoredOrder_import`): the shape, the reserved shares, and that the reserved
balance covers the order.
-/

namespace Sybil.Sequencer

open Engine

open Verifier (RestingOrderSnapshot)

/-- Why a restored order is refused. -/
inductive ReservationRestoreError where
  | orderBalanceMismatch (accountId orderId : ℕ) (stored recomputed : ℤ)
  | orderBalanceBelowMinimum (accountId orderId : ℕ) (stored minimum : ℤ)
  | orderBalanceAboveMaximum (accountId orderId : ℕ) (stored maximum : ℤ)
  | orderPositionsMismatch (accountId orderId : ℕ) (stored recomputed : List (PositionKey × ℤ))
  | invalidOrder (accountId orderId : ℕ) (reason : RejectionReason)
  deriving DecidableEq

/-- Check the reservation of one restored order.  A matched remainder was scaled down with
rounding, so its balance is only bounded. -/
def validateRestoredOrder (resting : RestingOrder) : Except ReservationRestoreError Unit := do
  let accountId := resting.accountId
  let orderId := resting.order.id
  let invalid := ReservationRestoreError.invalidOrder accountId orderId
  (validateOrderShape resting.order).mapError invalid
  let minimum ← (balanceReservation resting.order).mapError invalid
  ensure (resting.reservedPositions = sellReservations resting.order)
    (.orderPositionsMismatch accountId orderId resting.reservedPositions
      (sellReservations resting.order))
  if resting.hasBeenMatched then
    ensure (minimum ≤ resting.reservedBalance)
      (.orderBalanceBelowMinimum accountId orderId resting.reservedBalance minimum)
    if resting.order.maxFill < resting.originalMaxFill then
      let original := { resting.order with maxFill := resting.originalMaxFill }
      let maximum ← (do
        validateOrderShape original
        balanceReservation original).mapError invalid
      ensure (resting.reservedBalance ≤ maximum)
        (.orderBalanceAboveMaximum accountId orderId resting.reservedBalance maximum)
  else
    ensure (resting.reservedBalance = minimum)
      (.orderBalanceMismatch accountId orderId resting.reservedBalance minimum)

/-- Check the reservations of a restored book. -/
def validateRestoredReservations (orders : List RestingOrder) :
    Except ReservationRestoreError Unit :=
  checkAll validateRestoredOrder orders

/-- A resting order as an import reads it from its leaf. -/
def restingOrderFromSnapshot (snapshot : RestingOrderSnapshot) : RestingOrder where
  order := snapshot.order
  accountId := snapshot.accountId
  createdAt := snapshot.createdAt
  expiresAtBlock := snapshot.expiresAtBlock
  reservedBalance := snapshot.reservedBalance
  reservedPositions := snapshot.reservedPositions.map fun entry =>
    (toLex (entry.1, entry.2.1), entry.2.2)
  -- Inferred: a balance other than the admission cost was scaled by a fill.
  hasBeenMatched :=
    match (do validateOrderShape snapshot.order; balanceReservation snapshot.order) with
    | .ok admissionCost => decide (snapshot.reservedBalance ≠ admissionCost)
    | .error _ => false
  originalMaxFill := snapshot.order.maxFill
  createdAtMs := 0

/-- The leaf of a resting order; its reserved positions are sorted. -/
def restingOrderSnapshot (resting : RestingOrder) : RestingOrderSnapshot where
  order := resting.order
  accountId := resting.accountId
  createdAt := resting.createdAt
  expiresAtBlock := resting.expiresAtBlock
  reservedBalance := resting.reservedBalance
  reservedPositions :=
    (Verifier.sortByKey (fun entry : PositionKey × ℤ => entry.1) resting.reservedPositions).map
      fun entry => ((ofLex entry.1).1, (ofLex entry.1).2, entry.2)

/-- The leaves of a book, by order id. -/
def restingOrderSnapshots (orders : List RestingOrder) : List RestingOrderSnapshot :=
  Verifier.sortByKey (fun leaf => leaf.order.id) (orders.map restingOrderSnapshot)

/-- **What an import asks of a leaf.** -/
theorem validateRestoredOrder_import {leaf : RestingOrderSnapshot} {minimum : ℤ}
    (hshape : leaf.order.validateBinaryOneHot = .ok ())
    (hminimum : balanceReservation leaf.order = .ok minimum) :
    validateRestoredOrder (restingOrderFromSnapshot leaf) = .ok () ↔
      (leaf.reservedPositions.map fun entry =>
        ((toLex (entry.1, entry.2.1) : PositionKey), entry.2.2)) = sellReservations leaf.order ∧
      minimum ≤ leaf.reservedBalance := by
  have hvalidate := validateOrderShape_eq_ok.mpr hshape
  have hmatched : (restingOrderFromSnapshot leaf).hasBeenMatched =
      decide (leaf.reservedBalance ≠ minimum) := by
    simp [restingOrderFromSnapshot, hvalidate, hminimum, bind, Except.bind]
  have horiginal : ¬ (restingOrderFromSnapshot leaf).order.maxFill <
      (restingOrderFromSnapshot leaf).originalMaxFill := lt_irrefl _
  simp only [validateRestoredOrder, hmatched, if_neg horiginal]
  by_cases heq : leaf.reservedBalance = minimum
  · simp [heq, bind_eq_ok, restingOrderFromSnapshot, hvalidate, hminimum]
  · simp [heq, bind_eq_ok, restingOrderFromSnapshot, hvalidate, hminimum]

end Sybil.Sequencer
