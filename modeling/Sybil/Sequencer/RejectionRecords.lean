import Sybil.Sequencer.Reservations
import Sybil.Sequencer.Snapshots
import Sybil.Verifier.KeySoundness
import Sybil.Verifier.Rejections

/-!
# Recorded rejections

A block records the orders that the book refused, each with the reason of the refusal.
The verifier checks the reason against the accounts before the fills.

The two sides read a position differently.  The book compares a sell with what *others
left* of the position, and states that as available.  The verifier compares the stated
number with the position itself.  They agree exactly when nothing of the outcome is
reserved (`verifyRejected_accept_iff`); an account that rests one sell and is refused
another makes the sequencer's own block fail (`honest_rejection_refused`).  Reasons of
the other kinds agree always.
-/

namespace Sybil.Sequencer

open Engine

open Verifier (WitnessRejection BlockWitness AccountSnapshot accountsOf verifyOrders
  verifyRejected verifyRejectionReason verifyBalanceRejection firstPosition)

section Agreement

variable {order : Order} {outcome : ℕ}

/-- The two crates compute the same cost of an admitted order. -/
theorem checkedPriceQtyCeil_eq (h : order.validateBinaryOneHot = .ok ()) :
    Verifier.checkedPriceQtyCeil order.limitPrice order.maxFill = some (buyCost order : ℤ) := by
  have hlt := buyCost_lt h
  have hwidth := notional_lt h
  have hword : checkedU64 ((order.limitPrice * order.maxFill + (shareScale - 1)) / shareScale) =
      some (buyCost order) :=
    checkedU64_eq_some_iff.mpr ⟨hlt.trans (by norm_num), rfl⟩
  rw [Verifier.checkedPriceQtyCeil, Engine.checkedNotionalCeilI64, checkedNotionalNanosCeil,
    if_pos hwidth, hword]
  exact i64OfU64_eq_some_iff.mpr ⟨hlt, rfl⟩

/-- The cost that a refused buy states is the one that the verifier computes. -/
theorem verifyBalanceRejection_buyCost (h : order.validateBinaryOneHot = .ok ()) :
    verifyBalanceRejection order (buyCost order) = [] := by
  unfold verifyBalanceRejection
  rw [checkedPriceQtyCeil_eq h]
  split_ifs
  · simp [reportIf]
  · rfl

variable {account : Account} {accountId height nowMs : ℕ} {book : OrderBook}
  {reason : RejectionReason}

/-- The book refuses an order for its shape, or for what others left of the account. -/
theorem accept_eq_error (h : book.accept order accountId account height nowMs = .error reason) :
    (∃ text, order.validateBinaryOneHot = .error text ∧ reason = .invalidOrder text) ∨
      (order.validateBinaryOneHot = .ok () ∧
        ((∃ outcome, order.BinaryOneHot outcome false ∧
            account.balance - book.reservations.balance.amount accountId < buyCost order ∧
            reason = .insufficientBalance (buyCost order)
              (account.balance - book.reservations.balance.amount accountId)) ∨
          ∃ outcome, order.BinaryOneHot outcome true ∧
            account.position (order.marketAt 0) outcome - book.reservations.position.amount
              (toLex (accountId, toLex (order.marketAt 0, outcome))) < order.maxFill ∧
            reason = .insufficientPosition (order.marketAt 0) outcome order.maxFill
              (account.position (order.marketAt 0) outcome -
                book.reservations.position.amount
                  (toLex (accountId, toLex (order.marketAt 0, outcome)))))) := by
  have hvalidated : validateOrderWithReservation order account
      (book.reservations.balance.amount accountId) (book.reservations.acctPositions accountId) =
      .error reason := by
    unfold OrderBook.accept at h
    cases hcost : validateOrderWithReservation order account
        (book.reservations.balance.amount accountId)
        (book.reservations.acctPositions accountId) with
    | error found =>
      rw [hcost] at h
      exact congrArg Except.error (Except.error.inj h)
    | ok cost =>
      rw [hcost] at h
      exact nomatch h
  cases hvalid : order.validateBinaryOneHot with
  | error text =>
    have hshape : validateOrderShape order = .error (.invalidOrder text) := by
      rw [validateOrderShape, hvalid]
      rfl
    rw [validateOrderWithReservation, hshape] at hvalidated
    exact .inl ⟨text, rfl, (Except.error.inj hvalidated).symm⟩
  | ok _ =>
    refine .inr ⟨rfl, ?_⟩
    obtain ⟨outcome, sells, hshape⟩ := Order.binaryOneHot_of_validate hvalid
    cases sells with
    | false =>
      rw [validateOrderWithReservation_eq_buy hvalid hshape] at hvalidated
      split_ifs at hvalidated with hfunds
      exact .inl ⟨outcome, hshape, not_le.mp hfunds, (Except.error.inj hvalidated).symm⟩
    | true =>
      rw [validateOrderWithReservation_eq_sell hvalid hshape,
        BookReservations.amount_acctPositions] at hvalidated
      split_ifs at hvalidated with hshares
      exact .inr ⟨outcome, hshape, not_le.mp hshares, (Except.error.inj hvalidated).symm⟩

/-- **When the record of a refusal verifies.**  The book refused an order while a block was
produced, and the witness of the block shows the accounts that it was refused against.  The check
of the recorded reason is silent exactly when the order is not a sell, or nothing of the outcome
that it sells was reserved. -/
theorem verifyRejected_accept_iff (P : Primitives) (s : TradingSequencer) (input : BlockInput)
    (intake : Intake) (fills : List Fill) (finalized : FinalizedBlockState) (totalWelfare : ℤ)
    (settled : OrderBook) (hkeyed : s.accounts.Keyed)
    (haccount : (s.loggedAccounts P).accounts.get? accountId = some account)
    (hreject : book.accept order accountId account height nowMs = .error reason) :
    let w := s.assembleWitness P input intake fills finalized totalWelfare settled
    verifyRejected w (accountsOf w.postSystemState) ⟨order, accountId, reason⟩ = [] ↔
      ∀ outcome, order.validateBinaryOneHot = .ok () → order.BinaryOneHot outcome true →
        book.reservations.position.amount
          (toLex (accountId, toLex (order.marketAt 0, outcome))) = 0 := by
  intro w
  have hsnapshot : (accountsOf w.postSystemState).get? accountId =
      some (snapshotAccount input.keyState account) := by
    rw [show w.postSystemState = snapshotAccounts input.keyState (s.loggedAccounts P) from rfl,
      get?_snapshotAccounts _ (hkeyed.loggedAccounts P), haccount]
    rfl
  simp only [verifyRejected, hsnapshot]
  rcases accept_eq_error hreject with ⟨text, hvalid, rfl⟩ | ⟨hvalid, hfunds⟩
  · simp [verifyRejectionReason, hvalid, reportIf, Except.isOk, Except.toBool]
  · obtain ⟨outcome, hshape, -, rfl⟩ | ⟨outcome, hshape, -, rfl⟩ := hfunds
    · -- A buy reserves no position, whatever its outcome is taken to be.
      simp only [verifyRejectionReason, verifyBalanceRejection_buyCost hvalid, true_iff]
      intro outcome' _ hsell
      have hseller := hshape.isSeller_eq.symm.trans hsell.isSeller_eq
      exact absurd hseller (by decide)
    · simp only [verifyRejectionReason, reportIf_eq_nil, not_not, firstPosition_snapshotAccount]
      constructor
      · intro hstated outcome' _ hsell
        obtain rfl := hshape.outcome_unique hsell
        omega
      · intro hnone
        rw [hnone outcome hvalid hshape, sub_zero]

end Agreement

/-! ## An honest refusal that does not verify -/

/-- A dollar and ten shares of an outcome of market `7`. -/
def tenShares (id outcome : ℕ) : Account :=
  ⟨id, 1000000000, OrdMap.ofList [(toLex (7, outcome), 10000)], 1000000000, 0⟩

/-- Account `1` holds ten shares of YES and account `2` ten of NO; nothing rests. -/
def twoHolders : TradingSequencer where
  accounts := ⟨(OrdMap.insert ∅ 1 (tenShares 1 0)).insert 2 (tenShares 2 1), 3⟩
  nextOrderId := 1
  orderBook := .new 10
  height := 1
  markets := [7]
  nextMarketId := 8
  resolved := ∅
  marketGroups := []
  bridge := .initial
  pendingSystemEvents := []
  pendingBundles := []
  pendingSignedMmBundles := []
  committedRestingOrders := []
  minRestingOrderNotionalNanos := 0

/-- Account `1` sells a quantity of YES. -/
def sellSubmission (qty : Qty) : OrderSubmission where
  accountId := 1
  orders := [{ Verifier.yesSell 0 with maxFill := qty }]
  mmConstraint := none

/-- A block with given submissions and no fills. -/
def quietBlock (submissions : List OrderSubmission) : BlockInput where
  submissions
  timestampMs := 0
  solution := ⟨[], ∅, 0⟩
  frame := Verifier.rejectingBlock []
  keyState _ := (0, 0)

/-- A sell of six shares rests, and the block is sent a sell of five more. -/
def oversoldBlock : Except TradingError BlockProduction :=
  (twoHolders.tryAdmitDirectWithIoc (sellSubmission 6000) 0 false).1.prepareBlock
    (Verifier.separating []) (quietBlock [sellSubmission 5000])

/-- **A produced block fails on its own record of a refusal.**  Six of the ten shares are reserved,
so the second sell is refused with four available; the verifier finds ten. -/
theorem honest_rejection_refused :
    oversoldBlock.toOption.map (fun production =>
        (production.witness.rejections, verifyOrders production.witness)) =
      some ([⟨{ Verifier.yesSell 2 with maxFill := 5000 }, 1,
          .insufficientPosition 7 0 5000 4000⟩],
        [⟨.incorrectRejectionReason,
          "Order 2: rejection says available=4000 but actual position=10000"⟩]) := by
  decide +kernel

theorem keyed_twoHolders : twoHolders.accounts.Keyed :=
  AccountStore.keyed_of_entries (by decide +kernel)

/-- Eleven shares are refused to a holder of ten. -/
theorem accept_oversold :
    OrderBook.accept (.new 10) { Verifier.yesSell 2 with maxFill := 11000 } 1 (tenShares 1 0) 2 0 =
      .error (.insufficientPosition 7 0 11000 10000) := by
  rfl

/-- With nothing reserved the record of a refusal verifies. -/
theorem verifyRejected_accept_unreserved :
    ∃ intake fills finalized totalWelfare settled,
      let w := twoHolders.assembleWitness (Verifier.separating []) (quietBlock []) intake fills
        finalized totalWelfare settled
      verifyRejected w (accountsOf w.postSystemState)
        ⟨{ Verifier.yesSell 2 with maxFill := 11000 }, 1,
          .insufficientPosition 7 0 11000 10000⟩ = [] :=
  ⟨twoHolders.startIntake (.new 10), [], ⟨twoHolders.accounts, 0, []⟩, 0, .new 10,
    (verifyRejected_accept_iff _ twoHolders _ _ _ _ _ _ keyed_twoHolders rfl accept_oversold).mpr
      fun _ _ _ => rfl⟩

end Sybil.Sequencer
