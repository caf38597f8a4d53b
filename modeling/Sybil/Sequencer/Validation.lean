import Sybil.Sequencer.Settlement
import Sybil.Verifier.Orders

/-!
# What an order reserves

Admission turns an order into two claims on its account: a buy reserves its
worst-case cost, a sell reserves the shares it offers.  The same two functions
validate an order against what is left of the account, and recompute the
reservations of a book that is restored from disk or imported from a witness.

Every admitted order is one-hot, and for those the functions have one value each:
`balanceReservation_buy`, `sellReservations_sell`, and the two cases
`validateOrderWithReservation_buy` and `validateOrderWithReservation_sell`.

The sequencer has its own type of rejection reasons; `convert_rejection_reason` maps
it to the verifier's constructor by constructor, and there is one type here.
-/

namespace Sybil.Sequencer

open Engine

export Verifier (RejectionReason)

/-! ## Shapes -/

/-- The order has the shape that admission supports. -/
def validateOrderShape (order : Order) : Except RejectionReason Unit :=
  order.validateBinaryOneHot.mapError .invalidOrder

/-- The side under which the budget of a bundle counts an order. -/
def mmSideForOrder (order : Order) : Except RejectionReason MmSide := do
  validateOrderShape order
  if order.payoffAt 0 = 1 ∧ order.payoffAt 1 = 0 then pure .buyYes
  else if order.payoffAt 0 = 0 ∧ order.payoffAt 1 = 1 then pure .buyNo
  else if order.payoffAt 0 = -1 ∧ order.payoffAt 1 = 0 then pure .sellYes
  else if order.payoffAt 0 = 0 ∧ order.payoffAt 1 = -1 then pure .sellNo
  else .error (.invalidOrder "MM order payoff does not identify one binary side")

/-- Ceiling of `price * qty / SHARE_SCALE` as an `i64`; the product is an `i128`. -/
def checkedNotionalCeilI64 (price : Nanos) (qty : Qty) : Except RejectionReason ℤ :=
  if price * qty + (shareScale - 1) < 2 ^ 127 then
    okOr (i64OfU64 ((price * qty + (shareScale - 1)) / shareScale))
      (.invalidOrder "order notional exceeds i64")
  else .error (.invalidOrder "price*quantity overflow")

/-- The resource floor of orders that can rest in the book. -/
def validateRestingOrderShape (order : Order) (minNotionalNanos : ℕ) :
    Except RejectionReason Unit := do
  validateOrderShape order
  ensure (order.maxFill ≠ 0)
    (.invalidOrder "resting order quantity must be greater than zero")
  ensure (order.limitPrice ≠ 0)
    (.invalidOrder "resting order price must be greater than zero")
  let notional ← checkedNotionalCeilI64 order.limitPrice order.maxFill
  ensure (minNotionalNanos ≤ notional.toNat)
    (.invalidOrder (s!"resting order notional {notional.toNat} is below minimum " ++
      s!"{minNotionalNanos} nanos"))

/-! ## Reservations -/

/-- Shares that a unit payoff sells, as an `i64`. -/
def checkedSellQtyI64 (payoff : ℤ) (maxFill : Qty) : Option ℤ :=
  if 0 ≤ payoff then none else checkedI64 (-payoff * maxFill)

/-- Balance that an order reserves at admission: the worst-case cost of a buy. -/
def balanceReservation (order : Order) : Except RejectionReason ℤ :=
  if Verifier.hasPositive order && !order.isSeller then
    checkedNotionalCeilI64 order.limitPrice order.maxFill
  else .ok 0

/-- Positions that an order reserves at admission: the shares of a sell. -/
def sellReservations (order : Order) : List (PositionKey × ℤ) :=
  if !order.isSeller || Verifier.hasPositive order || decide (order.numMarkets ≠ 1) then []
  else
    (List.range order.numStates).filterMap fun s =>
      if order.payoffAt s < 0 then
        (checkedSellQtyI64 (order.payoffAt s) order.maxFill).map fun qty =>
          (toLex (order.marketAt 0, s), qty)
      else none

/-- The account can deliver one sold outcome. -/
def validateSellOutcome (order : Order) (account : Account)
    (reservedPositions : OrdMap PositionKey ℤ) (s : ℕ) : Except RejectionReason Unit :=
  if order.payoffAt s < 0 then do
    let market := order.marketAt 0
    let sellQty ← okOr (checkedSellQtyI64 (order.payoffAt s) order.maxFill)
      (.invalidOrder "sell quantity overflow")
    let available := account.position market s - reservedPositions.amount (toLex (market, s))
    ensure (sellQty ≤ available) (.insufficientPosition market s sellQty available)
  else .ok ()

/-- Validate an order against what others left of its account; the result is the balance to
reserve. -/
def validateOrderWithReservation (order : Order) (account : Account) (reservedBalance : ℤ)
    (reservedPositions : OrdMap PositionKey ℤ) : Except RejectionReason ℤ := do
  validateOrderShape order
  if Verifier.hasPositive order && !order.isSeller then
    let maxCost ← balanceReservation order
    let available := account.balance - reservedBalance
    ensure (maxCost ≤ available) (.insufficientBalance maxCost available)
    pure maxCost
  else if order.isSeller && !Verifier.hasPositive order && decide (order.numMarkets = 1) then
    checkAll (validateSellOutcome order account reservedPositions) (List.range order.numStates)
    pure 0
  else pure 0

/-! ## One-hot orders -/

theorem validateOrderShape_eq_ok {order : Order} :
    validateOrderShape order = .ok () ↔ order.validateBinaryOneHot = .ok () :=
  mapError_eq_ok

/-- Worst-case cost of a buy. -/
def buyCost (order : Order) : ℕ :=
    (order.limitPrice * order.maxFill + (shareScale - 1)) / shareScale

section OneHot

variable {order : Order} {outcome : ℕ} {sells : Bool}

theorem hasPositive_of_oneHot (h : order.BinaryOneHot outcome sells) :
    Verifier.hasPositive order = !sells := by
  have hp := h.payoff
  have ho := h.other
  rw [Verifier.hasPositive, h.numStates, Order.take_two_payoffs]
  rcases h.binary with rfl | rfl <;> cases sells <;> simp_all

theorem bounds_of_validate (h : order.validateBinaryOneHot = .ok ()) :
    order.limitPrice ≤ nanosPerDollar ∧ order.maxFill ≤ maxOrderQty := by
  unfold Order.validateBinaryOneHot at h
  split_ifs at h with h₁ h₂ h₃ h₄ h₅ h₆
  exact ⟨not_lt.mp h₅, not_lt.mp h₆⟩

theorem validate_remaining (h : order.validateBinaryOneHot = .ok ()) {qty : Qty}
    (hqty : qty ≤ order.maxFill) :
    Order.validateBinaryOneHot { order with maxFill := qty } = .ok () := by
  have hmax : qty ≤ maxOrderQty := hqty.trans (bounds_of_validate h).2
  unfold Order.validateBinaryOneHot at h ⊢
  split_ifs at h with h₁ h₂ h₃ h₄ h₅ h₆ h₇ h₈ h₉
  simp only [Order.marketAt] at h₃ ⊢
  rw [if_neg h₁, if_neg h₂, if_neg h₃, if_neg h₄, if_neg h₅, if_neg (not_lt.mpr hmax), if_neg h₇,
    if_neg h₈, if_neg h₉]

/-- The cost of an admitted order is far below the width of a balance. -/
theorem buyCost_lt (h : order.validateBinaryOneHot = .ok ()) : buyCost order < 2 ^ 63 := by
  obtain ⟨hlimit, hfill⟩ := bounds_of_validate h
  have hproduct := Nat.mul_le_mul hlimit hfill
  simp only [buyCost, nanosPerDollar, maxOrderQty, shareScale] at *
  omega

/-- The product of an admitted order fits an `i128`. -/
theorem notional_lt (h : order.validateBinaryOneHot = .ok ()) :
    order.limitPrice * order.maxFill + (shareScale - 1) < 2 ^ 127 := by
  obtain ⟨hlimit, hfill⟩ := bounds_of_validate h
  have hproduct := Nat.mul_le_mul hlimit hfill
  exact (Nat.add_le_add_right hproduct _).trans_lt
    (by norm_num [nanosPerDollar, maxOrderQty, shareScale])

theorem balanceReservation_buy (h : order.validateBinaryOneHot = .ok ())
    (hshape : order.BinaryOneHot outcome false) :
    balanceReservation order = .ok (buyCost order) := by
  have hlt := buyCost_lt h
  have hwidth := notional_lt h
  have hcast : i64OfU64 (buyCost order) = some (buyCost order : ℤ) :=
    i64OfU64_eq_some_iff.mpr ⟨hlt, rfl⟩
  rw [balanceReservation, hasPositive_of_oneHot hshape, hshape.isSeller_eq]
  simp only [Bool.not_false, Bool.and_self, if_true, checkedNotionalCeilI64, if_pos hwidth]
  rw [← buyCost, hcast]
  rfl

theorem balanceReservation_sell (hshape : order.BinaryOneHot outcome true) :
    balanceReservation order = .ok 0 := by
  rw [balanceReservation, hasPositive_of_oneHot hshape]
  rfl

theorem sellReservations_buy (hshape : order.BinaryOneHot outcome false) :
    sellReservations order = [] := by
  rw [sellReservations, hshape.isSeller_eq]
  rfl

theorem checkedSellQtyI64_neg_one (h : order.validateBinaryOneHot = .ok ()) :
    checkedSellQtyI64 (-1) order.maxFill = some (order.maxFill : ℤ) := by
  have hfill : (order.maxFill : ℤ) ≤ 1000000000 := by exact_mod_cast (bounds_of_validate h).2
  rw [checkedSellQtyI64, if_neg (by decide), checkedI64_eq_some_iff]
  omega

theorem sellReservations_sell (h : order.validateBinaryOneHot = .ok ())
    (hshape : order.BinaryOneHot outcome true) :
    sellReservations order = [(toLex (order.marketAt 0, outcome), (order.maxFill : ℤ))] := by
  have hqty := checkedSellQtyI64_neg_one h
  have hp := hshape.payoff
  have ho := hshape.other
  rw [sellReservations, hshape.isSeller_eq, hasPositive_of_oneHot hshape, hshape.numMarkets,
    hshape.numStates]
  rcases hshape.binary with rfl | rfl
  · simp_all [List.range_succ]
  · simp_all [List.range_succ]

variable {account : Account} {reservedBalance c : ℤ} {reservedPositions : OrdMap PositionKey ℤ}

/-- A buy is compared with what others left of the balance. -/
theorem validateOrderWithReservation_eq_buy (h : order.validateBinaryOneHot = .ok ())
    (hshape : order.BinaryOneHot outcome false) :
    validateOrderWithReservation order account reservedBalance reservedPositions =
      if (buyCost order : ℤ) ≤ account.balance - reservedBalance then .ok (buyCost order : ℤ)
      else .error (.insufficientBalance (buyCost order) (account.balance - reservedBalance)) := by
  have hvalue : validateOrderWithReservation order account reservedBalance reservedPositions =
      ensure ((buyCost order : ℤ) ≤ account.balance - reservedBalance)
        (.insufficientBalance (buyCost order) (account.balance - reservedBalance)) >>=
          fun _ => pure (buyCost order : ℤ) := by
    simp only [validateOrderWithReservation, validateOrderShape_eq_ok.mpr h,
      hasPositive_of_oneHot hshape, hshape.isSeller_eq, Bool.not_false, Bool.and_self, if_true,
      balanceReservation_buy h hshape]
    rfl
  rw [hvalue, ensure]
  split_ifs
  · rfl
  · rfl

/-- A buy is covered by what others left of the balance. -/
theorem validateOrderWithReservation_buy (h : order.validateBinaryOneHot = .ok ())
    (hshape : order.BinaryOneHot outcome false) :
    validateOrderWithReservation order account reservedBalance reservedPositions = .ok c ↔
      (buyCost order : ℤ) ≤ account.balance - reservedBalance ∧ c = buyCost order := by
  rw [validateOrderWithReservation_eq_buy h hshape]
  split_ifs with hcover
  · simp [hcover, eq_comm]
  · simp [hcover]

/-- A sell is compared with what others left of the position. -/
theorem validateOrderWithReservation_eq_sell (h : order.validateBinaryOneHot = .ok ())
    (hshape : order.BinaryOneHot outcome true) :
    validateOrderWithReservation order account reservedBalance reservedPositions =
      if (order.maxFill : ℤ) ≤ account.position (order.marketAt 0) outcome -
          reservedPositions.amount (toLex (order.marketAt 0, outcome)) then .ok 0
      else .error (.insufficientPosition (order.marketAt 0) outcome order.maxFill
        (account.position (order.marketAt 0) outcome -
          reservedPositions.amount (toLex (order.marketAt 0, outcome)))) := by
  have hqty := checkedSellQtyI64_neg_one h
  have hsold : validateSellOutcome order account reservedPositions outcome =
      ensure ((order.maxFill : ℤ) ≤ account.position (order.marketAt 0) outcome -
          reservedPositions.amount (toLex (order.marketAt 0, outcome)))
        (.insufficientPosition (order.marketAt 0) outcome order.maxFill
          (account.position (order.marketAt 0) outcome -
            reservedPositions.amount (toLex (order.marketAt 0, outcome)))) := by
    have hp : order.payoffAt outcome = -1 := hshape.payoff
    simp only [validateSellOutcome, hp, hqty, okOr, if_pos (show (-1 : ℤ) < 0 by decide)]
    rfl
  have hother : validateSellOutcome order account reservedPositions (1 - outcome) = .ok () := by
    simp [validateSellOutcome, hshape.other]
  have hall : checkAll (validateSellOutcome order account reservedPositions) (List.range 2) =
      validateSellOutcome order account reservedPositions outcome := by
    rcases hshape.binary with rfl | rfl
    · simp only [List.range_succ, List.range_zero, List.nil_append, List.cons_append, checkAll,
        hother]
      cases validateSellOutcome order account reservedPositions 0 <;> rfl
    · simp only [List.range_succ, List.range_zero, List.nil_append, List.cons_append, checkAll,
        hother]
      cases validateSellOutcome order account reservedPositions 1 <;> rfl
  have hvalue : validateOrderWithReservation order account reservedBalance reservedPositions =
      checkAll (validateSellOutcome order account reservedPositions) (List.range 2) >>=
        fun _ => pure 0 := by
    simp only [validateOrderWithReservation, validateOrderShape_eq_ok.mpr h,
      hasPositive_of_oneHot hshape, hshape.isSeller_eq, hshape.numMarkets, hshape.numStates]
    rfl
  rw [hvalue, hall, hsold, ensure]
  split_ifs
  · rfl
  · rfl

/-- A sell is covered by what others left of the position. -/
theorem validateOrderWithReservation_sell (h : order.validateBinaryOneHot = .ok ())
    (hshape : order.BinaryOneHot outcome true) :
    validateOrderWithReservation order account reservedBalance reservedPositions = .ok c ↔
      (order.maxFill : ℤ) ≤ account.position (order.marketAt 0) outcome -
        reservedPositions.amount (toLex (order.marketAt 0, outcome)) ∧ c = 0 := by
  rw [validateOrderWithReservation_eq_sell h hshape]
  split_ifs with hcover
  · simp [hcover, eq_comm]
  · simp [hcover]

/-- An order passes exactly when the account has what it takes. -/
theorem validated_iff (h : order.validateBinaryOneHot = .ok ())
    (hshape : order.BinaryOneHot outcome sells) :
    (∃ c, validateOrderWithReservation order account reservedBalance reservedPositions = .ok c) ↔
      if sells then
        (order.maxFill : ℤ) ≤ account.position (order.marketAt 0) outcome -
          reservedPositions.amount (toLex (order.marketAt 0, outcome))
      else (buyCost order : ℤ) ≤ account.balance - reservedBalance := by
  cases sells with
  | true => simp [validateOrderWithReservation_sell h hshape]
  | false => simp [validateOrderWithReservation_buy h hshape]

end OneHot

end Sybil.Sequencer
