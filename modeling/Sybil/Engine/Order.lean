import Sybil.Engine.Types
import Sybil.Lib.OrdMap

/-!
# Orders, fills and market-maker constraints

An order is a payoff vector over the joint outcomes of up to five binary markets.
Production admits one shape only, a single `±1` in one binary market
(`validateBinaryOneHot`), and `binaryOneHot_of_validate` turns that check into the
four cases the settlement code branches on.

Array slices follow the lengths stored in the order.  The source panics when
`num_states` exceeds the array; the model truncates there.
-/

namespace Sybil.Engine

/-- Direction of a conditional activation. -/
inductive ConditionDir where
  | above
  | below
  deriving DecidableEq, Repr

/-- Price condition under which an order is active. -/
structure PriceCondition where
  market : MarketId
  threshold : Nanos
  direction : ConditionDir
  deriving DecidableEq, Repr

/-- An order as a payoff vector over atomic states. -/
structure Order where
  id : ℕ
  /-- Markets spanned; unused slots hold `MarketId.none`. -/
  markets : Vector MarketId 5
  numMarkets : ℕ
  /-- Payoff per atomic state (`i8`). -/
  payoffs : Vector ℤ 32
  numStates : ℕ
  limitPrice : Nanos
  maxFill : Qty
  condition : Option PriceCondition
  /-- Last block height at which the order is eligible. -/
  expiresAtBlock : Option ℕ
  deriving DecidableEq, Repr

/-- How much of an order was filled, and at which price. -/
structure Fill where
  orderId : ℕ
  fillQty : Qty
  fillPrice : Nanos
  /-- Account that placed the order; `0` when the solver made the fill. -/
  accountId : ℕ
  deriving DecidableEq, Repr

namespace Order

/-- A new order with default values. -/
def new (id : ℕ) : Order where
  id := id
  markets := Vector.replicate 5 MarketId.none
  numMarkets := 0
  payoffs := Vector.replicate 32 0
  numStates := 0
  limitPrice := 0
  maxFill := 0
  condition := none
  expiresAtBlock := none

theorem firstMarket_lt : 0 < 5 := by decide

/-- An order has a first state. -/
theorem firstState_lt : 0 < 32 := by decide

/-- Both states of a binary market have a payoff. -/
theorem state_lt (outcome : Fin 2) : outcome.val < 32 := by omega

/-- The active markets of an order. -/
def activeMarkets (o : Order) : List MarketId := o.markets.toList.take o.numMarkets

/-- Payoff of a state; `0` outside the array. -/
def payoffAt (o : Order) (s : ℕ) : ℤ := o.payoffs.toList.getD s 0

/-- Market of a slot; `none` outside the array. -/
def marketAt (o : Order) (i : ℕ) : MarketId := o.markets.toList.getD i MarketId.none

/-- An order with a negative payoff sells. -/
def isSeller (o : Order) : Bool := (o.payoffs.toList.take o.numStates).any fun p => decide (p < 0)

/-- Is a price acceptable to the order? -/
def isSatisfiedAtPrice (o : Order) (price : Nanos) : Bool :=
  if o.isSeller then decide (o.limitPrice ≤ price) else decide (price ≤ o.limitPrice)

/-- Last height at which the order may participate, capped by the system's TTL. -/
def effectiveExpiresAtBlock (o : Order) (createdAt systemTtlBlocks : ℕ) : ℕ :=
  let systemExpiry := min (createdAt + systemTtlBlocks) (2 ^ 64 - 1)
  min (o.expiresAtBlock.getD systemExpiry) systemExpiry

/-- The order shape that public admission supports: one binary market, one `±1` payoff. -/
def validateBinaryOneHot (o : Order) : Except String Unit :=
  if o.numMarkets ≠ 1 then .error "orders must span exactly one market"
  else if o.numStates ≠ 2 then .error "orders must have exactly two binary states"
  else if o.marketAt 0 = MarketId.none then .error "orders must reference a concrete market"
  else if (o.markets.toList.drop 1).any (· ≠ MarketId.none) then
    .error "inactive market entries must be NONE"
  else if nanosPerDollar < o.limitPrice then .error "limit price exceeds NANOS_PER_DOLLAR"
  else if maxOrderQty < o.maxFill then .error "order quantity exceeds MAX_ORDER_QTY"
  else if ((o.payoffs.toList.take 2).filter (· ≠ 0)).length ≠ 1 then
    .error "orders must have exactly one non-zero payoff"
  else if !(o.payoffs.toList.take 2).any (fun p => p = 1 ∨ p = -1) then
    .error "non-zero payoff must be +1 or -1"
  else if (o.payoffs.toList.drop 2).any (· ≠ 0) then
    .error "inactive payoff entries must be zero"
  else .ok ()

/-- **Binary one-hot.**  The order trades one outcome of one binary market, one share per unit. -/
structure BinaryOneHot (o : Order) (outcome : ℕ) (sells : Bool) : Prop where
  numMarkets : o.numMarkets = 1
  numStates : o.numStates = 2
  /-- The traded outcome is YES (`0`) or NO (`1`). -/
  binary : outcome = 0 ∨ outcome = 1
  /-- `-1` for a sell and `+1` for a buy. -/
  payoff : o.payoffAt outcome = if sells then -1 else 1
  /-- The other outcome has no payoff. -/
  other : o.payoffAt (1 - outcome) = 0

theorem take_two_payoffs (o : Order) :
    o.payoffs.toList.take 2 = [o.payoffAt 0, o.payoffAt 1] := by
  have hlen : o.payoffs.toList.length = 32 := by simp
  match h : o.payoffs.toList with
  | [] => simp [h] at hlen
  | [a] => simp [h] at hlen
  | a :: b :: l => simp [payoffAt, h]

variable {o : Order}

/-- The admission check accepts binary one-hot orders only. -/
theorem binaryOneHot_of_validate (h : o.validateBinaryOneHot = .ok ()) :
    ∃ outcome sells, o.BinaryOneHot outcome sells := by
  unfold validateBinaryOneHot at h
  split_ifs at h with h₁ h₂ h₃ h₄ h₅ h₆ h₇ h₈ h₉
  rw [not_ne_iff] at h₁ h₂ h₇
  rw [take_two_payoffs] at h₇ h₈
  by_cases hy : o.payoffAt 0 = 0
  · have hn : o.payoffAt 1 = 1 ∨ o.payoffAt 1 = -1 := by
      simpa [hy, or_iff_not_imp_left] using h₈
    rcases hn with hn | hn
    · exact ⟨1, false, h₁, h₂, Or.inr rfl, hn, hy⟩
    · exact ⟨1, true, h₁, h₂, Or.inr rfl, hn, hy⟩
  · have hn : o.payoffAt 1 = 0 := by
      by_contra hn
      simp [hy, hn] at h₇
    have hy : o.payoffAt 0 = 1 ∨ o.payoffAt 0 = -1 := by
      simpa [hn, or_iff_not_imp_left] using h₈
    rcases hy with hy | hy
    · exact ⟨0, false, h₁, h₂, Or.inl rfl, hy, hn⟩
    · exact ⟨0, true, h₁, h₂, Or.inl rfl, hy, hn⟩

theorem BinaryOneHot.outcome_unique {outcome outcome' : ℕ} {sells sells' : Bool}
    (h : o.BinaryOneHot outcome sells) (h' : o.BinaryOneHot outcome' sells') :
    outcome = outcome' := by
  have hne : o.payoffAt outcome ≠ 0 := by
    rw [h.payoff]
    split <;> decide
  rcases h.binary with rfl | rfl <;> rcases h'.binary with rfl | rfl
  · rfl
  · exact absurd h'.other hne
  · exact absurd h'.other hne
  · rfl

/-- A one-hot order is a seller exactly when its payoff is negative. -/
theorem BinaryOneHot.isSeller_eq {outcome : ℕ} {sells : Bool} (h : o.BinaryOneHot outcome sells) :
    o.isSeller = sells := by
  have hp := h.payoff
  have ho := h.other
  rw [isSeller, h.numStates, take_two_payoffs]
  rcases h.binary with rfl | rfl <;> cases sells <;> simp_all

end Order

/-! ## Market makers -/

/-- Side of a market maker's order, for the capital computation. -/
inductive MmSide where
  | sellYes
  | buyYes
  | sellNo
  | buyNo
  deriving DecidableEq, Repr

/-- Capital locked by an order at a price of the traded outcome, rounded up. -/
def MmSide.checkedCapitalNeeded (side : MmSide) (price : Nanos) (quantity : Qty) : Option Nanos :=
  match side with
  | .sellYes | .sellNo =>
    if nanosPerDollar < price then none
    else checkedNotionalNanosCeil (nanosPerDollar - price) quantity
  | .buyYes | .buyNo => checkedNotionalNanosCeil price quantity

/-- A capital budget shared by the orders of one market maker. -/
structure MmConstraint where
  mmId : ℕ
  maxCapital : Nanos
  orderIds : List ℕ
  orderSides : OrdMap ℕ MmSide
  deriving Repr

/-- A budget without orders. -/
def MmConstraint.new (mmId : ℕ) (maxCapital : Nanos) : MmConstraint := ⟨mmId, maxCapital, [], ∅⟩

/-- Put an order under the budget. -/
def MmConstraint.addOrder (c : MmConstraint) (orderId : ℕ) (side : MmSide) : MmConstraint :=
  { c with orderIds := c.orderIds ++ [orderId], orderSides := c.orderSides.insert orderId side }

/-- Total capital used by the filled orders of the constraint. -/
def MmConstraint.checkedCapitalUsed (c : MmConstraint) (fills : OrdMap ℕ (Nanos × Qty)) :
    Option Nanos :=
  c.orderIds.foldlM (fun total orderId =>
    match fills.get? orderId, c.orderSides.get? orderId with
    | some (price, qty), some side => do
      let needed ← side.checkedCapitalNeeded price qty
      checkedU64 (total + needed)
    | _, _ => some total) 0

/-- A group of mutually exclusive markets. -/
structure MarketGroup where
  name : String
  creationKey : Option String
  markets : List MarketId
  deriving DecidableEq, Repr

/-- Longest operator creation key, in bytes. -/
def maxOperatorCreationKeyBytes : ℕ := 128

/-- An operator creation key is a short string of letters, digits and `-_:./`. -/
def operatorCreationKeyIsValid (key : String) : Bool :=
  !key.isEmpty && key.utf8ByteSize ≤ maxOperatorCreationKeyBytes &&
    key.toList.all fun c => c.isAlphanum || ['-', '_', ':', '.', '/'].contains c

end Sybil.Engine
