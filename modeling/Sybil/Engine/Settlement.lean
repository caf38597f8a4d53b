import Sybil.Engine.Order
import Sybil.Lib.Report

/-!
# Settlement arithmetic shared by sequencer and verifier

The pure functions that turn a fill into balance and position changes and that
derive the adjustments of the MINT account from the imbalance of a market.

`computeFillSettlementChecked_oneHot` says what a settled one-hot fill does: it
moves the whole quantity and the floor of the notional.
`mintAdjustment_eq_some` says the same for one adjustment.  Both name the exact
floor, so the rounding of a batch can be added up from them.
-/

namespace Sybil.Engine

variable {clearingPrices : OrdMap MarketId (List Nanos)}

/-- Balance and position changes of one fill. -/
structure SettlementDelta where
  balanceDelta : ℤ
  /-- `(market, outcome, qty_delta)`. -/
  positionDeltas : List (MarketId × ℕ × ℤ)
  deriving DecidableEq, Repr

/-- Arithmetic failures of settlement. -/
inductive SettlementArithmeticError where
  | priceQuantityOverflow
  | positionQuantityOverflow
  | balanceOverflow
  deriving DecidableEq, Repr

/-- `payoff_units * fill_qty / divisor`, checked. -/
def checkedPositionDelta (payoffUnits fillQty divisor : ℤ) :
    Except SettlementArithmeticError ℤ :=
  okOr ((checkedI64 (payoffUnits * fillQty)).bind fun value =>
    if divisor = 0 then none else checkedI64 (value.tdiv divisor)) .positionQuantityOverflow

/-- The traded outcome, its payoff and whether it is sold, for a payoff in one outcome only. -/
def simpleOutcome (yesPayoff noPayoff : ℤ) : Option (ℕ × ℤ × Bool) :=
  if 0 < yesPayoff ∧ noPayoff = 0 then some (0, yesPayoff, false)
  else if yesPayoff < 0 ∧ noPayoff = 0 then some (0, yesPayoff, true)
  else if yesPayoff = 0 ∧ 0 < noPayoff then some (1, noPayoff, false)
  else if yesPayoff = 0 ∧ noPayoff < 0 then some (1, noPayoff, true)
  else none

/-- A position change, left out when the payoff is zero. -/
def payoffDelta (market : MarketId) (outcome : ℕ) (payoff fillQty : ℤ) (count : ℕ) :
    Except SettlementArithmeticError (List (MarketId × ℕ × ℤ)) :=
  if payoff = 0 then .ok []
  else do
    let delta ← checkedPositionDelta payoff fillQty count
    pure [(market, outcome, delta)]

/-- The states in which market slot `idx` has the given outcome. -/
def statesWithOutcome (numStates idx outcome : ℕ) : List ℕ :=
  (List.range numStates).filter fun s => (s / 2 ^ idx) % 2 = outcome

/-- Position changes of one market slot of a bundle: the marginal payoff of each outcome. -/
def marginalDeltas (order : Order) (fillQty : ℤ) (idx : ℕ) :
    Except SettlementArithmeticError (List (MarketId × ℕ × ℤ)) := do
  let yesStates := statesWithOutcome order.numStates idx 0
  let noStates := statesWithOutcome order.numStates idx 1
  let yes ← payoffDelta (order.marketAt idx) 0 (yesStates.map order.payoffAt).sum fillQty
    yesStates.length
  let no ← payoffDelta (order.marketAt idx) 1 (noStates.map order.payoffAt).sum fillQty
    noStates.length
  pure (yes ++ no)

/-- Position changes of an arbitrary payoff vector. -/
def genericDeltas (order : Order) (fillQty : ℤ) :
    Except SettlementArithmeticError (List (MarketId × ℕ × ℤ)) :=
  if order.numMarkets = 1 then do
    let yes ← payoffDelta (order.marketAt 0) 0 (order.payoffAt 0) fillQty 1
    let no ← payoffDelta (order.marketAt 0) 1 (order.payoffAt 1) fillQty 1
    pure (yes ++ no)
  else do
    let perMarket ← (List.range order.numMarkets).mapM (marginalDeltas order fillQty)
    pure perMarket.flatten

/-- Settlement of an arbitrary payoff vector: debit the cost, credit the marginal payoffs. -/
def computeGenericSettlement (order : Order) (fill : Fill) :
    Except SettlementArithmeticError (Option SettlementDelta) := do
  let cost ← okOr (checkedNotionalI64 fill.fillPrice fill.fillQty) .priceQuantityOverflow
  let fillQty ← okOr (i64OfU64 fill.fillQty) .positionQuantityOverflow
  let positionDeltas ← genericDeltas order fillQty
  pure (some { balanceDelta := -cost, positionDeltas })

/-- Balance and position changes of a fill; `none` for an empty fill. -/
def computeFillSettlementChecked (order : Order) (fill : Fill) :
    Except SettlementArithmeticError (Option SettlementDelta) :=
  if fill.fillQty = 0 then .ok none
  else do
    let fillQty ← okOr (i64OfU64 fill.fillQty) .positionQuantityOverflow
    let simple :=
      if order.numMarkets = 1 ∧ order.numStates = 2 then
        simpleOutcome (order.payoffAt 0) (order.payoffAt 1)
      else none
    match simple with
    | some (outcome, payoff, isSell) =>
      let cost ← okOr (checkedNotionalI64 fill.fillPrice fill.fillQty) .priceQuantityOverflow
      let delta ← checkedPositionDelta payoff fillQty 1
      pure (some
        { balanceDelta := if isSell then cost else -cost
          positionDeltas := [(order.marketAt 0, outcome, delta)] })
    | none => computeGenericSettlement order fill

/-- The unchecked entry point: an arithmetic failure counts as nothing to settle. -/
def computeFillSettlement (order : Order) (fill : Fill) : Option SettlementDelta :=
  match computeFillSettlementChecked order fill with
  | .ok delta => delta
  | .error _ => none

theorem checkedPositionDelta_one {payoff fillQty delta : ℤ}
    (h : checkedPositionDelta payoff fillQty 1 = .ok delta) : delta = payoff * fillQty := by
  rw [checkedPositionDelta, okOr_eq_ok, Option.bind_eq_some_iff] at h
  obtain ⟨v, hv, hd⟩ := h
  obtain ⟨-, rfl⟩ := checkedI64_eq_some_iff.mp hv
  rw [if_neg one_ne_zero] at hd
  simpa using (checkedI64_eq_some_iff.mp hd).2.symm

theorem simpleOutcome_oneHot {o : Order} {outcome : ℕ} {sells : Bool}
    (h : o.BinaryOneHot outcome sells) :
    simpleOutcome (o.payoffAt 0) (o.payoffAt 1) =
      some (outcome, if sells then -1 else 1, sells) := by
  have hp := h.payoff
  have ho := h.other
  rcases h.binary with rfl | rfl <;> cases sells <;> simp_all [simpleOutcome]

/-- **What a settled one-hot fill does.**  It moves the whole quantity in the traded outcome
against the floor of its notional. -/
theorem computeFillSettlementChecked_oneHot {o : Order} {fill : Fill} {outcome : ℕ}
    {sells : Bool} {r : Option SettlementDelta} (h : o.BinaryOneHot outcome sells)
    (hqty : fill.fillQty ≠ 0) (hr : computeFillSettlementChecked o fill = .ok r) :
    r = some
      { balanceDelta := (if sells then 1 else -1) *
          ((fill.fillPrice * fill.fillQty / shareScale : ℕ) : ℤ)
        positionDeltas :=
          [(o.marketAt 0, outcome, (if sells then -1 else 1) * fill.fillQty)] } := by
  rw [computeFillSettlementChecked, if_neg hqty, bind_eq_ok] at hr
  obtain ⟨q, hq, hr⟩ := hr
  obtain ⟨-, rfl⟩ := i64OfU64_eq_some_iff.mp (okOr_eq_ok.mp hq)
  rw [if_pos ⟨h.numMarkets, h.numStates⟩, simpleOutcome_oneHot h] at hr
  obtain ⟨cost, hcost, hr⟩ := bind_eq_ok.mp hr
  obtain ⟨delta, hdelta, hr⟩ := bind_eq_ok.mp hr
  obtain ⟨rfl, -⟩ := checkedNotionalI64_eq_some (okOr_eq_ok.mp hcost)
  obtain rfl := checkedPositionDelta_one hdelta
  obtain rfl := Except.ok.inj hr
  cases sells <;> simp

/-! ## Minting -/

/-- An adjustment of the MINT account that restores the balance of one market. -/
structure MintAdjustment where
  marketId : MarketId
  /-- The outcome that MINT shorts. -/
  outcome : ℕ
  positionDelta : ℤ
  balanceDelta : ℤ
  deriving DecidableEq, Repr

/-- Price of an outcome among the clearing prices; zero when there is none. -/
def priceOf (clearingPrices : OrdMap MarketId (List Nanos)) (market : MarketId) (outcome : ℕ) :
    Nanos :=
  ((clearingPrices.get? market).bind fun prices => prices[outcome]?).getD 0

/-- Revenue of a short; an outcome without a clearing price brings nothing. -/
def mintRevenue (price : Nanos) (amount : Option ℤ) : Except SettlementArithmeticError ℤ :=
  if price = 0 then .ok 0 else okOr amount .priceQuantityOverflow

/-- The adjustment of one market: MINT shorts the outcome in excess at its clearing price. -/
def mintAdjustment (clearingPrices : OrdMap MarketId (List Nanos))
    (total : MarketId × ℤ × ℤ) : Except SettlementArithmeticError (Option MintAdjustment) := do
  let (marketId, totalYes, totalNo) := total
  let diff ← okOr (checkedI64 (totalYes - totalNo)) .positionQuantityOverflow
  if diff = 0 then pure none
  else if 0 < diff then
    let yesPrice := priceOf clearingPrices marketId 0
    let balanceDelta ← mintRevenue yesPrice (checkedSignedNotionalNanos yesPrice diff)
    pure (some { marketId, outcome := 0, positionDelta := -diff, balanceDelta })
  else
    let noPrice := priceOf clearingPrices marketId 1
    let balanceDelta ← mintRevenue noPrice (checkedNotionalI64 noPrice diff.natAbs)
    pure (some { marketId, outcome := 1, positionDelta := diff, balanceDelta })

/-- Minting adjustments from the position totals of all accounts, MINT included. -/
def deriveMintingChecked (clearingPrices : OrdMap MarketId (List Nanos)) :
    List (MarketId × ℤ × ℤ) → Except SettlementArithmeticError (List MintAdjustment)
  | [] => .ok []
  | total :: totals => do
    let adjustment ← mintAdjustment clearingPrices total
    let rest ← deriveMintingChecked clearingPrices totals
    pure (adjustment.toList ++ rest)

/-- The unchecked entry point: an arithmetic failure leaves every market as it is. -/
def deriveMinting (clearingPrices : OrdMap MarketId (List Nanos))
    (marketTotals : List (MarketId × ℤ × ℤ)) : List MintAdjustment :=
  match deriveMintingChecked clearingPrices marketTotals with
  | .ok adjustments => adjustments
  | .error _ => []

/-- Signed complete-set cost: the negated cash flow of the filled accounts. -/
def mintingCostFromFillBalanceDeltaChecked (fillBalanceDelta : ℤ) :
    Except SettlementArithmeticError ℤ :=
  okOr (checkedI64 (-fillBalanceDelta)) .balanceOverflow

theorem mintAdjustment_eq_none {m : MarketId} {yes no : ℤ}
    (h : mintAdjustment clearingPrices (m, yes, no) = .ok none) : yes = no := by
  obtain ⟨diff, hdiff, h⟩ := bind_eq_ok.mp h
  obtain ⟨-, rfl⟩ := checkedI64_eq_some_iff.mp (okOr_eq_ok.mp hdiff)
  split_ifs at h with h₀ h₁
  · omega
  · obtain ⟨b, -, h⟩ := bind_eq_ok.mp h
    simp [pure, Except.pure] at h
  · obtain ⟨b, -, h⟩ := bind_eq_ok.mp h
    simp [pure, Except.pure] at h

theorem mintRevenue_eq_ok {price qty : ℕ} {amount : Option ℤ} {b : ℤ}
    (hamount : ∀ c, amount = some c → c = ((price * qty / shareScale : ℕ) : ℤ))
    (h : mintRevenue price amount = .ok b) : b = ((price * qty / shareScale : ℕ) : ℤ) := by
  unfold mintRevenue at h
  split_ifs at h with hp
  · obtain rfl := Except.ok.inj h
    simp [hp]
  · exact hamount b (okOr_eq_ok.mp h)

/-- **What an adjustment does.**  MINT shorts exactly the excess of one outcome and receives the
floor of its notional at the clearing price. -/
theorem mintAdjustment_eq_some {m : MarketId} {yes no : ℤ} {adj : MintAdjustment}
    (h : mintAdjustment clearingPrices (m, yes, no) = .ok (some adj)) :
    adj.marketId = m ∧ yes ≠ no ∧
      adj.outcome = (if no < yes then 0 else 1) ∧
      adj.positionDelta = -((yes - no).natAbs : ℤ) ∧
      adj.balanceDelta =
        ((priceOf clearingPrices m adj.outcome * (yes - no).natAbs / shareScale : ℕ) : ℤ) := by
  obtain ⟨diff, hdiff, h⟩ := bind_eq_ok.mp h
  obtain ⟨-, rfl⟩ := checkedI64_eq_some_iff.mp (okOr_eq_ok.mp hdiff)
  split_ifs at h with h₀ h₁
  · simp [pure, Except.pure] at h
  · obtain ⟨b, hb, h⟩ := bind_eq_ok.mp h
    obtain rfl := Option.some.inj (Except.ok.inj h)
    refine ⟨rfl, by omega, (if_pos (by omega)).symm, by dsimp only; omega, ?_⟩
    exact mintRevenue_eq_ok (fun c => checkedSignedNotionalNanos_of_nonneg h₁.le) hb
  · obtain ⟨b, hb, h⟩ := bind_eq_ok.mp h
    obtain rfl := Option.some.inj (Except.ok.inj h)
    refine ⟨rfl, by omega, (if_neg (by omega)).symm, by dsimp only; omega, ?_⟩
    exact mintRevenue_eq_ok (fun c hc => (checkedNotionalI64_eq_some hc).1) hb

/-- Shares of an outcome that a list of adjustments brings in. -/
def mintedShares (market : MarketId) (outcome : ℕ) (adjustments : List MintAdjustment) : ℤ :=
  (adjustments.map fun adj =>
    if adj.marketId = market ∧ adj.outcome = outcome then adj.positionDelta else 0).sum

/-- **Minting closes the gap.**  Each adjustment removes the excess of its market and no other. -/
theorem deriveMintingChecked_shares {totals : List (MarketId × ℤ × ℤ)}
    {adjustments : List MintAdjustment}
    (h : deriveMintingChecked clearingPrices totals = .ok adjustments) (market : MarketId) :
    mintedShares market 0 adjustments - mintedShares market 1 adjustments =
      -(totals.map fun t => if t.1 = market then t.2.1 - t.2.2 else 0).sum := by
  induction totals generalizing adjustments with
  | nil =>
    obtain rfl := Except.ok.inj h
    simp [mintedShares]
  | cons t totals ih =>
    obtain ⟨market', yes, no⟩ := t
    obtain ⟨adj?, hadj, h⟩ := bind_eq_ok.mp h
    obtain ⟨rest, hrest, h⟩ := bind_eq_ok.mp h
    obtain rfl := Except.ok.inj h
    have hih := ih hrest
    cases adj? with
    | none =>
      have : yes - no = 0 := sub_eq_zero.mpr (mintAdjustment_eq_none hadj)
      simpa [this] using hih
    | some adj =>
      obtain ⟨rfl, hne, hout, hpos, -⟩ := mintAdjustment_eq_some hadj
      simp only [mintedShares] at hih ⊢
      simp only [Option.toList_some, List.cons_append, List.nil_append, List.map_cons,
        List.sum_cons, hout, hpos]
      by_cases hm : adj.marketId = market
      · by_cases hlt : no < yes
        · simp only [hm, hlt, if_true, and_self, and_false, if_false, zero_ne_one]
          omega
        · simp only [hm, hlt, if_true, and_self, and_false, if_false, one_ne_zero]
          omega
      · simp only [hm, false_and, if_false]
        omega

end Sybil.Engine
