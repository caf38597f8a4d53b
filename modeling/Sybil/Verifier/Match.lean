import Sybil.Verifier.Types

/-!
# Layer 1: fills and clearing prices

Each fill is checked against its order, market-maker budgets against the fills, and
the clearing prices against each other.  Statistics that the pass collects on the
way do not enter the verdict and are left out.

`verifyMatch_eq_nil_iff` splits the verdict into its checks; `FillRespectsOrder` is what
a silent pass says about one fill.
-/

namespace Sybil.Verifier

open Engine

/-! ## Arithmetic helpers -/

/-- `price * qty / SHARE_SCALE` as an `i64`. -/
def checkedPriceQty (price : Nanos) (qty : Qty) : Option ℤ := checkedNotionalI64 price qty

/-- `ceil(price * qty / SHARE_SCALE)` as an `i64`. -/
def checkedPriceQtyCeil (price : Nanos) (qty : Qty) : Option ℤ := checkedNotionalCeilI64 price qty

/-- Welfare of a single fill. -/
def checkedWelfare (limitPrice fillPrice : Nanos) (fillQty : Qty) (isSeller : Bool) : Option ℤ :=
  if fillQty = 0 then some 0
  else do
    let limit ← i64OfU64 limitPrice
    let fill ← i64OfU64 fillPrice
    let surplusPerUnit ← checkedI64 (if isSeller then fill - limit else limit - fill)
    checkedSignedPriceDeltaNotional surplusPerUnit fillQty

/-- `payoff * qty` as an `i64`. -/
def checkedPositionQty (payoff : ℤ) (qty : Qty) : Option ℤ := do
  let qty ← i64OfU64 qty
  checkedI64 (payoff * qty)

/-! ## Fills -/

/-- What the fill loop carries. -/
structure FillState where
  filledOrders : List ℕ
  computedGrossWelfare : ℤ

/-- Does a fill price violate the limit of its order? -/
def priceViolated (order : Order) (fill : Fill) : Bool :=
  if order.isSeller then decide (fill.fillPrice < order.limitPrice)
  else decide (order.limitPrice < fill.fillPrice)

/-- Checks of a fill against its order that do not involve welfare. -/
def fillTermViolations (filledOrders : List ℕ) (order : Order) (fill : Fill) : List Violation :=
  reportIf (fill.orderId ∈ filledOrders)
    ⟨.duplicateFill, s!"Order {fill.orderId} filled multiple times"⟩ ++
  reportIf (order.maxFill < fill.fillQty)
    ⟨.quantityExceedsMax,
      s!"Order {fill.orderId}: fill_qty {fill.fillQty} > max_fill {order.maxFill}"⟩ ++
  reportIf (fill.fillQty = 0)
    ⟨.zeroQuantityFill, s!"Order {fill.orderId}: zero quantity fill"⟩ ++
  reportIf (nanosPerDollar < order.limitPrice)
    ⟨.settlementOverflow, s!"Order {order.id}: limit_price {order.limitPrice} exceeds " ++
      s!"NANOS_PER_DOLLAR {nanosPerDollar}"⟩ ++
  reportIf (nanosPerDollar < fill.fillPrice)
    ⟨.settlementOverflow, s!"Order {fill.orderId}: fill_price {fill.fillPrice} exceeds " ++
      s!"NANOS_PER_DOLLAR {nanosPerDollar}"⟩ ++
  reportIf (priceViolated order fill = true)
    ⟨.priceExceedsLimit,
      s!"Order {fill.orderId} (" ++ (if order.isSeller then "sell" else "buy") ++
        s!"): fill_price {fill.fillPrice} " ++ (if order.isSeller then "<" else ">") ++
        s!" limit_price {order.limitPrice}"⟩

/-- Signed limit value that a fill adds to the gross welfare. -/
def grossContribution (order : Order) (grossValue : ℤ) : Option ℤ :=
  if order.isSeller then checkedI64 (-grossValue) else some grossValue

/-- Welfare of a fill, accumulated; an overflow is reported and leaves the sum as it is. -/
def fillWelfare (order : Order) (fill : Fill) (gross : ℤ) : ℤ × List Violation :=
  match checkedWelfare order.limitPrice fill.fillPrice fill.fillQty order.isSeller with
  | none =>
    (gross, [⟨.settlementOverflow, s!"Order {fill.orderId}: welfare overflow (limit=" ++
      s!"{order.limitPrice}, fill_price={fill.fillPrice}, qty={fill.fillQty})"⟩])
  | some welfare =>
    let negative := reportIf (welfare < 0)
      ⟨.negativeWelfare, s!"Order {fill.orderId}: negative welfare {welfare} (limit=" ++
        s!"{order.limitPrice}, fill_price={fill.fillPrice}, qty={fill.fillQty})"⟩
    match checkedPriceQty order.limitPrice fill.fillQty with
    | none =>
      (gross, negative ++ [⟨.settlementOverflow,
        s!"Order {fill.orderId}: gross welfare price*quantity overflow"⟩])
    | some grossValue =>
      match grossContribution order grossValue with
      | none =>
        (gross, negative ++
          [⟨.settlementOverflow, s!"Order {fill.orderId}: gross welfare overflow"⟩])
      | some contribution =>
        match checkedI64 (gross + contribution) with
        | none =>
          (gross, negative ++ [⟨.settlementOverflow,
            s!"Order {fill.orderId}: accumulated gross welfare overflow"⟩])
        | some updated => (updated, negative)

/-- Check one fill. -/
def verifyFill (orderMap : OrdMap ℕ Order) (st : FillState) (fill : Fill) :
    FillState × List Violation :=
  match orderMap.get? fill.orderId with
  | none =>
    (st, [⟨.orderNotFound, s!"Order {fill.orderId} not found in witness"⟩])
  | some order =>
    let welfare := fillWelfare order fill st.computedGrossWelfare
    ({ filledOrders := fill.orderId :: st.filledOrders, computedGrossWelfare := welfare.1 },
      fillTermViolations st.filledOrders order fill ++ welfare.2)

/-- Reconcile the gross welfare with the reported one. -/
def welfareViolations (gross mintingCost reportedWelfare : ℤ) : List Violation :=
  match checkedI64 (gross - mintingCost) with
  | none =>
    [⟨.settlementOverflow,
      s!"Computed gross welfare {gross} - minting_cost {mintingCost} overflowed"⟩]
  | some expected =>
    reportIf (expected < 0)
      ⟨.negativeWelfare, s!"Total welfare {expected} is negative (gross={gross}, " ++
        s!"signed mint/burn cost={mintingCost})"⟩ ++
    match checkedI64 (expected - reportedWelfare) with
    | none =>
      [⟨.settlementOverflow,
        s!"Expected welfare {expected} - reported welfare {reportedWelfare} overflowed"⟩]
    | some delta =>
      reportIf (0 < delta.natAbs)
        ⟨.welfareMismatch, s!"Computed gross welfare {gross} - minting_cost {mintingCost} = " ++
          s!"{expected} != reported welfare {reportedWelfare} (diff={delta.natAbs})"⟩

/-- Per-fill checks: order exists, quantity, price, welfare, duplicates. -/
def verifyFills (fills : List Fill) (orderMap : OrdMap ℕ Order)
    (reportedWelfare mintingCost : ℤ) : List Violation :=
  let run := reportLoop (verifyFill orderMap) ⟨[], 0⟩ fills
  run.2 ++ welfareViolations run.1.computedGrossWelfare mintingCost reportedWelfare

/-! ## Market makers -/

/-- Fills of a constraint's orders, by order id. -/
def mmFills (fillMap : OrdMap ℕ Fill) (orderIds : List ℕ) : OrdMap ℕ (Nanos × Qty) :=
  OrdMap.ofList (orderIds.filterMap fun orderId =>
    (fillMap.get? orderId).bind fun fill =>
      if 0 < fill.fillQty then some (orderId, (fill.fillPrice, fill.fillQty)) else none)

/-- Budget check of one market maker. -/
def verifyMmConstraint (fillMap : OrdMap ℕ Fill) (mm : MmConstraint) : List Violation :=
  match mm.checkedCapitalUsed (mmFills fillMap mm.orderIds) with
  | none => [⟨.settlementOverflow, s!"MM MmId({mm.mmId}): capital_used overflowed"⟩]
  | some capitalUsed =>
    reportIf (mm.maxCapital < capitalUsed)
      ⟨.mmBudgetExceeded, s!"MM MmId({mm.mmId}): capital_used {capitalUsed} > budget " ++
        s!"{mm.maxCapital} (overflow by {capitalUsed - mm.maxCapital})"⟩

/-- Budget checks of all market makers. -/
def verifyMmConstraints (fills : List Fill) (constraints : List MmConstraint) : List Violation :=
  constraints.flatMap (verifyMmConstraint (OrdMap.ofList (fills.map fun f => (f.orderId, f))))

/-! ## Market-level checks -/

/-- Order ids are distinct. -/
def verifyOrderIdUniqueness (w : BlockWitness) : List Violation :=
  (collectKeyed (fun wo : WitnessOrder => wo.order.id) (fun wo =>
    (⟨.duplicateOrderId, s!"Duplicate order ID {wo.order.id} in witness"⟩ : Violation))
    w.orders).2

/-- Outcome of a unit one-outcome payoff. -/
def expectedOutcome (yesPayoff noPayoff : ℤ) : Option ℕ :=
  if (yesPayoff = 1 ∨ yesPayoff = -1) ∧ noPayoff = 0 then some 0
  else if yesPayoff = 0 ∧ (noPayoff = 1 ∨ noPayoff = -1) then some 1
  else none

/-- A fill of a one-outcome order is at the clearing price. -/
def verifyUniformClearingPrice (clearingPrices : OrdMap MarketId (List Nanos))
    (orderMap : OrdMap ℕ Order) (fill : Fill) : List Violation :=
  if fill.fillQty = 0 then []
  else
    match orderMap.get? fill.orderId with
    | none => []
    | some order =>
      if order.numMarkets ≠ 1 then []
      else if order.numStates ≠ 2 then []
      else
        match expectedOutcome (order.payoffAt 0) (order.payoffAt 1) with
        | none => []
        | some outcome =>
          match (clearingPrices.get? (order.marketAt 0)).bind fun prices => prices[outcome]? with
          | none =>
            [⟨.uniformClearingPriceViolation,
              s!"Order {fill.orderId} on market {dbgMarket (order.marketAt 0)}: missing " ++
                s!"clearing price for outcome {outcome}"⟩]
          | some expected =>
            reportIf (fill.fillPrice ≠ expected)
              ⟨.uniformClearingPriceViolation,
                s!"Order {fill.orderId} on market {dbgMarket (order.marketAt 0)}: fill_price " ++
                  s!"{fill.fillPrice} != clearing_price {expected}"⟩

/-- Prices are at most a dollar and the two prices of a market sum to one. -/
def verifyPriceComplementarity (entry : MarketId × List Nanos) : List Violation :=
  let (market, prices) := entry
  (prices.zipIdx.flatMap fun (price, outcome) =>
    reportIf (nanosPerDollar < price)
      (⟨.settlementOverflow, s!"Market {dbgMarket market} outcome {outcome}: clearing price " ++
        s!"{price} exceeds NANOS_PER_DOLLAR {nanosPerDollar}"⟩ : Violation)) ++
  match prices with
  | [yes, no] =>
    match checkedU64 (yes + no) with
    | none =>
      [⟨.settlementOverflow,
        s!"Market {dbgMarket market}: P(YES)={yes} + P(NO)={no} overflowed"⟩]
    | some sum =>
      reportIf (sum ≠ nanosPerDollar)
        ⟨.priceComplementarityViolation, s!"Market {dbgMarket market}: P(YES)={yes} + " ++
          s!"P(NO)={no} = {sum} != {nanosPerDollar}"⟩
  | _ => []

/-- No fill of an order on a resolved market. -/
def verifyResolvedMarket (resolved : List MarketId) (orderMap : OrdMap ℕ Order) (fill : Fill) :
    List Violation :=
  if fill.fillQty = 0 then []
  else
    match orderMap.get? fill.orderId with
    | none => []
    | some order =>
      order.activeMarkets.flatMap fun market =>
        reportIf (market ∈ resolved)
          (⟨.resolvedMarketViolation, s!"Fill for order {fill.orderId} references resolved " ++
            s!"market {dbgMarket market}"⟩ : Violation)

/-- Debug text of a condition direction. -/
def dbgConditionDir : ConditionDir → String
  | .above => "Above"
  | .below => "Below"

/-- Does a price satisfy a condition? -/
def conditionMet (condition : PriceCondition) (yesPrice : Nanos) : Bool :=
  match condition.direction with
  | .above => decide (condition.threshold < yesPrice)
  | .below => decide (yesPrice < condition.threshold)

/-- A filled conditional order has its condition satisfied. -/
def verifyConditionalActivation (clearingPrices : OrdMap MarketId (List Nanos))
    (orderMap : OrdMap ℕ Order) (fill : Fill) : List Violation :=
  if fill.fillQty = 0 then []
  else
    match orderMap.get? fill.orderId with
    | none => []
    | some order =>
      match order.condition with
      | none => []
      | some condition =>
        match clearingPrices.get? condition.market with
        | none =>
          [⟨.conditionalActivationViolation,
            s!"Order {fill.orderId} has condition on market {dbgMarket condition.market} but " ++
              "no clearing price available"⟩]
        | some prices =>
          let yesPrice := prices.headD 0
          reportIf (conditionMet condition yesPrice = false)
            ⟨.conditionalActivationViolation,
              s!"Order {fill.orderId}: condition {dbgConditionDir condition.direction} not " ++
                s!"met (clearing_price={yesPrice}, threshold={condition.threshold})"⟩

/-! ## The pass -/

/-- The witness orders by id. -/
def orderMap (w : BlockWitness) : OrdMap ℕ Order :=
  OrdMap.ofList (w.orders.map fun wo => (wo.order.id, wo.order))

/-- All fill-level and market-level checks. -/
def verifyMatch (w : BlockWitness) : List Violation :=
  verifyFills w.fills (orderMap w) w.totalWelfare w.mintingCost ++
  verifyMmConstraints w.fills w.mmConstraints ++
  verifyOrderIdUniqueness w ++
  w.clearingPrices.entries.flatMap verifyPriceComplementarity ++
  (if w.resolvedMarkets.isEmpty then []
    else w.fills.flatMap (verifyResolvedMarket w.resolvedMarkets (orderMap w))) ++
  w.fills.flatMap (verifyConditionalActivation w.clearingPrices (orderMap w)) ++
  w.fills.flatMap (verifyUniformClearingPrice w.clearingPrices (orderMap w))

/-- What a silent pass says about a fill: it belongs to an order of the witness, executes a
positive quantity within the order's size and respects its limit. -/
structure FillRespectsOrder (orderMap : OrdMap ℕ Order) (fill : Fill) (order : Order) : Prop where
  order_eq : orderMap.get? fill.orderId = some order
  qty_ne_zero : fill.fillQty ≠ 0
  qty_le : fill.fillQty ≤ order.maxFill
  price_le_dollar : fill.fillPrice ≤ nanosPerDollar
  limit : priceViolated order fill = false

theorem fillRespectsOrder_of_silent {orderMap : OrdMap ℕ Order} {st : FillState} {fill : Fill}
    (h : (verifyFill orderMap st fill).2 = []) :
      ∃ order, FillRespectsOrder orderMap fill order := by
  unfold verifyFill at h
  split at h
  · simp at h
  · rename_i order horder
    simp only [fillTermViolations, List.append_eq_nil_iff, reportIf_eq_nil, not_lt,
      Bool.not_eq_true] at h
    obtain ⟨⟨⟨⟨⟨⟨-, hqty⟩, hzero⟩, -⟩, hprice⟩, hlimit⟩, -⟩ := h
    exact ⟨order, horder, hzero, hqty, hprice, hlimit⟩

theorem fillRespectsOrder_of_verifyFills {fills : List Fill} {orderMap : OrdMap ℕ Order}
    {reported cost : ℤ} (h : verifyFills fills orderMap reported cost = []) {fill : Fill}
    (hfill : fill ∈ fills) : ∃ order, FillRespectsOrder orderMap fill order := by
  obtain ⟨hrun, -⟩ := List.append_eq_nil_iff.mp h
  obtain ⟨st, -, hst⟩ := exists_silent_at (P := fun _ => True) hrun (fun _ _ _ _ _ => trivial)
    trivial hfill
  exact fillRespectsOrder_of_silent hst

section Silent

variable {w : BlockWitness}

theorem verifyMatch_eq_nil_iff : verifyMatch w = [] ↔
    verifyFills w.fills (orderMap w) w.totalWelfare w.mintingCost = [] ∧
    verifyMmConstraints w.fills w.mmConstraints = [] ∧
    verifyOrderIdUniqueness w = [] ∧
    (∀ entry ∈ w.clearingPrices.entries, verifyPriceComplementarity entry = []) ∧
    (∀ fill ∈ w.fills, w.resolvedMarkets ≠ [] →
      verifyResolvedMarket w.resolvedMarkets (orderMap w) fill = []) ∧
    (∀ fill ∈ w.fills, verifyConditionalActivation w.clearingPrices (orderMap w) fill = []) ∧
    ∀ fill ∈ w.fills, verifyUniformClearingPrice w.clearingPrices (orderMap w) fill = [] := by
  have hresolved : (if w.resolvedMarkets.isEmpty then []
      else w.fills.flatMap (verifyResolvedMarket w.resolvedMarkets (orderMap w))) = [] ↔
      ∀ fill ∈ w.fills, w.resolvedMarkets ≠ [] →
        verifyResolvedMarket w.resolvedMarkets (orderMap w) fill = [] := by
    cases w.resolvedMarkets <;> simp [List.flatMap_eq_nil_iff]
  simp only [verifyMatch, List.append_eq_nil_iff, List.flatMap_eq_nil_iff, hresolved, and_assoc]

theorem nodup_orderIds (h : verifyMatch w = []) : (w.orders.map fun wo => wo.order.id).Nodup := by
  obtain ⟨-, -, huniq, -⟩ := verifyMatch_eq_nil_iff.mp h
  exact collectKeyed_silent.mp huniq

/-- A silent fill loop meets each order once, and none of those met before. -/
theorem fillLoop_silent {orderMap : OrdMap ℕ Order} {st : FillState} {fills : List Fill}
    (h : (reportLoop (verifyFill orderMap) st fills).2 = []) :
    (fills.map fun fill => fill.orderId).Nodup ∧ ∀ fill ∈ fills,
      fill.orderId ∉ st.filledOrders := by
  induction fills generalizing st with
  | nil => exact ⟨List.nodup_nil, nofun⟩
  | cons fill fills ih =>
    obtain ⟨hfill, hrest⟩ := silent_cons.mp h
    obtain ⟨hnodup, hnew⟩ := ih hrest
    unfold verifyFill at hfill hnew
    split at hfill
    · exact absurd hfill (List.cons_ne_nil _ _)
    · next order horder =>
      simp only [fillTermViolations, List.append_eq_nil_iff, reportIf_eq_nil] at hfill
      rw [horder] at hnew
      refine ⟨?_, fun other hother => ?_⟩
      · rw [List.map_cons, List.nodup_cons]
        refine ⟨fun hmem => ?_, hnodup⟩
        obtain ⟨other, hother, heq⟩ := List.mem_map.mp hmem
        exact hnew other hother (heq ▸ List.mem_cons_self)
      · rcases List.mem_cons.mp hother with rfl | hother
        · exact hfill.1.1.1.1.1.1
        · exact fun hmem => hnew other hother (List.mem_cons_of_mem _ hmem)

theorem nodup_fillIds (h : verifyMatch w = []) :
    (w.fills.map fun fill => fill.orderId).Nodup := by
  obtain ⟨hfills, -⟩ := verifyMatch_eq_nil_iff.mp h
  exact (fillLoop_silent (List.append_eq_nil_iff.mp hfills).1).1

/-- With distinct ids the order map holds exactly the witness orders. -/
theorem get?_orderMap (hnd : (w.orders.map fun wo => wo.order.id).Nodup) {id : ℕ} {order : Order} :
    (orderMap w).get? id = some order ↔ ∃ wo ∈ w.orders, wo.order = order ∧ order.id = id := by
  rw [orderMap, OrdMap.get?_ofList_iff (by simpa [List.map_map, Function.comp_def] using hnd)]
  simp only [List.mem_map, Prod.mk.injEq]
  constructor
  · rintro ⟨wo, hwo, rfl, rfl⟩
    exact ⟨wo, hwo, rfl, rfl⟩
  · rintro ⟨wo, hwo, rfl, rfl⟩
    exact ⟨wo, hwo, rfl, rfl⟩

end Silent

end Sybil.Verifier
