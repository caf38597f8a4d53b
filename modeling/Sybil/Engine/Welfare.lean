import Sybil.Engine.Settlement

/-!
# Welfare of a list of fills

Three sums over the fills of a block are each rounded fill by fill: the gross value at the
limit prices, the cash that moves at the fill prices, and the surplus between the two.  The
protocol's welfare is the first minus the mint cost, which is what real accounts pay; it is
at least the surplus, and each fill can add one nano by rounding.

Integer casts wrap as `as` does, arithmetic that overflows stops the program (`none`), and
a fill whose order is not listed is passed over.
-/

namespace Sybil.Engine

/-- The cast of a word to `i64`. -/
def wrapI64 (n : ℕ) : ℤ := Int.bmod n (2 ^ 64)

/-- Floor of a signed price difference times a quantity, away from the sign. -/
def signedPriceDeltaNotional (priceDelta : ℤ) (qty : Qty) : Option ℤ :=
  let abs := wrapI64 (priceDelta.natAbs * qty / shareScale)
  if priceDelta < 0 then checkedI64 (-abs) else some abs

namespace Order

/-- Surplus of the order over its limit. -/
def welfareContribution (o : Order) (fillPrice : Nanos) (fillQty : Qty) : Option ℤ :=
  if fillQty = 0 then some 0
  else do
    let surplusPerUnit ← checkedI64 (
      if o.isSeller then wrapI64 fillPrice - wrapI64 o.limitPrice
      else wrapI64 o.limitPrice - wrapI64 fillPrice)
    signedPriceDeltaNotional surplusPerUnit fillQty

/-- Value of the order at its limit, before the mint cost. -/
def grossWelfareContribution (o : Order) (fillQty : Qty) : Option ℤ :=
  let value := wrapI64 (notionalNanos o.limitPrice fillQty)
  if o.isSeller then checkedI64 (-value) else some value

end Order

/-- Fills with their orders; a fill of no listed order is passed over. -/
def filledOrders (orders : List Order) (fills : List Fill) : List (Order × Fill) :=
  let orderMap := OrdMap.ofList (orders.map fun order => (order.id, order))
  fills.filterMap fun fill => (orderMap.get? fill.orderId).map fun order => (order, fill)

/-- A sum that stops on overflow. -/
def sumI64 (values : List ℤ) : Option ℤ :=
  values.foldlM (fun total value => checkedI64 (total + value)) 0

/-- Gross order value of the fills. -/
def grossWelfareFromFills (orders : List Order) (fills : List Fill) : Option ℤ := do
  let values ← (filledOrders orders fills).mapM fun (order, fill) =>
    order.grossWelfareContribution fill.fillQty
  sumI64 values

/-- Cash that the fills move on real accounts. -/
def fillBalanceDeltaFromFills (orders : List Order) (fills : List Fill) : Option ℤ :=
  sumI64 ((filledOrders orders fills).filterMap fun (order, fill) =>
    (computeFillSettlement order fill).map fun delta => delta.balanceDelta)

def mintingCostFromFillBalanceDelta (fillBalanceDelta : ℤ) : ℤ :=
  match mintingCostFromFillBalanceDeltaChecked fillBalanceDelta with
  | .ok cost => cost
  | .error _ => 0

/-- Mint cost of the fills. -/
def mintingCostFromFills (orders : List Order) (fills : List Fill) : Option ℤ := do
  let fillBalanceDelta ← fillBalanceDeltaFromFills orders fills
  pure (mintingCostFromFillBalanceDelta fillBalanceDelta)

def netWelfare (grossWelfare mintingCost : ℤ) : Option ℤ := checkedI64 (grossWelfare - mintingCost)

/-! ## Casts and sums -/

theorem wrapI64_of_lt {n : ℕ} (h : n < 2 ^ 63) : wrapI64 n = n :=
  Int.bmod_eq_of_le_mul_two (by omega) (by omega)

theorem sumI64_eq_some {values : List ℤ} {total : ℤ} (h : sumI64 values = some total) :
    total = values.sum ∧ total < 2 ^ 63 := by
  suffices hloop : ∀ (values : List ℤ) (start : ℤ), start < 2 ^ 63 →
      values.foldlM (fun total value => checkedI64 (total + value)) start = some total →
      total = start + values.sum ∧ total < 2 ^ 63 by
    have hall := hloop values 0 (by norm_num) h
    rwa [zero_add] at hall
  intro values
  induction values with
  | nil =>
    intro start hlt hstart
    cases hstart
    exact ⟨(add_zero total).symm, hlt⟩
  | cons value values ih =>
    intro start _ hstart
    obtain ⟨next, hnext, hrest⟩ := foldlM_cons_eq_some.mp hstart
    obtain ⟨⟨-, hlt⟩, rfl⟩ := checkedI64_eq_some_iff.mp hnext
    obtain ⟨htotal, hbelow⟩ := ih _ hlt hrest
    exact ⟨by rw [htotal, List.sum_cons, add_assoc], hbelow⟩

theorem mem_filledOrders {orders : List Order} {fills : List Fill} {entry : Order × Fill}
    (h : entry ∈ filledOrders orders fills) :
    entry.1 ∈ orders ∧ entry.2 ∈ fills ∧ entry.1.id = entry.2.orderId := by
  obtain ⟨fill, hfill, hentry⟩ := List.mem_filterMap.mp h
  obtain ⟨order, horder, rfl⟩ := Option.map_eq_some_iff.mp hentry
  obtain ⟨source, hsource, heq⟩ := List.mem_map.mp (OrdMap.mem_of_get?_ofList horder)
  obtain ⟨hid, rfl⟩ := Prod.mk.inj heq
  exact ⟨hsource, hfill, hid⟩

/-! ## One fill -/

/-- Value of a fill at a price, with the sign of its side. -/
def signedValue (sells : Bool) (price qty : ℕ) : ℤ :=
  if sells then -((price * qty / shareScale : ℕ) : ℤ) else (price * qty / shareScale : ℕ)

/-- Two values of one quantity differ by the value of the difference, and at most one more. -/
theorem div_sub_div_mem {low high : ℕ} (qty : ℕ) (h : low ≤ high) :
    (high - low) * qty / shareScale + low * qty / shareScale ≤ high * qty / shareScale ∧
      high * qty / shareScale ≤ (high - low) * qty / shareScale + low * qty / shareScale + 1 := by
  have hsplit : high * qty = (high - low) * qty + low * qty := by
    rw [← Nat.add_mul, Nat.sub_add_cancel h]
  rw [hsplit]
  unfold shareScale
  omega

/-- A number that `i64` holds. -/
def FitsI64 (n : ℕ) : Prop := n < 2 ^ 63

/-- The amounts of a fill fit into their words. -/
structure FillFits (order : Order) (fill : Fill) : Prop where
  limit : FitsI64 order.limitPrice
  price : FitsI64 fill.fillPrice
  qty : FitsI64 fill.fillQty
  value : FitsI64 (order.limitPrice * fill.fillQty / shareScale)
  cost : FitsI64 (fill.fillPrice * fill.fillQty / shareScale)

section Fills

variable {order : Order} {fill : Fill} {outcome : ℕ} {sells : Bool}

theorem FillFits.grossWelfareContribution_eq (h : FillFits order fill)
    (hsells : order.isSeller = sells) : order.grossWelfareContribution fill.fillQty =
      some (signedValue sells order.limitPrice fill.fillQty) := by
  have hvalue : _ < 2 ^ 63 := h.value
  have hword : notionalNanos order.limitPrice fill.fillQty =
      order.limitPrice * fill.fillQty / shareScale := Nat.mod_eq_of_lt (by omega)
  unfold Order.grossWelfareContribution signedValue
  rw [hword, wrapI64_of_lt hvalue, hsells]
  cases sells with
  | false => rfl
  | true =>
    have hnonneg := Int.natCast_nonneg (order.limitPrice * fill.fillQty / shareScale)
    exact checkedI64_eq_some_iff.mpr ⟨by omega, rfl⟩

/-- The cash of a fill is its value at the fill price, from the other side. -/
theorem FillFits.balanceDelta_eq (h : FillFits order fill)
    (hshape : order.BinaryOneHot outcome sells) :
    ((computeFillSettlement order fill).map fun delta => delta.balanceDelta).getD 0 =
      -signedValue sells fill.fillPrice fill.fillQty := by
  by_cases hqty : fill.fillQty = 0
  · rw [computeFillSettlement, computeFillSettlementChecked, if_pos hqty, hqty]
    cases sells <;> simp [signedValue]
  · have hok : ∃ r, computeFillSettlementChecked order fill = .ok r := by
      have hcost : _ < 2 ^ 63 := h.cost
      have hproduct : fill.fillPrice * fill.fillQty < 2 ^ 127 := by
        calc fill.fillPrice * fill.fillQty
            ≤ 2 ^ 63 * 2 ^ 63 := Nat.mul_le_mul (Nat.le_of_lt h.price) (Nat.le_of_lt h.qty)
          _ < 2 ^ 127 := by norm_num
      have hnotional : checkedNotionalI64 fill.fillPrice fill.fillQty =
          some ((fill.fillPrice * fill.fillQty / shareScale : ℕ) : ℤ) := by
        rw [checkedNotionalI64, checkedNotionalNanos, if_pos hproduct,
          checkedU64_eq_some_iff.mpr ⟨by omega, rfl⟩]
        exact i64OfU64_eq_some_iff.mpr ⟨hcost, rfl⟩
      have hposition : checkedPositionDelta (if sells then -1 else 1) fill.fillQty 1 =
          .ok ((if sells then -1 else 1) * (fill.fillQty : ℤ)) := by
        have hqty : _ < 2 ^ 63 := h.qty
        have hsigned : checkedI64 ((if sells then -1 else 1) * (fill.fillQty : ℤ)) =
            some ((if sells then -1 else 1) * (fill.fillQty : ℤ)) := by
          refine checkedI64_eq_some_iff.mpr ⟨?_, rfl⟩
          cases sells <;> simp <;> omega
        rw [checkedPositionDelta, hsigned, Option.bind_some, if_neg one_ne_zero, Int.tdiv_one,
          hsigned]
        rfl
      rw [computeFillSettlementChecked, if_neg hqty, if_pos ⟨hshape.numMarkets, hshape.numStates⟩,
        simpleOutcome_oneHot hshape]
      refine ⟨_, bind_eq_ok.mpr ⟨_, okOr_eq_ok.mpr (i64OfU64_eq_some_iff.mpr ⟨h.qty, rfl⟩),
        bind_eq_ok.mpr ⟨_, okOr_eq_ok.mpr hnotional, bind_eq_ok.mpr ⟨_, hposition, rfl⟩⟩⟩⟩
    obtain ⟨r, hr⟩ := hok
    have hdelta := computeFillSettlementChecked_oneHot hshape hqty hr
    rw [computeFillSettlement, hr, hdelta]
    cases sells <;> simp [signedValue]

/-- The surplus of a fill within its limit: the value of the price difference. -/
theorem FillFits.welfareContribution_eq (h : FillFits order fill) (hsells : order.isSeller = sells)
    (hlimit : order.isSatisfiedAtPrice fill.fillPrice = true) :
    ∃ low high : ℕ, low ≤ high ∧
      order.welfareContribution fill.fillPrice fill.fillQty =
        some ((high - low) * fill.fillQty / shareScale : ℕ) ∧
      signedValue sells order.limitPrice fill.fillQty -
          signedValue sells fill.fillPrice fill.fillQty =
        (high * fill.fillQty / shareScale : ℕ) - (low * fill.fillQty / shareScale : ℕ) := by
  have hsurplus : ∀ low high : ℕ, low ≤ high → high < 2 ^ 63 →
      high * fill.fillQty / shareScale < 2 ^ 63 →
      (if fill.fillQty = 0 then some 0 else do
        let surplus ← checkedI64 ((high : ℤ) - low)
        signedPriceDeltaNotional surplus fill.fillQty) =
        some (((high - low) * fill.fillQty / shareScale : ℕ) : ℤ) := by
    intro low high hle hhigh hvalue
    split_ifs with hqty
    · simp [hqty]
    · have hbound : (high - low) * fill.fillQty / shareScale < 2 ^ 63 :=
        (Nat.div_le_div_right (Nat.mul_le_mul_right _ (Nat.sub_le _ _))).trans_lt hvalue
      rw [checkedI64_eq_some_iff.mpr ⟨by omega, rfl⟩]
      show signedPriceDeltaNotional ((high : ℤ) - low) fill.fillQty = _
      have habs : ((high : ℤ) - low).natAbs = high - low := by omega
      unfold signedPriceDeltaNotional
      rw [habs, wrapI64_of_lt hbound]
      exact if_neg (by omega)
  unfold Order.welfareContribution
  unfold Order.isSatisfiedAtPrice at hlimit
  rw [wrapI64_of_lt h.limit, wrapI64_of_lt h.price]
  rw [hsells] at hlimit ⊢
  cases sells with
  | true =>
    have hle : order.limitPrice ≤ fill.fillPrice := of_decide_eq_true hlimit
    refine ⟨order.limitPrice, fill.fillPrice, hle, hsurplus _ _ hle h.price h.cost, ?_⟩
    simp only [signedValue, if_true]
    ring
  | false =>
    have hle : fill.fillPrice ≤ order.limitPrice := of_decide_eq_true hlimit
    refine ⟨fill.fillPrice, order.limitPrice, hle, hsurplus _ _ hle h.limit h.value, ?_⟩
    simp only [signedValue, Bool.false_eq_true, if_false]

/-- **One fill.**  Its gross value and its cash add up to its surplus, and at most one nano more. -/
theorem FillFits.net_mem (h : FillFits order fill) (hshape : order.BinaryOneHot outcome sells)
    (hlimit : order.isSatisfiedAtPrice fill.fillPrice = true) :
    ∃ surplus, order.welfareContribution fill.fillPrice fill.fillQty = some surplus ∧ 0 ≤ surplus ∧
      surplus ≤ signedValue sells order.limitPrice fill.fillQty -
        signedValue sells fill.fillPrice fill.fillQty ∧
      signedValue sells order.limitPrice fill.fillQty -
        signedValue sells fill.fillPrice fill.fillQty ≤ surplus + 1 := by
  obtain ⟨low, high, hle, hsurplus, hnet⟩ := h.welfareContribution_eq hshape.isSeller_eq hlimit
  have hround := div_sub_div_mem fill.fillQty hle
  rw [hnet]
  exact ⟨_, hsurplus, Int.natCast_nonneg _, by omega, by omega⟩

end Fills

/-! ## All fills -/

section Totals

variable {orders : List Order} {fills : List Fill}

/-- The surplus of the fills, fill by fill. -/
def surplusesFromFills (orders : List Order) (fills : List Fill) : Option (List ℤ) :=
  (filledOrders orders fills).mapM fun (order, fill) =>
    order.welfareContribution fill.fillPrice fill.fillQty

/-- Fills of one-hot orders, within their limits and without overflow. -/
structure WithinLimits (orders : List Order) (fills : List Fill) : Prop where
  shape : ∀ order ∈ orders, ∃ outcome sells, order.BinaryOneHot outcome sells
  limit : ∀ order ∈ orders, ∀ fill ∈ fills, order.id = fill.orderId →
    order.isSatisfiedAtPrice fill.fillPrice = true
  fits : ∀ order ∈ orders, ∀ fill ∈ fills, order.id = fill.orderId → FillFits order fill

/-- Gross value of a fill, in exact numbers. -/
def grossOf (entry : Order × Fill) : ℤ :=
  signedValue entry.1.isSeller entry.1.limitPrice entry.2.fillQty

/-- Cash of a fill, in exact numbers. -/
def cashOf (entry : Order × Fill) : ℤ :=
  -signedValue entry.1.isSeller entry.2.fillPrice entry.2.fillQty

theorem WithinLimits.grossWelfareFromFills_eq (h : WithinLimits orders fills) {gross : ℤ}
    (hgross : grossWelfareFromFills orders fills = some gross) :
    gross = ((filledOrders orders fills).map grossOf).sum := by
  have hvalues : (filledOrders orders fills).mapM (fun entry : Order × Fill =>
      entry.1.grossWelfareContribution entry.2.fillQty) =
        some ((filledOrders orders fills).map grossOf) := by
    refine mapM_eq_some_map fun entry hentry => ?_
    obtain ⟨horder, hfill, hid⟩ := mem_filledOrders hentry
    exact (h.fits _ horder _ hfill hid).grossWelfareContribution_eq rfl
  obtain ⟨values, hmap, hsum⟩ := Option.bind_eq_some_iff.mp hgross
  obtain rfl := Option.some.inj (hmap.symm.trans hvalues)
  exact (sumI64_eq_some hsum).1

theorem WithinLimits.fillBalanceDeltaFromFills_eq (h : WithinLimits orders fills) {delta : ℤ}
    (hdelta : fillBalanceDeltaFromFills orders fills = some delta) :
    delta = ((filledOrders orders fills).map cashOf).sum := by
  have hskip : ∀ entries : List (Order × Fill),
      (∀ entry ∈ entries, ((computeFillSettlement entry.1 entry.2).map fun delta =>
        delta.balanceDelta).getD 0 = cashOf entry) →
      (entries.filterMap fun entry => (computeFillSettlement entry.1 entry.2).map fun delta =>
        delta.balanceDelta).sum = (entries.map cashOf).sum := by
    intro entries
    induction entries with
    | nil => exact fun _ => rfl
    | cons entry entries ih =>
      intro hentries
      obtain ⟨hentry, hrest⟩ := List.forall_mem_cons.mp hentries
      rw [List.map_cons, List.sum_cons, ← ih hrest, ← hentry, List.filterMap_cons]
      cases (computeFillSettlement entry.1 entry.2).map fun delta => delta.balanceDelta with
      | none => simp
      | some cash => simp
  rw [(sumI64_eq_some hdelta).1]
  refine hskip _ fun entry hentry => ?_
  obtain ⟨horder, hfill, hid⟩ := mem_filledOrders hentry
  obtain ⟨outcome, sells, hshape⟩ := h.shape _ horder
  rw [cashOf, hshape.isSeller_eq]
  exact (h.fits _ horder _ hfill hid).balanceDelta_eq hshape

/-- The surplus of a fill, when it does not overflow. -/
def surplusOf (entry : Order × Fill) : ℤ :=
  (entry.1.welfareContribution entry.2.fillPrice entry.2.fillQty).getD 0

theorem WithinLimits.net_mem (h : WithinLimits orders fills) {entry : Order × Fill}
    (hentry : entry ∈ filledOrders orders fills) :
    entry.1.welfareContribution entry.2.fillPrice entry.2.fillQty = some (surplusOf entry) ∧
      0 ≤ surplusOf entry ∧ surplusOf entry ≤ grossOf entry + cashOf entry ∧
      grossOf entry + cashOf entry ≤ surplusOf entry + 1 := by
  obtain ⟨horder, hfill, hid⟩ := mem_filledOrders hentry
  obtain ⟨outcome, sells, hshape⟩ := h.shape _ horder
  obtain ⟨surplus, hsurplus, hnonneg, hle, hge⟩ := (h.fits _ horder _ hfill hid).net_mem hshape
    (h.limit _ horder _ hfill hid)
  have hsome : surplusOf entry = surplus := by rw [surplusOf, hsurplus, Option.getD_some]
  rw [hsome, grossOf, cashOf, hshape.isSeller_eq]
  exact ⟨hsurplus, hnonneg, hle, hge⟩

/-- **Welfare accounting.**  Net welfare is not negative; it is at least the surplus of the fills,
and at most one nano for each fill above it. -/
theorem welfare_accounting (h : WithinLimits orders fills) {gross delta cost welfare : ℤ}
    (hgross : grossWelfareFromFills orders fills = some gross)
    (hdelta : fillBalanceDeltaFromFills orders fills = some delta) (hword : -2 ^ 63 < delta)
    (hcost : mintingCostFromFills orders fills = some cost)
    (hnet : netWelfare gross cost = some welfare) :
    ∃ surpluses, surplusesFromFills orders fills = some surpluses ∧ 0 ≤ welfare ∧
      surpluses.sum ≤ welfare ∧ welfare ≤ surpluses.sum + fills.length := by
  have hbelow : delta < 2 ^ 63 := (sumI64_eq_some hdelta).2
  have hcost_eq : cost = -delta := by
    rw [mintingCostFromFills, hdelta] at hcost
    have hchecked : checkedI64 (-delta) = some (-delta) :=
      checkedI64_eq_some_iff.mpr ⟨by omega, rfl⟩
    rw [← Option.some.inj hcost, mintingCostFromFillBalanceDelta,
      mintingCostFromFillBalanceDeltaChecked, hchecked]
    rfl
  obtain ⟨-, rfl⟩ := checkedI64_eq_some_iff.mp hnet
  have htotal : gross - cost =
      ((filledOrders orders fills).map fun entry => grossOf entry + cashOf entry).sum := by
    rw [hcost_eq, h.grossWelfareFromFills_eq hgross, h.fillBalanceDeltaFromFills_eq hdelta,
      List.sum_map_add]
    ring
  have hlow : ((filledOrders orders fills).map surplusOf).sum ≤ gross - cost := by
    rw [htotal]
    exact List.sum_le_sum fun entry hentry => (h.net_mem hentry).2.2.1
  have hhigh : gross - cost ≤ ((filledOrders orders fills).map surplusOf).sum + fills.length := by
    calc gross - cost
        ≤ ((filledOrders orders fills).map fun entry => surplusOf entry + 1).sum := by
          rw [htotal]
          exact List.sum_le_sum fun entry hentry => (h.net_mem hentry).2.2.2
      _ = ((filledOrders orders fills).map surplusOf).sum + (filledOrders orders fills).length := by
          rw [List.sum_map_add]
          simp
      _ ≤ ((filledOrders orders fills).map surplusOf).sum + fills.length := by
          have hlength : (filledOrders orders fills).length ≤ fills.length :=
            List.length_filterMap_le _ _
          omega
  have hnonneg : 0 ≤ ((filledOrders orders fills).map surplusOf).sum := by
    refine List.sum_nonneg fun surplus hsurplus => ?_
    obtain ⟨entry, hentry, rfl⟩ := List.mem_map.mp hsurplus
    exact (h.net_mem hentry).2.1
  exact ⟨_, mapM_eq_some_map fun entry hentry => (h.net_mem hentry).1, hnonneg.trans hlow,
    hlow, hhigh⟩

end Totals

/-- A buy of YES at a limit of a thousand nanos. -/
def thousandBuy : Order :=
  { Order.new 1 with
    markets := (Vector.replicate 5 MarketId.none).set 0 7 Order.firstMarket_lt
    numMarkets := 1
    payoffs := (Vector.replicate 32 0).set 0 1 Order.firstState_lt
    numStates := 2
    limitPrice := 1000
    maxFill := 1000 }

/-- A thousandth of a share at one nano: rounding turns the surplus of nothing into one nano of
welfare, all that one fill can add. -/
theorem welfare_accounting_thousandth :
    grossWelfareFromFills [thousandBuy] [⟨1, 1, 1, 0⟩] = some 1 ∧
      mintingCostFromFills [thousandBuy] [⟨1, 1, 1, 0⟩] = some 0 ∧ netWelfare 1 0 = some 1 ∧
      surplusesFromFills [thousandBuy] [⟨1, 1, 1, 0⟩] = some [0] ∧
      ∃ surpluses, surplusesFromFills [thousandBuy] [⟨1, 1, 1, 0⟩] = some surpluses ∧
        (0 : ℤ) ≤ 1 ∧ surpluses.sum ≤ 1 ∧ (1 : ℤ) ≤ surpluses.sum + 1 := by
  have hgross : grossWelfareFromFills [thousandBuy] [⟨1, 1, 1, 0⟩] = some 1 := by decide +kernel
  have hdelta : fillBalanceDeltaFromFills [thousandBuy] [⟨1, 1, 1, 0⟩] = some 0 := by decide +kernel
  have hcost : mintingCostFromFills [thousandBuy] [⟨1, 1, 1, 0⟩] = some 0 := by decide +kernel
  have hnet : netWelfare 1 0 = some 1 := by decide +kernel
  have hwithin : WithinLimits [thousandBuy] [⟨1, 1, 1, 0⟩] := by
    refine ⟨List.forall_mem_singleton.mpr ⟨0, false, rfl, rfl, .inl rfl, rfl, rfl⟩,
      List.forall_mem_singleton.mpr (List.forall_mem_singleton.mpr fun _ => ?_),
      List.forall_mem_singleton.mpr (List.forall_mem_singleton.mpr fun _ => ?_)⟩
    · decide
    · refine ⟨?_, ?_, ?_, ?_, ?_⟩ <;> unfold FitsI64 <;> decide
  exact ⟨hgross, hcost, hnet, by decide +kernel,
    welfare_accounting hwithin hgross hdelta (by norm_num) hcost hnet⟩

end Sybil.Engine
