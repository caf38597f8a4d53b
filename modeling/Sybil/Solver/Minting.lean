import Sybil.Solver.Repair
import Sybil.Verifier.MintExposure
import Sybil.Verifier.SettledState

/-!
# Minting after the repair

The verifier settles the fills of a block and lets MINT take the excess side of every market at
its clearing price.  An adjustment that brings nothing is reported as one without a clearing
price.  The repair of the solver leaves no excess of an outcome without a price
(`trimZeroPriceMinting_spec`), but the notional of an excess is a floor: a few units at a price
of a few nanos are worth less than a nano, and are reported although there is a price.

The excess of a market after the fills is the imbalance of the fills (`excess_settleFills`) when
the accounts were balanced before.
-/

namespace Sybil.Solver

open Engine Verifier

open Sequencer (orderMapOf)

variable {P : Primitives} {w : BlockWitness}

variable {fill : Fill} {v : Violation}

/-- The orders of a witness. -/
def ordersOf (w : BlockWitness) : List Order := w.orders.map WitnessOrder.order

/-- A fill names no account, or that of its order. -/
def OwnFills (w : BlockWitness) : Prop :=
  ∀ fill ∈ w.fills, ∀ wo, (witnessOrderMap w.orders).get? fill.orderId = some wo →
    fill.accountId = 0 ∨ fill.accountId = wo.accountId

/-- No arithmetic of the settlement overflows. -/
def SettlesExactly (P : Primitives) (w : BlockWitness) : Prop :=
  ∀ v ∈ (derivePostState P w).violations, v.kind ≠ .settlementOverflow

/-- No adjustment of MINT is reported as one without a clearing price. -/
def MintsUnflagged (P : Primitives) (w : BlockWitness) : Prop :=
  ∀ v ∈ (derivePostState P w).violations, v.kind ≠ .mintingWithoutClearingPrice

/-! ## What the derivation reports -/

theorem mem_addPositionStep {accountId : ℕ} {positions : Positions} {delta : MarketId × ℕ × ℤ}
    (h : v ∈ (addPositionStep accountId positions delta).2) : v.kind = .settlementOverflow := by
  unfold addPositionStep at h
  dsimp only at h
  split at h
  · rw [List.mem_singleton.mp h]
    rfl
  · cases h

theorem mem_settleDelta {height accountId : ℕ} {st : FillSettlement} {delta : SettlementDelta}
    (h : v ∈ (settleDelta P height accountId st fill delta).2) : v.kind = .settlementOverflow := by
  unfold settleDelta at h
  dsimp only at h
  split at h
  · rw [List.mem_singleton.mp h]
    rfl
  · split at h
    · rw [List.mem_singleton.mp h]
      rfl
    · obtain ⟨_, _, -, hstep⟩ := exists_of_mem_reportLoop h
      exact mem_addPositionStep hstep

/-- With own fills the settlement reports overflows only. -/
theorem mem_settleFill {height : ℕ} {orders : OrdMap ℕ WitnessOrder} {st : FillSettlement}
    (hown : ∀ wo, orders.get? fill.orderId = some wo →
      fill.accountId = 0 ∨ fill.accountId = wo.accountId)
    (h : v ∈ (settleFill P height orders st fill).2) : v.kind = .settlementOverflow := by
  unfold settleFill at h
  split_ifs at h
  · cases h
  · split at h
    · cases h
    · next wo hwo =>
      rcases List.mem_append.mp h with haccount | hsettle
      · rw [fillAccountViolations, reportIf, if_neg] at haccount
        · cases haccount
        · rintro ⟨hzero, hother⟩
          exact (hown wo hwo).elim hzero hother
      · unfold settleOrderFill at hsettle
        dsimp only at hsettle
        split_ifs at hsettle
        · rw [List.mem_singleton.mp hsettle]
          rfl
        · rw [List.mem_singleton.mp hsettle]
          rfl
        · split at hsettle
          · exact mem_settleDelta hsettle
          · cases hsettle
          · rw [List.mem_singleton.mp hsettle]
            rfl

/-- What an exact settlement of own fills does without a report. -/
structure Derived (P : Primitives) (w : BlockWitness) : Prop where
  fills : (settleFills P w).2 = []
  totals : (marketTotals (settleFills P w).1.accounts).2 = []
  adjustments : deriveMintingChecked w.clearingPrices
    (marketTotals (settleFills P w).1.accounts).1 = .ok (mintAdjustmentsOf P w)

theorem derived_of_settlesExactly (hown : OwnFills w) (h : SettlesExactly P w) : Derived P w := by
  simp only [SettlesExactly, derivePostState, List.mem_append] at h
  refine ⟨?_, ?_, ?_⟩
  · refine List.eq_nil_iff_forall_not_mem.mpr fun v hv => ?_
    obtain ⟨_, fill, hfill, hstep⟩ := exists_of_mem_reportLoop hv
    exact h v (.inl (.inl (.inl (.inl hv)))) (mem_settleFill (hown fill hfill) hstep)
  · have hnone := fun v hv => h v (.inl (.inl (.inl (.inr hv))))
    unfold marketTotals at hnone ⊢
    cases htotals : (allMarkets (settleFills P w).1.accounts).mapM
        (marketTotalForAccounts (settleFills P w).1.accounts) with
    | ok totals => rfl
    | error details =>
      rw [htotals] at hnone
      exact absurd rfl (hnone (overflow details) (List.mem_singleton_self _))
  · have hnone := fun v hv => h v (.inl (.inl (.inr hv)))
    unfold mintAdjustmentsOf
    unfold postFillAdjustments at hnone ⊢
    cases hderive : deriveMintingChecked w.clearingPrices
        (marketTotals (settleFills P w).1.accounts).1 with
    | ok adjustments => rfl
    | error error =>
      rw [hderive] at hnone
      exact absurd rfl (hnone _ (List.mem_singleton_self _))

theorem mem_adjustMintStep {mint : DerivedAccountState} {adj : MintAdjustment}
    (h : v ∈ (adjustMintStep mint adj).2) : v.kind = .settlementOverflow := by
  unfold adjustMintStep at h
  dsimp only at h
  split at h
  · rw [List.mem_singleton.mp h]
    rfl
  · split at h
    · rw [List.mem_singleton.mp h]
      rfl
    · cases h

/-- Only an adjustment that brings nothing is flagged. -/
theorem mintsUnflagged_iff (hown : OwnFills w) (h : SettlesExactly P w) :
    MintsUnflagged P w ↔ ∀ adj ∈ mintAdjustmentsOf P w, adj.balanceDelta ≠ 0 := by
  constructor
  · intro hunflagged adj hadj hzero
    have hsome : (mintAdjustmentsOf P w).isEmpty = false :=
      List.isEmpty_eq_false_iff.mpr (List.ne_nil_of_mem hadj)
    have hreport : ∃ v ∈ unpricedViolations adj, v.kind = .mintingWithoutClearingPrice := by
      rw [unpricedViolations, reportIf, if_pos hzero]
      exact ⟨_, List.mem_singleton_self _, rfl⟩
    obtain ⟨v, hv, hkind⟩ := hreport
    refine hunflagged v ?_ hkind
    refine List.mem_append_right _ ?_
    show v ∈ (adjustMint P w.header.height _ (mintAdjustmentsOf P w)).2
    rw [adjustMint, if_neg (by rw [hsome]; exact Bool.false_ne_true)]
    exact List.mem_append_left _ (List.mem_flatMap.mpr ⟨adj, hadj, hv⟩)
  · intro hpaid v hv hkind
    have hderived := derived_of_settlesExactly hown h
    simp only [derivePostState, List.mem_append] at hv
    rcases hv with (((hv | hv) | hv) | hv) | hv
    · rw [hderived.fills] at hv
      cases hv
    · rw [hderived.totals] at hv
      cases hv
    · rw [postFillAdjustments, hderived.adjustments] at hv
      cases hv
    · unfold derivedMintingCost at hv
      split at hv
      · cases hv
      · rw [List.mem_singleton.mp hv] at hkind
        cases hkind
    · change v ∈ (adjustMint P w.header.height _ (mintAdjustmentsOf P w)).2 at hv
      unfold adjustMint at hv
      split_ifs at hv
      · cases hv
      · rcases List.mem_append.mp hv with hv | hv
        · obtain ⟨adj, hadj, hv⟩ := List.mem_flatMap.mp hv
          rw [unpricedViolations, reportIf, if_neg (hpaid adj hadj)] at hv
          cases hv
        · obtain ⟨_, _, -, hstep⟩ := exists_of_mem_reportLoop hv
          rw [mem_adjustMintStep hstep] at hkind
          cases hkind

/-! ## The excess of a market -/

theorem get?_orderMapOf_ordersOf (w : BlockWitness) (orderId : ℕ) :
    (orderMapOf (ordersOf w)).get? orderId =
      ((witnessOrderMap w.orders).get? orderId).map WitnessOrder.order := by
  rw [orderMapOf, ordersOf, List.map_map, witnessOrderMap]
  exact OrdMap.get?_ofList_map (fun wo : WitnessOrder => wo.order.id) id WitnessOrder.order w.orders

/-- A fill of an exact settlement moves its quantity. -/
theorem settlementOf_of_settleFills (h : (settleFills P w).2 = []) (hfill : fill ∈ w.fills)
    (hqty : fill.fillQty ≠ 0) {wo : WitnessOrder} {outcome : ℕ} {sells : Bool}
    (hget : (witnessOrderMap w.orders).get? fill.orderId = some wo)
    (hshape : wo.order.BinaryOneHot outcome sells) :
    ∃ balanceDelta, settlementOf (witnessOrderMap w.orders) fill = some (wo.accountId,
      ⟨balanceDelta,
        [(wo.order.marketAt 0, outcome, (if sells then -1 else 1) * fill.fillQty)]⟩) := by
  obtain ⟨st, -, hst⟩ := exists_silent_at (P := fun _ => True) h (fun _ _ _ _ _ => trivial)
    trivial hfill
  simp only [settleFill, hqty, if_false, hget, List.append_eq_nil_iff] at hst
  obtain ⟨-, hst⟩ := hst
  cases hs : settlementOf (witnessOrderMap w.orders) fill with
  | some s =>
    obtain rfl := settlementOf_oneHot hget hshape hqty hs
    exact ⟨_, rfl⟩
  | none =>
    exfalso
    simp only [settlementOf, hget] at hs
    unfold settleOrderFill at hst
    dsimp only at hst
    split_ifs at hst
    cases hsettle : computeFillSettlementChecked wo.order fill with
    | error e =>
      rw [hsettle] at hst
      cases hst
    | ok r =>
      obtain rfl := computeFillSettlementChecked_oneHot hshape hqty hsettle
      rw [hsettle] at hs
      cases hs

theorem unitPrice_apply (market market' : MarketId) (outcome outcome' : ℕ) :
    unitPrice market outcome (toLex (market', outcome')) =
      if market' = market ∧ outcome' = outcome then 1 else 0 := by
  rw [unitPrice]
  refine if_congr ?_ rfl rfl
  rw [toLex.injective.eq_iff, Prod.mk.injEq]

/-- What a fill adds to the excess of a market, over the accounts. -/
theorem excess_fill (h : (settleFills P w).2 = [])
    (hshape : ∀ wo ∈ w.orders, ∃ outcome sells, wo.order.BinaryOneHot outcome sells)
    (hfill : fill ∈ w.fills) (hqty : fill.fillQty ≠ 0) {S : Finset ℕ}
    (hS : ∀ wo ∈ w.orders, wo.accountId ∈ S) (market : MarketId) :
    (∑ id ∈ S, fillWorth (witnessOrderMap w.orders) id 0 (unitPrice market 0) fill) -
        (∑ id ∈ S, fillWorth (witnessOrderMap w.orders) id 0 (unitPrice market 1) fill) =
      netUnder (orderMapOf (ordersOf w)) market fill := by
  unfold netUnder
  rw [get?_orderMapOf_ordersOf]
  cases hget : (witnessOrderMap w.orders).get? fill.orderId with
  | none => simp [fillWorth, settlementOf, hget]
  | some wo =>
    have hwo : wo ∈ w.orders := by
      obtain ⟨wo', hmem, heq⟩ := List.mem_map.mp (OrdMap.mem_of_get?_ofList hget)
      obtain rfl : wo' = wo := congrArg Prod.snd heq
      exact hmem
    obtain ⟨outcome, sells, hone⟩ := hshape wo hwo
    obtain ⟨balanceDelta, hs⟩ := settlementOf_of_settleFills h hfill hqty hget hone
    have hworth : ∀ o, (∑ id ∈ S, fillWorth (witnessOrderMap w.orders) id 0 (unitPrice market o)
        fill) = if wo.order.marketAt 0 = market ∧ outcome = o then
          (if sells then -1 else 1) * (fill.fillQty : ℤ) else 0 := by
      intro o
      simp only [fillWorth, hs, Option.elim_some, deltaWorth, positionChanges, List.map_cons,
        List.map_nil, List.sum_cons, List.sum_nil, zero_mul, zero_add, add_zero, unitPrice_apply,
        Finset.sum_ite_eq', hS wo hwo, if_true, ite_mul, one_mul]
    have hpayoff := hone.payoff
    have hother := hone.other
    rw [hworth, hworth]
    simp only [Option.map_some, outcomeDiffCoeff]
    rcases hone.binary with rfl | rfl
    · rw [hpayoff, show wo.order.payoffAt 1 = 0 from hother]
      cases sells <;> by_cases hm : wo.order.marketAt 0 = market <;> simp [hm]
    · rw [hpayoff, show wo.order.payoffAt 0 = 0 from hother]
      cases sells <;> by_cases hm : wo.order.marketAt 0 = market <;> simp [hm]

/-- **The excess after the fills** of a balanced state is the imbalance of the fills. -/
theorem excess_settleFills (h : (settleFills P w).2 = [])
    (hshape : ∀ wo ∈ w.orders, ∃ outcome sells, wo.order.BinaryOneHot outcome sells)
    (hpos : ∀ fill ∈ w.fills, 0 < fill.fillQty) (market : MarketId)
    (hbalanced : circulating (startAccounts w.postSystemState) market 0 =
      circulating (startAccounts w.postSystemState) market 1) :
    circulating (settleFills P w).1.accounts market 0 -
        circulating (settleFills P w).1.accounts market 1 =
      netDiff (orderMapOf (ordersOf w)) market w.fills := by
  let S : Finset ℕ := ((settleFills P w).1.accounts.keys ++
    (startAccounts w.postSystemState).keys ++ w.orders.map WitnessOrder.accountId).toFinset
  have hafter : ∀ id ∈ (settleFills P w).1.accounts.keys, id ∈ S := by
    intro id hid
    simp [S, hid]
  have hbefore : ∀ id ∈ (startAccounts w.postSystemState).keys, id ∈ S := by
    intro id hid
    simp [S, hid]
  have howners : ∀ wo ∈ w.orders, wo.accountId ∈ S := by
    intro wo hwo
    simp only [S, List.mem_toFinset, List.mem_append]
    exact .inr (List.mem_map_of_mem hwo)
  have hsum : ∀ o, circulating (settleFills P w).1.accounts market o =
      circulating (startAccounts w.postSystemState) market o + (w.fills.map fun fill =>
        ∑ id ∈ S, fillWorth (witnessOrderMap w.orders) id 0 (unitPrice market o) fill).sum := by
    intro o
    rw [circulating_eq_sum hafter, circulating_eq_sum hbefore,
      Finset.sum_congr rfl fun id _ => worth_settleFills h id 0 (unitPrice market o),
      Finset.sum_add_distrib]
    congr 1
    induction w.fills with
    | nil => simp
    | cons fill fills ih => simp [Finset.sum_add_distrib, ih]
  have hfills : ∀ fills : List Fill, (∀ fill ∈ fills, fill ∈ w.fills) →
      (fills.map fun fill =>
        ∑ id ∈ S, fillWorth (witnessOrderMap w.orders) id 0 (unitPrice market 0) fill).sum -
      (fills.map fun fill =>
        ∑ id ∈ S, fillWorth (witnessOrderMap w.orders) id 0 (unitPrice market 1) fill).sum =
      netDiff (orderMapOf (ordersOf w)) market fills := by
    intro fills
    induction fills with
    | nil => simp [netDiff]
    | cons fill fills ih =>
      intro hmem
      obtain ⟨hfill, hrest⟩ := List.forall_mem_cons.mp hmem
      have hhead := excess_fill h hshape hfill (Nat.ne_of_gt (hpos fill hfill)) howners market
      have htail := ih hrest
      unfold netDiff at htail ⊢
      simp only [List.map_cons, List.sum_cons]
      linarith
  have hnet := hfills w.fills fun _ hfill => hfill
  rw [hsum, hsum, hbalanced, ← hnet]
  ring

/-! ## Sub-nano notionals -/

/-- The snapshots have the circulation of the accounts that are read from them. -/
theorem circulating_startAccounts (snapshots : List AccountSnapshot) (market : MarketId)
    (outcome : ℕ) :
    circulating (startAccounts snapshots) market outcome =
      ((lastSnapshots snapshots).map fun a => a.shares market outcome).sum := by
  rw [circulating, lastSnapshots, OrdMap.values, List.map_map]
  symm
  refine OrdMap.sumBy_eq_of_get? (m := accountsOf snapshots)
    (f := fun _ a => a.shares market outcome) fun id => ?_
  rw [get?_startAccounts, Option.map_map]
  rfl

/-- The outcome that an imbalance points to. -/
def excessOutcome (diff : ℤ) : ℕ := if 0 < diff then 0 else 1

/-- The imbalance of every market is worth at least a nano at its clearing price. -/
def WholeNanos (w : BlockWitness) : Prop :=
  ∀ market, netDiff (orderMapOf (ordersOf w)) market w.fills ≠ 0 →
    shareScale ≤ priceOf w.clearingPrices market
        (excessOutcome (netDiff (orderMapOf (ordersOf w)) market w.fills)) *
      (netDiff (orderMapOf (ordersOf w)) market w.fills).natAbs

/-- Only balanced markets go without an adjustment. -/
theorem exists_adjustment {clearingPrices : OrdMap MarketId (List Nanos)}
    {totals : List (MarketId × ℤ × ℤ)} {adjustments : List MintAdjustment}
    (h : deriveMintingChecked clearingPrices totals = .ok adjustments)
    {total : MarketId × ℤ × ℤ} (htotal : total ∈ totals) (hne : total.2.1 ≠ total.2.2) :
    ∃ adj ∈ adjustments, mintAdjustment clearingPrices total = .ok (some adj) := by
  induction totals generalizing adjustments with
  | nil => cases htotal
  | cons first totals ih =>
    obtain ⟨adj?, hfirst, h⟩ := bind_eq_ok.mp h
    obtain ⟨rest, hrest, h⟩ := bind_eq_ok.mp h
    obtain rfl := Except.ok.inj h
    rcases List.mem_cons.mp htotal with rfl | htotal
    · cases adj? with
      | none => exact absurd (mintAdjustment_eq_none hfirst) hne
      | some adj => exact ⟨adj, List.mem_append_left _ (List.mem_singleton_self _), hfirst⟩
    · obtain ⟨adj, hadj, hone⟩ := ih hrest htotal
      exact ⟨adj, List.mem_append_right _ hadj, hone⟩

/-- The adjustments of an exact settlement, by market. -/
theorem mem_mintAdjustmentsOf (h : Derived P w) {market : MarketId} {diff : ℤ}
    (hdiff : circulating (settleFills P w).1.accounts market 0 -
      circulating (settleFills P w).1.accounts market 1 = diff) :
    (diff ≠ 0 → ∃ adj ∈ mintAdjustmentsOf P w, adj.marketId = market) ∧
      ∀ adj ∈ mintAdjustmentsOf P w, adj.marketId = market → diff ≠ 0 ∧
        adj.balanceDelta = ((priceOf w.clearingPrices market (excessOutcome diff) * diff.natAbs /
          shareScale : ℕ) : ℤ) := by
  have htotals := totals_of_silent h.totals
  constructor
  · intro hne
    have hmarket : market ∈ allMarkets (settleFills P w).1.accounts := by
      by_contra hnot
      rw [circulating_of_not_mem hnot, circulating_of_not_mem hnot] at hdiff
      omega
    have hmem : (market, circulating (settleFills P w).1.accounts market 0,
        circulating (settleFills P w).1.accounts market 1) ∈
          (marketTotals (settleFills P w).1.accounts).1 := by
      rw [htotals]
      exact List.mem_map_of_mem hmarket
    obtain ⟨adj, hadj, hone⟩ := exists_adjustment h.adjustments hmem
      (show circulating _ market 0 ≠ circulating _ market 1 by omega)
    exact ⟨adj, hadj, (mintAdjustment_eq_some hone).1⟩
  · intro adj hadj hmarket
    obtain ⟨total, htotal, hone⟩ := exists_of_mem_deriveMintingChecked h.adjustments hadj
    rw [htotals] at htotal
    obtain ⟨market', -, rfl⟩ := List.mem_map.mp htotal
    obtain ⟨hid, hne, houtcome, -, hbalance⟩ := mintAdjustment_eq_some hone
    obtain rfl : market' = market := hid.symm.trans hmarket
    rw [hdiff] at hbalance
    have hexcess : adj.outcome = excessOutcome diff := by
      rw [houtcome, excessOutcome]
      exact if_congr (by omega) rfl rfl
    rw [hexcess] at hbalance
    exact ⟨by omega, hbalance⟩

/-- **When minting is flagged.**  The fills are what the repair of the solver left, so every
imbalance has a clearing price; the verifier reports a missing one exactly when the imbalance of
some market is worth less than a nano. -/
theorem mintsUnflagged_iff_wholeNanos {constraints : List MmConstraint} {fills : List Fill}
    (hshape : ∀ wo ∈ w.orders, ∃ outcome sells, wo.order.BinaryOneHot outcome sells)
    (hfills : w.fills = repair (ordersOf w) constraints w.clearingPrices fills)
    (hown : OwnFills w) (hbalanced : SharesBalanced (lastSnapshots w.postSystemState))
    (hexact : SettlesExactly P w) :
    (∀ market, netDiff (orderMapOf (ordersOf w)) market w.fills ≠ 0 →
        0 < priceOf w.clearingPrices market
          (excessOutcome (netDiff (orderMapOf (ordersOf w)) market w.fills))) ∧
      (MintsUnflagged P w ↔ WholeNanos w) := by
  have hshape' : ∀ order ∈ ordersOf w, ∃ outcome sells, order.BinaryOneHot outcome sells := by
    intro order horder
    obtain ⟨wo, hwo, rfl⟩ := List.mem_map.mp horder
    exact hshape wo hwo
  obtain ⟨hcleared, -, -⟩ := trimZeroPriceMinting_spec hshape' hfills
  have hpos : ∀ fill ∈ w.fills, 0 < fill.fillQty := by
    intro fill hfill
    rw [hfills] at hfill
    exact of_decide_eq_true (List.mem_filter.mp hfill).2
  have hderived := derived_of_settlesExactly hown hexact
  have hexcess : ∀ market, circulating (settleFills P w).1.accounts market 0 -
      circulating (settleFills P w).1.accounts market 1 =
        netDiff (orderMapOf (ordersOf w)) market w.fills := by
    intro market
    refine excess_settleFills hderived.fills hshape hpos market ?_
    rw [circulating_startAccounts, circulating_startAccounts]
    exact hbalanced market
  constructor
  · intro market hne
    refine Nat.pos_of_ne_zero fun hzero => hcleared market ?_
    rw [excessOutcome] at hzero
    split_ifs at hzero with hyes
    · exact .inl ⟨hyes, hzero⟩
    · exact .inr ⟨by omega, hzero⟩
  · rw [mintsUnflagged_iff hown hexact]
    constructor
    · intro hpaid market hne
      obtain ⟨hsome, hall⟩ := mem_mintAdjustmentsOf hderived (hexcess market)
      obtain ⟨adj, hadj, hmarket⟩ := hsome hne
      obtain ⟨-, hbalance⟩ := hall adj hadj hmarket
      by_contra hlt
      refine hpaid adj hadj ?_
      rw [hbalance, Nat.div_eq_of_lt (Nat.lt_of_not_le hlt), Nat.cast_zero]
    · intro hwhole adj hadj hzero
      obtain ⟨-, hall⟩ := mem_mintAdjustmentsOf hderived (hexcess adj.marketId)
      obtain ⟨hne, hbalance⟩ := hall adj hadj rfl
      have hdiv := Nat.div_pos (hwhole adj.marketId hne) (by decide : 0 < shareScale)
      rw [hbalance] at hzero
      exact absurd (Int.natCast_eq_zero.mp hzero) (Nat.ne_of_gt hdiv)

/-- A block in which one account buys some units of YES at the clearing price. -/
def unitsBought (P : Primitives) (qty : Qty) (price : Nanos) : BlockWitness :=
  secondBlock P
    { idleContent (loneBuyAccounts P) (loneBuyAccounts P) (oneMarketSidecar P [])
        (oneMarketSidecar P []) [] with
      orders := [⟨yesBuy 600000000, 1, false⟩]
      fills := [⟨1, qty, price, 1⟩]
      clearingPrices := OrdMap.ofList [(7, [price, nanosPerDollar - price])] }

theorem oneHot_unitsBought (P : Primitives) (qty : Qty) (price : Nanos) :
    ∀ wo ∈ (unitsBought P qty price).orders, ∃ outcome sells,
      wo.order.BinaryOneHot outcome sells :=
  List.forall_mem_singleton.mpr ⟨0, false, rfl, rfl, .inl rfl, rfl, rfl⟩

theorem ownFills_unitsBought (P : Primitives) (qty : Qty) (price : Nanos) :
    OwnFills (unitsBought P qty price) := by
  refine List.forall_mem_singleton.mpr fun wo hwo => .inr ?_
  obtain rfl : ⟨yesBuy 600000000, 1, false⟩ = wo := Option.some.inj hwo
  rfl

theorem sharesBalanced_unitsBought (P : Primitives) (qty : Qty) (price : Nanos) :
    SharesBalanced (lastSnapshots (unitsBought P qty price).postSystemState) := fun _ => rfl

theorem netDiff_unitsBought (P : Primitives) (qty : Qty) (price : Nanos) {market : MarketId}
    (hmarket : market ≠ 7) :
    netDiff (orderMapOf (ordersOf (unitsBought P qty price))) market
      (unitsBought P qty price).fills = 0 := by
  have hone : netUnder (orderMapOf [yesBuy 600000000]) market ⟨1, qty, price, 1⟩ = 0 :=
    if_neg (Ne.symm hmarket)
  show (List.map _ [_]).sum = 0
  rw [List.map_singleton, List.sum_singleton]
  exact hone

theorem violations_of_steps {accounts : DerivedAccounts} {delta : ℤ}
    {totals : List (MarketId × ℤ × ℤ)} {adjustments : List MintAdjustment}
    {reports : List Violation} (hfills : settleFills P w = (⟨accounts, delta⟩, []))
    (htotals : marketTotals accounts = (totals, []))
    (hadjust : postFillAdjustments w.clearingPrices totals = (adjustments, []))
    (hcost : (derivedMintingCost delta).2 = [])
    (hmint : (adjustMint P w.header.height accounts adjustments).2 = reports) :
    (derivePostState P w).violations = reports := by
  simp only [derivePostState, hfills, htotals, hadjust, hcost, hmint, List.nil_append]

/-- A whole share at half a dollar is not flagged. -/
theorem mintsUnflagged_of_share :
    priceOf (OrdMap.ofList [(7, [500000000, 500000000])]) 7 0 = 500000000 ∧
      ∀ P : Primitives, MintsUnflagged P (unitsBought P 1000 500000000) := by
  refine ⟨rfl, fun P => ?_⟩
  have hfills : [⟨1, 1000, 500000000, 1⟩] = repair [yesBuy 600000000] []
      (OrdMap.ofList [(7, [500000000, 500000000])]) [⟨1, 1000, 500000000, 1⟩] := by decide
  have hsettled : settleFills P (unitsBought P 1000 500000000) =
      (⟨startAccounts (loneBuyFilled P), -500000000⟩, []) := rfl
  have hexact : SettlesExactly P (unitsBought P 1000 500000000) := by
    intro v hv
    rw [violations_of_steps hsettled (marketTotals_loneBuy P) postFillAdjustments_loneBuy rfl
      rfl] at hv
    cases hv
  refine (mintsUnflagged_iff_wholeNanos (oneHot_unitsBought P 1000 500000000) hfills
    (ownFills_unitsBought P 1000 500000000) (sharesBalanced_unitsBought P 1000 500000000)
    hexact).2.mpr fun market hne => ?_
  by_cases hmarket : market = 7
  · subst hmarket
    show shareScale ≤ 500000000 * 1000
    decide
  · exact absurd (netDiff_unitsBought P 1000 500000000 hmarket) hne

/-- The accounts after the fill of one unit, which costs nothing. -/
def unitFilled (P : Primitives) : List AccountSnapshot :=
  [{ freshAccount P 1 2000000000 [] with
      positions := [(7, 0, 1)]
      eventsDigest := updateDigest P 0 (encodeFillEvent 1 1 1 2) },
    freshAccount P mintId 0 []]

/-- **Honest minting is flagged.**  One unit of YES at a price of one nano is worth a thousandth
of a nano: there is a clearing price, and the verifier says that there is none. -/
theorem sub_nano_minting_flagged :
    priceOf (OrdMap.ofList [(7, [1, nanosPerDollar - 1])]) 7 0 = 1 ∧ ∀ P : Primitives,
      (unitsBought P 1 1).fills =
          repair (ordersOf (unitsBought P 1 1)) [] (unitsBought P 1 1).clearingPrices
            [⟨1, 1, 1, 1⟩] ∧
        SharesBalanced (lastSnapshots (unitsBought P 1 1).postSystemState) ∧
        (derivePostState P (unitsBought P 1 1)).violations.map (fun v => v.kind) =
          [.mintingWithoutClearingPrice] := by
  refine ⟨rfl, fun P => ⟨?_, sharesBalanced_unitsBought P 1 1, ?_⟩⟩
  · show [⟨1, 1, 1, 1⟩] = repair [yesBuy 600000000] []
      (OrdMap.ofList [(7, [1, nanosPerDollar - 1])]) [⟨1, 1, 1, 1⟩]
    decide
  · have hsettled : settleFills P (unitsBought P 1 1) = (⟨startAccounts (unitFilled P), 0⟩, []) :=
      rfl
    have htotals : marketTotals (startAccounts (unitFilled P)) = ([(7, 1, 0)], []) := rfl
    have hadjust : postFillAdjustments (OrdMap.ofList [(7, [1, nanosPerDollar - 1])]) [(7, 1, 0)] =
        ([⟨7, 0, -1, 0⟩], []) := rfl
    rw [violations_of_steps hsettled htotals hadjust rfl rfl]
    rfl

end Sybil.Solver
