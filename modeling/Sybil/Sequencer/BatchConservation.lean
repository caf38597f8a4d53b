import Mathlib
import Sybil.Sequencer.Settlement

/-!
# A batch conserves collateral up to rounding

Settling a batch moves shares against cash, and MINT then shorts whatever outcome
is in excess.  Count a dollar of cash and a dollar of complete sets as the same
collateral.  The claim of this file is that a batch creates or destroys less than
one nano of it per fill and per adjustment.

## 1.  One valuation for everything

`AccountStore.worth c p` values each account at `c` per nano of cash and at `p`
per share.  Every operation changes it by exactly its own cash and share changes
(`settleBatchStep_cases`, `mintInto_worth`), whatever `c` and `p` are.  Position
totals are the case `c = 0` with `p` the indicator of one outcome, so balance per
market and value per batch come out of the same lemma.

## 2.  Marking at the clearing prices

With `c = 1000` and `p` the clearing prices, a fill changes the worth by the
remainder of its notional division and by nothing else: a buyer overpays by it,
a seller and MINT are short of it.  So a run of fills moves the worth by at most
`999` per fill, in the direction of its side.

## 3.  Balanced markets

When YES and NO totals agree, complementary prices make the worth a thousand times
the collateral (`worth_mark_eq`).  Both ends of a batch are balanced, hence the
bound on the worth is a bound on the collateral, and integrality removes the
fraction.
-/

namespace Sybil.Sequencer

open Engine

variable {P : Primitives} {a a' : Account} {adjustments : List MintAdjustment}
  {agg agg' : AccountAggregates} {delta : SettlementDelta} {fill : Fill} {fills : List Fill}
  {height market outcome : ℕ} {s : AccountStore} {st st' : BatchState}
  {totals : List (MarketId × ℤ × ℤ)}

/-! ## Worth -/

/-- Value of an account at `c` per nano of cash and `p` per share unit. -/
def Account.worth (a : Account) (c : ℤ) (p : PositionKey → ℤ) : ℤ :=
  c * a.balance + a.positions.value p

/-- Value of all accounts. -/
def AccountStore.worth (s : AccountStore) (c : ℤ) (p : PositionKey → ℤ) : ℤ :=
  s.accounts.sumBy fun _ a => a.worth c p

/-- Value of a list of position changes. -/
def deltaWorth (p : PositionKey → ℤ) (deltas : List (MarketId × ℕ × ℤ)) : ℤ :=
  (deltas.map fun d => p (toLex (d.1, d.2.1)) * d.2.2).sum

/-- One share of one outcome. -/
def oneShare (market : MarketId) (outcome : ℕ) : PositionKey → ℤ :=
  fun k => if k = toLex (market, outcome) then 1 else 0

/-- Total position of all accounts in an outcome. -/
def AccountStore.totalPosition (s : AccountStore) (market : MarketId) (outcome : ℕ) : ℤ :=
  s.accounts.sumBy fun _ a => a.position market outcome

/-- Total cash of all accounts. -/
def AccountStore.totalBalance (s : AccountStore) : ℤ := s.accounts.sumBy fun _ a => a.balance

theorem totalPosition_eq_worth (s : AccountStore) (market outcome : ℕ) :
    s.totalPosition market outcome = s.worth 0 (oneShare market outcome) := by
  refine OrdMap.sumBy_congr fun _ a _ => ?_
  rw [Account.worth, zero_mul, zero_add, Account.position, ← OrdMap.value_indicator]
  rfl

theorem worth_addPosition {delta : ℤ} (h : a.addPosition market outcome delta = some a') (c : ℤ)
    (p : PositionKey → ℤ) : a'.worth c p = a.worth c p + p (toLex (market, outcome)) * delta := by
  rw [Account.addPosition_eq_some h]
  simp only [Account.worth, OrdMap.value_insert, Account.position]
  ring

theorem worth_addBalance {delta : ℤ} (h : a.addBalance delta = some a') (c : ℤ)
    (p : PositionKey → ℤ) : a'.worth c p = a.worth c p + c * delta := by
  rw [Account.addBalance_eq_some h]
  simp only [Account.worth]
  ring

theorem worth_addPositions {deltas : List (MarketId × ℕ × ℤ)}
    (h : deltas.foldlM (fun a d => a.addPosition d.1 d.2.1 d.2.2) a = some a') (c : ℤ)
    (p : PositionKey → ℤ) : a'.worth c p = a.worth c p + deltaWorth p deltas := by
  induction deltas generalizing a with
  | nil =>
    obtain rfl : a = a' := by simpa using h
    simp [deltaWorth]
  | cons d deltas ih =>
    obtain ⟨b, hb, h⟩ := foldlM_cons_eq_some.mp h
    rw [ih h, worth_addPosition hb]
    simp only [deltaWorth, List.map_cons, List.sum_cons]
    ring

theorem worth_applyDelta (h : applyDelta a delta = some a') (c : ℤ) (p : PositionKey → ℤ) :
    a'.worth c p =
      a.worth c p + (c * delta.balanceDelta + deltaWorth p delta.positionDeltas) := by
  obtain ⟨b, hb, h⟩ := Option.bind_eq_some_iff.mp h
  rw [worth_addPositions h, worth_addBalance hb]
  ring

/-- Replacing one account changes the worth by the difference of the two. -/
theorem worth_insert {id : ℕ} (ha : s.accounts.get? id = some a) (c : ℤ) (p : PositionKey → ℤ) :
    ({ s with accounts := s.accounts.insert id a' } : AccountStore).worth c p =
      s.worth c p + (a'.worth c p - a.worth c p) := by
  simp only [AccountStore.worth, OrdMap.sumBy_insert, OrdMap.term, ha, Option.elim_some]
  ring

/-- **What one settlement step can do.**  It passes over an empty fill, it records a fill that
cannot be settled, or it applies the settlement delta of the order to the account of the fill. -/
theorem settleBatchStep_eq_some {orderMap : OrdMap ℕ Order}
    (h : settleBatchStep P orderMap height st fill = some st') :
    (fill.fillQty = 0 ∧ st' = st) ∨
    (∃ failure, st' = { st with failures := st.failures ++ [failure] }) ∨
    ∃ order account delta account', fill.fillQty ≠ 0 ∧
      orderMap.get? fill.orderId = some order ∧
      st.accounts.accounts.get? fill.accountId = some account ∧
      computeFillSettlement order fill = some delta ∧ applyDelta account delta = some account' ∧
      st' = { st with
        accounts := { st.accounts with
          accounts := st.accounts.accounts.insert fill.accountId
            { account' with
              eventsDigest := updateDigest P account'.eventsDigest
                (encodeFillEvent fill.orderId fill.fillQty fill.fillPrice height) } }
        positionDeltas := st.positionDeltas ++ delta.positionDeltas } := by
  unfold settleBatchStep at h
  split_ifs at h with hqty
  · exact Or.inl ⟨hqty, (Option.some.inj h).symm⟩
  split at h
  · exact Or.inr (Or.inl ⟨_, (Option.some.inj h).symm⟩)
  · rename_i order horder
    split at h
    · exact Or.inr (Or.inl ⟨_, (Option.some.inj h).symm⟩)
    · rename_i account haccount
      split at h
      · exact Or.inr (Or.inl ⟨_, (Option.some.inj h).symm⟩)
      · rename_i delta hdelta
        obtain ⟨account', haccount', rfl⟩ := Option.map_eq_some_iff.mp h
        exact Or.inr (Or.inr ⟨order, account, delta, account', hqty, horder, haccount, hdelta,
          haccount', rfl⟩)

/-- In terms of the worth: a step leaves the accounts alone, or it adds the settlement delta of the
order and records its position changes. -/
theorem settleBatchStep_cases {orderMap : OrdMap ℕ Order}
    (h : settleBatchStep P orderMap height st fill = some st') :
    (st'.accounts = st.accounts ∧ st'.positionDeltas = st.positionDeltas) ∨
    ∃ order delta, fill.fillQty ≠ 0 ∧ orderMap.get? fill.orderId = some order ∧
      computeFillSettlement order fill = some delta ∧
      st'.positionDeltas = st.positionDeltas ++ delta.positionDeltas ∧
      ∀ c p, st'.accounts.worth c p = st.accounts.worth c p +
        (c * delta.balanceDelta + deltaWorth p delta.positionDeltas) := by
  obtain ⟨-, rfl⟩ | ⟨failure, rfl⟩ |
    ⟨order, account, delta, account', hqty, horder, haccount, hdelta, haccount', rfl⟩ :=
    settleBatchStep_eq_some h
  · exact Or.inl ⟨rfl, rfl⟩
  · exact Or.inl ⟨rfl, rfl⟩
  · refine Or.inr ⟨order, delta, hqty, horder, hdelta, rfl, fun c p => ?_⟩
    have hworth := worth_applyDelta haccount' c p
    rw [worth_insert haccount]
    simp only [Account.worth] at hworth ⊢
    linarith

/-! ## Minting -/

/-- Value of a list of adjustments. -/
def adjustmentWorth (c : ℤ) (p : PositionKey → ℤ) (adjustments : List MintAdjustment) : ℤ :=
  (adjustments.map fun adj =>
    c * adj.balanceDelta + p (toLex (adj.marketId, adj.outcome)) * adj.positionDelta).sum

theorem worth_applyAdjustments (h : adjustments.foldlM applyAdjustment a = some a') (c : ℤ)
    (p : PositionKey → ℤ) : a'.worth c p = a.worth c p + adjustmentWorth c p adjustments := by
  induction adjustments generalizing a with
  | nil =>
    obtain rfl : a = a' := by simpa using h
    simp [adjustmentWorth]
  | cons adj adjustments ih =>
    obtain ⟨b, hb, h⟩ := foldlM_cons_eq_some.mp h
    obtain ⟨b', hb', hb⟩ := Option.bind_eq_some_iff.mp hb
    rw [ih h, worth_addBalance hb, worth_addPosition hb']
    simp only [adjustmentWorth, List.map_cons, List.sum_cons]
    ring

/-- Minting changes the worth by its adjustments. -/
theorem mintInto_worth {s' : AccountStore} (h : mintInto P s adjustments height = some s') (c : ℤ)
    (p : PositionKey → ℤ) : s'.worth c p = s.worth c p + adjustmentWorth c p adjustments := by
  unfold mintInto at h
  split_ifs at h with hempty
  · obtain rfl := Option.some.inj h
    simp [List.isEmpty_iff.mp hempty, adjustmentWorth]
  · obtain ⟨mint, hmint, h⟩ := Option.bind_eq_some_iff.mp h
    obtain ⟨mint', hmint', h⟩ := Option.bind_eq_some_iff.mp h
    obtain ⟨m, hm, rfl⟩ := Option.map_eq_some_iff.mp hmint'
    obtain rfl := Option.some.inj h
    have hworth := worth_applyAdjustments hm c p
    rw [worth_insert hmint, if_neg hempty]
    simp only [Account.worth] at hworth ⊢
    linarith

/-! ## Position totals -/

/-- Total of one outcome in the aggregates. -/
def AccountAggregates.total (agg : AccountAggregates) (market : MarketId) : ℕ → ℤ
  | 0 => (agg.totalsFor market).1
  | _ => (agg.totalsFor market).2

theorem oneShare_eq (market outcome market' outcome' : ℕ) :
    oneShare market outcome (toLex (market', outcome')) =
      if market' = market ∧ outcome' = outcome then 1 else 0 := by
  simp [oneShare]

theorem applyPositionDelta_total {market' outcome' : ℕ} {q : ℤ}
    (h : agg.applyPositionDelta market' outcome' q = some agg') (market : ℕ) (ho : outcome < 2) :
    agg'.total market outcome =
      agg.total market outcome + oneShare market outcome (toLex (market', outcome')) * q := by
  obtain ⟨entry, hentry, rfl⟩ := Option.map_eq_some_iff.mp h
  rw [oneShare_eq]
  by_cases hm : market' = market
  · subst hm
    match outcome' with
    | 0 =>
      obtain ⟨y, hy, rfl⟩ := Option.map_eq_some_iff.mp hentry
      obtain ⟨-, rfl⟩ := checkedI64_eq_some_iff.mp hy
      interval_cases outcome <;> simp [AccountAggregates.total, AccountAggregates.totalsFor]
    | 1 =>
      obtain ⟨y, hy, rfl⟩ := Option.map_eq_some_iff.mp hentry
      obtain ⟨-, rfl⟩ := checkedI64_eq_some_iff.mp hy
      interval_cases outcome <;> simp [AccountAggregates.total, AccountAggregates.totalsFor]
    | o + 2 =>
      obtain rfl := Option.some.inj hentry
      have hne : ¬ o + 2 = outcome := by omega
      interval_cases outcome <;>
        simp [AccountAggregates.total, AccountAggregates.totalsFor]
  · have hget := OrdMap.get?_insert_of_ne (m := agg.marketPositionTotals) (v := entry)
      (Ne.symm hm)
    interval_cases outcome <;>
      simp [AccountAggregates.total, AccountAggregates.totalsFor, hm, hget]

theorem applyPositionDeltas_total {deltas : List (MarketId × ℕ × ℤ)}
    (h : agg.applyPositionDeltas deltas = some agg') (market : ℕ) (ho : outcome < 2) :
    agg'.total market outcome =
      agg.total market outcome + deltaWorth (oneShare market outcome) deltas := by
  induction deltas generalizing agg with
  | nil =>
    obtain rfl : agg = agg' := by simpa [AccountAggregates.applyPositionDeltas] using h
    simp [deltaWorth]
  | cons d deltas ih =>
    obtain ⟨b, hb, h⟩ := foldlM_cons_eq_some.mp h
    rw [ih h, applyPositionDelta_total hb market ho]
    simp only [deltaWorth, List.map_cons, List.sum_cons]
    ring

theorem observePositions_total {entries : List (PositionKey × ℤ)}
    (h : entries.foldlM AccountAggregates.observePosition agg = some agg') (market : ℕ)
    (ho : outcome < 2) :
    agg'.total market outcome = agg.total market outcome +
      (entries.map fun e => oneShare market outcome e.1 * e.2).sum := by
  induction entries generalizing agg with
  | nil =>
    obtain rfl : agg = agg' := by simpa using h
    simp
  | cons e entries ih =>
    obtain ⟨b, hb, h⟩ := foldlM_cons_eq_some.mp h
    rw [ih h, List.map_cons, List.sum_cons, ← add_assoc]
    congr 1
    unfold AccountAggregates.observePosition at hb
    split_ifs at hb with hzero
    · obtain rfl := Option.some.inj hb
      simp [hzero]
    · exact applyPositionDelta_total hb market ho

theorem observeAccount_total {entry : ℕ × Account} (h : agg.observeAccount entry = some agg')
    (market : ℕ) (ho : outcome < 2) :
    agg'.total market outcome =
      agg.total market outcome + entry.2.position market outcome := by
  obtain ⟨b, -, h⟩ := Option.bind_eq_some_iff.mp h
  rw [observePositions_total h market ho, Account.position, ← OrdMap.value_indicator]
  rfl

/-- The aggregates of a store hold its position totals. -/
theorem fromAccounts_total (h : AccountAggregates.fromAccounts s = some agg) (market : ℕ)
    (ho : outcome < 2) : agg.total market outcome = s.totalPosition market outcome := by
  have hfold : ∀ (entries : List (ℕ × Account)) (agg₀ agg₁ : AccountAggregates),
      entries.foldlM AccountAggregates.observeAccount agg₀ = some agg₁ →
      agg₁.total market outcome = agg₀.total market outcome +
        (entries.map fun e => e.2.position market outcome).sum := by
    intro entries
    induction entries with
    | nil =>
      intro agg₀ agg₁ h
      obtain rfl : agg₀ = agg₁ := by simpa using h
      simp
    | cons e entries ih =>
      intro agg₀ agg₁ h
      obtain ⟨b, hb, h⟩ := foldlM_cons_eq_some.mp h
      rw [ih b agg₁ h, observeAccount_total hb market ho, List.map_cons, List.sum_cons]
      ring
  rw [hfold _ _ _ h]
  have hzero : AccountAggregates.default.total market outcome = 0 := by
    interval_cases outcome <;> rfl
  rw [hzero, zero_add]
  rfl

/-- The position changes recorded by a batch are the changes of the totals. -/
theorem settleBatch_deltas {orderMap : OrdMap ℕ Order}
    (h : fills.foldlM (settleBatchStep P orderMap height) st = some st') :
    ∃ applied, st'.positionDeltas = st.positionDeltas ++ applied ∧
      ∀ p, st'.accounts.worth 0 p = st.accounts.worth 0 p + deltaWorth p applied := by
  induction fills generalizing st with
  | nil =>
    obtain rfl : st = st' := by simpa using h
    exact ⟨[], by simp, by simp [deltaWorth]⟩
  | cons fill fills ih =>
    obtain ⟨b, hb, h⟩ := foldlM_cons_eq_some.mp h
    obtain ⟨applied, happ, hworth⟩ := ih h
    rcases settleBatchStep_cases hb with ⟨hacc, hdel⟩ | ⟨order, delta, -, -, -, hdel, hstep⟩
    · exact ⟨applied, by rw [happ, hdel], fun p => by rw [hworth, hacc]⟩
    · refine ⟨delta.positionDeltas ++ applied, by rw [happ, hdel, List.append_assoc], fun p => ?_⟩
      rw [hworth, hstep]
      simp only [deltaWorth, List.map_append, List.sum_append]
      ring

/-! ## Marking at the clearing prices -/

/-- Every market with clearing prices has two of them, and they sum to one dollar. -/
def Complementary (clearingPrices : OrdMap MarketId (List Nanos)) : Prop :=
  ∀ market prices, clearingPrices.get? market = some prices →
    ∃ yes no, prices = [yes, no] ∧ yes + no = nanosPerDollar

/-- A non-empty fill is on a binary one-hot order and at the clearing price of the traded
outcome. -/
def AtClearingPrice (clearingPrices : OrdMap MarketId (List Nanos)) (orderMap : OrdMap ℕ Order)
    (fill : Fill) : Prop :=
  fill.fillQty ≠ 0 → ∀ order, orderMap.get? fill.orderId = some order →
    ∃ outcome sells prices, order.BinaryOneHot outcome sells ∧
      clearingPrices.get? (order.marketAt 0) = some prices ∧
      prices[outcome]? = some fill.fillPrice

/-- A non-empty fill of an order on the given side. -/
def isFillOf (sells : Bool) (orderMap : OrdMap ℕ Order) (fill : Fill) : Bool :=
  fill.fillQty ≠ 0 && (orderMap.get? fill.orderId).elim false fun order => order.isSeller == sells

/-- The clearing price of an outcome, completed to a dollar where a market has none. -/
def mark (clearingPrices : OrdMap MarketId (List Nanos)) : PositionKey → ℤ := fun k =>
  match (ofLex k).2 with
  | 0 => priceOf clearingPrices (ofLex k).1 0
  | 1 => nanosPerDollar - priceOf clearingPrices (ofLex k).1 0
  | _ => 0

section Marks

variable {clearingPrices : OrdMap MarketId (List Nanos)}

/-- In a market with clearing prices the mark is the clearing price. -/
theorem mark_eq_priceOf (hc : Complementary clearingPrices) (ho : outcome < 2)
    {prices : List Nanos} (hp : clearingPrices.get? market = some prices) :
    mark clearingPrices (toLex (market, outcome)) = priceOf clearingPrices market outcome := by
  obtain ⟨yes, no, rfl, hsum⟩ := hc market prices hp
  interval_cases outcome
  · rfl
  · simp only [mark, ofLex_toLex, priceOf, hp, Option.bind_some, List.getElem?_cons_zero,
      List.getElem?_cons_succ, Option.getD_some]
    have : (yes : ℤ) + no = nanosPerDollar := by exact_mod_cast hsum
    linarith

theorem mark_yes_add_no (clearingPrices : OrdMap MarketId (List Nanos)) (market : ℕ) :
    mark clearingPrices (toLex (market, 0)) + mark clearingPrices (toLex (market, 1)) =
      nanosPerDollar := by
  simp [mark]

theorem mark_of_two_le (ho : 2 ≤ outcome) : mark clearingPrices (toLex (market, outcome)) = 0 := by
  match outcome with
  | o + 2 => rfl

/-- The remainder that the notional division drops. -/
theorem notional_remainder (n : ℕ) :
    ∃ r : ℤ, 0 ≤ r ∧ r ≤ 999 ∧ (n : ℤ) = 1000 * ((n / shareScale : ℕ) : ℤ) + r := by
  refine ⟨((n % 1000 : ℕ) : ℤ), by omega, by omega, ?_⟩
  unfold shareScale
  omega

theorem computeFillSettlement_oneHot {o : Order} {sells : Bool} (h : o.BinaryOneHot outcome sells)
    (hqty : fill.fillQty ≠ 0) (hdelta : computeFillSettlement o fill = some delta) :
    delta =
      { balanceDelta := (if sells then 1 else -1) *
          ((fill.fillPrice * fill.fillQty / shareScale : ℕ) : ℤ)
        positionDeltas :=
          [(o.marketAt 0, outcome, (if sells then -1 else 1) * fill.fillQty)] } := by
  unfold computeFillSettlement at hdelta
  split at hdelta
  · rename_i r hr
    rw [computeFillSettlementChecked_oneHot h hqty hr] at hdelta
    exact (Option.some.inj hdelta).symm
  · cases hdelta

/-- **One fill.**  Settling a fill at its clearing price moves the marked worth by the remainder
of its notional: up for a buy, down for a sell. -/
theorem settlementDelta_mark {orderMap : OrdMap ℕ Order} {order : Order}
    (hc : Complementary clearingPrices) (hfill : AtClearingPrice clearingPrices orderMap fill)
    (hqty : fill.fillQty ≠ 0) (horder : orderMap.get? fill.orderId = some order)
    (hdelta : computeFillSettlement order fill = some delta) :
    ∃ r : ℤ, 0 ≤ r ∧ r ≤ 999 ∧
      1000 * delta.balanceDelta + deltaWorth (mark clearingPrices) delta.positionDeltas =
        if order.isSeller then -r else r := by
  obtain ⟨outcome, sells, prices, honehot, hprices, hprice⟩ := hfill hqty order horder
  obtain rfl := computeFillSettlement_oneHot honehot hqty hdelta
  have ho : outcome < 2 := by rcases honehot.binary with rfl | rfl <;> omega
  have hmark : mark clearingPrices (toLex (order.marketAt 0, outcome)) = fill.fillPrice := by
    rw [mark_eq_priceOf hc ho hprices, priceOf, hprices]
    simp [hprice]
  obtain ⟨r, hr₀, hr₁, hr⟩ := notional_remainder (fill.fillPrice * fill.fillQty)
  refine ⟨r, hr₀, hr₁, ?_⟩
  rw [Nat.cast_mul] at hr
  simp only [deltaWorth, List.map_cons, List.map_nil, List.sum_cons, List.sum_nil, hmark,
    honehot.isSeller_eq]
  cases sells
  · simp only [Bool.false_eq_true, if_false]
    linarith
  · simp only [if_true]
    linarith

/-- A market without clearing prices is not traded. -/
theorem settlementDelta_unpriced {orderMap : OrdMap ℕ Order} {order : Order}
    (hfill : AtClearingPrice clearingPrices orderMap fill) (hqty : fill.fillQty ≠ 0)
    (horder : orderMap.get? fill.orderId = some order)
    (hdelta : computeFillSettlement order fill = some delta)
    (hnone : clearingPrices.get? market = none) :
    deltaWorth (oneShare market outcome) delta.positionDeltas = 0 := by
  obtain ⟨o, sells, prices, honehot, hprices, -⟩ := hfill hqty order horder
  obtain rfl := computeFillSettlement_oneHot honehot hqty hdelta
  have hne : order.marketAt 0 ≠ market := by
    rintro rfl
    rw [hnone] at hprices
    cases hprices
  simp [deltaWorth, oneShare_eq, hne]

/-- **A run of fills.**  Buys raise the marked worth and sells lower it, by at most `999` each. -/
theorem settleBatch_mark {orderMap : OrdMap ℕ Order} (hc : Complementary clearingPrices)
    (hfills : ∀ fill ∈ fills, AtClearingPrice clearingPrices orderMap fill)
    (h : fills.foldlM (settleBatchStep P orderMap height) st = some st') :
    -(999 * (fills.countP (isFillOf true orderMap) : ℤ)) ≤
        st'.accounts.worth 1000 (mark clearingPrices) -
          st.accounts.worth 1000 (mark clearingPrices) ∧
      st'.accounts.worth 1000 (mark clearingPrices) -
          st.accounts.worth 1000 (mark clearingPrices) ≤
        999 * (fills.countP (isFillOf false orderMap) : ℤ) := by
  induction fills generalizing st with
  | nil =>
    obtain rfl : st = st' := by simpa using h
    simp
  | cons fill fills ih =>
    obtain ⟨b, hb, h⟩ := foldlM_cons_eq_some.mp h
    obtain ⟨hlow, hhigh⟩ := ih (fun f hf => hfills f (List.mem_cons_of_mem _ hf)) h
    simp only [List.countP_cons, Nat.cast_add, Nat.cast_ite, Nat.cast_one, Nat.cast_zero]
    rcases settleBatchStep_cases hb with ⟨hacc, -⟩ | ⟨order, delta, hq, ho, hd, -, hstep⟩
    · -- a skipped fill only loosens the bound
      rw [hacc] at hlow hhigh
      constructor <;> split_ifs <;> linarith
    · obtain ⟨r, hr₀, hr₁, hr⟩ :=
        settlementDelta_mark hc (hfills fill List.mem_cons_self) hq ho hd
      have hside : ∀ side, isFillOf side orderMap fill = (order.isSeller == side) := fun side => by
        simp [isFillOf, hq, ho]
      rw [hstep, hr] at hlow hhigh
      simp only [hside]
      cases hs : order.isSeller
      · simp only [hs, Bool.false_eq_true, if_false] at hlow hhigh
        constructor <;> simp <;> linarith
      · simp only [hs, if_true] at hlow hhigh
        constructor <;> simp <;> linarith

/-- Totals of a market without clearing prices do not move. -/
theorem settleBatch_unpriced {orderMap : OrdMap ℕ Order}
    (hfills : ∀ fill ∈ fills, AtClearingPrice clearingPrices orderMap fill)
    (h : fills.foldlM (settleBatchStep P orderMap height) st = some st')
    (hnone : clearingPrices.get? market = none) (outcome : ℕ) :
    st'.accounts.totalPosition market outcome = st.accounts.totalPosition market outcome := by
  simp only [totalPosition_eq_worth]
  induction fills generalizing st with
  | nil =>
    obtain rfl : st = st' := by simpa using h
    rfl
  | cons fill fills ih =>
    obtain ⟨b, hb, h⟩ := foldlM_cons_eq_some.mp h
    rw [ih (fun f hf => hfills f (List.mem_cons_of_mem _ hf)) h]
    rcases settleBatchStep_cases hb with ⟨hacc, -⟩ | ⟨order, delta, hq, ho, hd, -, hstep⟩
    · rw [hacc]
    · rw [hstep, settlementDelta_unpriced (hfills fill List.mem_cons_self) hq ho hd hnone]
      ring

/-- **The adjustments.**  MINT is paid the floor, so its shorts lower the marked worth by at most
`999` each. -/
theorem deriveMinting_mark (hc : Complementary clearingPrices)
    (hpriced : ∀ t ∈ totals, t.2.1 ≠ t.2.2 → ∃ prices, clearingPrices.get? t.1 = some prices)
    (h : deriveMintingChecked clearingPrices totals = .ok adjustments) :
    -(999 * (adjustments.length : ℤ)) ≤ adjustmentWorth 1000 (mark clearingPrices) adjustments ∧
      adjustmentWorth 1000 (mark clearingPrices) adjustments ≤ 0 := by
  induction totals generalizing adjustments with
  | nil =>
    obtain rfl := Except.ok.inj h
    simp [adjustmentWorth]
  | cons t totals ih =>
    obtain ⟨market, yes, no⟩ := t
    obtain ⟨adj?, hadj, h⟩ := bind_eq_ok.mp h
    obtain ⟨rest, hrest, h⟩ := bind_eq_ok.mp h
    obtain rfl := Except.ok.inj h
    obtain ⟨hlow, hhigh⟩ := ih (fun t ht => hpriced t (List.mem_cons_of_mem _ ht)) hrest
    cases adj? with
    | none => exact ⟨hlow, hhigh⟩
    | some adj =>
      obtain ⟨rfl, hne, hout, hpos, hbal⟩ := mintAdjustment_eq_some hadj
      obtain ⟨prices, hprices⟩ := hpriced _ List.mem_cons_self hne
      have ho : adj.outcome < 2 := by rw [hout]; split_ifs <;> omega
      have hmark := mark_eq_priceOf hc ho hprices
      obtain ⟨r, hr₀, hr₁, hr⟩ := notional_remainder
        (priceOf clearingPrices adj.marketId adj.outcome * (yes - no).natAbs)
      rw [Nat.cast_mul] at hr
      have hterm : 1000 * adj.balanceDelta +
          mark clearingPrices (toLex (adj.marketId, adj.outcome)) * adj.positionDelta = -r := by
        rw [hmark, hpos, hbal]
        linarith
      simp only [adjustmentWorth, Option.toList_some, List.cons_append, List.nil_append,
        List.map_cons, List.sum_cons, hterm, List.length_cons, Nat.cast_add, Nat.cast_one]
      simp only [adjustmentWorth] at hlow hhigh
      constructor <;> linarith

end Marks

/-! ## Balance -/

/-- Every market has as many YES as NO shares. -/
def AccountStore.Balanced (s : AccountStore) : Prop :=
  ∀ market, s.totalPosition market 0 = s.totalPosition market 1

/-- A list of adjustments is worth the shares it brings in. -/
theorem adjustmentWorth_oneShare (market outcome : ℕ) (adjustments : List MintAdjustment) :
    adjustmentWorth 0 (oneShare market outcome) adjustments =
      mintedShares market outcome adjustments := by
  simp only [adjustmentWorth, mintedShares, zero_mul, zero_add, oneShare_eq, ite_mul, one_mul]

/-- Each adjustment removes the excess of its market and no other. -/
theorem deriveMinting_share {clearingPrices : OrdMap MarketId (List Nanos)}
    (h : deriveMintingChecked clearingPrices totals = .ok adjustments) (market : ℕ) :
    adjustmentWorth 0 (oneShare market 0) adjustments -
        adjustmentWorth 0 (oneShare market 1) adjustments =
      -(totals.map fun t => if t.1 = market then t.2.1 - t.2.2 else 0).sum := by
  rw [adjustmentWorth_oneShare, adjustmentWorth_oneShare]
  exact deriveMintingChecked_shares h market

/-- The markets in which some account has a position entry. -/
def AccountStore.heldMarkets (s : AccountStore) : Finset MarketId :=
  (s.accounts.values.flatMap fun a => a.positions.keys.map fun k => (ofLex k).1).toFinset

/-- **Total collateral**, in nanos: all cash, and one dollar per complete set.  A share unit is a
thousandth of a share, so a complete set of units is worth `10 ^ 6` nanos. -/
def AccountStore.totalValue (s : AccountStore) : ℤ :=
  s.totalBalance + 1000000 * ∑ market ∈ s.heldMarkets, s.totalPosition market 0

theorem mem_heldMarkets {id : ℕ} (ha : s.accounts.get? id = some a)
    (hpos : a.position market outcome ≠ 0) : market ∈ s.heldMarkets := by
  have hkey : toLex (market, outcome) ∈ a.positions.keys := by
    rw [OrdMap.mem_keys_iff]
    by_contra hnone
    have hget : a.positions.get? (toLex (market, outcome)) = none := by
      rw [Option.eq_none_iff_forall_ne_some]
      exact fun v hv => hnone ⟨v, hv⟩
    simp [Account.position, OrdMap.amount, hget] at hpos
  simp only [AccountStore.heldMarkets, List.mem_toFinset, List.mem_flatMap, List.mem_map]
  exact ⟨a, OrdMap.mem_values_iff.mpr ⟨id, ha⟩, _, hkey, rfl⟩

/-- With balanced markets the marked worth is a thousand times the collateral. -/
theorem worth_mark_eq (hs : s.Balanced) (clearingPrices : OrdMap MarketId (List Nanos)) :
    s.worth 1000 (mark clearingPrices) = 1000 * s.totalValue := by
  have hvalue : s.worth 1000 (mark clearingPrices) = s.accounts.sumBy fun _ a =>
      1000 * a.balance + ∑ market ∈ s.heldMarkets,
        (mark clearingPrices (toLex (market, 0)) * a.position market 0 +
          mark clearingPrices (toLex (market, 1)) * a.position market 1) := by
    refine OrdMap.sumBy_congr fun id a ha => ?_
    rw [Account.worth, OrdMap.value_eq_sum_markets (S := s.heldMarkets)
      (fun _ _ ho _ => mark_of_two_le ho) fun market outcome hne => mem_heldMarkets ha hne]
    rfl
  have hmarket : ∀ market, mark clearingPrices (toLex (market, 0)) * s.totalPosition market 0 +
      mark clearingPrices (toLex (market, 1)) * s.totalPosition market 1 =
        1000000000 * s.totalPosition market 0 := fun market => by
    have hsum := mark_yes_add_no clearingPrices market
    rw [← hs market, ← add_mul, hsum]
    rfl
  rw [hvalue, OrdMap.sumBy_add, OrdMap.sumBy_mul_left, OrdMap.sumBy_sum]
  simp only [OrdMap.sumBy_add, OrdMap.sumBy_mul_left]
  change 1000 * s.totalBalance + ∑ market ∈ s.heldMarkets,
    (mark clearingPrices (toLex (market, 0)) * s.totalPosition market 0 +
      mark clearingPrices (toLex (market, 1)) * s.totalPosition market 1) = _
  rw [Finset.sum_congr rfl fun market _ => hmarket market, ← Finset.mul_sum,
    AccountStore.totalValue]
  ring

/-! ## The batch -/

section Batch

variable {accounts : AccountStore} {orders : List Order}
  {clearingPrices : OrdMap MarketId (List Nanos)} {result : FinalizedSettlement}

/-- What a finalized settlement consists of: a settled batch, the totals after its fills, the
adjustments derived from them and the minted store. -/
theorem finalizeSettlement_eq_some
    (h : finalizeSettlement P accounts fills orders clearingPrices height = some result) :
    ∃ (batch : BatchState) (agg : AccountAggregates),
      settleBatchWithPositionDeltas P accounts fills orders height = some batch ∧
      result.failures = batch.failures ∧
      (∀ market outcome, outcome < 2 →
        agg.total market outcome = batch.accounts.totalPosition market outcome) ∧
      result.marketTotals = agg.mintingInputs ∧
      result.mintAdjustments = deriveMinting clearingPrices agg.mintingInputs ∧
      mintInto P batch.accounts result.mintAdjustments height = some result.accounts := by
  obtain ⟨pre, hpre, h⟩ := Option.bind_eq_some_iff.mp h
  obtain ⟨batch, hbatch, h⟩ := Option.bind_eq_some_iff.mp h
  obtain ⟨agg, hagg, h⟩ := Option.bind_eq_some_iff.mp h
  obtain ⟨store, hstore, h⟩ := Option.bind_eq_some_iff.mp h
  obtain rfl := Option.some.inj h
  refine ⟨batch, agg, hbatch, rfl, fun market outcome ho => ?_, rfl, rfl, hstore⟩
  obtain ⟨applied, happ, hworth⟩ := settleBatch_deltas hbatch
  rw [applyPositionDeltas_total hagg market ho, fromAccounts_total hpre market ho,
    totalPosition_eq_worth, totalPosition_eq_worth, hworth, happ]
  rfl

/-- The totals list holds each market once, with its post-fill totals. -/
theorem sum_mintingInputs (agg : AccountAggregates) (market : ℕ) :
    (agg.mintingInputs.map fun t => if t.1 = market then t.2.1 - t.2.2 else 0).sum =
      agg.total market 0 - agg.total market 1 := by
  have h := OrdMap.sumBy_ite_key (m := agg.marketPositionTotals) (fun v => v.1 - v.2) market
  simp only [AccountAggregates.total, AccountAggregates.totalsFor]
  refine Eq.trans h ?_
  cases agg.marketPositionTotals.get? market <;> simp

theorem deriveMinting_eq (h : (deriveMintingChecked clearingPrices totals).isOk) :
    deriveMintingChecked clearingPrices totals = .ok (deriveMinting clearingPrices totals) := by
  unfold deriveMinting
  cases hd : deriveMintingChecked clearingPrices totals with
  | ok adjustments => rfl
  | error e => simp [hd, Except.isOk, Except.toBool] at h

/-- **A batch conserves collateral up to rounding.**  From balanced markets, with every fill at
the clearing price of a one-hot order and complementary clearing prices, a finalized settlement
without overflow leaves the markets balanced, loses less than one nano of collateral per sell
and per adjustment, and gains less than one per buy. -/
theorem finalizeSettlement_conserves_collateral (hbalanced : accounts.Balanced)
    (hc : Complementary clearingPrices)
    (hfills : ∀ fill ∈ fills, AtClearingPrice clearingPrices (orderMapOf orders) fill)
    (h : finalizeSettlement P accounts fills orders clearingPrices height = some result)
    (hderive : (deriveMintingChecked clearingPrices result.marketTotals).isOk) :
    result.accounts.Balanced ∧
      -(max 0 ((fills.countP (isFillOf true (orderMapOf orders)) : ℤ) +
          result.mintAdjustments.length - 1)) ≤
        result.accounts.totalValue - accounts.totalValue ∧
      result.accounts.totalValue - accounts.totalValue ≤
        max 0 ((fills.countP (isFillOf false (orderMapOf orders)) : ℤ) - 1) := by
  obtain ⟨batch, agg, hbatch, -, htotals, hmt, hadj, hmint⟩ := finalizeSettlement_eq_some h
  rw [hmt] at hderive
  have hchecked := deriveMinting_eq hderive
  rw [← hadj] at hchecked
  have hpost : result.accounts.Balanced := fun market => by
    have hshare := deriveMinting_share hchecked market
    rw [sum_mintingInputs, htotals market 0 (by omega), htotals market 1 (by omega)] at hshare
    simp only [totalPosition_eq_worth, mintInto_worth hmint] at hshare ⊢
    linarith
  have hpriced : ∀ t ∈ agg.mintingInputs, t.2.1 ≠ t.2.2 →
      ∃ prices, clearingPrices.get? t.1 = some prices := by
    rintro ⟨market, yes, no⟩ ht hne
    by_contra hnone
    have hget : clearingPrices.get? market = none := by
      rw [Option.eq_none_iff_forall_ne_some]
      exact fun v hv => hnone ⟨v, hv⟩
    have htot : agg.totalsFor market = (yes, no) := by
      rw [AccountAggregates.totalsFor, OrdMap.mem_entries_iff.mp ht]
      rfl
    have hyes : agg.total market 0 = yes := congrArg Prod.fst htot
    have hno : agg.total market 1 = no := congrArg Prod.snd htot
    rw [htotals market 0 (by omega), settleBatch_unpriced hfills hbatch hget] at hyes
    rw [htotals market 1 (by omega), settleBatch_unpriced hfills hbatch hget] at hno
    exact hne (hyes.symm.trans ((hbalanced market).trans hno))
  obtain ⟨hlow, hhigh⟩ := settleBatch_mark hc hfills hbatch
  obtain ⟨hmlow, hmhigh⟩ := deriveMinting_mark hc hpriced hchecked
  have hworth := mintInto_worth hmint 1000 (mark clearingPrices)
  rw [worth_mark_eq hpost clearingPrices] at hworth
  rw [worth_mark_eq hbalanced clearingPrices] at hlow hhigh
  refine ⟨hpost, ?_, ?_⟩ <;> omega

end Batch

/-- An account with two dollars, and MINT. -/
def twoDollarStore : AccountStore where
  accounts := OrdMap.ofList
    [(1, ⟨1, 2000000000, ∅, 2000000000, 0⟩), (AccountId.mint, ⟨AccountId.mint, 0, ∅, 0, 0⟩)]
  nextId := 2

/-- A bid for YES in market `0`. -/
def yesBid : Order :=
  { Order.new 7 with
    markets := (Vector.replicate 5 MarketId.none).set 0 0 Order.firstMarket_lt
    numMarkets := 1
    payoffs := (Vector.replicate 32 0).set 0 1 Order.firstState_lt
    numStates := 2
    limitPrice := 600000000
    maxFill := 2000 }

/-- A lone buyer of a little over one share: MINT takes the other side. -/
theorem finalizeSettlement_conserves_collateral_lone_buy :
    twoDollarStore.totalValue = 2000000000 ∧ ∀ P : Primitives,
      ∃ result, finalizeSettlement P twoDollarStore [⟨7, 1001, 500000001, 1⟩] [yesBid]
          (OrdMap.ofList [(0, [500000001, 499999999])]) 5 = some result ∧
        result.mintAdjustments = [⟨0, 0, -1001, 500500001⟩] ∧
        result.accounts.Balanced ∧ result.accounts.totalValue = twoDollarStore.totalValue := by
  refine ⟨by decide, fun P => ?_⟩
  obtain ⟨result, hresult⟩ : ∃ result, finalizeSettlement P twoDollarStore
      [⟨7, 1001, 500000001, 1⟩] [yesBid] (OrdMap.ofList [(0, [500000001, 499999999])]) 5 =
        some result := ⟨_, rfl⟩
  have hadj : some result.mintAdjustments = some [⟨0, 0, -1001, 500500001⟩] := by
    rw [← Option.map_some (f := FinalizedSettlement.mintAdjustments), ← hresult]
    rfl
  have htotals : some result.marketTotals = some [(0, 1001, 0)] := by
    rw [← Option.map_some (f := FinalizedSettlement.marketTotals), ← hresult]
    rfl
  have hprices : ∀ market prices,
      (OrdMap.ofList [(0, [500000001, 499999999])] : OrdMap MarketId (List Nanos)).get? market =
        some prices → prices = [500000001, 499999999] := fun market prices hp => by
    have := OrdMap.mem_of_get?_ofList hp
    simp_all
  have hbalanced : twoDollarStore.Balanced := fun market => rfl
  have hmain := finalizeSettlement_conserves_collateral hbalanced
    (fun market prices hp => ⟨_, _, hprices market prices hp, rfl⟩)
    (fun fill hfill _ order horder => by
      obtain rfl := List.mem_singleton.mp hfill
      obtain rfl : yesBid = order := Option.some.inj horder
      exact ⟨0, false, _, ⟨rfl, rfl, Or.inl rfl, rfl, rfl⟩, rfl, rfl⟩)
    hresult (by rw [Option.some.inj htotals]; rfl)
  rw [Option.some.inj hadj] at hmain
  obtain ⟨hbal, hlow, hhigh⟩ := hmain
  have hsell : ([⟨7, 1001, 500000001, 1⟩] : List Fill).countP
      (isFillOf true (orderMapOf [yesBid])) = 0 := by decide
  have hbuy : ([⟨7, 1001, 500000001, 1⟩] : List Fill).countP
      (isFillOf false (orderMapOf [yesBid])) = 1 := by decide
  rw [hsell] at hlow
  rw [hbuy] at hhigh
  refine ⟨result, hresult, Option.some.inj hadj, hbal, ?_⟩
  simp only [List.length_cons, List.length_nil] at hlow hhigh
  omega

end Sybil.Sequencer
