import Sybil.Lib.WorstCase
import Sybil.Verifier.Completeness
import Sybil.Verifier.SystemEffects

/-!
# Exposure of MINT

What a block can cost MINT in the worst joint resolution of the markets.  A joint
resolution lets every market pay YES or NO, at most one YES per market group.

MINT takes the other side of every imbalance *at the clearing price*, so a short of
`d` units at price `p` is backed by `⌊p * d / 1000⌋` nanos only, and its worst case
loses the rest of the dollar (`shortLoss`).  An accepted block loses no more than
that, besides MINT's own orders (`worstMint_of_accepted`); and it can lose all of it
(`worstMint_drops`), so minted shares are covered in expectation at the clearing
price and not in the worst case.
-/

namespace Sybil.Verifier

open Engine

variable {P : Primitives} {w : BlockWitness}

variable {adj : MintAdjustment}

/-! ## Joint resolutions -/

/-- A joint resolution: the markets that pay YES. -/
abbrev JointResolution := MarketId → Bool

/-- A share unit pays a thousandth of a dollar. -/
def unitPayout : ℤ := 1000000

/-- Payout of one unit of an outcome. -/
def payoutAt (σ : JointResolution) (key : MarketId ×ₗ ℕ) : ℤ :=
  if (ofLex key).2 = 0 then (if σ (ofLex key).1 then unitPayout else 0)
  else if (ofLex key).2 = 1 then (if σ (ofLex key).1 then 0 else unitPayout)
  else 0

/-- At most one market of each group pays YES. -/
def Admissible (groups : List MarketGroupSnapshot) (σ : JointResolution) : Prop :=
  ∀ group ∈ groups, ∀ m ∈ group.markets, ∀ m' ∈ group.markets, σ m = true → σ m' = true → m = m'

/-- Balance of MINT. -/
def mintBalance (snapshots : List AccountSnapshot) : ℤ :=
  (entryOrDefault (startAccounts snapshots) mintId).balance

/-- Balance of MINT plus the payout of its positions. -/
def mintValue (snapshots : List AccountSnapshot) (σ : JointResolution) : ℤ :=
  worthOf (startAccounts snapshots) mintId 1 (payoutAt σ)

/-- The least value of MINT over the admissible joint resolutions. -/
noncomputable def worstMint (groups : List MarketGroupSnapshot)
    (snapshots : List AccountSnapshot) : ℤ :=
  worst {σ | Admissible groups σ} (mintValue snapshots)

theorem payoutAt_bounds (σ : JointResolution) (key : MarketId ×ₗ ℕ) :
    0 ≤ payoutAt σ key ∧ payoutAt σ key ≤ unitPayout := by
  unfold payoutAt unitPayout
  split_ifs <;> omega

/-- No market pays YES: admissible whatever the groups are. -/
theorem admissible_none (groups : List MarketGroupSnapshot) :
    Admissible groups fun _ => false :=
  fun _ _ _ _ _ _ h => absurd h Bool.false_ne_true

theorem exists_mintValue_bound (snapshots : List AccountSnapshot) :
    ∃ b, ∀ σ, b ≤ mintValue snapshots σ := by
  refine ⟨1 * mintBalance snapshots -
    (entryOrDefault (startAccounts snapshots) mintId).positions.sumBy
      (fun _ q => unitPayout * |q|), fun σ => ?_⟩
  have hvalue := OrdMap.neg_sumBy_le_value
    (h := (entryOrDefault (startAccounts snapshots) mintId).positions) (payoutAt_bounds σ)
  rw [mintValue, worthOf, DerivedAccountState.worth, mintBalance]
  linarith

/-! ## Loss of a trade -/

/-- What a short of `qty` units at `price` loses when the outcome pays. -/
def shortLoss (price : Nanos) (qty : Qty) : ℤ :=
  unitPayout * qty - (price * qty / shareScale : ℕ)

/-- Worst-case loss of a fill of one of MINT's own orders. -/
def ownFillLoss (orders : OrdMap ℕ WitnessOrder) (fill : Fill) : ℤ :=
  match orders.get? fill.orderId with
  | none => 0
  | some wo =>
    if wo.accountId ≠ mintId then 0
    else if wo.order.isSeller then shortLoss fill.fillPrice fill.fillQty
    else (fill.fillPrice * fill.fillQty / shareScale : ℕ)

/-- Worst-case loss of an adjustment. -/
def adjustmentLoss (clearingPrices : OrdMap MarketId (List Nanos)) (adj : MintAdjustment) : ℤ :=
  shortLoss (priceOf clearingPrices adj.marketId adj.outcome) adj.positionDelta.natAbs

/-- Worst-case loss of the trades of MINT in a block. -/
def mintLoss (P : Primitives) (w : BlockWitness) : ℤ :=
  (w.fills.map (ownFillLoss (witnessOrderMap w.orders))).sum +
    ((mintAdjustmentsOf P w).map (adjustmentLoss w.clearingPrices)).sum

theorem shortLoss_nonneg {price : Nanos} (hprice : price ≤ nanosPerDollar) (qty : Qty) :
    0 ≤ shortLoss price qty := by
  have hfloor : price * qty / shareScale ≤ 1000000 * qty := by
    rw [shareScale]
    apply Nat.div_le_of_le_mul
    calc price * qty ≤ nanosPerDollar * qty := Nat.mul_le_mul_right qty hprice
      _ = 1000 * (1000000 * qty) := by rw [nanosPerDollar]; ring
  have hcast : ((price * qty / shareScale : ℕ) : ℤ) ≤ ((1000000 * qty : ℕ) : ℤ) :=
    Nat.cast_le.mpr hfloor
  rw [shortLoss, unitPayout]
  push_cast at hcast ⊢
  linarith

/-- A position change is worth at least what it costs when the outcome goes the wrong way. -/
theorem payout_change_ge (σ : JointResolution) (key : MarketId ×ₗ ℕ) (qty : ℕ) :
    0 ≤ payoutAt σ key * qty ∧ -(unitPayout * qty) ≤ payoutAt σ key * (-qty) := by
  obtain ⟨hlow, hhigh⟩ := payoutAt_bounds σ key
  have hqty : (0 : ℤ) ≤ qty := Nat.cast_nonneg qty
  refine ⟨mul_nonneg hlow hqty, ?_⟩
  rw [mul_neg]
  exact neg_le_neg (mul_le_mul_of_nonneg_right hhigh hqty)

/-- A fill costs MINT at most the loss of that fill. -/
theorem fillWorth_mint_ge (hmatch : verifyMatch w = []) (horders : verifyOrders w = [])
    {fill : Fill} (hfill : fill ∈ w.fills) (σ : JointResolution) :
    -ownFillLoss (witnessOrderMap w.orders) fill ≤
      fillWorth (witnessOrderMap w.orders) mintId 1 (payoutAt σ) fill := by
  obtain ⟨order, hrespects⟩ := fillRespectsOrder_of_verifyFills
    (verifyMatch_eq_nil_iff.mp hmatch).1 hfill
  have hshort := shortLoss_nonneg hrespects.price_le_dollar fill.fillQty
  have hcost : (0 : ℤ) ≤ (fill.fillPrice * fill.fillQty / shareScale : ℕ) := Nat.cast_nonneg _
  cases hget : (witnessOrderMap w.orders).get? fill.orderId with
  | none => simp [ownFillLoss, fillWorth, settlementOf, hget]
  | some wo =>
    have hloss : 0 ≤ ownFillLoss (witnessOrderMap w.orders) fill := by
      simp only [ownFillLoss, hget]
      split_ifs <;> omega
    rw [fillWorth]
    cases hs : settlementOf (witnessOrderMap w.orders) fill with
    | none => exact neg_nonpos.mpr hloss
    | some s =>
      obtain ⟨wo', hwo, heq⟩ := List.mem_map.mp (OrdMap.mem_of_get?_ofList hget)
      obtain rfl : wo' = wo := congrArg Prod.snd heq
      obtain ⟨outcome, sells, hshape⟩ :=
        Order.binaryOneHot_of_validate (validate_of_verifyOrders horders hwo).2
      obtain rfl := settlementOf_oneHot hget hshape hrespects.qty_ne_zero hs
      simp only [Option.elim_some]
      by_cases howner : mintId = wo'.accountId
      · obtain ⟨hbuy, hsell⟩ :=
          payout_change_ge σ (toLex (wo'.order.marketAt 0, outcome)) fill.fillQty
        simp only [ownFillLoss, hget, ← howner, ne_eq, not_true_eq_false, if_true,
          if_false, deltaWorth,
          positionChanges, List.map_cons, List.map_nil, List.sum_cons, List.sum_nil,
          hshape.isSeller_eq, shortLoss]
        -- A buy risks its cost; a sell risks the payout beyond its proceeds.
        cases sells <;> simp only [if_true, Bool.false_eq_true, if_false] <;> linarith
      · rw [if_neg howner]
        exact neg_nonpos.mpr hloss

/-! ## Adjustments -/

/-- Every adjustment is the adjustment of a market. -/
theorem exists_of_mem_deriveMintingChecked {clearingPrices : OrdMap MarketId (List Nanos)}
    {totals : List (MarketId × ℤ × ℤ)} {adjustments : List MintAdjustment}
    (h : deriveMintingChecked clearingPrices totals = .ok adjustments) (hadj : adj ∈ adjustments) :
    ∃ total ∈ totals, mintAdjustment clearingPrices total = .ok (some adj) := by
  induction totals generalizing adjustments with
  | nil =>
    obtain rfl := Except.ok.inj h
    exact absurd hadj List.not_mem_nil
  | cons total totals ih =>
    obtain ⟨first, hfirst, h⟩ := bind_eq_ok.mp h
    obtain ⟨rest, hrest, h⟩ := bind_eq_ok.mp h
    obtain rfl := Except.ok.inj h
    rcases List.mem_append.mp hadj with hadj | hadj
    · rw [Option.mem_toList] at hadj
      exact ⟨total, List.mem_cons_self, by rw [hfirst, Option.mem_def.mp hadj]⟩
    · obtain ⟨total', ht, hadj'⟩ := ih hrest hadj
      exact ⟨total', List.mem_cons_of_mem _ ht, hadj'⟩

/-- Every adjustment of a block shorts the excess of a market at its clearing price. -/
theorem exists_of_mem_mintAdjustmentsOf (hadj : adj ∈ mintAdjustmentsOf P w) :
    ∃ yes no, mintAdjustment w.clearingPrices (adj.marketId, yes, no) = .ok (some adj) := by
  unfold mintAdjustmentsOf postFillAdjustments at hadj
  cases hderive :
      deriveMintingChecked w.clearingPrices (marketTotals (settleFills P w).1.accounts).1 with
  | error e => simp [hderive] at hadj
  | ok adjustments =>
    rw [hderive] at hadj
    obtain ⟨⟨market, yes, no⟩, -, hone⟩ := exists_of_mem_deriveMintingChecked hderive hadj
    obtain ⟨rfl, -⟩ := mintAdjustment_eq_some hone
    exact ⟨yes, no, hone⟩

/-- An adjustment costs MINT at most the loss of that short. -/
theorem adjustmentWorth_ge (hadj : adj ∈ mintAdjustmentsOf P w) (σ : JointResolution) :
    -adjustmentLoss w.clearingPrices adj ≤ adjustmentWorth 1 (payoutAt σ) adj := by
  obtain ⟨yes, no, hone⟩ := exists_of_mem_mintAdjustmentsOf hadj
  obtain ⟨-, -, -, hposition, hbalance⟩ := mintAdjustment_eq_some hone
  obtain ⟨-, hsell⟩ := payout_change_ge σ (toLex (adj.marketId, adj.outcome)) (yes - no).natAbs
  have habs : adj.positionDelta.natAbs = (yes - no).natAbs := by omega
  rw [adjustmentLoss, shortLoss, habs, adjustmentWorth, hposition, hbalance]
  linarith

/-! ## System events -/

/-- An account lists each outcome once, as the producer's position maps do. -/
def DistinctPositions (snapshots : List AccountSnapshot) (id : ℕ) : Prop :=
  ((heldPositions (accountsOf snapshots) id).map fun entry => toLex (entry.1, entry.2.1)).Nodup

/-- With distinct entries the map without zeros has the same amounts. -/
theorem amount_normalizedPositions {a : AccountSnapshot}
    (hnd : (a.positions.map fun entry => toLex (entry.1, entry.2.1)).Nodup)
    (key : MarketId ×ₗ ℕ) :
    (normalizedPositions a).amount key = (positionsOf a.positions).amount key := by
  have hall : ((a.positions.map fun entry =>
      (toLex (entry.1, entry.2.1), entry.2.2)).map Prod.fst).Nodup := by
    simpa [List.map_map, Function.comp_def] using hnd
  have hkept : (((a.positions.filter fun entry => entry.2.2 ≠ 0).map fun entry =>
      (toLex (entry.1, entry.2.1), entry.2.2)).map Prod.fst).Nodup := by
    refine List.Nodup.sublist ?_ hall
    exact ((List.filter_sublist).map _).map _
  rw [OrdMap.amount, OrdMap.amount]
  cases hget : (normalizedPositions a).get? key with
  | some q =>
    obtain ⟨entry, hmem, heq⟩ := List.mem_map.mp ((OrdMap.get?_ofList_iff hkept).mp hget)
    have hgot : (positionsOf a.positions).get? key = some q :=
      (OrdMap.get?_ofList_iff hall).mpr
        (List.mem_map.mpr ⟨entry, List.mem_of_mem_filter hmem, heq⟩)
    rw [hgot]
  | none =>
    cases hgot : (positionsOf a.positions).get? key with
    | none => rfl
    | some q =>
      obtain ⟨entry, hmem, heq⟩ := List.mem_map.mp ((OrdMap.get?_ofList_iff hall).mp hgot)
      by_contra hne
      have hq : entry.2.2 ≠ 0 := by
        rw [congrArg Prod.snd heq]
        exact fun h => hne h.symm
      have hsome := (OrdMap.get?_ofList_iff hkept).mpr
        (List.mem_map.mpr ⟨entry, List.mem_filter.mpr ⟨hmem, by simpa using hq⟩, heq⟩)
      rw [normalizedPositions] at hget
      rw [hget] at hsome
      cases hsome

theorem foldl_positionsAfter {events : List SystemEventWitness}
    (hres : resolvedMarketEvents events = []) (id : ℕ) (positions : List PositionEntry) :
    events.foldl (positionsAfter id) positions = positions := by
  induction events with
  | nil => rfl
  | cons event events ih =>
    have hcons : resolvedMarketId event = none ∧ resolvedMarketEvents events = [] := by
      cases hmarket : resolvedMarketId event <;>
        simp_all [resolvedMarketEvents]
    have hstep : positionsAfter id positions event = positions := by
      cases event with
      | marketResolved market payout affected => exact nomatch hcons.1
      | _ => rfl
    rw [List.foldl_cons, hstep, ih hcons.2]

theorem positions_startAccounts (snapshots : List AccountSnapshot) (id : ℕ) :
    (entryOrDefault (startAccounts snapshots) id).positions =
      positionsOf (heldPositions (accountsOf snapshots) id) := by
  rw [entryOrDefault, get?_startAccounts, heldPositions]
  cases (accountsOf snapshots).get? id <;> rfl

/-- **System events** without a resolution change the balance of an account only. -/
theorem worth_postSystemState (hsystem : verifySystemTransition P w = [])
    (hres : resolvedMarketEvents w.systemEvents = []) {id : ℕ}
    (hpre : DistinctPositions w.preState id) (hpost : DistinctPositions w.postSystemState id)
    (c : ℤ) (p : MarketId ×ₗ ℕ → ℤ) :
    worthOf (startAccounts w.postSystemState) id c p =
      worthOf (startAccounts w.preState) id c p +
        c * ((entryOrDefault (startAccounts w.postSystemState) id).balance -
          (entryOrDefault (startAccounts w.preState) id).balance) := by
  obtain ⟨final, hreplay, hagree⟩ := verifySystemTransition_eq_nil_iff.mp hsystem
  have hheld : heldPositions final id = heldPositions (accountsOf w.preState) id := by
    rw [heldPositions_replay hreplay, foldl_positionsAfter hres]
  have hamount : ∀ key,
      (entryOrDefault (startAccounts w.postSystemState) id).positions.amount key =
        (entryOrDefault (startAccounts w.preState) id).positions.amount key := by
    intro key
    rw [positions_startAccounts, positions_startAccounts, ← hheld]
    rcases hagree id with ⟨hfinal, hclaimed⟩ | ⟨expected, actual, hfinal, hclaimed, hsame⟩
    · rw [heldPositions, heldPositions, hfinal, hclaimed]
    · rw [DistinctPositions, ← hheld, heldPositions_of_get? hfinal] at hpre
      rw [DistinctPositions, heldPositions_of_get? hclaimed] at hpost
      obtain ⟨-, -, hpositions, -⟩ := of_decide_eq_true hsame
      rw [heldPositions_of_get? hfinal, heldPositions_of_get? hclaimed,
        ← amount_normalizedPositions hpre, ← amount_normalizedPositions hpost, hpositions]
  rw [worthOf, worthOf, DerivedAccountState.worth, DerivedAccountState.worth,
    OrdMap.value_eq_of_amount hamount]
  ring

/-! ## Market groups -/

theorem get?_marketSet {markets : List MarketId} {m : MarketId} :
    (marketSet markets).get? m = some () ↔ m ∈ markets := by
  have h := OrdMap.contains_ofList (l := markets.map fun market => (market, ())) (k := m)
  simp only [List.mem_map, Prod.mk.injEq, and_true, exists_eq_right, exists_const] at h
  rw [← h]
  exact ⟨fun hm => ⟨(), hm⟩, fun ⟨_, hm⟩ => hm⟩

/-- What became of a group: its unresolved markets stay together, unless fewer than two are
left. -/
theorem group_carried (hgroups : verifyMarketGroupTransition w = [])
    (hprev : w.previousHeader.isSome) {group : MarketGroupSnapshot}
    (hgroup : group ∈ w.preStateSidecar.marketGroups) :
    (group.markets.filter fun m => m ∉ resolvedMarketEvents w.systemEvents).length < 2 ∨
    ∃ post ∈ w.stateSidecar.marketGroups, post.groupId = group.groupId ∧
      ∀ m ∈ group.markets, m ∉ resolvedMarketEvents w.systemEvents → m ∈ post.markets := by
  rw [verifyMarketGroupTransition, if_neg (by simpa using Option.isSome_iff_ne_none.mp hprev)]
    at hgroups
  simp only [List.append_eq_nil_iff, List.flatMap_eq_nil_iff, keyedMarketGroups,
    collectKeyed_fst] at hgroups
  obtain ⟨⟨⟨-, hpre⟩, -⟩, hcarried⟩ := hgroups
  have hone := hcarried (group.groupId, group) (OrdMap.mem_entries_iff.mpr
    ((get?_ofList_key (collectKeyed_silent.mp hpre)).mpr ⟨hgroup, rfl⟩))
  simp only [verifyPreGroup] at hone
  split at hone
  · left
    simpa using hone
  · rename_i post hpost
    right
    obtain ⟨hmem, hid⟩ := mem_of_get?_ofList_key hpost
    simp only [List.append_eq_nil_iff, reportIf_eq_nil, ne_eq, not_not] at hone
    refine ⟨post, hmem, hid, fun m hm hunresolved => ?_⟩
    rw [← get?_marketSet, hone.2, get?_marketSet]
    exact List.mem_append_left _ (List.mem_filter.mpr ⟨hm, by simpa using hunresolved⟩)

/-- Without a resolution a group only grows, so what is admissible after the block was
admissible before it. -/
theorem admissible_pre (hgroups : verifyMarketGroupTransition w = [])
    (hprev : w.previousHeader.isSome) (hres : resolvedMarketEvents w.systemEvents = [])
    {σ : JointResolution} (hσ : Admissible w.stateSidecar.marketGroups σ) :
    Admissible w.preStateSidecar.marketGroups σ := by
  intro group hgroup m hm m' hm' hyes hyes'
  have hcarried := group_carried hgroups hprev hgroup
  simp only [hres, List.not_mem_nil, not_false_eq_true, decide_true, List.filter_true,
    forall_const] at hcarried
  rcases hcarried with hshort | ⟨post, hpost, -, hsub⟩
  · -- A group of fewer than two markets excludes nothing.
    match hmarkets : group.markets with
    | [] => simp [hmarkets] at hm
    | [only] =>
      rw [hmarkets, List.mem_singleton] at hm hm'
      rw [hm, hm']
    | _ :: _ :: _ => simp [hmarkets] at hshort
  · exact hσ post hpost m (hsub m hm) m' (hsub m' hm') hyes hyes'

/-! ## The bound -/

/-- Value of MINT in one joint resolution. -/
theorem mintValue_postState_ge (h : Accepted P w)
    (hres : resolvedMarketEvents w.systemEvents = []) (hpre : DistinctPositions w.preState mintId)
    (hpost : DistinctPositions w.postSystemState mintId) (σ : JointResolution) :
    mintValue w.preState σ + (mintBalance w.postSystemState - mintBalance w.preState -
      mintLoss P w) ≤ mintValue w.postState σ := by
  have hfills : -(w.fills.map (ownFillLoss (witnessOrderMap w.orders))).sum ≤
      (w.fills.map (fillWorth (witnessOrderMap w.orders) mintId 1 (payoutAt σ))).sum := by
    rw [List.sum_neg, List.map_map]
    exact List.sum_le_sum fun fill hfill => fillWorth_mint_ge h.match_ h.orders hfill σ
  have hadjustments : -((mintAdjustmentsOf P w).map (adjustmentLoss w.clearingPrices)).sum ≤
      ((mintAdjustmentsOf P w).map (adjustmentWorth 1 (payoutAt σ))).sum := by
    rw [List.sum_neg, List.map_map]
    exact List.sum_le_sum fun adj hadj => adjustmentWorth_ge hadj σ
  have hsystem := worth_postSystemState h.system hres hpre hpost 1 (payoutAt σ)
  have hsettled := worth_postState h.settlement mintId 1 (payoutAt σ)
  rw [if_pos rfl] at hsettled
  simp only [mintValue, mintBalance, mintLoss]
  linarith

/-- **Exposure of MINT.**  In an accepted block without a resolution the worst case of MINT
falls by no more than what system events take from its balance, what its own orders risk and
what its shorts at the clearing price lose when the outcome pays.  The first part keeps one
grouping; the second takes the groups of each state. -/
theorem worstMint_of_accepted (h : verifyFull P w = [])
    (hres : resolvedMarketEvents w.systemEvents = []) (hpre : DistinctPositions w.preState mintId)
    (hpost : DistinctPositions w.postSystemState mintId) :
    (∀ groups, worstMint groups w.preState +
        (mintBalance w.postSystemState - mintBalance w.preState - mintLoss P w) ≤
      worstMint groups w.postState) ∧
    (w.previousHeader.isSome → worstMint w.preStateSidecar.marketGroups w.preState +
        (mintBalance w.postSystemState - mintBalance w.preState - mintLoss P w) ≤
      worstMint w.stateSidecar.marketGroups w.postState) := by
  have haccepted := verifyFull_eq_nil_iff.mp h
  have hvalue := mintValue_postState_ge haccepted hres hpre hpost
  obtain ⟨b, hb⟩ := exists_mintValue_bound w.preState
  refine ⟨fun groups => ?_, fun hprev => ?_⟩
  · exact worst_add_le ⟨_, admissible_none groups⟩ le_rfl hb fun σ _ => hvalue σ
  · exact worst_add_le ⟨_, admissible_none _⟩
      (fun σ hσ => admissible_pre haccepted.sidecar.marketGroups hprev hres hσ) hb
      fun σ _ => hvalue σ

/-! ## The bound is reached -/

/-- A buyer alone in the market: MINT sells the share for half a dollar, and the bound says that
this may cost the other half. -/
theorem worstMint_of_accepted_lone_buy :
    unitPayout * 1000 = 1000000000 ∧ ∀ P : Primitives,
      verifyFull P (loneBuy P (oneMarketSidecar P [])) = [] ∧
        worstMint [] (loneBuyAccounts P) - 500000000 ≤ worstMint [] (loneBuyPostAccounts P) := by
  refine ⟨rfl, fun P => ⟨verifyFull_loneBuy_fresh P, ?_⟩⟩
  have hbound := (worstMint_of_accepted (verifyFull_loneBuy_fresh P) rfl List.nodup_nil
    List.nodup_nil).1 []
  have hloss : mintLoss P (loneBuy P (oneMarketSidecar P [])) = 500000000 := by
    rw [mintLoss, mintAdjustmentsOf_loneBuy]
    change (([⟨1, 1000, 500000000, 1⟩] : List Fill).map
        (ownFillLoss (witnessOrderMap [⟨yesBuy 600000000, 1, false⟩]))).sum +
      (([⟨7, 0, -1000, 500000000⟩] : List MintAdjustment).map
        (adjustmentLoss (OrdMap.ofList [(7, [500000000, 500000000])]))).sum = 500000000
    decide
  rw [hloss] at hbound
  exact hbound

theorem mintValue_loneBuyAccounts (P : Primitives) (σ : JointResolution) :
    mintValue (loneBuyAccounts P) σ = 0 := by
  have hmint : entryOrDefault (startAccounts (loneBuyAccounts P)) mintId =
      derivedOf (freshAccount P mintId 0 []) := rfl
  rw [mintValue, worthOf, hmint]
  rfl

theorem mintValue_loneBuyPostAccounts (P : Primitives) (σ : JointResolution) :
    mintValue (loneBuyPostAccounts P) σ = 500000000 - 1000 * payoutAt σ (toLex (7, 0)) := by
  have hbalance : (entryOrDefault (startAccounts (loneBuyPostAccounts P)) mintId).balance =
      500000000 := rfl
  have hpositions : (entryOrDefault (startAccounts (loneBuyPostAccounts P)) mintId).positions =
      (∅ : Positions).insert (toLex (7, 0)) (-1000) := rfl
  rw [mintValue, worthOf, DerivedAccountState.worth, hbalance, hpositions, OrdMap.value_insert,
    OrdMap.value_empty, OrdMap.amount_empty]
  ring

/-- **Minted shares are not covered in the worst case.**  Whatever the hash functions are, an
accepted block can lower the worst case of MINT by more than a nano per adjustment. -/
theorem worstMint_drops :
    ¬ ∃ P : Primitives, ∀ w : BlockWitness, verifyFull P w = [] →
      resolvedMarketEvents w.systemEvents = [] →
      worstMint w.preStateSidecar.marketGroups w.preState - (mintAdjustmentsOf P w).length ≤
        worstMint w.stateSidecar.marketGroups w.postState := by
  rintro ⟨P, hclaim⟩
  have hbound := hclaim _ (verifyFull_loneBuy_fresh P) rfl
  have hpre : worstMint [] (loneBuyAccounts P) = 0 :=
    (worst_eq (admissible_none []) fun τ _ => by
      rw [mintValue_loneBuyAccounts, mintValue_loneBuyAccounts]).trans
      (mintValue_loneBuyAccounts P _)
  have hpost : worstMint [] (loneBuyPostAccounts P) ≤ -500000000 := by
    obtain ⟨b, hb⟩ := exists_mintValue_bound (loneBuyPostAccounts P)
    have hyes : Admissible [] fun _ => true := fun group hgroup => absurd hgroup List.not_mem_nil
    refine (worst_le hb hyes).trans_eq ?_
    rw [mintValue_loneBuyPostAccounts]
    rfl
  rw [mintAdjustmentsOf_loneBuy] at hbound
  change worstMint [] (loneBuyAccounts P) - _ ≤ worstMint [] (loneBuyPostAccounts P) at hbound
  rw [hpre] at hbound
  simp only [List.length_singleton] at hbound
  omega

end Sybil.Verifier
