import Sybil.Verifier.ResolutionFinality

/-!
# Trading in resolved markets

The fill checks refuse the markets of a list in the witness, `resolved_markets`.  The
market pass asks that every market of the list is resolved; it does not ask that every
resolved market is in the list.  So a resolved market is kept from trading exactly as
far as the list names it (`resolvedDontTrade_iff`).
-/

namespace Sybil.Verifier

open Engine

variable {P : Primitives} {w : BlockWitness} {market : MarketId}
  {record : ResolutionRecordSnapshot}

/-! ## Trading -/

/-- Some fill that is not zero belongs to an order on the market. -/
def Trades (w : BlockWitness) (market : MarketId) : Prop :=
  ∃ fill ∈ w.fills, fill.fillQty ≠ 0 ∧
    ∃ wo ∈ w.orders, wo.order.id = fill.orderId ∧ market ∈ wo.order.activeMarkets

/-- The market is committed as resolved. -/
def ResolvedIn (sidecar : StateSidecarSnapshot) (market : MarketId) : Prop :=
  ∃ record, committedStatus sidecar market = some (.resolved record)

/-- **Resolved markets do not trade**, be they resolved before or after the block. -/
def ResolvedDontTrade (w : BlockWitness) : Prop :=
  ∀ market, ResolvedIn w.preStateSidecar market ∨ ResolvedIn w.stateSidecar market →
    ¬ Trades w market

/-- The list names every resolved market on which the block trades. -/
def TradedResolvedListed (w : BlockWitness) : Prop :=
  ∀ market, ResolvedIn w.stateSidecar market → Trades w market → market ∈ w.resolvedMarkets

theorem not_trades_of_listed (h : verifyMatch w = []) (hlisted : market ∈ w.resolvedMarkets) :
    ¬ Trades w market := by
  rintro ⟨fill, hfill, hqty, wo, hwo, hid, hmarket⟩
  obtain ⟨-, -, -, -, hresolved, -⟩ := verifyMatch_eq_nil_iff.mp h
  have hchecked := hresolved fill hfill (List.ne_nil_of_mem hlisted)
  have horder : (orderMap w).get? fill.orderId = some wo.order :=
    (get?_orderMap (nodup_orderIds h)).mpr ⟨wo, hwo, rfl, hid⟩
  rw [verifyResolvedMarket, if_neg hqty, horder, List.flatMap_eq_nil_iff] at hchecked
  exact reportIf_eq_nil.mp (hchecked market hmarket) hlisted

/-! ## Resolved markets stay resolved -/

theorem resolvedIn_of_isResolvedWith {m : MarketSnapshot} {payout : Nanos}
    (h : isResolvedWith m.status payout = true) : ∃ record, m.status = .resolved record := by
  cases hstatus : m.status with
  | active =>
    rw [hstatus] at h
    exact nomatch h
  | resolved record => exact ⟨record, rfl⟩

/-- A market that was resolved before the block is resolved after it, perhaps with another
record. -/
theorem resolvedIn_stateSidecar (h : verifyMarketTransition w = [])
    (hprev : w.previousHeader.isSome) (hpre : ResolvedIn w.preStateSidecar market) :
    ResolvedIn w.stateSidecar market := by
  obtain ⟨record, hrecord⟩ := hpre
  obtain ⟨postMarket, hpost, hstatus⟩ := verifyStatus_of_verifyMarketTransition h hprev hrecord
  rcases hstatus with ⟨payout, affected, -, hresolved⟩ | ⟨-, hkept⟩
  · obtain ⟨record', hrecord'⟩ := resolvedIn_of_isResolvedWith hresolved
    exact ⟨record', by rw [committedStatus, hpost, Option.map_some, hrecord']⟩
  · exact ⟨record, by rw [committedStatus, hpost, Option.map_some, hkept]⟩

/-- **When resolved markets do not trade.**  In an accepted block with a parent, no fill is on a
resolved market exactly when the witness lists every resolved market that the block trades. -/
theorem resolvedDontTrade_iff (h : verifyFull P w = []) (hprev : w.previousHeader.isSome) :
    ResolvedDontTrade w ↔ TradedResolvedListed w := by
  have haccepted := verifyFull_eq_nil_iff.mp h
  constructor
  · intro hnone market hresolved htrades
    exact absurd htrades (hnone market (Or.inr hresolved))
  · intro hlisted market hresolved htrades
    have hpost : ResolvedIn w.stateSidecar market := by
      rcases hresolved with hpre | hpost
      · exact resolvedIn_stateSidecar haccepted.sidecar.markets hprev hpre
      · exact hpost
    exact not_trades_of_listed haccepted.match_ (hlisted market hpost htrades) htrades

/-! ## A trade after the resolution -/

/-- The sidecar of the resolved market, last cleared at the given prices. -/
def resolvedMarketSidecar (P : Primitives) (prices : List Nanos) : StateSidecarSnapshot :=
  { oneMarketSidecar P [] with
    markets := [⟨7, "rain", 2, .resolved ⟨0, .admin, 0⟩, 0, "", prices⟩] }

/-- A lone buy in a market that resolved to NO before the block. -/
def lateBuy (P : Primitives) : BlockWitness :=
  loneBuyOver P (resolvedMarketSidecar P []) (resolvedMarketSidecar P [500000000, 500000000])

theorem verifyFull_lateBuy (P : Primitives) : verifyFull P (lateBuy P) = [] :=
  verifyFull_loneBuyOver
    ⟨rfl, rfl, rfl, rfl, verifyDepositAccumulator_of_idle rfl rfl rfl rfl
      (depositRootFromFrontier_fresh P) rfl, rfl, rfl, rfl⟩

theorem trades_loneBuyOver (P : Primitives) (preSidecar sidecar : StateSidecarSnapshot) :
    Trades (loneBuyOver P preSidecar sidecar) 7 :=
  ⟨_, List.mem_cons_self, by decide, _, List.mem_cons_self, rfl, List.mem_cons_self⟩

/-- The sidecar of an active market next to one that resolved to NO. -/
def mixedMarketSidecar (prices : List Nanos) : StateSidecarSnapshot :=
  { oneMarketSidecar (separating []) prices with
    markets := (oneMarketSidecar (separating []) prices).markets ++
      [⟨8, "snow", 2, .resolved ⟨0, .admin, 0⟩, 0, "", []⟩] }

/-- A lone buy in the active market, with the other one listed. -/
def listedBuy : BlockWitness :=
  { loneBuyOver (separating []) (mixedMarketSidecar []) (mixedMarketSidecar [500000000, 500000000])
    with resolvedMarkets := [8] }

theorem resolvedDontTrade_iff_listed :
    verifyFull (separating []) listedBuy = [] ∧ ResolvedIn listedBuy.stateSidecar 8 ∧
      Trades listedBuy 7 ∧ ResolvedDontTrade listedBuy := by
  have hfull : verifyFull (separating []) listedBuy = [] := List.isEmpty_iff.mp (by decide +kernel)
  refine ⟨hfull, ⟨_, rfl⟩, trades_loneBuyOver (separating []) (mixedMarketSidecar [])
    (mixedMarketSidecar [500000000, 500000000]),
      (resolvedDontTrade_iff hfull rfl).mpr fun market hresolved _ => ?_⟩
  obtain ⟨record, hrecord⟩ := hresolved
  have hnodup : (listedBuy.stateSidecar.markets.map fun m => m.marketId).Nodup := by decide +kernel
  obtain ⟨m, hm, rfl, hstatus⟩ := (committedStatus_eq_some_iff hnodup).mp hrecord
  have hmarkets : ∀ m ∈ listedBuy.stateSidecar.markets,
      m.status = .active ∨ m.marketId ∈ listedBuy.resolvedMarkets := by decide +kernel
  rcases hmarkets m hm with hactive | hlisted
  · cases hactive.symm.trans hstatus
  · exact hlisted

/-- **A resolved market can trade** when the list leaves it out. -/
theorem trade_after_resolution_accepted :
    ¬ ∃ P : Primitives, ∀ w : BlockWitness, w.previousHeader.isSome → verifyFull P w = [] →
      ResolvedDontTrade w := by
  rintro ⟨P, hclaim⟩
  have hnone := hclaim (lateBuy P) rfl (verifyFull_lateBuy P)
  exact hnone 7 (Or.inl ⟨⟨0, .admin, 0⟩, rfl⟩) (trades_loneBuyOver P _ _)

end Sybil.Verifier
