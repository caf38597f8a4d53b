import Sybil.Sequencer.BatchConservation
import Sybil.Sequencer.Snapshots
import Sybil.Verifier.Rejections
import Sybil.Verifier.SettledState

/-!
# The verifier replays the settlement of the sequencer

The sequencer settles a batch in place: it mutates its account store fill by fill, advances
the position totals from before the batch by the changes it applied, and mints from them.
The verifier starts from a snapshot, settles with checked arithmetic and adds the totals up
again from scratch, over the markets that it happens to find.

`Mirrors` is the relation between the two: the same balance, the same amounts and the same
digest.  Every fill that the sequencer settles the verifier settles alike
(`Mirrors.settleFill`), so a batch without a skipped fill ends in mirrored accounts
(`MirrorsStore.settleFills`).  The totals may list different markets, but they agree on those
out of balance, in the same order, and only these mint (`filter_mintingInputs`).

One difference is left.  The verifier refuses prices above one dollar, the sequencer does not
look at them (`settlement_above_dollar`).
-/

namespace Sybil.Sequencer

open Engine

open Verifier (DerivedAccountState DerivedAccounts FillSettlement WitnessOrder BlockWitness
  addPositionStep settleDelta settleOrderFill settleFill chargedAccount fillAccountViolations
  witnessOrderMap startAccounts positionsOf settleFills derivePostState mintAdjustmentsOf
  marketTotals allMarkets circulating adjustMint adjustMintStep entryOrDefault mintId)

/-! ## Mirrored accounts -/

/-- A working account of the verifier that shows an account of the sequencer. -/
structure Mirrors (account : Account) (derived : DerivedAccountState) : Prop where
  balance : account.balance = derived.balance
  positions : ∀ key, account.positions.amount key = derived.positions.amount key
  eventsDigest : account.eventsDigest = derived.eventsDigest

/-- The same ids, with accounts that show each other. -/
def MirrorsStore (store : AccountStore) (accounts : DerivedAccounts) : Prop :=
  ∀ id, Option.Rel Mirrors (store.accounts.get? id) (accounts.get? id)

variable {P : Primitives} {store store' : AccountStore} {accounts : DerivedAccounts}
  {account account' : Account} {derived : DerivedAccountState}

theorem MirrorsStore.get? (h : MirrorsStore store accounts) {id : ℕ}
    (hget : store.accounts.get? id = some account) :
    ∃ derived, accounts.get? id = some derived ∧ Mirrors account derived := by
  have hid := h id
  rw [hget] at hid
  generalize hfound : accounts.get? id = found at hid
  cases hid with
  | some hmirrors => exact ⟨_, rfl, hmirrors⟩

theorem MirrorsStore.insert (h : MirrorsStore store accounts) (hmirrors : Mirrors account derived)
    (k : ℕ) :
    MirrorsStore { store with accounts := store.accounts.insert k account }
      (accounts.insert k derived) := by
  intro id
  rw [OrdMap.get?_insert, OrdMap.get?_insert]
  split_ifs
  · exact .some hmirrors
  · exact h id

/-- Mirrored accounts have the same shares in circulation. -/
theorem MirrorsStore.circulating_eq (h : MirrorsStore store accounts) (market : MarketId)
    (outcome : ℕ) : store.totalPosition market outcome = circulating accounts market outcome := by
  refine OrdMap.sumBy_eq_of_get? fun id => ?_
  have hid := h id
  generalize store.accounts.get? id = account, accounts.get? id = derived at hid
  cases hid with
  | none => rfl
  | some hmirrors => exact congrArg some (hmirrors.positions _)

section Snapshot

variable (keyState : ℕ → Digest × ℕ)

/-- The amounts of a snapshot are those of the account; it drops only zeros. -/
theorem amount_positionsOf_snapshot (account : Account) (key : PositionKey) :
    (positionsOf (snapshotAccount keyState account).positions).amount key =
      account.positions.amount key := by
  have hentries : (snapshotAccount keyState account).positions.map
      (fun entry => (toLex (entry.1, entry.2.1), entry.2.2)) =
        account.positions.entries.filter fun entry => entry.2 ≠ 0 := by
    rw [snapshotAccount, List.map_map]
    exact List.map_id _
  have hnodup : ((account.positions.entries.filter fun entry => entry.2 ≠ 0).map
      Prod.fst).Nodup := account.positions.nodup_keys.sublist (List.filter_sublist.map _)
  have hget : (OrdMap.ofList (account.positions.entries.filter fun entry =>
      entry.2 ≠ 0)).get? key = (account.positions.get? key).filter fun q => q ≠ 0 := by
    refine Option.ext fun q => ?_
    rw [OrdMap.get?_ofList_iff hnodup, List.mem_filter, OrdMap.mem_entries_iff,
      Option.filter_eq_some_iff]
  rw [positionsOf, hentries, OrdMap.amount, hget, OrdMap.amount]
  cases account.positions.get? key with
  | none => rfl
  | some q => by_cases hzero : q = 0 <;> simp [hzero, Option.filter]

theorem mirrorsStore_snapshotAccounts (h : store.Keyed) :
    MirrorsStore store (startAccounts (snapshotAccounts keyState store)) := by
  intro id
  rw [Verifier.get?_startAccounts, get?_snapshotAccounts keyState h, Option.map_map]
  cases store.accounts.get? id with
  | none => exact .none
  | some account =>
    exact .some ⟨rfl, fun key => (amount_positionsOf_snapshot keyState account key).symm, rfl⟩

end Snapshot

/-! ## One fill -/

theorem Mirrors.addPosition (h : Mirrors account derived) {market outcome : ℕ} {delta : ℤ}
    (hadd : account.addPosition market outcome delta = some account') (id : ℕ) :
    ∃ positions, addPositionStep id derived.positions (market, outcome, delta) = (positions, []) ∧
      Mirrors account' { derived with positions } := by
  obtain ⟨qty, hqty, rfl⟩ := Option.map_eq_some_iff.mp hadd
  rw [Account.position, h.positions] at hqty
  refine ⟨derived.positions.insert (toLex (market, outcome)) qty, ?_, h.balance, fun key => ?_,
    h.eventsDigest⟩
  · simp only [addPositionStep, hqty]
  · rw [OrdMap.amount_insert, OrdMap.amount_insert, h.positions]

theorem Mirrors.addPositions (h : Mirrors account derived) {deltas : List (MarketId × ℕ × ℤ)}
    (hadd : deltas.foldlM (fun a d => a.addPosition d.1 d.2.1 d.2.2) account = some account')
    (id : ℕ) :
    ∃ positions, reportLoop (addPositionStep id) derived.positions deltas = (positions, []) ∧
      Mirrors account' { derived with positions } := by
  induction deltas generalizing account derived with
  | nil =>
    obtain rfl : account = account' := Option.some.inj hadd
    exact ⟨derived.positions, rfl, h⟩
  | cons delta deltas ih =>
    obtain ⟨mid, hmid, hadd⟩ := foldlM_cons_eq_some.mp hadd
    obtain ⟨positions, hstep, hmirrors⟩ := h.addPosition hmid id
    obtain ⟨positions', hrun, hmirrors'⟩ := ih hmirrors hadd
    refine ⟨positions', Prod.ext ?_ ?_, hmirrors'⟩
    · rw [reportLoop_cons_fst, hstep, hrun]
    · exact silent_cons.mpr ⟨congrArg Prod.snd hstep, by rw [hstep, hrun]⟩

variable {orders : List WitnessOrder} {height : ℕ} {st st' : BatchState} {fill : Fill}
  {fills : List Fill} {dst : FillSettlement}

/-- The sequencer looks orders up in the same map, without their owners. -/
theorem get?_orderMapOf (orders : List WitnessOrder) (id : ℕ) :
    (orderMapOf (orders.map fun wo => wo.order)).get? id =
      ((witnessOrderMap orders).get? id).map fun wo => wo.order := by
  rw [orderMapOf, witnessOrderMap, List.map_map]
  exact OrdMap.get?_ofList_map (fun wo : WitnessOrder => wo.order.id) (fun wo => wo)
    (fun wo => wo.order) orders

/-- What the verifier asks of a fill: it names the account of its order, and the prices are at most
one dollar. -/
structure Admissible (orders : List WitnessOrder) (fill : Fill) : Prop where
  account : ∀ wo ∈ orders, wo.order.id = fill.orderId → fill.accountId = wo.accountId
  limitPrice : ∀ wo ∈ orders, wo.order.id = fill.orderId → wo.order.limitPrice ≤ nanosPerDollar
  fillPrice : fill.fillPrice ≤ nanosPerDollar

theorem computeFillSettlement_eq_some {order : Order} {delta : SettlementDelta}
    (h : computeFillSettlement order fill = some delta) :
    computeFillSettlementChecked order fill = .ok (some delta) := by
  unfold computeFillSettlement at h
  split at h
  · rw [‹computeFillSettlementChecked order fill = _›, h]
  · exact nomatch h

theorem MirrorsStore.settleDelta (h : MirrorsStore st.accounts dst.accounts)
    (haccount : st.accounts.accounts.get? fill.accountId = some account)
    {delta : SettlementDelta} (hdelta : applyDelta account delta = some account') {total : ℤ}
    (htotal : checkedI64 (dst.fillBalanceDelta + delta.balanceDelta) = some total) :
    ∃ dst', Verifier.settleDelta P height fill.accountId dst fill delta = (dst', []) ∧
      MirrorsStore
        { st.accounts with
          accounts := st.accounts.accounts.insert fill.accountId
            { account' with
              eventsDigest := updateDigest P account'.eventsDigest
                (encodeFillEvent fill.orderId fill.fillQty fill.fillPrice height) } }
        dst'.accounts ∧ dst'.fillBalanceDelta = total := by
  obtain ⟨derived, hderived, hmirrors⟩ := h.get? haccount
  obtain ⟨mid, hmid, hdelta⟩ := Option.bind_eq_some_iff.mp hdelta
  obtain ⟨balance, hbalance, rfl⟩ := Option.map_eq_some_iff.mp hmid
  rw [hmirrors.balance] at hbalance
  have hcredited : Mirrors { account with balance } { derived with balance } :=
    ⟨rfl, hmirrors.positions, hmirrors.eventsDigest⟩
  obtain ⟨positions, hrun, hfinal⟩ := hcredited.addPositions hdelta fill.accountId
  have hentry : entryOrDefault dst.accounts fill.accountId = derived := by
    rw [entryOrDefault, hderived, Option.getD_some]
  have hpositions : reportLoop (addPositionStep fill.accountId) derived.positions
      delta.positionDeltas = (positions, []) := hrun
  let settled : DerivedAccountState :=
    { derived with
      balance
      positions
      eventsDigest := Verifier.updateDigest P derived.eventsDigest
        (Verifier.encodeFillEvent fill.orderId fill.fillQty fill.fillPrice height) }
  refine ⟨⟨dst.accounts.insert fill.accountId settled, total⟩, ?_, h.insert ?_ fill.accountId, rfl⟩
  · simp only [Verifier.settleDelta, hentry, htotal, hbalance, hpositions, settled]
  · refine ⟨hfinal.balance, hfinal.positions, ?_⟩
    rw [hfinal.eventsDigest]
    rfl

/-- **One fill.**  What the sequencer settles the verifier settles alike, without a report. -/
theorem MirrorsStore.settleFill (h : MirrorsStore st.accounts dst.accounts)
    (hadmissible : fill.fillQty ≠ 0 → Admissible orders fill)
    (hstep : settleBatchStep P (orderMapOf (orders.map fun wo => wo.order)) height st fill =
      some st') (hfailures : st'.failures = st.failures) {total : ℤ}
    (htotal : (fillBalanceDeltas (orderMapOf (orders.map fun wo => wo.order)) [fill]).foldlM
      (fun sum x => checkedI64 (sum + x)) dst.fillBalanceDelta = some total) :
    ∃ dst', Verifier.settleFill P height (witnessOrderMap orders) dst fill = (dst', []) ∧
      MirrorsStore st'.accounts dst'.accounts ∧ dst'.fillBalanceDelta = total := by
  obtain ⟨hqty, rfl⟩ | ⟨failure, rfl⟩ |
    ⟨order, account, delta, account', hqty, horder, haccount, hdelta, haccount', rfl⟩ :=
    settleBatchStep_eq_some hstep
  · have hnone : fillBalanceDeltas (orderMapOf (orders.map fun wo => wo.order)) [fill] = [] := by
      simp [fillBalanceDeltas, computeFillSettlement, computeFillSettlementChecked, hqty]
    rw [hnone] at htotal
    exact ⟨dst, by rw [Verifier.settleFill, if_pos hqty], h, Option.some.inj htotal⟩
  · exact absurd hfailures (by simp)
  · have hfound := horder
    rw [get?_orderMapOf, Option.map_eq_some_iff] at hfound
    obtain ⟨wo, hwo, rfl⟩ := hfound
    obtain ⟨hmem, hid⟩ := mem_of_get?_ofList_key hwo
    have hadmissible := hadmissible hqty
    have hcharged := hadmissible.account wo hmem hid
    have hchecked := computeFillSettlement_eq_some hdelta
    have hdeltas : fillBalanceDeltas (orderMapOf (orders.map fun wo => wo.order)) [fill] =
        [delta.balanceDelta] := by
      simp [fillBalanceDeltas, horder, hdelta]
    rw [hdeltas] at htotal
    obtain ⟨sum, hsum, htotal⟩ := foldlM_cons_eq_some.mp htotal
    obtain rfl := Option.some.inj htotal
    obtain ⟨dst', hdst', hmirrors, hfill⟩ := h.settleDelta haccount haccount' hsum
    refine ⟨dst', ?_, hmirrors, hfill⟩
    have hcharge : chargedAccount wo fill = fill.accountId := by
      rw [chargedAccount]
      split_ifs
      · rfl
      · exact hcharged.symm
    have hnone : fillAccountViolations wo fill = [] :=
      reportIf_eq_nil.mpr fun hmismatch => hmismatch.2 hcharged
    rw [Verifier.settleFill, if_neg hqty, hwo]
    simp only [hnone, List.nil_append, settleOrderFill, hcharge, hchecked,
      if_neg (not_lt.mpr (hadmissible.limitPrice wo hmem hid)),
      if_neg (not_lt.mpr hadmissible.fillPrice), hdst']

/-! ## A batch -/

/-- A batch forgets no failure. -/
theorem failures_eq_nil_of_settleBatch {orderMap : OrdMap ℕ Order}
    (h : fills.foldlM (settleBatchStep P orderMap height) st = some st')
    (hfailures : st'.failures = []) : st.failures = [] := by
  induction fills generalizing st with
  | nil => exact (Option.some.inj h) ▸ hfailures
  | cons fill fills ih =>
    obtain ⟨mid, hmid, h⟩ := foldlM_cons_eq_some.mp h
    have hnone := ih h
    obtain ⟨-, rfl⟩ | ⟨failure, rfl⟩ | ⟨_, _, _, _, -, -, -, -, -, rfl⟩ :=
      settleBatchStep_eq_some hmid
    · exact hnone
    · exact absurd hnone (by simp)
    · exact hnone

/-- **A batch.**  When the sequencer skips no fill, the verifier reports nothing and ends in
accounts that show those of the sequencer. -/
theorem MirrorsStore.settleFills (h : MirrorsStore st.accounts dst.accounts)
    (hadmissible : ∀ fill ∈ fills, fill.fillQty ≠ 0 → Admissible orders fill)
    (hbatch : fills.foldlM (settleBatchStep P (orderMapOf (orders.map fun wo => wo.order)) height)
      st = some st') (hfailures : st'.failures = []) {total : ℤ}
    (htotal : (fillBalanceDeltas (orderMapOf (orders.map fun wo => wo.order)) fills).foldlM
      (fun sum x => checkedI64 (sum + x)) dst.fillBalanceDelta = some total) :
    ∃ dst', reportLoop (Verifier.settleFill P height (witnessOrderMap orders)) dst fills =
        (dst', []) ∧
      MirrorsStore st'.accounts dst'.accounts ∧ dst'.fillBalanceDelta = total := by
  induction fills generalizing st dst with
  | nil =>
    obtain rfl : st = st' := Option.some.inj hbatch
    exact ⟨dst, rfl, h, Option.some.inj htotal⟩
  | cons fill fills ih =>
    obtain ⟨hfill, hfills⟩ := List.forall_mem_cons.mp hadmissible
    obtain ⟨mid, hmid, hbatch⟩ := foldlM_cons_eq_some.mp hbatch
    have hsplit : fillBalanceDeltas (orderMapOf (orders.map fun wo => wo.order)) (fill :: fills) =
        fillBalanceDeltas (orderMapOf (orders.map fun wo => wo.order)) [fill] ++
          fillBalanceDeltas (orderMapOf (orders.map fun wo => wo.order)) fills :=
      List.filterMap_append (l := [fill])
    rw [hsplit, List.foldlM_append, Option.bind_eq_bind, Option.bind_eq_some_iff] at htotal
    obtain ⟨sum, hsum, htotal⟩ := htotal
    have hmidFailures := failures_eq_nil_of_settleBatch hbatch hfailures
    have hone :
      [fill].foldlM (settleBatchStep P (orderMapOf (orders.map fun wo => wo.order)) height)
        st = some mid := foldlM_cons_eq_some.mpr ⟨mid, hmid, rfl⟩
    have hstFailures := failures_eq_nil_of_settleBatch hone hmidFailures
    obtain ⟨next, hnext, hmirrors, hdelta⟩ := h.settleFill hfill hmid
      (hmidFailures.trans hstFailures.symm) hsum
    obtain ⟨dst', hrun, hfinal⟩ := ih hmirrors hfills hbatch (by rwa [hdelta])
    refine ⟨dst', Prod.ext ?_ ?_, hfinal⟩
    · rw [reportLoop_cons_fst, hnext, hrun]
    · exact silent_cons.mpr ⟨congrArg Prod.snd hnext, by rw [hnext, hrun]⟩

/-! ## Minting -/

/-- **The same markets mint.**  The totals that the sequencer advanced and those that the verifier
added up agree on every market out of balance, in the same order. -/
theorem filter_mintingInputs {agg : AccountAggregates}
    (htotal : ∀ market outcome, outcome < 2 →
      agg.total market outcome = circulating accounts market outcome)
    (hsilent : (marketTotals accounts).2 = []) :
    agg.mintingInputs.filter (fun t => t.2.1 ≠ t.2.2) =
      (marketTotals accounts).1.filter fun t => t.2.1 ≠ t.2.2 := by
  rw [Verifier.totals_of_silent hsilent]
  have hsorted : (agg.mintingInputs.filter fun t => t.2.1 ≠ t.2.2).Pairwise fun t t' =>
    t.1 < t'.1 :=
    agg.marketPositionTotals.sorted.filter _
  have hsorted' : (((allMarkets accounts).map fun market =>
      (market, circulating accounts market 0, circulating accounts market 1)).filter fun t =>
        t.2.1 ≠ t.2.2).Pairwise fun t t' => t.1 < t'.1 := by
    refine List.Pairwise.filter _ (List.pairwise_map.mpr ?_)
    exact OrdMap.pairwise_keys _
  have hnodup : ∀ {l : List (MarketId × ℤ × ℤ)}, l.Pairwise (fun t t' => t.1 < t'.1) → l.Nodup :=
    fun hl => hl.imp fun hlt heq => absurd (heq ▸ hlt) (lt_irrefl _)
  refine List.Perm.eq_of_pairwise (fun t t' _ _ hlt hgt => absurd (hlt.trans hgt) (lt_irrefl _))
    hsorted hsorted' ?_
  refine (List.perm_ext_iff_of_nodup (hnodup hsorted) (hnodup hsorted')).mpr ?_
  -- An entry of the aggregates holds the circulation of its market.
  have hentry : ∀ market totals, agg.marketPositionTotals.get? market = some totals →
      totals = (circulating accounts market 0, circulating accounts market 1) := by
    intro market totals hget
    rw [← htotal market 0 (by decide), ← htotal market 1 (by decide)]
    simp only [AccountAggregates.total, AccountAggregates.totalsFor, hget, Option.getD_some]
  rintro ⟨market, totals⟩
  rw [List.mem_filter, List.mem_filter, AccountAggregates.mintingInputs, OrdMap.mem_entries_iff,
    List.mem_map]
  refine and_congr_left fun hne => ⟨fun hget => ?_, ?_⟩
  · obtain rfl := hentry market totals hget
    refine ⟨market, ?_, rfl⟩
    by_contra hnone
    simp [Verifier.circulating_of_not_mem hnone] at hne
  · rintro ⟨found, -, heq⟩
    obtain ⟨rfl, rfl⟩ := Prod.mk.inj heq
    cases hget : agg.marketPositionTotals.get? found with
    | none =>
      have hzero : ∀ outcome, outcome < 2 → circulating accounts found outcome = 0 := by
        intro outcome houtcome
        rw [← htotal found outcome houtcome]
        interval_cases outcome <;>
          simp [AccountAggregates.total, AccountAggregates.totalsFor, hget]
      simp [hzero 0 (by decide), hzero 1 (by decide)] at hne
    | some totals => rw [hentry found totals hget]

theorem Mirrors.applyAdjustments (h : Mirrors account derived) {adjustments : List MintAdjustment}
    (hadjust : adjustments.foldlM applyAdjustment account = some account') :
    ∃ derived', reportLoop adjustMintStep derived adjustments = (derived', []) ∧
      Mirrors account' derived' := by
  induction adjustments generalizing account derived with
  | nil =>
    obtain rfl : account = account' := Option.some.inj hadjust
    exact ⟨derived, rfl, h⟩
  | cons adj adjustments ih =>
    obtain ⟨mid, hmid, hadjust⟩ := foldlM_cons_eq_some.mp hadjust
    obtain ⟨moved, hmoved, hmid⟩ := Option.bind_eq_some_iff.mp hmid
    obtain ⟨qty, hqty, rfl⟩ := Option.map_eq_some_iff.mp hmoved
    obtain ⟨balance, hbalance, rfl⟩ := Option.map_eq_some_iff.mp hmid
    rw [Account.position, h.positions] at hqty
    rw [h.balance] at hbalance
    have hstep : adjustMintStep derived adj =
        ({ derived with
            positions := derived.positions.insert (toLex (adj.marketId, adj.outcome)) qty
            balance }, []) := by
      simp only [adjustMintStep, hqty, hbalance]
    obtain ⟨derived', hrun, hfinal⟩ := @ih _ (adjustMintStep derived adj).1 (by
      rw [hstep]
      exact ⟨rfl, fun key => by rw [OrdMap.amount_insert, OrdMap.amount_insert, h.positions],
        h.eventsDigest⟩) hadjust
    refine ⟨derived', Prod.ext ?_ ?_, hfinal⟩
    · rw [reportLoop_cons_fst, hrun]
    · exact silent_cons.mpr ⟨congrArg Prod.snd hstep, by rw [hrun]⟩

theorem MirrorsStore.mintInto (h : MirrorsStore store accounts) {adjustments : List MintAdjustment}
    (hmint : mintInto P store adjustments height = some store') :
    MirrorsStore store' (adjustMint P height accounts adjustments).1 := by
  rw [Sequencer.mintInto] at hmint
  rw [adjustMint]
  split_ifs at hmint ⊢ with hempty
  · exact Option.some.inj hmint ▸ h
  · obtain ⟨mint, hget, hmint⟩ := Option.bind_eq_some_iff.mp hmint
    obtain ⟨minted, hminted, hmint⟩ := Option.bind_eq_some_iff.mp hmint
    obtain rfl := Option.some.inj hmint
    obtain ⟨adjusted, hadjusted, rfl⟩ := Option.map_eq_some_iff.mp hminted
    obtain ⟨derived, hderived, hmirrors⟩ := h.get? hget
    obtain ⟨derived', hrun, hfinal⟩ := hmirrors.applyAdjustments hadjusted
    have hentry : entryOrDefault accounts mintId = derived := by
      rw [entryOrDefault, show accounts.get? mintId = some derived from hderived, Option.getD_some]
    rw [hentry, hrun, if_neg hempty]
    let event := encodeMintEvent adjustments height
    have hnoted : Mirrors
        { adjusted with eventsDigest := updateDigest P adjusted.eventsDigest event }
        { derived' with eventsDigest := updateDigest P derived'.eventsDigest event } :=
      ⟨hfinal.balance, hfinal.positions, congrArg (updateDigest P · event) hfinal.eventsDigest⟩
    exact h.insert hnoted _

/-! ## The whole settlement -/

section Replay

variable {w : BlockWitness} {markets : List MarketId} {finalized : FinalizedBlockState}
  {settled : FinalizedSettlement}

/-- A block that is finalized was settled, and reports every fill that was skipped. -/
theorem finalizeBlockStatePhase_eq_some {fills : List Fill} {orders : List Order}
    {clearingPrices : OrdMap MarketId (List Nanos)} {height : ℕ}
    (h : finalizeBlockStatePhase P store markets fills orders clearingPrices height =
      some finalized) :
    ∃ settled fillBalanceDelta,
      finalizeSettlement P store fills orders clearingPrices height = some settled ∧
      sumI64 (fillBalanceDeltas (orderMapOf orders) fills) = some fillBalanceDelta ∧
      finalized.accounts = settled.accounts ∧
      finalized.mintingCost = mintingCostFromFillBalanceDelta fillBalanceDelta ∧
      ∀ failure ∈ settled.failures, .unsettleableFill failure ∈ finalized.invariantFailures := by
  obtain ⟨pre, -, h⟩ := Option.bind_eq_some_iff.mp h
  obtain ⟨settled, hsettled, h⟩ := Option.bind_eq_some_iff.mp h
  obtain ⟨fillBalanceDelta, hdelta, h⟩ := Option.bind_eq_some_iff.mp h
  obtain ⟨post, -, h⟩ := Option.bind_eq_some_iff.mp h
  obtain ⟨balanceDelta, -, h⟩ := Option.bind_eq_some_iff.mp h
  have hreported : ∀ expected, ∀ failure ∈ settled.failures,
      BlockInvariantFailure.unsettleableFill failure ∈
        settled.failures.map .unsettleableFill ++
          reportIf (balanceDelta ≠ 0 ∧ balanceDelta ≠ expected)
            (.balanceDeltaMismatch balanceDelta expected) ++
          collectAccountInvariantFailures post markets := fun expected failure hmem =>
    List.mem_append_left _ (List.mem_append_left _ (List.mem_map_of_mem hmem))
  dsimp only at h
  split_ifs at h
  · obtain rfl := Option.some.inj h
    exact ⟨settled, fillBalanceDelta, hsettled, hdelta, rfl, rfl, hreported 0⟩
  · obtain ⟨mintDelta, -, h⟩ := Option.bind_eq_some_iff.mp h
    obtain ⟨expected, -, h⟩ := Option.bind_eq_some_iff.mp h
    obtain rfl := Option.some.inj h
    exact ⟨settled, fillBalanceDelta, hsettled, hdelta, rfl, rfl, hreported expected⟩

/-- The same totals out of balance give the same adjustments. -/
theorem postFillAdjustments_eq {agg : AccountAggregates}
    (clearingPrices : OrdMap MarketId (List Nanos))
    (htotal : ∀ market outcome, outcome < 2 →
      agg.total market outcome = circulating accounts market outcome)
    (hsilent : (marketTotals accounts).2 = []) :
    (Verifier.postFillAdjustments clearingPrices (marketTotals accounts).1).1 =
      deriveMinting clearingPrices agg.mintingInputs := by
  rw [Verifier.postFillAdjustments, deriveMinting,
    ← Verifier.deriveMintingChecked_filter _ (marketTotals accounts).1,
    ← filter_mintingInputs htotal hsilent, Verifier.deriveMintingChecked_filter]
  cases deriveMintingChecked clearingPrices agg.mintingInputs <;> rfl

/-- **Replay.**  From a snapshot of the accounts the verifier derives what the sequencer finalized:
the balances, amounts and digests, the minting cost, and the adjustments of MINT in their order. -/
theorem derivePostState_mirrors (hkeyed : store.Keyed) {keyState : ℕ → Digest × ℕ}
    (hfinal : finalizeBlockStatePhase P store markets w.fills (w.orders.map fun wo => wo.order)
      w.clearingPrices w.header.height = some finalized)
    (hfailures : ∀ failure, .unsettleableFill failure ∉ finalized.invariantFailures)
    (hstart : w.postSystemState = snapshotAccounts keyState store)
    (hadmissible : ∀ fill ∈ w.fills, fill.fillQty ≠ 0 → Admissible w.orders fill)
    (hsilent : (marketTotals (settleFills P w).1.accounts).2 = []) :
    MirrorsStore finalized.accounts (derivePostState P w).accounts ∧
      finalized.mintingCost = (derivePostState P w).mintingCost ∧
      ∃ settled, finalizeSettlement P store w.fills (w.orders.map fun wo => wo.order)
          w.clearingPrices w.header.height = some settled ∧
        settled.accounts = finalized.accounts ∧
        settled.mintAdjustments = mintAdjustmentsOf P w := by
  obtain ⟨settled, fillBalanceDelta, hsettled, hdelta, haccounts, hcost, hreported⟩ :=
    finalizeBlockStatePhase_eq_some hfinal
  obtain ⟨batch, agg, hbatch, hskipped, htotal, -, hadjustments, hmint⟩ :=
    finalizeSettlement_eq_some hsettled
  have hnone : batch.failures = [] := by
    rw [← hskipped]
    exact List.eq_nil_iff_forall_not_mem.mpr fun failure hmem =>
      hfailures failure (hreported failure hmem)
  have hmirrors : MirrorsStore (BatchState.mk store [] []).accounts
      (FillSettlement.mk (startAccounts w.postSystemState) 0).accounts := by
    rw [hstart]
    exact mirrorsStore_snapshotAccounts keyState hkeyed
  obtain ⟨dst, hrun, hsettledMirrors, hfillDelta⟩ :=
    hmirrors.settleFills hadmissible hbatch hnone hdelta
  have hdst : (settleFills P w).1 = dst := congrArg Prod.fst hrun
  have hsame : settled.mintAdjustments = mintAdjustmentsOf P w := by
    rw [hadjustments]
    refine (postFillAdjustments_eq _ (fun market outcome houtcome => ?_) hsilent).symm
    rw [htotal market outcome houtcome, hdst]
    exact hsettledMirrors.circulating_eq market outcome
  refine ⟨?_, ?_, settled, hsettled, haccounts.symm, hsame⟩
  · rw [haccounts]
    show MirrorsStore settled.accounts
      (adjustMint P w.header.height (settleFills P w).1.accounts (mintAdjustmentsOf P w)).1
    rw [← hsame, hdst]
    exact hsettledMirrors.mintInto hmint
  · show finalized.mintingCost =
      (Verifier.derivedMintingCost (settleFills P w).1.fillBalanceDelta).1
    rw [hcost, hdst, hfillDelta, mintingCostFromFillBalanceDelta, Verifier.derivedMintingCost]
    cases mintingCostFromFillBalanceDeltaChecked fillBalanceDelta <;> rfl

end Replay

/-! ## One fill of a bid -/

/-- The block in which the account with two dollars bids for YES in market `0` and is filled. -/
def bidBlock (limitPrice fillPrice : Nanos) : BlockWitness :=
  { Verifier.idleContent [] (snapshotAccounts (fun _ => (0, 0)) twoDollarStore)
      Verifier.bareSidecar Verifier.bareSidecar [] with
    orders := [⟨{ yesBid with limitPrice }, 1, false⟩]
    fills := [⟨7, 1000, fillPrice, 1⟩]
    clearingPrices := OrdMap.ofList [(0, [fillPrice, nanosPerDollar - fillPrice])] }

theorem keyed_twoDollarStore : twoDollarStore.Keyed :=
  AccountStore.keyed_of_entries (by decide +kernel)

/-- The sequencer finalizes the block of a bid. -/
def finalizeBid (P : Primitives) (limitPrice fillPrice : Nanos) : Option FinalizedBlockState :=
  finalizeBlockStatePhase P twoDollarStore [0] (bidBlock limitPrice fillPrice).fills
    ((bidBlock limitPrice fillPrice).orders.map fun wo => wo.order)
    (bidBlock limitPrice fillPrice).clearingPrices (bidBlock limitPrice fillPrice).header.height

theorem finalizeBid_cheap (P : Primitives) :
    (finalizeBid P 600000000 500000000).map (·.invariantFailures) = some [] := by
  rfl

/-- A bid of at most one dollar: the balance, the cost and the adjustment are replayed. -/
theorem derivePostState_mirrors_bid :
    (bidBlock 600000000 500000000).fills ≠ [] ∧ ∀ P : Primitives, ∃ finalized,
      finalizeBid P 600000000 500000000 = some finalized ∧
      MirrorsStore finalized.accounts (derivePostState P (bidBlock 600000000 500000000)).accounts ∧
      mintAdjustmentsOf P (bidBlock 600000000 500000000) = [⟨0, 0, -1000, 500000000⟩] := by
  refine ⟨by decide, fun P => ?_⟩
  obtain ⟨finalized, hfinal, hfailures⟩ := Option.map_eq_some_iff.mp (finalizeBid_cheap P)
  have hstart : (bidBlock 600000000 500000000).postSystemState =
      snapshotAccounts (fun _ => (0, 0)) twoDollarStore := rfl
  refine ⟨finalized, hfinal, (derivePostState_mirrors keyed_twoDollarStore hfinal
    (fun failure hmem => ?_) hstart ?_ ?_).1, ?_⟩
  · rw [hfailures] at hmem
    exact nomatch hmem
  · intro fill hfill _
    obtain rfl := List.mem_singleton.mp hfill
    exact ⟨by decide, by decide, by decide⟩
  · rfl
  · have htotals : marketTotals (settleFills P (bidBlock 600000000 500000000)).1.accounts =
        ([(0, 1000, 0)], []) := rfl
    rw [mintAdjustmentsOf, htotals]
    decide +kernel

/-- A bid of two dollars, filled at one and a half.  The sequencer charges the bidder and reports
nothing; the verifier skips the fill, so the two disagree on the balance. -/
theorem settlement_above_dollar :
    twoDollarStore.Balanced ∧
    (∀ fill ∈ (bidBlock 2000000000 1500000000).fills,
      ∀ wo ∈ (bidBlock 2000000000 1500000000).orders, fill.accountId = wo.accountId) ∧
    ∀ P : Primitives, ∃ finalized,
      finalizeBid P 2000000000 1500000000 = some finalized ∧ finalized.invariantFailures = [] ∧
      (marketTotals (settleFills P (bidBlock 2000000000 1500000000)).1.accounts).2 = [] ∧
      (finalized.accounts.accounts.get? 1).map (·.balance) = some 500000000 ∧
      ((derivePostState P (bidBlock 2000000000 1500000000)).accounts.get? 1).map (·.balance) =
        some 2000000000 := by
  exact ⟨fun market => rfl, by decide, fun P => ⟨_, rfl, rfl, rfl, rfl, rfl⟩⟩

end Sybil.Sequencer
