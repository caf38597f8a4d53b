import Sybil.Verifier.ResolutionPayout

/-!
# The settled state is solvent and balanced

The verifier derives the post-state before it looks at the claimed one: the fills
move shares and cash, MINT then takes the excess side of every market, and only
the result is compared with the claim.  So whatever state the fills start from,

* no account but MINT ends with a negative balance or position, and
* every market ends with as many YES as NO shares.

The totals that MINT adjusts by are recomputed from the accounts
(`totals_of_silent`), an adjustment restores the balance of its market
(`deriveMintingChecked_shares`), and a claimed account has the derived holdings
(`settled_agrees`), an absent one counting as empty on either side.

The comparison reads the claimed accounts by id, and of two snapshots with one id
it reads the last.  The statement is therefore about the last snapshots; that ids
are distinct is the business of the key pass.
-/

namespace Sybil.Verifier

open Engine

variable {P : Primitives} {w : BlockWitness}

variable {accounts : DerivedAccounts} {market : MarketId}

/-! ## The properties -/

/-- Shares of an outcome in a snapshot; the last entry of an outcome counts. -/
def AccountSnapshot.shares (a : AccountSnapshot) (market : MarketId) (outcome : ℕ) : ℤ :=
  (positionsOf a.positions).amount (toLex (market, outcome))

/-- No account but MINT owes cash or shares. -/
def OwesNothing (snapshots : List AccountSnapshot) : Prop :=
  ∀ a ∈ snapshots, a.id ≠ mintId →
    0 ≤ a.balance ∧ ∀ market outcome, 0 ≤ a.shares market outcome

/-- Every market has as many YES as NO shares. -/
def SharesBalanced (snapshots : List AccountSnapshot) : Prop :=
  ∀ market, (snapshots.map fun a => a.shares market 0).sum =
    (snapshots.map fun a => a.shares market 1).sum

/-- One snapshot for each id, the last. -/
def lastSnapshots (snapshots : List AccountSnapshot) : List AccountSnapshot :=
  (accountsOf snapshots).values

/-! ## Shares in circulation -/

/-- Shares of an outcome over all accounts. -/
def circulating (accounts : DerivedAccounts) (market : MarketId) (outcome : ℕ) : ℤ :=
  accounts.sumBy fun _ a => a.positions.amount (toLex (market, outcome))

/-- The price list that values one share at one. -/
def unitPrice (market : MarketId) (outcome : ℕ) : MarketId ×ₗ ℕ → ℤ :=
  fun key => if key = toLex (market, outcome) then 1 else 0

/-- What an account adds to the circulation is its worth at the unit price. -/
theorem term_circulating (accounts : DerivedAccounts) (market : MarketId) (outcome id : ℕ) :
    accounts.term (fun _ a => a.positions.amount (toLex (market, outcome))) id =
      worthOf accounts id 0 (unitPrice market outcome) := by
  have hunit : ∀ a : DerivedAccountState, a.worth 0 (unitPrice market outcome) =
      a.positions.amount (toLex (market, outcome)) := by
    intro a
    rw [DerivedAccountState.worth, zero_mul, zero_add]
    exact OrdMap.value_indicator _
  rw [worthOf, hunit, OrdMap.term, entryOrDefault]
  cases accounts.get? id <;> rfl

theorem circulating_eq_sum {S : Finset ℕ} (hS : ∀ id ∈ accounts.keys, id ∈ S) (market : MarketId)
    (outcome : ℕ) :
    circulating accounts market outcome =
      ∑ id ∈ S, worthOf accounts id 0 (unitPrice market outcome) := by
  rw [circulating, OrdMap.sumBy_eq_sum_of_subset hS]
  exact Finset.sum_congr rfl fun id _ => term_circulating accounts market outcome id

/-- Accounts with the same holdings have the same shares in circulation. -/
theorem circulating_congr {accounts' : DerivedAccounts}
    (h : ∀ id, SameHoldings (entryOrDefault accounts id) (entryOrDefault accounts' id))
    (market : MarketId) (outcome : ℕ) :
    circulating accounts market outcome = circulating accounts' market outcome := by
  have hsubset : ∀ id, id ∈ accounts.keys ∨ id ∈ accounts'.keys →
      id ∈ (accounts.keys ++ accounts'.keys).toFinset := by
    intro id hid
    rwa [List.mem_toFinset, List.mem_append]
  rw [circulating_eq_sum fun id hid => hsubset id (.inl hid),
    circulating_eq_sum fun id hid => hsubset id (.inr hid)]
  exact Finset.sum_congr rfl fun id _ => (h id).worth_eq 0 _

/-- Minting adds its shares to the circulation, and nothing else. -/
theorem circulating_adjustMint {height : ℕ} {adjustments : List MintAdjustment}
    (h : (adjustMint P height accounts adjustments).2 = []) (market : MarketId) (outcome : ℕ) :
    circulating (adjustMint P height accounts adjustments).1 market outcome =
      circulating accounts market outcome + mintedShares market outcome adjustments := by
  have hshares : (adjustments.map (adjustmentWorth 0 (unitPrice market outcome))).sum =
      mintedShares market outcome adjustments := by
    refine congrArg List.sum (List.map_congr_left fun adj _ => ?_)
    simp [adjustmentWorth, unitPrice]
  let S := insert mintId
    (accounts.keys ++ (adjustMint P height accounts adjustments).1.keys).toFinset
  have hsubset : ∀ id, id ∈ accounts.keys ∨
      id ∈ (adjustMint P height accounts adjustments).1.keys → id ∈ S := by
    intro id hid
    rw [Finset.mem_insert, List.mem_toFinset, List.mem_append]
    exact .inr hid
  rw [circulating_eq_sum fun id hid => hsubset id (.inr hid),
    circulating_eq_sum fun id hid => hsubset id (.inl hid)]
  simp only [worth_adjustMint h, hshares, Finset.sum_add_distrib, Finset.sum_ite_eq']
  rw [if_pos (Finset.mem_insert_self _ _)]

/-! ## The totals that minting starts from -/

/-- A total that does not overflow is the circulation. -/
theorem outcomeTotal_eq_some {outcome : ℕ} {t : ℤ}
    (h : outcomeTotal accounts market outcome = some t) :
    t = circulating accounts market outcome := by
  have run : ∀ (entries : List (ℕ × DerivedAccountState)) (start : ℤ),
      (entries.map Prod.snd).foldlM (fun sum account =>
        checkedI64 (sum + account.positions.amount (toLex (market, outcome)))) start = some t →
      t = start + (entries.map fun e => e.2.positions.amount (toLex (market, outcome))).sum := by
    intro entries
    induction entries with
    | nil =>
      intro start hstart
      simpa using (Option.some.inj hstart).symm
    | cons e entries ih =>
      intro start hstart
      obtain ⟨next, hnext, hrest⟩ := foldlM_cons_eq_some.mp hstart
      obtain ⟨-, rfl⟩ := checkedI64_eq_some_iff.mp hnext
      rw [ih _ hrest, List.map_cons, List.sum_cons, add_assoc]
  simpa [circulating, OrdMap.sumBy] using run accounts.entries 0 h

theorem marketTotalForAccounts_eq_ok {t : MarketId × ℤ × ℤ}
    (h : marketTotalForAccounts accounts market = .ok t) :
    t = (market, circulating accounts market 0, circulating accounts market 1) := by
  obtain ⟨yes, hyes, h⟩ := bind_eq_ok.mp h
  obtain ⟨no, hno, h⟩ := bind_eq_ok.mp h
  obtain rfl := Except.ok.inj h
  rw [outcomeTotal_eq_some (okOr_eq_ok.mp hyes), outcomeTotal_eq_some (okOr_eq_ok.mp hno)]

/-- **Exact totals.**  Totals without an overflow are those of the accounts. -/
theorem totals_of_silent (h : (marketTotals accounts).2 = []) :
    (marketTotals accounts).1 = (allMarkets accounts).map fun market =>
      (market, circulating accounts market 0, circulating accounts market 1) := by
  unfold marketTotals at h ⊢
  cases htotals : (allMarkets accounts).mapM (marketTotalForAccounts accounts) with
  | error details => simp [htotals] at h
  | ok totals =>
    have hmap := mapM_eq_ok.mp htotals
    refine List.map_injective_iff.mpr (fun _ _ => Except.ok.inj) (hmap.symm.trans ?_)
    rw [List.map_map]
    refine List.map_congr_left fun market hmarket => ?_
    have hmem := List.mem_map_of_mem (f := marketTotalForAccounts accounts) hmarket
    rw [hmap] at hmem
    obtain ⟨t, -, ht⟩ := List.mem_map.mp hmem
    rw [← ht, marketTotalForAccounts_eq_ok ht.symm]
    rfl

theorem mem_allMarkets {a : DerivedAccountState} {outcome : ℕ} {q : ℤ} (ha : a ∈ accounts.values)
    (hq : a.positions.get? (toLex (market, outcome)) = some q) : market ∈ allMarkets accounts := by
  rw [allMarkets, OrdMap.mem_keys_iff, OrdMap.contains_ofList]
  refine ⟨(), List.mem_flatMap.mpr ⟨a, ha, ?_⟩⟩
  exact List.mem_map.mpr ⟨_, OrdMap.mem_keys_iff.mpr ⟨q, hq⟩, rfl⟩

/-- Nobody has an amount in a market outside the list. -/
theorem amount_of_not_mem {a : DerivedAccountState} (hmarket : market ∉ allMarkets accounts)
    (ha : a ∈ accounts.values) (outcome : ℕ) :
    a.positions.amount (toLex (market, outcome)) = 0 := by
  rw [OrdMap.amount]
  cases hget : a.positions.get? (toLex (market, outcome)) with
  | none => rfl
  | some q => exact absurd (mem_allMarkets ha hget) hmarket

/-- A market outside the list has no shares in circulation. -/
theorem circulating_of_not_mem (hmarket : market ∉ allMarkets accounts) (outcome : ℕ) :
    circulating accounts market outcome = 0 := by
  refine List.sum_eq_zero fun x hx => ?_
  obtain ⟨e, he, rfl⟩ := List.mem_map.mp hx
  exact amount_of_not_mem hmarket (List.mem_map.mpr ⟨e, he, rfl⟩) outcome

theorem excess_totals (h : (marketTotals accounts).2 = []) (market : MarketId) :
    ((marketTotals accounts).1.map fun t => if t.1 = market then t.2.1 - t.2.2 else 0).sum =
      circulating accounts market 0 - circulating accounts market 1 := by
  rw [totals_of_silent h, List.map_map]
  have hterm : ((fun t : MarketId × ℤ × ℤ => if t.1 = market then t.2.1 - t.2.2 else 0) ∘
      fun m => (m, circulating accounts m 0, circulating accounts m 1)) = fun m =>
        if m = market then
          circulating accounts market 0 - circulating accounts market 1 else 0 := by
    funext m
    simp only [Function.comp_apply]
    split_ifs with hm
    · rw [hm]
    · rfl
  have hnodup : (allMarkets accounts).Nodup := OrdMap.nodup_keys _
  rw [hterm, List.sum_map_ite_eq]
  by_cases hmem : market ∈ allMarkets accounts
  · simp [List.count_eq_one_of_mem hnodup hmem]
  · simp [circulating_of_not_mem hmem]

/-! ## The derived state -/

/-- The derivation reports nothing in an accepted block. -/
theorem violations_of_verifySettlement (h : verifySettlement P w = []) :
    (derivePostState P w).violations = [] := by
  simp only [verifySettlement, List.append_eq_nil_iff] at h
  exact h.1.1.1.1

/-- **Every market is balanced after minting.** -/
theorem circulating_derived (h : verifySettlement P w = []) (market : MarketId) :
    circulating (derivePostState P w).accounts market 0 =
      circulating (derivePostState P w).accounts market 1 := by
  have hviolations := violations_of_verifySettlement h
  simp only [derivePostState, List.append_eq_nil_iff] at hviolations
  obtain ⟨⟨⟨⟨-, htotals⟩, hadjust⟩, -⟩, hmint⟩ := hviolations
  have hderive : deriveMintingChecked w.clearingPrices
      (marketTotals (settleFills P w).1.accounts).1 = .ok (mintAdjustmentsOf P w) := by
    unfold mintAdjustmentsOf
    unfold postFillAdjustments at hadjust ⊢
    cases hresult : deriveMintingChecked w.clearingPrices
        (marketTotals (settleFills P w).1.accounts).1 with
    | error e => simp [hresult] at hadjust
    | ok adjustments => rfl
  have hshares := deriveMintingChecked_shares hderive market
  rw [excess_totals htotals] at hshares
  have hyes := circulating_adjustMint hmint market 0
  have hno := circulating_adjustMint hmint market 1
  calc circulating (derivePostState P w).accounts market 0
      = circulating (settleFills P w).1.accounts market 0 +
          mintedShares market 0 (mintAdjustmentsOf P w) := hyes
    _ = circulating (settleFills P w).1.accounts market 1 +
          mintedShares market 1 (mintAdjustmentsOf P w) := by linarith
    _ = circulating (derivePostState P w).accounts market 1 := hno.symm

/-- No derived account but MINT owes cash or shares. -/
theorem derived_nonneg (h : verifySettlement P w = []) {id : ℕ} (hid : id ≠ mintId) :
    0 ≤ (entryOrDefault (derivePostState P w).accounts id).balance ∧
      ∀ key, 0 ≤ (entryOrDefault (derivePostState P w).accounts id).positions.amount key := by
  simp only [verifySettlement, List.append_eq_nil_iff, List.flatMap_eq_nil_iff] at h
  obtain ⟨⟨⟨-, hbalances⟩, hpositions⟩, -⟩ := h
  rw [entryOrDefault]
  cases hget : (derivePostState P w).accounts.get? id with
  | none => exact ⟨le_refl 0, fun _ => le_refl 0⟩
  | some a =>
    have hmem : (id, a) ∈ (derivePostState P w).accounts.entries := OrdMap.mem_entries_iff.mpr hget
    have hbalance := hbalances _ hmem
    have hposition := hpositions _ hmem
    rw [negativeBalanceViolations, reportIf_eq_nil, not_and', not_lt] at hbalance
    rw [negativePositionViolations, if_neg hid, List.flatMap_eq_nil_iff] at hposition
    refine ⟨hbalance hid, fun key => ?_⟩
    change 0 ≤ (a.positions.get? key).getD 0
    cases hqty : a.positions.get? key with
    | none => exact le_refl 0
    | some qty =>
      exact not_lt.mp (reportIf_eq_nil.mp (hposition _ (OrdMap.mem_entries_iff.mpr hqty)))

/-! ## The claimed state -/

/-- The claimed accounts have the circulation of the derived ones. -/
theorem sum_lastSnapshots (h : verifySettlement P w = []) (market : MarketId) (outcome : ℕ) :
    ((lastSnapshots w.postState).map fun a => a.shares market outcome).sum =
      circulating (derivePostState P w).accounts market outcome := by
  rw [← circulating_congr (settled_agrees h), circulating, lastSnapshots, OrdMap.values,
    List.map_map]
  refine OrdMap.sumBy_eq_of_get? (m := accountsOf w.postState)
    (f := fun _ a => a.shares market outcome) fun id => ?_
  rw [get?_startAccounts, Option.map_map]
  rfl

theorem mem_lastSnapshots {snapshots : List AccountSnapshot} {a : AccountSnapshot} :
    a ∈ lastSnapshots snapshots ↔ (accountsOf snapshots).get? a.id = some a := by
  rw [lastSnapshots, OrdMap.mem_values_iff]
  constructor
  · rintro ⟨id, hget⟩
    obtain ⟨-, rfl⟩ := mem_of_get?_accountsOf hget
    exact hget
  · exact fun hget => ⟨a.id, hget⟩

/-- With distinct ids the last snapshots are all the snapshots. -/
theorem perm_lastSnapshots {snapshots : List AccountSnapshot}
    (hnodup : (snapshots.map fun a => a.id).Nodup) : (lastSnapshots snapshots).Perm snapshots := by
  have hlast : (lastSnapshots snapshots).Nodup := by
    refine List.Nodup.of_map (fun a => a.id) ?_
    have hids : (lastSnapshots snapshots).map (fun a => a.id) = (accountsOf snapshots).keys := by
      rw [lastSnapshots, OrdMap.values, OrdMap.keys, List.map_map]
      exact List.map_congr_left fun e he =>
        (mem_of_get?_accountsOf (OrdMap.mem_entries_iff.mp he)).2
    rw [hids]
    exact OrdMap.nodup_keys _
  refine (List.perm_ext_iff_of_nodup hlast (List.Nodup.of_map _ hnodup)).mpr fun a => ?_
  rw [mem_lastSnapshots]
  exact ⟨fun hget => (mem_of_get?_accountsOf hget).1, get?_accountsOf_of_mem hnodup⟩

theorem owesNothing_of_perm {l l' : List AccountSnapshot} (hperm : l.Perm l')
    (h : OwesNothing l) : OwesNothing l' :=
  fun a ha => h a (hperm.mem_iff.mpr ha)

theorem sharesBalanced_of_perm {l l' : List AccountSnapshot} (hperm : l.Perm l')
    (h : SharesBalanced l) : SharesBalanced l' := by
  intro market
  rw [← (hperm.map fun a => a.shares market 0).sum_eq,
    ← (hperm.map fun a => a.shares market 1).sum_eq]
  exact h market

/-- **A settled state is solvent and balanced.**  Whatever state a block starts from, the last
snapshots that an accepted settlement claims owe nothing, MINT apart, and every market has as many
YES as NO shares over them.  With distinct ids these are all the snapshots. -/
theorem settled_solvent_balanced (h : verifySettlement P w = []) :
    (OwesNothing (lastSnapshots w.postState) ∧ SharesBalanced (lastSnapshots w.postState)) ∧
      ((w.postState.map fun a => a.id).Nodup →
        OwesNothing w.postState ∧ SharesBalanced w.postState) := by
  have howes : OwesNothing (lastSnapshots w.postState) := by
    intro a ha hid
    have hstart : entryOrDefault (startAccounts w.postState) a.id = derivedOf a := by
      rw [entryOrDefault, get?_startAccounts, mem_lastSnapshots.mp ha]
      rfl
    have hsame := settled_agrees h a.id
    obtain ⟨hbalance, hpositions⟩ := derived_nonneg h hid
    rw [hstart] at hsame
    exact ⟨hbalance.trans_eq hsame.balance.symm,
      fun _ _ => (hpositions _).trans_eq (hsame.positions _).symm⟩
  have hbalanced : SharesBalanced (lastSnapshots w.postState) := by
    intro market
    rw [sum_lastSnapshots h, sum_lastSnapshots h, circulating_derived h]
  refine ⟨⟨howes, hbalanced⟩, fun hnodup => ?_⟩
  have hperm := perm_lastSnapshots hnodup
  exact ⟨owesNothing_of_perm hperm howes, sharesBalanced_of_perm hperm hbalanced⟩

/-- The settled lone buy: the buyer has the share, MINT is short of it. -/
theorem settled_solvent_balanced_loneBuy :
    ∃ w : Primitives → BlockWitness, ∀ P, verifySettlement P (w P) = [] ∧
      (w P).postState.map (fun a => a.shares 7 0) = [1000, -1000] ∧
      OwesNothing (w P).postState ∧ SharesBalanced (w P).postState := by
  refine ⟨fun P => loneBuy P (oneMarketSidecar P []), fun P => ?_⟩
  have hsettled := verifySettlement_loneBuyBy P false [] (oneMarketSidecar P [])
    (oneMarketSidecar P [500000000, 500000000])
  have hids : ([1, mintId] : List ℕ).Nodup := by decide
  exact ⟨hsettled, rfl, (settled_solvent_balanced hsettled).2 hids⟩

/-! ## Two snapshots with one id -/

/-- The buyer's account with a debt and a share that nobody sold. -/
def overdrawnBuyer (P : Primitives) : AccountSnapshot where
  id := 1
  balance := -5
  totalDeposited := 0
  positions := [(7, 1, 3)]
  eventsDigest := 0
  keysDigest := accountKeysDigest P 1 []
  lastTradingNonce := 0

/-- The lone buy, with a second snapshot of the buyer in front of the settled one. -/
def shadowedBuy (P : Primitives) : BlockWitness :=
  { loneBuy P (oneMarketSidecar P []) with
    postState := overdrawnBuyer P :: loneBuyPostAccounts P }

/-- The settlement pass reads the later snapshot only. -/
theorem shadowed_snapshot_settled :
    ∃ w : Primitives → BlockWitness, ∀ P, verifySettlement P (w P) = [] ∧
      ¬ OwesNothing (w P).postState ∧ ¬ SharesBalanced (w P).postState := by
  refine ⟨shadowedBuy, fun P => ⟨?_, fun howes => ?_, fun hbalanced => ?_⟩⟩
  · have hmint : adjustMint P 2 (startAccounts (loneBuyFilled P)) [⟨7, 0, -1000, 500000000⟩] =
        (startAccounts (shadowedBuy P).postState, []) := rfl
    exact verifySettlement_of_steps (settleFills_loneBuy P false [] _ _) (marketTotals_loneBuy P)
      postFillAdjustments_loneBuy rfl hmint rfl rfl
  · have hid : 1 ≠ mintId := by decide
    have hdebt : (0 : ℤ) ≤ -5 := (howes (overdrawnBuyer P) List.mem_cons_self hid).1
    exact absurd hdebt (by decide)
  · have hshares : (0 : ℤ) = 3 := hbalanced 7
    exact absurd hshares (by decide)

/-- Balanced totals need no adjustment. -/
theorem deriveMintingChecked_filter (clearingPrices : OrdMap MarketId (List Nanos))
    (totals : List (MarketId × ℤ × ℤ)) :
    deriveMintingChecked clearingPrices (totals.filter fun t => t.2.1 ≠ t.2.2) =
      deriveMintingChecked clearingPrices totals := by
  induction totals with
  | nil => rfl
  | cons t totals ih =>
    obtain ⟨market, yes, no⟩ := t
    by_cases hbalanced : yes = no
    · have hnone : mintAdjustment clearingPrices (market, yes, no) = .ok none := by
        rw [hbalanced]
        simp [mintAdjustment, checkedI64, okOr, bind, Except.bind, pure, Except.pure]
      rw [List.filter_cons_of_neg (by simpa using hbalanced), ih, deriveMintingChecked, hnone]
      cases deriveMintingChecked clearingPrices totals <;> rfl
    · rw [List.filter_cons_of_pos (by simpa using hbalanced), deriveMintingChecked,
        deriveMintingChecked, ih]

end Sybil.Verifier
