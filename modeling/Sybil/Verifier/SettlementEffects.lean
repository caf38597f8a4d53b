import Sybil.Verifier.Match
import Sybil.Verifier.Orders
import Sybil.Verifier.Settlement

/-!
# What an accepted settlement does

A silent settlement pass fixes the post-state.  Everything is said through the
*worth* of an account, `c` times its balance plus its positions at a price list
`p`: with `p = 0` it is the balance, with `c = 0` and an indicator it is a single
position, and with payouts as prices it is what the account will be paid.

* `worth_settleFill`: a fill changes the worth of its owner only, by the worth of
  its settlement;
* `worth_settleFills`: the same for a list of fills;
* `worth_adjustMint`: the adjustments change MINT only;
* `settled_agrees`: the claimed post-state has the derived balances and positions.
-/

namespace Sybil.Verifier

open Engine

variable {P : Primitives} {w : BlockWitness}

variable {accountId height : ℕ} {accounts : DerivedAccounts} {fill : Fill} {st : FillSettlement}
  {wo : WitnessOrder}

/-! ## Worth -/

/-- Balance and positions of an account, weighted. -/
def DerivedAccountState.worth (a : DerivedAccountState) (c : ℤ) (p : MarketId ×ₗ ℕ → ℤ) : ℤ :=
  c * a.balance + a.positions.value p

/-- Worth of the account of an id; an absent account is worth nothing. -/
def worthOf (accounts : DerivedAccounts) (id : ℕ) (c : ℤ) (p : MarketId ×ₗ ℕ → ℤ) : ℤ :=
  (entryOrDefault accounts id).worth c p

/-- Position changes, by key. -/
def positionChanges (deltas : List (MarketId × ℕ × ℤ)) : List ((MarketId ×ₗ ℕ) × ℤ) :=
  deltas.map fun d => (toLex (d.1, d.2.1), d.2.2)

/-- Worth of a settlement. -/
def deltaWorth (c : ℤ) (p : MarketId ×ₗ ℕ → ℤ) (delta : SettlementDelta) : ℤ :=
  c * delta.balanceDelta + ((positionChanges delta.positionDeltas).map fun e => p e.1 * e.2).sum

theorem entryOrDefault_insert {k id : ℕ} {a : DerivedAccountState} :
    entryOrDefault (accounts.insert k a) id = if id = k then a else entryOrDefault accounts id := by
  rw [entryOrDefault, OrdMap.get?_insert]
  split_ifs <;> rfl

/-! ## One fill -/

/-- The owner of a fill and what it settles to. -/
def settlementOf (orders : OrdMap ℕ WitnessOrder) (fill : Fill) : Option (ℕ × SettlementDelta) :=
  match orders.get? fill.orderId with
  | none => none
  | some wo =>
    match computeFillSettlementChecked wo.order fill with
    | .ok (some delta) => some (wo.accountId, delta)
    | _ => none

/-- A settled fill of a one-hot order moves its quantity against the floor of its notional. -/
theorem settlementOf_oneHot {orders : OrdMap ℕ WitnessOrder} {outcome : ℕ} {sells : Bool}
    {s : ℕ × SettlementDelta} (hget : orders.get? fill.orderId = some wo)
    (hshape : wo.order.BinaryOneHot outcome sells) (hqty : fill.fillQty ≠ 0)
    (hs : settlementOf orders fill = some s) :
    s = (wo.accountId,
      { balanceDelta := (if sells then 1 else -1) *
          ((fill.fillPrice * fill.fillQty / shareScale : ℕ) : ℤ)
        positionDeltas :=
          [(wo.order.marketAt 0, outcome, (if sells then -1 else 1) * fill.fillQty)] }) := by
  simp only [settlementOf, hget] at hs
  cases hsettle : computeFillSettlementChecked wo.order fill with
  | error e => simp [hsettle] at hs
  | ok r =>
    obtain rfl := computeFillSettlementChecked_oneHot hshape hqty hsettle
    rw [hsettle] at hs
    exact (Option.some.inj hs).symm

/-- Worth that a fill adds to an account. -/
def fillWorth (orders : OrdMap ℕ WitnessOrder) (id : ℕ) (c : ℤ) (p : MarketId ×ₗ ℕ → ℤ)
    (fill : Fill) : ℤ :=
  (settlementOf orders fill).elim 0 fun s => if id = s.1 then deltaWorth c p s.2 else 0

theorem addPositionStep_silent {positions : Positions} {delta : MarketId × ℕ × ℤ}
    (h : (addPositionStep accountId positions delta).2 = []) :
    (addPositionStep accountId positions delta).1 =
      positions.insert (toLex (delta.1, delta.2.1))
        (positions.amount (toLex (delta.1, delta.2.1)) + delta.2.2) := by
  cases hsum : checkedI64 (positions.amount (toLex (delta.1, delta.2.1)) + delta.2.2) with
  | none => simp [addPositionStep, hsum] at h
  | some updated =>
    simp only [addPositionStep, hsum]
    rw [(checkedI64_eq_some_iff.mp hsum).2]

theorem addPositions_silent {positions : Positions} {deltas : List (MarketId × ℕ × ℤ)}
    (h : (reportLoop (addPositionStep accountId) positions deltas).2 = []) :
    (reportLoop (addPositionStep accountId) positions deltas).1 =
      positions.addAll (positionChanges deltas) := by
  induction deltas generalizing positions with
  | nil => rfl
  | cons delta deltas ih =>
    obtain ⟨hstep, hrest⟩ := silent_cons.mp h
    rw [reportLoop_cons_fst, ih hrest, addPositionStep_silent hstep]
    rfl

/-- A silent settlement charges one account with the whole delta. -/
theorem settleDelta_silent {delta : SettlementDelta}
    (h : (settleDelta P height accountId st fill delta).2 = []) :
    ∃ digest, (settleDelta P height accountId st fill delta).1 =
      { accounts := st.accounts.insert accountId
          { entryOrDefault st.accounts accountId with
            balance := (entryOrDefault st.accounts accountId).balance + delta.balanceDelta
            positions := (entryOrDefault st.accounts accountId).positions.addAll
              (positionChanges delta.positionDeltas)
            eventsDigest := digest }
        fillBalanceDelta := st.fillBalanceDelta + delta.balanceDelta } := by
  cases htotal : checkedI64 (st.fillBalanceDelta + delta.balanceDelta) with
  | none => simp [settleDelta, htotal] at h
  | some total =>
    cases hbalance :
        checkedI64 ((entryOrDefault st.accounts accountId).balance + delta.balanceDelta) with
    | none => simp [settleDelta, htotal, hbalance] at h
    | some balance =>
      simp only [settleDelta, htotal, hbalance] at h ⊢
      obtain ⟨-, rfl⟩ := checkedI64_eq_some_iff.mp htotal
      obtain ⟨-, rfl⟩ := checkedI64_eq_some_iff.mp hbalance
      exact ⟨_, by rw [addPositions_silent h]⟩

theorem chargedAccount_of_silent (h : fillAccountViolations wo fill = []) :
    chargedAccount wo fill = wo.accountId := by
  rw [fillAccountViolations, reportIf_eq_nil, not_and, not_not] at h
  unfold chargedAccount
  split_ifs with hzero
  · exact h hzero
  · rfl

theorem fillAccountViolations_of_settleFill {orders : OrdMap ℕ WitnessOrder}
    (h : (settleFill P height orders st fill).2 = []) (hqty : fill.fillQty ≠ 0)
    (hget : orders.get? fill.orderId = some wo) : fillAccountViolations wo fill = [] := by
  simp only [settleFill, hqty, if_false, hget, List.append_eq_nil_iff] at h
  exact h.1

/-- **One fill.**  A silent step charges the owner of the order with the settlement of the fill,
and changes no other account. -/
theorem worth_settleFill {orders : OrdMap ℕ WitnessOrder}
    (h : (settleFill P height orders st fill).2 = []) (id : ℕ) (c : ℤ) (p : MarketId ×ₗ ℕ → ℤ) :
    worthOf (settleFill P height orders st fill).1.accounts id c p =
      worthOf st.accounts id c p + fillWorth orders id c p fill := by
  by_cases hqty : fill.fillQty = 0
  · have hnone : settlementOf orders fill = none := by
      unfold settlementOf
      cases orders.get? fill.orderId <;> simp [computeFillSettlementChecked, hqty]
    simp [settleFill, hqty, fillWorth, hnone]
  cases horder : orders.get? fill.orderId with
  | none => simp [settleFill, hqty, horder, fillWorth, settlementOf]
  | some wo =>
    simp only [settleFill, hqty, if_false, horder, List.append_eq_nil_iff] at h ⊢
    obtain ⟨haccount, h⟩ := h
    have hcharged := chargedAccount_of_silent haccount
    by_cases hlimit : nanosPerDollar < wo.order.limitPrice
    · simp [settleOrderFill, hlimit] at h
    by_cases hprice : nanosPerDollar < fill.fillPrice
    · simp [settleOrderFill, hlimit, hprice] at h
    simp only [settleOrderFill, if_neg hlimit, if_neg hprice, hcharged] at h ⊢
    cases hsettle : computeFillSettlementChecked wo.order fill with
    | error e => simp [hsettle] at h
    | ok r =>
      cases r with
      | none =>
        -- The source opens the account before it sees that there is nothing to settle.
        simp only [fillWorth, settlementOf, horder, hsettle, worthOf, entryOrDefault_insert,
          Option.elim_none, add_zero]
        split_ifs with hid
        · rw [hid]
        · rfl
      | some delta =>
        simp only [hsettle] at h ⊢
        obtain ⟨digest, hst⟩ := settleDelta_silent h
        simp only [hst, fillWorth, settlementOf, horder, hsettle, Option.elim_some, worthOf,
          entryOrDefault_insert]
        split_ifs with hid
        · rw [hid, DerivedAccountState.worth, DerivedAccountState.worth, OrdMap.value_addAll,
            deltaWorth]
          ring
        · rw [add_zero]

/-- **The fills.** -/
theorem worth_settleFills (h : (settleFills P w).2 = []) (id : ℕ) (c : ℤ)
    (p : MarketId ×ₗ ℕ → ℤ) :
    worthOf (settleFills P w).1.accounts id c p =
      worthOf (startAccounts w.postSystemState) id c p +
        (w.fills.map (fillWorth (witnessOrderMap w.orders) id c p)).sum := by
  have run : ∀ (fills : List Fill) (st : FillSettlement),
      (reportLoop (settleFill P w.header.height (witnessOrderMap w.orders)) st fills).2 = [] →
      worthOf (reportLoop (settleFill P w.header.height (witnessOrderMap w.orders)) st
        fills).1.accounts id c p =
        worthOf st.accounts id c p +
          (fills.map (fillWorth (witnessOrderMap w.orders) id c p)).sum := by
    intro fills
    induction fills with
    | nil => intro st _; simp
    | cons fill fills ih =>
      intro st hst
      obtain ⟨hstep, hrest⟩ := silent_cons.mp hst
      rw [reportLoop_cons_fst, ih _ hrest, worth_settleFill hstep, List.map_cons, List.sum_cons]
      ring
  exact run w.fills _ h

/-- Every fill is charged to the owner of its order. -/
theorem chargedAccount_of_settleFills (h : (settleFills P w).2 = []) (hfill : fill ∈ w.fills)
    (hqty : fill.fillQty ≠ 0) (hget : (witnessOrderMap w.orders).get? fill.orderId = some wo) :
    chargedAccount wo fill = wo.accountId := by
  obtain ⟨st, -, hst⟩ := exists_silent_at (P := fun _ => True) h (fun _ _ _ _ _ => trivial)
    trivial hfill
  exact chargedAccount_of_silent (fillAccountViolations_of_settleFill hst hqty hget)

/-! ## Minting -/

/-- Worth of the adjustments for MINT. -/
def adjustmentWorth (c : ℤ) (p : MarketId ×ₗ ℕ → ℤ) (adj : MintAdjustment) : ℤ :=
  c * adj.balanceDelta + p (toLex (adj.marketId, adj.outcome)) * adj.positionDelta

theorem worth_adjustMintStep {mint : DerivedAccountState} {adj : MintAdjustment}
    (h : (adjustMintStep mint adj).2 = []) (c : ℤ) (p : MarketId ×ₗ ℕ → ℤ) :
    (adjustMintStep mint adj).1.worth c p = mint.worth c p + adjustmentWorth c p adj := by
  unfold adjustMintStep at h ⊢
  cases hpos :
      checkedI64 (mint.positions.amount (toLex (adj.marketId, adj.outcome)) +
        adj.positionDelta) with
  | none => simp [hpos] at h
  | some position =>
    cases hbalance : checkedI64 (mint.balance + adj.balanceDelta) with
    | none => simp [hpos, hbalance] at h
    | some balance =>
      obtain ⟨-, rfl⟩ := checkedI64_eq_some_iff.mp hpos
      obtain ⟨-, rfl⟩ := checkedI64_eq_some_iff.mp hbalance
      simp only [hpos, DerivedAccountState.worth, OrdMap.value_insert, adjustmentWorth]
      ring

/-- **The adjustments** change MINT only. -/
theorem worth_adjustMint {adjustments : List MintAdjustment}
    (h : (adjustMint P height accounts adjustments).2 = []) (id : ℕ) (c : ℤ)
    (p : MarketId ×ₗ ℕ → ℤ) :
    worthOf (adjustMint P height accounts adjustments).1 id c p =
      worthOf accounts id c p +
        if id = mintId then (adjustments.map (adjustmentWorth c p)).sum else 0 := by
  have run : ∀ (adjs : List MintAdjustment) (mint : DerivedAccountState),
      (reportLoop adjustMintStep mint adjs).2 = [] →
      (reportLoop adjustMintStep mint adjs).1.worth c p =
        mint.worth c p + (adjs.map (adjustmentWorth c p)).sum := by
    intro adjs
    induction adjs with
    | nil => intro mint _; simp
    | cons adj adjs ih =>
      intro mint hmint
      obtain ⟨hstep, hrest⟩ := silent_cons.mp hmint
      rw [reportLoop_cons_fst, ih _ hrest, worth_adjustMintStep hstep, List.map_cons,
        List.sum_cons]
      ring
  unfold adjustMint at h ⊢
  split_ifs at h ⊢ with hempty hid hid
  · obtain rfl := List.isEmpty_iff.mp hempty
    simp
  · simp
  · obtain ⟨-, hrun⟩ := List.append_eq_nil_iff.mp h
    rw [worthOf, entryOrDefault_insert, if_pos hid, hid]
    exact run adjustments _ hrun
  · rw [worthOf, entryOrDefault_insert, if_neg hid, add_zero, worthOf]

/-! ## The claimed post-state -/

theorem comparePositions_silent {derived claimed : Positions}
    (h : comparePositions accountId derived claimed = []) (key : MarketId ×ₗ ℕ) :
    derived.amount key = claimed.amount key := by
  by_contra hne
  rw [comparePositions, List.flatMap_eq_nil_iff] at h
  have hmem :
    key ∈ (OrdMap.ofList ((derived.keys ++ claimed.keys).map fun key => (key, ()))).keys := by
    rw [OrdMap.mem_keys_iff, OrdMap.contains_ofList]
    refine ⟨(), List.mem_map.mpr ⟨key, ?_, rfl⟩⟩
    rw [List.mem_append, OrdMap.mem_keys_iff, OrdMap.mem_keys_iff]
    by_contra hnone
    rw [not_or, not_exists, not_exists] at hnone
    apply hne
    rw [OrdMap.amount, OrdMap.amount, Option.eq_none_iff_forall_ne_some.mpr hnone.1,
      Option.eq_none_iff_forall_ne_some.mpr hnone.2]
  exact (reportIf_eq_nil.mp (h key hmem)) hne

/-- Balance and positions of an account agree. -/
structure SameHoldings (a b : DerivedAccountState) : Prop where
  balance : a.balance = b.balance
  positions : ∀ key, a.positions.amount key = b.positions.amount key

theorem SameHoldings.worth_eq {a b : DerivedAccountState} (h : SameHoldings a b) (c : ℤ)
    (p : MarketId ×ₗ ℕ → ℤ) : a.worth c p = b.worth c p := by
  rw [DerivedAccountState.worth, DerivedAccountState.worth, h.balance,
    OrdMap.value_eq_of_amount h.positions]

theorem get?_startAccounts (snapshots : List AccountSnapshot) (id : ℕ) :
    (startAccounts snapshots).get? id = ((accountsOf snapshots).get? id).map derivedOf :=
  OrdMap.get?_ofList_map (fun snapshot : AccountSnapshot => snapshot.id) (fun snapshot => snapshot)
    derivedOf snapshots

theorem compareSettledAccount_silent {snapshots : List AccountSnapshot} {id : ℕ}
    (h : compareSettledAccount accounts (accountsOf snapshots) id = []) :
    SameHoldings (entryOrDefault (startAccounts snapshots) id) (entryOrDefault accounts id) := by
  unfold compareSettledAccount at h
  rw [entryOrDefault, get?_startAccounts]
  cases hpost : (accountsOf snapshots).get? id with
  | some claimed =>
    simp only [hpost, List.append_eq_nil_iff, reportIf_eq_nil, not_not] at h
    obtain ⟨⟨hbalance, -⟩, hpositions⟩ := h
    exact ⟨hbalance.symm, fun key => (comparePositions_silent hpositions key).symm⟩
  | none =>
    simp only [hpost, reportIf_eq_nil, not_or, not_not, not_exists, not_and] at h
    refine ⟨h.1.symm, fun key => ?_⟩
    change (0 : ℤ) = _
    rw [OrdMap.amount]
    cases hget : (entryOrDefault accounts id).positions.get? key with
    | none => rfl
    | some qty => exact (h.2 qty (OrdMap.mem_values_iff.mpr ⟨key, hget⟩)).symm

/-- **Agreement with the claim.**  The claimed post-state has the derived balances and
positions; an absent account counts as empty. -/
theorem settled_agrees (h : verifySettlement P w = []) (id : ℕ) :
    SameHoldings (entryOrDefault (startAccounts w.postState) id)
      (entryOrDefault (derivePostState P w).accounts id) := by
  simp only [verifySettlement, List.append_eq_nil_iff, List.flatMap_eq_nil_iff] at h
  obtain ⟨-, hcompare⟩ := h
  by_cases hid : id ∈ unionKeys (derivePostState P w).accounts (accountsOf w.postState)
  · exact compareSettledAccount_silent (hcompare id hid)
  · rw [mem_unionKeys, not_or, not_exists, not_exists] at hid
    rw [entryOrDefault, entryOrDefault, get?_startAccounts,
      Option.eq_none_iff_forall_ne_some.mpr hid.1, Option.eq_none_iff_forall_ne_some.mpr hid.2]
    exact ⟨rfl, fun _ => rfl⟩

/-- The steps of an accepted derivation are silent. -/
theorem silent_of_verifySettlement (h : verifySettlement P w = []) :
    (settleFills P w).2 = [] ∧
      (adjustMint P w.header.height (settleFills P w).1.accounts
        (mintAdjustmentsOf P w)).2 = [] := by
  have hviolations : (derivePostState P w).violations = [] := by
    simp only [verifySettlement, List.append_eq_nil_iff] at h
    exact h.1.1.1.1
  simp only [derivePostState, List.append_eq_nil_iff] at hviolations
  obtain ⟨⟨⟨⟨hfills, -⟩, -⟩, -⟩, hmint⟩ := hviolations
  exact ⟨hfills, hmint⟩

/-- **The accepted post-state**, account by account. -/
theorem worth_postState (h : verifySettlement P w = []) (id : ℕ) (c : ℤ)
    (p : MarketId ×ₗ ℕ → ℤ) :
    worthOf (startAccounts w.postState) id c p =
      worthOf (startAccounts w.postSystemState) id c p +
        (w.fills.map (fillWorth (witnessOrderMap w.orders) id c p)).sum +
        if id = mintId then ((mintAdjustmentsOf P w).map (adjustmentWorth c p)).sum else 0 := by
  obtain ⟨hfills, hmint⟩ := silent_of_verifySettlement h
  rw [worthOf, (settled_agrees h id).worth_eq, ← worth_settleFills hfills]
  exact worth_adjustMint hmint id c p

end Sybil.Verifier
