import Sybil.Sequencer.Restore
import Sybil.Verifier.Completeness

/-!
# New resting orders

A leaf of the book that was carried over a block is compared with its predecessor: the
quantity shrinks by the fills, the reservation shrinks in proportion, and an expired
order is gone.  A *new* leaf is compared with the accepted order in its terms, and in
nothing else.  Its quantity, its last block and its reservation are what the witness
says they are.

`committedExactly_iff` says exactly when an accepted block commits its new orders as the
book holds them: when each new leaf is the accepted order carried over the fills of the
block, by the rule that the pass has for carried leaves, and when its reservation is one
that an import of the state would restore.  `filled_order_rests_again` is an accepted
block in which an order that was filled in full rests again, expired and with nothing
reserved.
-/

namespace Sybil.Verifier

open Engine

open Sequencer (buyCost balanceReservation sellReservations validateRestoredOrder
  restingOrderFromSnapshot)
open Sequencer.OrderBook (filledQty)

variable {P : Primitives} {w : BlockWitness}

/-- The leaf is not one of the book before the block. -/
def IsNewLeaf (w : BlockWitness) (leaf : RestingOrderSnapshot) : Prop :=
  leaf ∈ w.stateSidecar.restingOrders ∧
    ∀ r ∈ w.preStateSidecar.restingOrders, r.order.id ≠ leaf.order.id

/-- The outcome that a sell offers. -/
def soldOutcome (order : Order) : ℕ := if order.payoffAt 0 < 0 then 0 else 1

/-- **Committed exactly.**  The leaf is the accepted order without its fills, it can still trade
after the block, and it reserves what its remaining size needs. -/
structure CommittedExactly (w : BlockWitness) (wo : WitnessOrder) (leaf : RestingOrderSnapshot) :
    Prop where
  quantity : leaf.order.maxFill + filledQty w.fills leaf.order.id = wo.order.maxFill
  remains : 0 < leaf.order.maxFill
  unexpired : w.header.height < leaf.expiresAtBlock
  positions : leaf.reservedPositions =
    if leaf.order.isSeller then
      [(leaf.order.marketAt 0, soldOutcome leaf.order, (leaf.order.maxFill : ℤ))]
    else []
  balance : if leaf.order.isSeller then leaf.reservedBalance = 0
    else (buyCost leaf.order : ℤ) ≤ leaf.reservedBalance

/-- Every new leaf is committed exactly. -/
def NewRestingExact (w : BlockWitness) : Prop :=
  ∀ leaf, IsNewLeaf w leaf →
    ∃ wo ∈ w.orders, wo.order.id = leaf.order.id ∧ CommittedExactly w wo leaf

/-- Every new leaf is what the rule for carried leaves makes of the accepted order, an import
restores its reservation, and a sell reserves no balance. -/
def NewRestingRestorable (w : BlockWitness) : Prop :=
  ∀ leaf, IsNewLeaf w leaf → ∀ wo ∈ w.orders, wo.order.id = leaf.order.id →
    (expectedPostResting { leaf with order := wo.order } (filledQty w.fills leaf.order.id)
      w.header.height).map (fun expected => expected.order) = some leaf.order ∧
    validateRestoredOrder (restingOrderFromSnapshot leaf) = .ok () ∧
    (leaf.order.isSeller = true → leaf.reservedBalance = 0)

/-! ## What the pass says about a new leaf -/

theorem orderShapeMatchesExceptQty_iff {left right : Order} :
    orderShapeMatchesExceptQty left right = true ↔
      left = { right with maxFill := left.maxFill } := by
  cases left
  cases right
  simp only [orderShapeMatchesExceptQty, decide_eq_true_eq, Order.mk.injEq]
  tauto

/-- A new leaf of an accepted block has an accepted order of its terms. -/
theorem exists_accepted_of_newLeaf (h : Accepted P w) (hprevious : w.previousHeader.isSome)
    {leaf : RestingOrderSnapshot} (hleaf : IsNewLeaf w leaf) :
    ∃ wo ∈ w.orders, wo.order.id = leaf.order.id ∧ wo.isMm = false ∧
      leaf.accountId = wo.accountId ∧ leaf.order =
        { wo.order with maxFill := leaf.order.maxFill } := by
  have hpass := h.sidecar.restingOrders
  have hsome : w.previousHeader.isNone = false := by
    cases hheader : w.previousHeader with
    | none => simp [hheader] at hprevious
    | some _ => rfl
  simp only [verifyRestingOrderTransition, hsome, Bool.false_eq_true, if_false,
    List.append_eq_nil_iff] at hpass
  obtain ⟨⟨⟨⟨hpre, hpost⟩, -⟩, -⟩, hnew⟩ := hpass
  have hpreKeys : (keyedRestingOrders w.preStateSidecar.restingOrders).1.contains leaf.order.id =
      false :=
    OrdMap.contains_eq_false_iff.mpr ((collectKeyed_get?_eq_none hpre).mpr hleaf.2)
  have hget : (keyedRestingOrders w.stateSidecar.restingOrders).1.get? leaf.order.id = some leaf :=
    (collectKeyed_get? hpost).mpr ⟨hleaf.1, rfl⟩
  have hstep := List.flatMap_eq_nil_iff.mp hnew _ (OrdMap.mem_entries_iff.mpr hget)
  simp only [verifyNewResting, hpreKeys, Bool.false_eq_true, if_false] at hstep
  split at hstep
  · exact absurd hstep (List.cons_ne_nil _ _)
  · rename_i wo hwo
    simp only [List.append_eq_nil_iff, reportIf_eq_nil, not_or, Bool.not_eq_true,
      Bool.not_eq_false, not_not] at hstep
    obtain ⟨hmm, haccount, hterms⟩ := hstep
    obtain ⟨hmem, hid⟩ := (get?_ofList_key (nodup_orderIds h.match_)).mp hwo
    exact ⟨wo, hmem, hid, hmm, haccount, orderShapeMatchesExceptQty_iff.mp hterms⟩

/-! ## The remaining order -/

theorem soldOutcome_eq {order : Order} {outcome : ℕ} (h : order.BinaryOneHot outcome true) :
    soldOutcome order = outcome := by
  have hp := h.payoff
  have ho := h.other
  rcases h.binary with rfl | rfl
  · simp_all [soldOutcome]
  · simp_all [soldOutcome]

theorem keyedPositions_eq_singleton {l : List PositionEntry} {market : MarketId} {outcome : ℕ}
    {qty : ℤ} :
    (l.map fun entry => ((toLex (entry.1, entry.2.1) : Sequencer.PositionKey), entry.2.2)) =
      [(toLex (market, outcome), qty)] ↔ l = [(market, outcome, qty)] := by
  rw [List.map_eq_singleton_iff]
  constructor
  · rintro ⟨⟨m, o, q⟩, rfl, h⟩
    simp_all
  · rintro rfl
    exact ⟨_, rfl, rfl⟩

/-- What an import asks of the leaf of an admitted order, written out. -/
theorem restorable_iff {leaf : RestingOrderSnapshot}
    (h : leaf.order.validateBinaryOneHot = .ok ()) :
    (validateRestoredOrder (restingOrderFromSnapshot leaf) = .ok () ∧
      (leaf.order.isSeller = true → leaf.reservedBalance = 0)) ↔
    leaf.reservedPositions =
        (if leaf.order.isSeller then
          [(leaf.order.marketAt 0, soldOutcome leaf.order, (leaf.order.maxFill : ℤ))]
        else []) ∧
      if leaf.order.isSeller then leaf.reservedBalance = 0
      else (buyCost leaf.order : ℤ) ≤ leaf.reservedBalance := by
  obtain ⟨outcome, sells, hshape⟩ := Order.binaryOneHot_of_validate h
  cases sells with
  | true =>
    rw [Sequencer.validateRestoredOrder_import h (Sequencer.balanceReservation_sell hshape),
      Sequencer.sellReservations_sell h hshape, keyedPositions_eq_singleton,
      hshape.isSeller_eq, soldOutcome_eq hshape]
    simp only [if_true, forall_const]
    exact ⟨fun ⟨⟨hpositions, _⟩, hbalance⟩ => ⟨hpositions, hbalance⟩,
      fun ⟨hpositions, hbalance⟩ => ⟨⟨hpositions, hbalance.ge⟩, hbalance⟩⟩
  | false =>
    rw [Sequencer.validateRestoredOrder_import h (Sequencer.balanceReservation_buy h hshape),
      Sequencer.sellReservations_buy hshape, hshape.isSeller_eq, List.map_eq_nil_iff]
    simp

/-- The order that the rule for carried leaves expects. -/
theorem map_order_expectedPostResting (pre : RestingOrderSnapshot) (filled height : ℕ) :
    (expectedPostResting pre filled height).map (fun expected => expected.order) =
      if pre.order.maxFill ≤ filled ∨ pre.expiresAtBlock ≤ height then none
      else some { pre.order with maxFill := pre.order.maxFill - filled } := by
  unfold expectedPostResting
  split_ifs with hgone hfilled
  · rfl
  · rw [hfilled]
    rfl
  · rfl

/-- The accepted order, carried over its fills, is the order of the leaf. -/
theorem expectedOrder_eq_some_iff {leaf : RestingOrderSnapshot} {order : Order} {filled height : ℕ}
    (hterms : leaf.order = { order with maxFill := leaf.order.maxFill }) :
    (expectedPostResting { leaf with order } filled height).map (fun expected => expected.order) =
        some leaf.order ↔
      leaf.order.maxFill + filled = order.maxFill ∧ 0 < leaf.order.maxFill ∧
        height < leaf.expiresAtBlock := by
  have hqty : { order with maxFill := order.maxFill - filled } = leaf.order ↔
      order.maxFill - filled = leaf.order.maxFill :=
    ⟨fun h => by rw [← h], fun h => by rw [h, ← hterms]⟩
  rw [map_order_expectedPostResting, Option.ite_none_left_eq_some, not_or, not_le, not_le,
    Option.some.injEq, hqty]
  constructor
  · rintro ⟨⟨hfilled, hheight⟩, hrest⟩
    exact ⟨by rw [← hrest]; exact Nat.sub_add_cancel hfilled.le,
      by rw [← hrest]; exact Nat.sub_pos_of_lt hfilled, hheight⟩
  · rintro ⟨hsum, hpos, hheight⟩
    rw [← hsum]
    exact ⟨⟨Nat.lt_add_of_pos_left hpos, hheight⟩, Nat.add_sub_cancel _ _⟩

/-- Of one leaf: the two conditions are the same. -/
theorem committedExactly_leaf_iff {wo : WitnessOrder} {leaf : RestingOrderSnapshot}
    (hshape : wo.order.validateBinaryOneHot = .ok ())
    (hterms : leaf.order = { wo.order with maxFill := leaf.order.maxFill }) :
    CommittedExactly w wo leaf ↔
      (expectedPostResting { leaf with order := wo.order } (filledQty w.fills leaf.order.id)
        w.header.height).map (fun expected => expected.order) = some leaf.order ∧
      validateRestoredOrder (restingOrderFromSnapshot leaf) = .ok () ∧
      (leaf.order.isSeller = true → leaf.reservedBalance = 0) := by
  have hleaf : leaf.order.maxFill + filledQty w.fills leaf.order.id = wo.order.maxFill →
      leaf.order.validateBinaryOneHot = .ok () := by
    intro hsum
    rw [hterms]
    exact Sequencer.validate_remaining hshape (hsum ▸ Nat.le_add_right _ _)
  rw [expectedOrder_eq_some_iff hterms]
  constructor
  · intro hexact
    exact ⟨⟨hexact.quantity, hexact.remains, hexact.unexpired⟩,
      (restorable_iff (hleaf hexact.quantity)).mpr ⟨hexact.positions, hexact.balance⟩⟩
  · rintro ⟨⟨hquantity, hremains, hunexpired⟩, hrestored⟩
    obtain ⟨hpositions, hbalance⟩ := (restorable_iff (hleaf hquantity)).mp hrestored
    exact ⟨hquantity, hremains, hunexpired, hpositions, hbalance⟩

/-- **When new orders are committed as the book holds them.** -/
theorem committedExactly_iff (h : verifyFull P w = []) (hprevious : w.previousHeader.isSome) :
    NewRestingExact w ↔ NewRestingRestorable w := by
  have haccepted := verifyFull_eq_nil_iff.mp h
  have hnodup := nodup_orderIds haccepted.match_
  constructor
  · intro hexact leaf hleaf wo hwo hid
    obtain ⟨wo', hwo', hid', -, -, hterms⟩ := exists_accepted_of_newLeaf haccepted hprevious hleaf
    obtain ⟨wo'', hwo'', hid'', hcommitted⟩ := hexact leaf hleaf
    -- Ids are distinct, so the three orders are one.
    obtain rfl := List.inj_on_of_nodup_map hnodup hwo' hwo (hid'.trans hid.symm)
    obtain rfl := List.inj_on_of_nodup_map hnodup hwo'' hwo (hid''.trans hid.symm)
    exact (committedExactly_leaf_iff (validate_of_verifyOrders haccepted.orders hwo).2 hterms).mp
      hcommitted
  · intro hrestorable leaf hleaf
    obtain ⟨wo, hwo, hid, -, -, hterms⟩ := exists_accepted_of_newLeaf haccepted hprevious hleaf
    exact ⟨wo, hwo, hid,
      (committedExactly_leaf_iff (validate_of_verifyOrders haccepted.orders hwo).2 hterms).mpr
        (hrestorable leaf hleaf wo hwo hid)⟩

/-! ## Two blocks -/

/-- The block in which a buy of one share enters the book. -/
def freshRest (P : Primitives) : BlockWitness :=
  secondBlock P
    { idleContent [freshAccount P 1 2000000000 []] [freshAccount P 1 2000000000 []]
        (oneMarketSidecar P []) (bookSidecar P 400000000) [] with
      orders := [⟨yesBuy 400000000, 1, false⟩] }

theorem verifyFull_freshRest (P : Primitives) : verifyFull P (freshRest P) = [] := by
  have hids : ([1] : List ℕ).Nodup := List.nodup_singleton 1
  have htotals : marketTotals (startAccounts (freshRest P).postState) = ([], []) := rfl
  exact verifyFull_eq_nil_iff.mpr
    { match_ := rfl
      system := verifySystemTransition_of_replay rfl
      keys := verifyKeys_of_untouched (fun _ => nofun) rfl hids hids hids
        (List.forall_mem_singleton.mpr rfl) (List.forall_mem_singleton.mpr rfl)
        (List.forall_mem_singleton.mpr rfl) (List.Subset.refl _) (List.Subset.refl _)
      bindings := rfl
      settlement := verifySettlement_of_no_fills rfl rfl rfl htotals rfl rfl rfl
      block := verifyBlock_secondBlock P _
      orders := rfl
      sidecar := ⟨rfl, rfl, rfl, rfl, verifyDepositAccumulator_of_idle rfl rfl rfl rfl
        (depositRootFromFrontier_fresh P) rfl, rfl, rfl, rfl⟩ }

/-- The buy rests with its cost reserved. -/
theorem committedExactly_iff_fresh_rest :
    ∃ w : Primitives → BlockWitness, ∀ P, verifyFull P (w P) = [] ∧
      (w P).previousHeader.isSome ∧ (∃ leaf, IsNewLeaf (w P) leaf) ∧ NewRestingExact (w P) := by
  refine ⟨freshRest, fun P => ?_⟩
  have hfull := verifyFull_freshRest P
  have hnew : IsNewLeaf (freshRest P) ⟨yesBuy 400000000, 1, 0, 10, 400000000, []⟩ :=
    ⟨List.mem_cons_self, fun _ hr => absurd hr List.not_mem_nil⟩
  refine ⟨hfull, rfl, ⟨_, hnew⟩, (committedExactly_iff hfull rfl).mpr ?_⟩
  intro leaf hleaf wo hwo _
  obtain rfl := List.mem_singleton.mp hleaf.1
  obtain rfl := List.mem_singleton.mp hwo
  exact ⟨rfl, rfl, by decide⟩

/-- The leaf of a buy that was filled: whole, expired, and reserving shares instead of its cost. -/
def restedLeaf : RestingOrderSnapshot := ⟨yesBuy 600000000, 1, 0, 1, 0, [(7, 0, 5)]⟩

/-- A sidecar with that leaf. -/
def restedSidecar (P : Primitives) : StateSidecarSnapshot :=
  { oneMarketSidecar P [500000000, 500000000] with
    restingOrders := [restedLeaf]
    accountReservations := [⟨1, 0, [(7, 0, 5)]⟩] }

/-- **An order that was filled rests again.**  The block fills a new buy in full, and commits it
whole, past its last block, with none of its cost reserved and with shares reserved that a buy does
not sell. -/
theorem filled_order_rests_again :
    ∃ w : Primitives → BlockWitness, ∀ P, verifyFull P (w P) = [] ∧
      (w P).previousHeader.isSome ∧ ¬ NewRestingExact (w P) ∧
      ∃ wo ∈ (w P).orders, ∃ leaf, IsNewLeaf (w P) leaf ∧ leaf.order = wo.order ∧
        filledQty (w P).fills leaf.order.id = wo.order.maxFill ∧
        leaf.expiresAtBlock < (w P).header.height ∧ leaf.order.isSeller = false ∧
        leaf.reservedBalance < buyCost leaf.order ∧ leaf.reservedPositions ≠ [] := by
  refine ⟨fun P => loneBuyOver P (oneMarketSidecar P []) (restedSidecar P), fun P => ?_⟩
  have hnew : IsNewLeaf (loneBuyOver P (oneMarketSidecar P []) (restedSidecar P)) restedLeaf :=
    ⟨List.mem_cons_self, fun _ hr => absurd hr List.not_mem_nil⟩
  refine ⟨verifyFull_loneBuyOver ?_, rfl, ?_, _, List.mem_cons_self, restedLeaf, hnew, rfl, rfl,
    Nat.one_lt_two, by decide, by decide, by decide⟩
  · exact
      ⟨rfl, rfl, rfl, rfl, verifyDepositAccumulator_of_idle rfl rfl rfl rfl
        (depositRootFromFrontier_fresh P) rfl, rfl, rfl, rfl⟩
  · intro hexact
    obtain ⟨wo, hwo, -, hcommitted⟩ := hexact restedLeaf hnew
    exact absurd hcommitted.unexpired (not_lt.mpr one_le_two)

end Sybil.Verifier
