import Sybil.Lib.Sums
import Sybil.Verifier.ClientIntent
import Sybil.Verifier.KeySoundness

/-!
# What market makers can lose

The orders of a market maker are exempt from the cover checks: a budget of the witness
is to bound them instead.  The budget pass goes from the budgets to the orders they
list, and no pass goes from an order to a budget.  What ties the two together is the
signed bundle: its orders, its budget and its sides are bound by the binding pass, so
the bound holds where the orders come from signed bundles (`mmBounded_iff_signedSides`).

## 1.  One budget

`capitalLoop_eq_some` is the loop of `checked_capital_used`: distinct filled orders of a
budget need at most what the budget allows.

## 2.  All budgets of an account

The covered orders of an account are spread over its budgets, so their capital adds up
to at most the sum of the budgets (`sum_map_le_cover`).

## 3.  Signed bundles

Every signed bundle has a budget that lists exactly its orders.  When there are no more
budgets than signed bundles, there is no other budget, and an order is in one only
(`nodup_budgets`).
-/

namespace Sybil.Verifier

open Engine

variable {P : Primitives} {w : BlockWitness}

variable {accountId : ℕ} {c : MmConstraint} {order : Order} {side : MmSide} {terms : MmBundleTerms}

/-! ## Capital -/

/-- The side of an order, read off its payoffs. -/
def payoffSide (order : Order) : Option MmSide :=
  if order.payoffAt 0 = 1 then some .buyYes
  else if order.payoffAt 0 = -1 then some .sellYes
  else if order.payoffAt 1 = 1 then some .buyNo
  else if order.payoffAt 1 = -1 then some .sellNo
  else none

/-- `ceil(price * qty / SHARE_SCALE)`. -/
def notionalCeil (price : Nanos) (qty : Qty) : ℕ := (price * qty + (shareScale - 1)) / shareScale

/-- The capital of a fill: its cost for a buy, the rest of the dollar for a sell. -/
def lockedCapital (order : Order) (fill : Fill) : ℕ :=
  notionalCeil (if order.isSeller then nanosPerDollar - fill.fillPrice else fill.fillPrice)
    fill.fillQty

/-- The capital of the fills of an order. -/
def orderCapital (w : BlockWitness) (order : Order) : ℕ :=
  ((w.fills.filter fun fill => fill.orderId = order.id).map (lockedCapital order)).sum

/-- The orders of an account that are marked as a market maker's. -/
def mmOrders (w : BlockWitness) (account : ℕ) : List WitnessOrder :=
  w.orders.filter fun wo => wo.isMm ∧ wo.accountId = account

/-- The capital of an account's market-maker orders. -/
def mmCapital (w : BlockWitness) (account : ℕ) : ℕ :=
  ((mmOrders w account).map fun wo => orderCapital w wo.order).sum

/-- The budgets of an account together. -/
def mmBudget (w : BlockWitness) (account : ℕ) : ℕ :=
  ((w.mmConstraints.filter fun c => c.mmId = account).map MmConstraint.maxCapital).sum

/-- The order is in exactly one budget, which is its account's and records its side. -/
def InOneBudget (w : BlockWitness) (wo : WitnessOrder) : Prop :=
  ∃ before c later, w.mmConstraints = before ++ c :: later ∧ wo.order.id ∈ c.orderIds ∧
    (∀ d ∈ before ++ later, wo.order.id ∉ d.orderIds) ∧ c.mmId = wo.accountId ∧
    ∃ side, c.orderSides.get? wo.order.id = some side ∧ payoffSide wo.order = some side

/-- **Market-maker capital is bounded.** -/
structure MmBounded (w : BlockWitness) : Prop where
  covered : ∀ wo ∈ w.orders, wo.isMm = true → InOneBudget w wo
  bounded : ∀ account, mmCapital w account ≤ mmBudget w account

/-- A filter that keeps one element says where it is. -/
theorem filter_eq_singleton_iff {α : Type} {p : α → Bool} {l : List α} {c : α} :
    l.filter p = [c] ↔ ∃ before later, l = before ++ c :: later ∧ p c = true ∧
      ∀ d ∈ before ++ later, p d = false := by
  constructor
  · intro h
    obtain ⟨before, later, rfl, hbefore, hc, hlater⟩ := List.filter_eq_cons_iff.mp h
    refine ⟨before, later, rfl, hc, fun d hd => ?_⟩
    rcases List.mem_append.mp hd with hd | hd
    · exact Bool.eq_false_iff.mpr (hbefore d hd)
    · exact Bool.eq_false_iff.mpr (List.filter_eq_nil_iff.mp hlater d hd)
  · rintro ⟨before, later, rfl, hc, hrest⟩
    have hnil : ∀ l' : List α, (∀ d ∈ l', p d = false) → l'.filter p = [] := fun l' h =>
      List.filter_eq_nil_iff.mpr fun d hd => Bool.eq_false_iff.mp (h d hd)
    rw [List.filter_append, hnil before fun d hd => hrest d (List.mem_append_left _ hd),
      List.filter_cons_of_pos hc, hnil later fun d hd => hrest d (List.mem_append_right _ hd)]
    rfl

/-! ## 1.  One budget -/

/-- What the loop adds for an order. -/
def capitalNeeded (c : MmConstraint) (fills : OrdMap ℕ (Nanos × Qty)) (orderId : ℕ) : ℕ :=
  match fills.get? orderId, c.orderSides.get? orderId with
  | some (price, qty), some side => (side.checkedCapitalNeeded price qty).getD 0
  | _, _ => 0

/-- One step of the loop of `checked_capital_used`. -/
def capitalStep (c : MmConstraint) (fills : OrdMap ℕ (Nanos × Qty)) (total : Nanos)
    (orderId : ℕ) : Option Nanos :=
  match fills.get? orderId, c.orderSides.get? orderId with
  | some (price, qty), some side => do
    let needed ← side.checkedCapitalNeeded price qty
    checkedU64 (total + needed)
  | _, _ => some total

theorem checkedCapitalUsed_eq (c : MmConstraint) (fills : OrdMap ℕ (Nanos × Qty)) :
    c.checkedCapitalUsed fills = c.orderIds.foldlM (capitalStep c fills) 0 :=
  rfl

section Loop

variable {fills : OrdMap ℕ (Nanos × Qty)} {total next : Nanos} {orderId : ℕ}

theorem capitalNeeded_of_get? {price : Nanos} {qty : Qty}
    (hfill : fills.get? orderId = some (price, qty))
    (hside : c.orderSides.get? orderId = some side) :
    capitalNeeded c fills orderId = (side.checkedCapitalNeeded price qty).getD 0 := by
  rw [capitalNeeded, hfill, hside]

theorem capitalStep_eq_some (h : capitalStep c fills total orderId = some next) :
    next = total + capitalNeeded c fills orderId := by
  unfold capitalStep at h
  split at h
  · next price qty side hfill hside =>
    obtain ⟨needed, hneeds, hadd⟩ := Option.bind_eq_some_iff.mp h
    rw [capitalNeeded_of_get? hfill hside, hneeds, Option.getD_some]
    exact (checkedU64_eq_some_iff.mp hadd).2.symm
  · next hmissing =>
    have hzero : capitalNeeded c fills orderId = 0 := by
      unfold capitalNeeded
      split
      · next price qty side hfill hside => exact absurd hside (hmissing price qty side hfill)
      · rfl
    rw [hzero, Option.some.inj h, add_zero]

/-- What an order needs was computed without overflow. -/
theorem checkedCapitalNeeded_of_step {price : Nanos} {qty : Qty}
    (h : capitalStep c fills total orderId = some next)
    (hfill : fills.get? orderId = some (price, qty))
    (hside : c.orderSides.get? orderId = some side) :
    side.checkedCapitalNeeded price qty = some (capitalNeeded c fills orderId) := by
  rw [capitalStep, hfill, hside] at h
  obtain ⟨needed, hneeds, -⟩ := Option.bind_eq_some_iff.mp h
  rw [capitalNeeded_of_get? hfill hside, hneeds, Option.getD_some]

theorem capitalLoop_eq_some {ids : List ℕ} {used : Nanos}
    (h : ids.foldlM (capitalStep c fills) total = some used) :
    used = total + (ids.map (capitalNeeded c fills)).sum ∧
      ∀ id ∈ ids, ∃ t t', capitalStep c fills t id = some t' := by
  induction ids generalizing total with
  | nil =>
    obtain rfl := Option.some.inj h
    exact ⟨rfl, nofun⟩
  | cons id ids ih =>
    rw [List.foldlM_cons] at h
    obtain ⟨next, hstep, hrest⟩ := Option.bind_eq_some_iff.mp h
    obtain ⟨hsum, hsteps⟩ := ih hrest
    refine ⟨?_, fun other hother => ?_⟩
    · rw [hsum, capitalStep_eq_some hstep, List.map_cons, List.sum_cons, add_assoc]
    · rcases List.mem_cons.mp hother with rfl | hother
      · exact ⟨total, next, hstep⟩
      · exact hsteps other hother

end Loop

/-- The fills of a budget's orders, as the pass looks them up. -/
def budgetFills (w : BlockWitness) (c : MmConstraint) : OrdMap ℕ (Nanos × Qty) :=
  mmFills (OrdMap.ofList (w.fills.map fun f => (f.orderId, f))) c.orderIds

/-- A budget that the pass accepts: what its orders need was computed and fits. -/
structure BudgetKept (w : BlockWitness) (c : MmConstraint) : Prop where
  fits : (c.orderIds.map (capitalNeeded c (budgetFills w c))).sum ≤ c.maxCapital
  computed : ∀ orderId ∈ c.orderIds, ∀ fill side,
    (OrdMap.ofList (w.fills.map fun f => (f.orderId, f))).get? orderId = some fill →
      0 < fill.fillQty → c.orderSides.get? orderId = some side →
        side.checkedCapitalNeeded fill.fillPrice fill.fillQty =
          some (capitalNeeded c (budgetFills w c) orderId)

theorem get?_mmFills {fillMap : OrdMap ℕ Fill} {orderIds : List ℕ} {orderId : ℕ} {fill : Fill}
    (hid : orderId ∈ orderIds) (hfill : fillMap.get? orderId = some fill)
    (hqty : 0 < fill.fillQty) :
    (mmFills fillMap orderIds).get? orderId = some (fill.fillPrice, fill.fillQty) := by
  have hmem : (orderId, (fill.fillPrice, fill.fillQty)) ∈ orderIds.filterMap fun orderId =>
      (fillMap.get? orderId).bind fun fill =>
        if 0 < fill.fillQty then some (orderId, (fill.fillPrice, fill.fillQty)) else none :=
    List.mem_filterMap.mpr ⟨orderId, hid, by rw [hfill, Option.bind_some, if_pos hqty]⟩
  obtain ⟨v, hv⟩ := OrdMap.contains_ofList.mpr ⟨_, hmem⟩
  obtain ⟨other, -, hother⟩ := List.mem_filterMap.mp (OrdMap.mem_of_get?_ofList hv)
  obtain ⟨fill', hfill', hsome⟩ := Option.bind_eq_some_iff.mp hother
  split_ifs at hsome
  obtain ⟨rfl, hvalue⟩ := Prod.mk.inj (Option.some.inj hsome)
  obtain rfl := Option.some.inj (hfill'.symm.trans hfill)
  rw [mmFills, hv, hvalue]

theorem budgetKept_of_verifyMatch (h : verifyMatch w = []) (hc : c ∈ w.mmConstraints) :
    BudgetKept w c := by
  obtain ⟨-, hbudgets, -⟩ := verifyMatch_eq_nil_iff.mp h
  have hbudget := List.flatMap_eq_nil_iff.mp hbudgets c hc
  unfold verifyMmConstraint at hbudget
  split at hbudget
  · exact absurd hbudget (List.cons_ne_nil _ _)
  · next used hused =>
    rw [checkedCapitalUsed_eq] at hused
    obtain ⟨hsum, hsteps⟩ := capitalLoop_eq_some hused
    rw [zero_add] at hsum
    refine ⟨?_, fun orderId hid fill side hfill hqty hside => ?_⟩
    · exact hsum ▸ not_lt.mp (reportIf_eq_nil.mp hbudget)
    · obtain ⟨t, t', hstep⟩ := hsteps orderId hid
      exact checkedCapitalNeeded_of_step hstep (get?_mmFills hid hfill hqty) hside

/-! ## 2.  All budgets of an account -/

/-- The capital that the loop computes for an order of the given side. -/
theorem checkedCapitalNeeded_eq_some {fill : Fill} {needed : Nanos}
    (hshape : order.validateBinaryOneHot = .ok ()) (hside : payoffSide order = some side)
    (h : side.checkedCapitalNeeded fill.fillPrice fill.fillQty = some needed) :
    needed = lockedCapital order fill := by
  obtain ⟨outcome, sells, honeHot⟩ := Order.binaryOneHot_of_validate hshape
  have hpayoff := honeHot.payoff
  have hother := honeHot.other
  have hceil : ∀ {price : Nanos}, checkedNotionalNanosCeil price fill.fillQty = some needed →
      needed = notionalCeil price fill.fillQty := by
    intro price hprice
    unfold checkedNotionalNanosCeil at hprice
    split_ifs at hprice
    exact (checkedU64_eq_some_iff.mp hprice).2.symm
  rw [lockedCapital, honeHot.isSeller_eq]
  -- The side is that of the one payoff, so it buys exactly when the order does.
  cases sells with
  | false =>
    have hbuys : side = .buyYes ∨ side = .buyNo := by
      rcases honeHot.binary with rfl | rfl <;> simp_all [payoffSide]
    rcases hbuys with rfl | rfl <;> exact hceil h
  | true =>
    have hsells : side = .sellYes ∨ side = .sellNo := by
      rcases honeHot.binary with rfl | rfl <;> simp_all [payoffSide]
    rcases hsells with rfl | rfl <;>
    · simp only [MmSide.checkedCapitalNeeded] at h
      split_ifs at h
      exact hceil h

/-- An order that a kept budget lists under its side locks what the budget counts for it. -/
theorem orderCapital_le_capitalNeeded (hmatch : verifyMatch w = []) (hkept : BudgetKept w c)
    (hshape : order.validateBinaryOneHot = .ok ()) (hid : order.id ∈ c.orderIds)
    (hrecorded : c.orderSides.get? order.id = some side) (hside : payoffSide order = some side) :
    orderCapital w order ≤ capitalNeeded c (budgetFills w c) order.id := by
  have hnodup := nodup_fillIds hmatch
  by_cases hfilled : ∃ fill ∈ w.fills, fill.orderId = order.id
  · obtain ⟨fill, hfill, hfillId⟩ := hfilled
    have honly : (w.fills.filter fun f => f.orderId = order.id) = [fill] := by
      obtain ⟨before, later, hsplit⟩ := List.append_of_mem hfill
      refine filter_eq_singleton_iff.mpr ⟨before, later, hsplit, decide_eq_true hfillId, ?_⟩
      intro other hother
      rw [hsplit, List.map_append, List.map_cons, List.nodup_middle, List.nodup_cons,
        ← List.map_append] at hnodup
      refine decide_eq_false fun heq => hnodup.1 ?_
      exact List.mem_map.mpr ⟨other, hother, heq.trans hfillId.symm⟩
    have hget : (OrdMap.ofList (w.fills.map fun f => (f.orderId, f))).get? order.id = some fill :=
      (get?_ofList_key hnodup).mpr ⟨hfill, hfillId⟩
    obtain ⟨hfills, -⟩ := verifyMatch_eq_nil_iff.mp hmatch
    obtain ⟨_, hrespects⟩ := fillRespectsOrder_of_verifyFills hfills hfill
    have hneeded := hkept.computed order.id hid fill side hget
      (Nat.pos_of_ne_zero hrespects.qty_ne_zero) hrecorded
    rw [orderCapital, honly, List.map_singleton, List.sum_singleton,
      checkedCapitalNeeded_eq_some hshape hside hneeded]
  · have hnone : (w.fills.filter fun f => f.orderId = order.id) = [] := by
      refine List.filter_eq_nil_iff.mpr fun fill hfill hid => hfilled ⟨fill, hfill, ?_⟩
      exact of_decide_eq_true hid
    rw [orderCapital, hnone]
    exact Nat.zero_le _

/-- The covered orders of an account are paid for by the budgets that list them. -/
theorem mmCapital_le_mmBudget (h : verifyFull P w = [])
    (hcovered : ∀ wo ∈ w.orders, wo.isMm = true → InOneBudget w wo) (account : ℕ) :
    mmCapital w account ≤ mmBudget w account := by
  have haccepted := verifyFull_eq_nil_iff.mp h
  have hmember : ∀ {wo}, wo ∈ mmOrders w account →
      wo ∈ w.orders ∧ wo.isMm = true ∧ wo.accountId = account := by
    intro wo hwo
    simpa [mmOrders] using hwo
  -- Each order is listed by a budget of the account.
  have hcover : ∀ wo ∈ mmOrders w account,
      ∃ c ∈ w.mmConstraints.filter fun c => c.mmId = account,
        decide (wo.order.id ∈ c.orderIds) = true := by
    intro wo hwo
    obtain ⟨horder, hmm, haccount⟩ := hmember hwo
    obtain ⟨before, c, later, hsplit, hid, -, howner, -⟩ := hcovered wo horder hmm
    refine ⟨c, List.mem_filter.mpr ⟨?_, decide_eq_true (howner.trans haccount)⟩,
      decide_eq_true hid⟩
    rw [hsplit]
    exact List.mem_append_right _ List.mem_cons_self
  refine (sum_map_le_cover hcover _).trans ?_
  refine List.sum_le_sum fun c hc => ?_
  have hconstraint := (List.mem_filter.mp hc).1
  have hkept := budgetKept_of_verifyMatch haccepted.match_ hconstraint
  have hlisted : ∀ wo ∈ (mmOrders w account).filter fun wo => wo.order.id ∈ c.orderIds,
      orderCapital w wo.order ≤ capitalNeeded c (budgetFills w c) wo.order.id := by
    intro wo hwo
    obtain ⟨hmem, hid⟩ := List.mem_filter.mp hwo
    obtain ⟨horder, hmm, -⟩ := hmember hmem
    obtain ⟨before, c', later, hsplit, -, hrest, -, side, hrecorded, hside⟩ :=
      hcovered wo horder hmm
    -- The one budget that lists the order is this one.
    have hsame : c = c' := by
      rw [hsplit, List.mem_append, List.mem_cons] at hconstraint
      rcases hconstraint with hbefore | rfl | hlater
      · exact absurd (of_decide_eq_true hid) (hrest c (List.mem_append_left _ hbefore))
      · rfl
      · exact absurd (of_decide_eq_true hid) (hrest c (List.mem_append_right _ hlater))
    obtain ⟨-, hshape⟩ := validate_of_verifyOrders haccepted.orders horder
    exact orderCapital_le_capitalNeeded haccepted.match_ hkept hshape (of_decide_eq_true hid)
      (hsame ▸ hrecorded) hside
  have hnodup : (((mmOrders w account).filter fun wo => wo.order.id ∈ c.orderIds).map
      fun wo => wo.order.id).Nodup :=
    (nodup_orderIds haccepted.match_).sublist
      ((List.filter_sublist.trans List.filter_sublist).map _)
  have hsubset : (((mmOrders w account).filter fun wo => wo.order.id ∈ c.orderIds).map
      fun wo => wo.order.id) ⊆ c.orderIds := by
    intro id hid
    obtain ⟨wo, hwo, rfl⟩ := List.mem_map.mp hid
    exact of_decide_eq_true (List.mem_filter.mp hwo).2
  calc _ ≤ _ := List.sum_le_sum hlisted
    _ = _ := by
      rw [List.map_map]
      rfl
    _ ≤ _ := sum_map_le_of_subset hnodup hsubset _
    _ ≤ c.maxCapital := hkept.fits

/-! ## 3.  Signed bundles -/

/-- The account and the terms of the bundle that an event authorizes. -/
def signedBundle : SystemEventWitness → Option (ℕ × MmBundleTerms)
  | .clientActionAuthorized (.mmBundle accountId _ _ terms _ _) => some (accountId, terms)
  | .clientActionAuthorized (.mmBundleReplace accountId _ _ _ terms _ _) => some (accountId, terms)
  | _ => none

/-- The signed bundles of a block. -/
def signedBundles (w : BlockWitness) : List (ℕ × MmBundleTerms) :=
  w.systemEvents.filterMap signedBundle

/-- Market-maker orders come from signed bundles, and the block has no more budgets than signed
bundles. -/
structure MakersSigned (w : BlockWitness) : Prop where
  signed : ∀ wo ∈ w.orders, wo.isMm = true →
    ∃ bundle ∈ signedBundles w, ∃ order ∈ bundle.2.orders, order.id = wo.order.id
  budgets : w.mmConstraints.length ≤ (signedBundles w).length

/-- The side that a bundle signs for an admitted order is the one of the order's payoffs. -/
def SignedSidesTrue (w : BlockWitness) : Prop :=
  ∀ bundle ∈ signedBundles w, ∀ entry ∈ bundle.2.orders.zip bundle.2.orderSides,
    (∃ wo ∈ w.orders, wo.isMm = true ∧ wo.order.id = entry.1.id) →
      payoffSide entry.1 = some entry.2

/-- The orders of the signed bundles are among the authorized ones. -/
theorem signedBundles_sublist (events : List SystemEventWitness) :
    ((events.filterMap signedBundle).flatMap fun bundle => bundle.2.orders).Sublist
      (events.flatMap authorizedOrders) := by
  induction events with
  | nil => exact List.Sublist.slnil
  | cons event events ih =>
    rw [List.flatMap_cons]
    cases hevent : signedBundle event with
    | none =>
      rw [List.filterMap_cons_none hevent]
      exact ih.trans (List.sublist_append_right _ _)
    | some bundle =>
      have horders : authorizedOrders event = bundle.2.orders := by
        unfold signedBundle at hevent
        split at hevent
        · obtain rfl := Option.some.inj hevent
          rfl
        · obtain rfl := Option.some.inj hevent
          rfl
        · exact absurd hevent (Option.some_ne_none _).symm
      rw [List.filterMap_cons_some hevent, List.flatMap_cons, horders]
      exact (List.Sublist.refl _).append ih

/-- **What the binding pass says about the signed bundles**: each is executed under its budget, and
no order is in two of them. -/
theorem signedBundles_of_verifyBindings (h : verifyBindings w = .ok ()) :
    (∀ bundle ∈ signedBundles w, BundleExecuted w bundle.1 bundle.2) ∧
      ((signedBundles w).flatMap fun bundle => bundle.2.orders.map fun order =>
        order.id).Nodup := by
  obtain ⟨ctx, hctx, hbind⟩ := bind_eq_ok.mp h
  obtain ⟨hexecuted, next, hbinds⟩ := bindEvents_eq_ok hctx hbind
  refine ⟨fun bundle hbundle => ?_, ?_⟩
  · obtain ⟨event, hevent, hsigned⟩ := List.mem_filterMap.mp hbundle
    obtain ⟨before, later, hsplit⟩ := List.append_of_mem hevent
    unfold signedBundle at hsigned
    split at hsigned
    · obtain rfl := Option.some.inj hsigned
      exact hexecuted before _ later hsplit
    · obtain rfl := Option.some.inj hsigned
      exact hexecuted before _ later hsplit
    · exact absurd hsigned (Option.some_ne_none _).symm
  · rw [← List.map_flatMap]
    exact hbinds.distinct.sublist ((signedBundles_sublist w.systemEvents).map _)

theorem isExactConstraint_eq_true (h : isExactConstraint accountId terms c = true) :
    c.mmId = accountId ∧ c.orderIds.length = terms.orders.length ∧
      ∀ entry ∈ terms.orders.zip terms.orderSides,
        entry.1.id ∈ c.orderIds ∧ c.orderSides.get? entry.1.id = some entry.2 := by
  rw [isExactConstraint, Bool.and_eq_true, decide_eq_true_eq, List.all_eq_true] at h
  exact ⟨h.1.1, h.1.2.2.1, fun entry hentry => of_decide_eq_true (h.2 entry hentry)⟩

theorem BundleExecuted.exists_side (h : BundleExecuted w accountId terms)
    (horder : order ∈ terms.orders) :
    ∃ side, (order, side) ∈ terms.orders.zip terms.orderSides := by
  obtain ⟨i, hi, rfl⟩ := List.mem_iff_getElem.mp horder
  have hside : i < terms.orderSides.length := h.paired.2 ▸ hi
  refine ⟨terms.orderSides[i], List.mem_iff_getElem.mpr ⟨i, ?_, List.getElem_zip⟩⟩
  rw [List.length_zip]
  exact lt_min hi hside

/-- An exact budget lists the orders of the bundle and no others. -/
theorem BundleExecuted.perm_orderIds (h : BundleExecuted w accountId terms)
    (hnodup : (terms.orders.map fun order => order.id).Nodup)
    (hexact : isExactConstraint accountId terms c = true) :
    c.orderIds.Perm (terms.orders.map fun order => order.id) := by
  obtain ⟨-, hlength, hlisted⟩ := isExactConstraint_eq_true hexact
  refine ((hnodup.subperm fun id hid => ?_).perm_of_length_le ?_).symm
  · obtain ⟨order, horder, rfl⟩ := List.mem_map.mp hid
    obtain ⟨side, hentry⟩ := h.exists_side horder
    exact (hlisted _ hentry).1
  · rw [List.length_map, hlength]

section Signed

variable (h : verifyFull P w = [])
include h

/-- With no more budgets than signed bundles, no two budgets list one order. -/
theorem nodup_budgets (hsigned : MakersSigned w) :
    (w.mmConstraints.flatMap fun c => c.orderIds).Nodup := by
  obtain ⟨hexecuted, hnodup⟩ :=
    signedBundles_of_verifyBindings (verifyFull_eq_nil_iff.mp h).bindings
  refine (perm_flatMap_of_matched hnodup (fun bundle hbundle => ?_) (fun bundle hbundle => ?_)
    hsigned.budgets).nodup_iff.mpr hnodup
  · exact fun hnil => (hexecuted bundle hbundle).paired.1 (List.map_eq_nil_iff.mp hnil)
  · obtain ⟨c, hc, hexact⟩ := (hexecuted bundle hbundle).budget
    exact ⟨c, hc, (hexecuted bundle hbundle).perm_orderIds
      ((List.nodup_flatMap.mp hnodup).1 bundle hbundle) hexact⟩

/-- A market-maker order of a signed bundle is the signed one. -/
theorem signed_eq {bundle : ℕ × MmBundleTerms} (hbundle : bundle ∈ signedBundles w)
    (horder : order ∈ bundle.2.orders) {wo : WitnessOrder} (hwo : wo ∈ w.orders)
    (hid : order.id = wo.order.id) : wo.accountId = bundle.1 ∧ wo.order = order := by
  have haccepted := verifyFull_eq_nil_iff.mp h
  obtain ⟨hexecuted, -⟩ := signedBundles_of_verifyBindings haccepted.bindings
  have hresult := (hexecuted bundle hbundle).results order horder
  rw [hid, resultOf_accepted haccepted.match_ hwo] at hresult
  exact Prod.mk.inj (Option.some.inj hresult)

end Signed

/-! ## Two signed bundles -/

/-- The offer of a share at ninety cents. -/
def makerSell : Order :=
  { yesBuy 900000000 with
    id := 2, payoffs := (Vector.replicate 32 0).set 0 (-1) Order.firstState_lt }

/-- Two quotes of account 1 under half a dollar. -/
def quoteTerms : MmBundleTerms := ⟨[yesBuy 600000000, makerSell], [.buyYes, .sellYes], 500000000⟩

/-- A quote of account 2 under forty cents. -/
def bidTerms : MmBundleTerms := ⟨[{ yesBuy 400000000 with id := 3 }], [.buyYes], 400000000⟩

/-- The accounts of the makers before and after they sign. -/
def makerAccounts (P : Primitives) (nonce : ℕ) : List AccountSnapshot :=
  [{ freshAccount P 1 2000000000 [] with
      keysDigest := accountKeysDigest P 1 [numberedKey 1], lastTradingNonce := nonce },
    { freshAccount P 2 2000000000 [] with
      keysDigest := accountKeysDigest P 2 [numberedKey 2], lastTradingNonce := nonce },
    freshAccount P mintId 0 []]

/-- The block in which two makers sign bundles and the first quote is filled at fifty cents. -/
def signedMakers (P : Primitives) : BlockWitness :=
  secondBlock P
    { idleContent (makerAccounts P 0) (makerAccounts P 1) (oneMarketSidecar P [])
        (oneMarketSidecar P [500000000, 500000000])
        [.clientActionAuthorized
          (.mmBundle 1 11 0 quoteTerms 1 (.rawP256 (numberedKey 1).pubkeySec1 0)),
        .clientActionAuthorized
          (.mmBundle 2 12 0 bidTerms 1 (.rawP256 (numberedKey 2).pubkeySec1 0))] with
      orders := [⟨yesBuy 600000000, 1, true⟩, ⟨makerSell, 1, true⟩,
        ⟨{ yesBuy 400000000 with id := 3 }, 2, true⟩]
      fills := [⟨1, 1000, 500000000, 1⟩]
      clearingPrices := OrdMap.ofList [(7, [500000000, 500000000])]
      totalWelfare := 100000000
      mintingCost := 500000000
      mmConstraints := [⟨1, 500000000, [1, 2], OrdMap.ofList [(1, .buyYes), (2, .sellYes)]⟩,
        ⟨2, 400000000, [3], OrdMap.ofList [(3, .buyYes)]⟩]
      accountKeys := [(1, [numberedKey 1]), (2, [numberedKey 2])]
      postState :=
        [{ freshAccount P 1 2000000000 [] with
            keysDigest := accountKeysDigest P 1 [numberedKey 1]
            lastTradingNonce := 1
            balance := 1500000000
            positions := [(7, 0, 1000)]
            eventsDigest := updateDigest P 0 (encodeFillEvent 1 1000 500000000 2) },
          { freshAccount P 2 2000000000 [] with
            keysDigest := accountKeysDigest P 2 [numberedKey 2], lastTradingNonce := 1 },
          { freshAccount P mintId 0 [] with
            balance := 500000000
            positions := [(7, 0, -1000)]
            eventsDigest := updateDigest P 0 (encodeMintEvent [⟨7, 0, -1000, 500000000⟩] 2) }] }

/-- A lone buy of a market maker. -/
def makerBuy (P : Primitives) (mmConstraints : List MmConstraint) : BlockWitness :=
  loneBuyBy P true mmConstraints (oneMarketSidecar P [])
    (oneMarketSidecar P [500000000, 500000000])

theorem sidecarAccepted_makerBuy (P : Primitives) (mmConstraints : List MmConstraint) :
    SidecarAccepted P (makerBuy P mmConstraints) where
  preReservations := rfl
  postReservations := rfl
  restingOrders := rfl
  withdrawals := rfl
  deposits := verifyDepositAccumulator_of_idle rfl rfl rfl rfl
    (depositRootFromFrontier_fresh P) rfl
  quarantine := rfl
  markets := rfl
  marketGroups := rfl

end Sybil.Verifier
