import Sybil.Lib.BinarySearch
import Sybil.Lib.CutDown
import Sybil.Verifier.Schema

/-!
# Integer repair of a solution

The solver rounds a continuous solution to integer fills, which can overrun the budgets of
market makers by a little and leave an imbalance that MINT would have to take at a price of
zero.  Two passes repair it.  `trimMmBudgetOverflows` cuts the fills of every market maker
above its budget, the cheapest first; `trimZeroPriceMinting` cuts the fills that point towards
an outcome without a price.

Both are greedy loops that cut a list down to a budget (`CutDown`): the weight of a fill is
its capital in the first pass and its quantity in the second one.  The source walks over the
markets of the second pass in the order of a hash map; they do not interact.
-/

namespace Sybil.Engine

/-- Ceiling of `price * qty / SHARE_SCALE`, cast to 64 bits. -/
def notionalNanosCeil (price : Nanos) (qty : Qty) : Nanos :=
  ((price * qty + (shareScale - 1)) / shareScale) % 2 ^ 64

namespace MmSide

/-- What a share of the side locks: a seller receives the price and owes a dollar. -/
def pricePerShare : MmSide → Nanos → Nanos
  | .sellYes, price => nanosPerDollar - price
  | .sellNo, price => nanosPerDollar - price
  | .buyYes, price => price
  | .buyNo, price => price

/-- Capital that a fill locks, rounded up. -/
def capitalNeeded (side : MmSide) (price : Nanos) (quantity : Qty) : Nanos :=
  notionalNanosCeil (side.pricePerShare price) quantity

/-- The capital of a fill fits 64 bits. -/
def FitsCapital (side : MmSide) (price : Nanos) (quantity : Qty) : Prop :=
  (side.pricePerShare price * quantity + (shareScale - 1)) / shareScale < 2 ^ 64

variable {side : MmSide} {price : Nanos} {quantity quantity' : Qty}

theorem FitsCapital.mono (h : side.FitsCapital price quantity) (hle : quantity' ≤ quantity) :
    side.FitsCapital price quantity' := by
  have hmul := Nat.mul_le_mul_left (side.pricePerShare price) hle
  exact (Nat.div_le_div_right (Nat.add_le_add_right hmul _)).trans_lt h

theorem capitalNeeded_mono (h : side.FitsCapital price quantity) (hle : quantity' ≤ quantity) :
    side.capitalNeeded price quantity' ≤ side.capitalNeeded price quantity := by
  have hmul := Nat.mul_le_mul_left (side.pricePerShare price) hle
  have hdiv := Nat.div_le_div_right (c := shareScale) (Nat.add_le_add_right hmul (shareScale - 1))
  unfold capitalNeeded notionalNanosCeil
  rw [Nat.mod_eq_of_lt h, Nat.mod_eq_of_lt (h.mono hle)]
  exact hdiv

@[simp] theorem capitalNeeded_zero : side.capitalNeeded price 0 = 0 := by
  unfold capitalNeeded notionalNanosCeil
  rw [Nat.mul_zero]
  rfl

end MmSide

end Sybil.Engine

namespace Sybil.Solver

open Engine

open Verifier (sortByKey perm_sortByKey)

/-! ## Budgets -/

/-- The constraint of an order, by its index, and the side of the order. -/
abbrev MmOrderInfo := OrdMap ℕ (ℕ × MmSide)

def buildMmOrderInfo (constraints : List MmConstraint) : MmOrderInfo :=
  OrdMap.ofList (constraints.zipIdx.flatMap fun entry => entry.1.orderIds.filterMap fun orderId =>
    (entry.1.orderSides.get? orderId).map fun side => (orderId, (entry.2, side)))

/-- How many units to take from a fill so that the capital fits the budget; all of them when that
is not enough. -/
def trimQtyToFitBudget (side : MmSide) (fillPrice : Nanos) (fillQty : Qty)
    (remainingCapital budget : ℕ) : Qty :=
  if remainingCapital ≤ budget ∨ fillQty = 0 then 0
  else
    let oldCapital := side.capitalNeeded fillPrice fillQty
    if oldCapital = 0 then 0
    else if budget < remainingCapital - oldCapital then fillQty
    else
      BinarySearch.least (fun trim =>
        remainingCapital - oldCapital + side.capitalNeeded fillPrice (fillQty - trim) ≤ budget)
        1 fillQty

/-- The index of a fill of a constraint with its capital. -/
def mmFill? (info : MmOrderInfo) (mmIdx : ℕ) (entry : Fill × ℕ) : Option (ℕ × Nanos) :=
  match info.get? entry.1.orderId with
  | none => none
  | some (idx, side) =>
    if idx ≠ mmIdx ∨ entry.1.fillQty = 0 then none
    else some (entry.2, side.capitalNeeded entry.1.fillPrice entry.1.fillQty)

/-- The fills of a constraint with their capital. -/
def mmFills (info : MmOrderInfo) (mmIdx : ℕ) (fills : List Fill) : List (ℕ × Nanos) :=
  fills.zipIdx.filterMap (mmFill? info mmIdx)

/-- Trim one fill of a constraint, while the capital is above the budget. -/
def trimFill (info : MmOrderInfo) (budget : ℕ) (st : List Fill × ℕ) (fillIdx : ℕ) :
    List Fill × ℕ :=
  if st.2 ≤ budget then st
  else
    match st.1[fillIdx]? with
    | none => st
    | some fill =>
      match info.get? fill.orderId with
      | none => st
      | some (_, side) =>
        let trim := trimQtyToFitBudget side fill.fillPrice fill.fillQty st.2 budget
        if trim = 0 then st
        else
          let trimmed := { fill with fillQty := fill.fillQty - trim }
          (st.1.set fillIdx trimmed,
            st.2 - side.capitalNeeded fill.fillPrice fill.fillQty +
              side.capitalNeeded fill.fillPrice trimmed.fillQty)

/-- Trim the fills of one constraint, the smallest first. -/
def trimConstraint (info : MmOrderInfo) (mmIdx budget : ℕ) (fills : List Fill) : List Fill :=
  let mm := mmFills info mmIdx fills
  let totalCapital := (mm.map Prod.snd).sum
  if totalCapital ≤ budget then fills
  else (((sortByKey Prod.snd mm).map Prod.fst).foldl (trimFill info budget)
    (fills, totalCapital)).1

/-- Trim the fills of every constraint, and drop the fills without quantity. -/
def trimMmBudgetOverflows (constraints : List MmConstraint) (info : MmOrderInfo)
    (fills : List Fill) : List Fill :=
  (constraints.zipIdx.foldl (fun fills entry =>
    trimConstraint info entry.2 entry.1.maxCapital fills) fills).filter fun fill =>
      0 < fill.fillQty

/-! ## Zero prices -/

/-- YES minus NO of a unit; the source saturates at 8 bits. -/
def outcomeDiffCoeff (order : Order) : ℤ :=
  max (-128) (min 127 (order.payoffAt 0 - order.payoffAt 1))

/-- The net YES minus NO of the fills, by market. -/
def diffByMarket (orderMap : OrdMap ℕ Order) (fills : List Fill) : OrdMap MarketId ℤ :=
  fills.foldl (fun diffs fill =>
    match orderMap.get? fill.orderId with
    | none => diffs
    | some order =>
      if outcomeDiffCoeff order = 0 then diffs
      else diffs.insert (order.marketAt 0)
        ((diffs.get? (order.marketAt 0)).getD 0 + outcomeDiffCoeff order * fill.fillQty)) ∅

/-- The price of an outcome, zero when it is missing. -/
def priceOrZero (clearingPrices : OrdMap MarketId (List Nanos)) (market : MarketId)
    (outcome : ℕ) : Nanos :=
  ((clearingPrices.get? market).bind fun prices => prices[outcome]?).getD 0

/-- The direction of the fills to trim: the imbalance points to an outcome without a price. -/
def zeroPriceMintDirection (market : MarketId) (diff : ℤ)
    (clearingPrices : OrdMap MarketId (List Nanos)) : Option ℤ :=
  if diff = 0 then none
  else if 0 < diff ∧ priceOrZero clearingPrices market 0 = 0 then some 1
  else if diff < 0 ∧ priceOrZero clearingPrices market 1 = 0 then some (-1)
  else none

/-- The index of a fill of a market that points in a direction, with its quantity. -/
def mintCandidate? (orderMap : OrdMap ℕ Order) (market : MarketId) (direction : ℤ)
    (entry : Fill × ℕ) : Option (ℕ × Qty) :=
  match orderMap.get? entry.1.orderId with
  | none => none
  | some order =>
    if order.marketAt 0 ≠ market ∨ outcomeDiffCoeff order ≠ direction then none
    else some (entry.2, entry.1.fillQty)

/-- The fills of a market that point in a direction, with their quantities. -/
def mintCandidates (orderMap : OrdMap ℕ Order) (market : MarketId) (direction : ℤ)
    (fills : List Fill) : List (ℕ × Qty) :=
  fills.zipIdx.filterMap (mintCandidate? orderMap market direction)

/-- Trim one candidate of the given quantity. -/
def trimCandidate (st : List Fill × ℕ) (candidate : ℕ × Qty) : List Fill × ℕ :=
  if st.2 = 0 then st
  else
    let trim := if candidate.2 < st.2 then candidate.2 else st.2
    (st.1.modify candidate.1 fun fill => { fill with fillQty := fill.fillQty - trim }, st.2 - trim)

/-- Trim one market. -/
def trimMarket (orderMap : OrdMap ℕ Order) (clearingPrices : OrdMap MarketId (List Nanos))
    (fills : List Fill) (entry : MarketId × ℤ) : List Fill :=
  match zeroPriceMintDirection entry.1 entry.2 clearingPrices with
  | none => fills
  | some direction =>
    ((sortByKey Prod.snd (mintCandidates orderMap entry.1 direction fills)).foldl trimCandidate
      (fills, entry.2.natAbs)).1

/-- Trim every market, and drop the fills without quantity. -/
def trimZeroPriceMinting (orderMap : OrdMap ℕ Order)
    (clearingPrices : OrdMap MarketId (List Nanos)) (fills : List Fill) : List Fill :=
  ((diffByMarket orderMap fills).entries.foldl (trimMarket orderMap clearingPrices) fills).filter
    fun fill => 0 < fill.fillQty

/-! ## One fill -/

section OneFill

variable {side : MmSide} {price : Nanos} {qty : Qty} {others remaining budget : ℕ}

/-- Taking more units leaves less capital. -/
theorem fitsBudget_mono (hfits : side.FitsCapital price qty) {trim more : Qty} (hle : trim ≤ more)
    (h : others + side.capitalNeeded price (qty - trim) ≤ budget) :
    others + side.capitalNeeded price (qty - more) ≤ budget := by
  have hmono := MmSide.capitalNeeded_mono (hfits.mono (Nat.sub_le qty trim))
    (Nat.sub_le_sub_left hle qty)
  exact (Nat.add_le_add_left hmono others).trans h

/-- **The least trim.**  When taking units from this fill alone can reach the budget, as few units
as possible are taken. -/
theorem isLeast_trimQtyToFitBudget (hfits : side.FitsCapital price qty)
    (hreach : ∃ trim ≤ qty, others + side.capitalNeeded price (qty - trim) ≤ budget) :
    IsLeast {trim | trim ≤ qty ∧ others + side.capitalNeeded price (qty - trim) ≤ budget}
      (trimQtyToFitBudget side price qty (others + side.capitalNeeded price qty) budget) := by
  obtain ⟨reached, hreached, hbudget⟩ := hreach
  have hothers : others + side.capitalNeeded price qty - side.capitalNeeded price qty = others :=
    Nat.add_sub_cancel ..
  unfold trimQtyToFitBudget
  dsimp only
  rw [hothers]
  split_ifs with hnone hzero hover
  · refine ⟨⟨Nat.zero_le _, ?_⟩, fun trim _ => Nat.zero_le trim⟩
    rcases hnone with hmet | rfl
    · exact hmet
    · rwa [Nat.zero_sub, MmSide.capitalNeeded_zero] at hbudget ⊢
  · rw [hzero, Nat.add_zero] at hnone
    exact absurd ((Nat.le_add_right _ _).trans hbudget) fun hle => hnone (.inl hle)
  · exact absurd ((Nat.le_add_right _ _).trans hbudget) (Nat.not_le.mpr hover)
  · have hpos : 1 ≤ qty := Nat.one_le_iff_ne_zero.mpr fun hq => hnone (.inr hq)
    have hwhole : others + side.capitalNeeded price (qty - qty) ≤ budget :=
      fitsBudget_mono hfits hreached hbudget
    obtain ⟨⟨-, hleast⟩, hlower⟩ := BinarySearch.isLeast_least hpos
      (fun _ _ hle => fitsBudget_mono hfits hle) hwhole
    refine ⟨⟨hlower ⟨hpos, hwhole⟩, hleast⟩, fun trim htrim => hlower ⟨?_, htrim.2⟩⟩
    -- Taking nothing does not reach the budget.
    refine Nat.one_le_iff_ne_zero.mpr fun hzero => hnone (.inl ?_)
    subst hzero
    exact htrim.2

/-- What is left of a fill fits the budget or locks nothing. -/
theorem trimQtyToFitBudget_spec (hfits : side.FitsCapital price qty)
    (hcapital : side.capitalNeeded price qty ≤ remaining) (hover : budget < remaining) :
    remaining - side.capitalNeeded price qty + side.capitalNeeded price
        (qty - trimQtyToFitBudget side price qty remaining budget) ≤ budget ∨
      side.capitalNeeded price (qty - trimQtyToFitBudget side price qty remaining budget) = 0 := by
  by_cases hothers : remaining - side.capitalNeeded price qty ≤ budget
  · left
    have hreach : ∃ trim ≤ qty, remaining - side.capitalNeeded price qty +
        side.capitalNeeded price (qty - trim) ≤ budget :=
      ⟨qty, le_refl _, by rwa [Nat.sub_self, MmSide.capitalNeeded_zero, Nat.add_zero]⟩
    have hleast := (isLeast_trimQtyToFitBudget hfits hreach).1.2
    rwa [Nat.sub_add_cancel hcapital] at hleast
  · right
    unfold trimQtyToFitBudget
    dsimp only
    split_ifs with hnone hzero
    · obtain rfl : qty = 0 := hnone.resolve_left (Nat.not_le.mpr hover)
      exact MmSide.capitalNeeded_zero
    · exact hzero
    · rw [Nat.sub_self, MmSide.capitalNeeded_zero]
    · omega

end OneFill

/-! ## The fills of a constraint -/

/-- The fill of an order after some units were taken from it. -/
structure Trimmed (fill trimmed : Fill) : Prop where
  orderId : trimmed.orderId = fill.orderId
  fillPrice : trimmed.fillPrice = fill.fillPrice
  accountId : trimmed.accountId = fill.accountId
  fillQty : trimmed.fillQty ≤ fill.fillQty

theorem Trimmed.refl (fill : Fill) : Trimmed fill fill := ⟨rfl, rfl, rfl, le_refl _⟩

theorem Trimmed.trans {a b c : Fill} (h : Trimmed a b) (h' : Trimmed b c) : Trimmed a c :=
  ⟨h'.orderId.trans h.orderId, h'.fillPrice.trans h.fillPrice, h'.accountId.trans h.accountId,
    h'.fillQty.trans h.fillQty⟩

theorem trimmed_sub (fill : Fill) (trim : Qty) :
    Trimmed fill { fill with fillQty := fill.fillQty - trim } :=
  ⟨rfl, rfl, rfl, Nat.sub_le _ _⟩

/-- Capital that a fill locks under a constraint. -/
def capitalUnder (info : MmOrderInfo) (mmIdx : ℕ) (fill : Fill) : ℕ :=
  match info.get? fill.orderId with
  | none => 0
  | some (idx, side) =>
    if idx = mmIdx then side.capitalNeeded fill.fillPrice fill.fillQty else 0

/-- Capital that the fills lock under a constraint. -/
def usedCapital (info : MmOrderInfo) (mmIdx : ℕ) (fills : List Fill) : ℕ :=
  (fills.map (capitalUnder info mmIdx)).sum

/-- The capital of a market maker's fill fits 64 bits. -/
def FitsUnder (info : MmOrderInfo) (fill : Fill) : Prop :=
  ∀ idx side, info.get? fill.orderId = some (idx, side) →
    side.FitsCapital fill.fillPrice fill.fillQty

section Constraint

variable {info : MmOrderInfo} {mmIdx budget : ℕ} {fill trimmed : Fill} {fills : List Fill}

theorem FitsUnder.mono (h : FitsUnder info fill) (ht : Trimmed fill trimmed) :
    FitsUnder info trimmed := by
  intro idx side hinfo
  rw [ht.orderId] at hinfo
  rw [ht.fillPrice]
  exact (h idx side hinfo).mono ht.fillQty

theorem capitalUnder_le (h : FitsUnder info fill) (ht : Trimmed fill trimmed) :
    capitalUnder info mmIdx trimmed ≤ capitalUnder info mmIdx fill := by
  unfold capitalUnder
  rw [ht.orderId, ht.fillPrice]
  split
  · exact le_refl _
  · next idx side hinfo =>
    split_ifs
    · exact MmSide.capitalNeeded_mono (h idx side hinfo) ht.fillQty
    · exact le_refl _

theorem capitalUnder_eq {side : MmSide} (h : info.get? fill.orderId = some (mmIdx, side)) :
    capitalUnder info mmIdx fill = side.capitalNeeded fill.fillPrice fill.fillQty := by
  rw [capitalUnder, h]
  exact if_pos rfl

theorem capitalUnder_of_qty_eq_zero (h : fill.fillQty = 0) : capitalUnder info mmIdx fill = 0 := by
  unfold capitalUnder
  rw [h]
  split
  · rfl
  · split_ifs
    · exact MmSide.capitalNeeded_zero
    · rfl

/-- A fill with capital is one of the constraint. -/
theorem listed_of_capitalUnder_ne_zero (h : capitalUnder info mmIdx fill ≠ 0) :
    (∃ side, info.get? fill.orderId = some (mmIdx, side)) ∧ fill.fillQty ≠ 0 := by
  refine ⟨?_, fun hqty => h (capitalUnder_of_qty_eq_zero hqty)⟩
  unfold capitalUnder at h
  split at h
  · exact absurd rfl h
  · next idx side hinfo =>
    split_ifs at h with hidx
    · exact ⟨side, hidx ▸ hinfo⟩
    · exact absurd rfl h

/-- A fill of the constraint, without overflow. -/
structure OfConstraint (info : MmOrderInfo) (mmIdx : ℕ) (fill : Fill) : Prop where
  listed : ∃ side, info.get? fill.orderId = some (mmIdx, side)
  fits : FitsUnder info fill

/-- The cut of a visited fill. -/
def cutFill (info : MmOrderInfo) (mmIdx budget : ℕ) (fill : Fill) (remaining : ℕ) : Fill :=
  match info.get? fill.orderId with
  | none => fill
  | some (idx, side) =>
    if idx = mmIdx then
      { fill with
        fillQty :=
          fill.fillQty - trimQtyToFitBudget side fill.fillPrice fill.fillQty remaining budget }
    else fill

theorem cutFill_eq {side : MmSide} (h : info.get? fill.orderId = some (mmIdx, side))
    (budget remaining : ℕ) : cutFill info mmIdx budget fill remaining =
      { fill with
        fillQty :=
          fill.fillQty - trimQtyToFitBudget side fill.fillPrice fill.fillQty remaining
            budget } := by
  rw [cutFill, h]
  exact if_pos rfl

/-- Trimmed, and only if the fill is one of the constraint. -/
def TrimmedUnder (info : MmOrderInfo) (mmIdx : ℕ) (fill trimmed : Fill) : Prop :=
  Trimmed fill trimmed ∧ ((∀ side, info.get? fill.orderId ≠ some (mmIdx, side)) → trimmed = fill)

theorem trimmedUnder_cutFill (info : MmOrderInfo) (mmIdx budget : ℕ) (fill : Fill)
    (remaining : ℕ) :
    TrimmedUnder info mmIdx fill (cutFill info mmIdx budget fill remaining) := by
  unfold cutFill
  split
  · exact ⟨.refl fill, fun _ => rfl⟩
  · next idx side hinfo =>
    split_ifs with hidx
    · exact ⟨trimmed_sub fill _, fun hnot => absurd (hidx ▸ hinfo) (hnot side)⟩
    · exact ⟨.refl fill, fun _ => rfl⟩

theorem cuts_cutFill (info : MmOrderInfo) (mmIdx budget : ℕ) :
    CutDown.Cuts (capitalUnder info mmIdx) (cutFill info mmIdx budget) budget 0
      (OfConstraint info mmIdx) where
  kept fill remaining h := by
    have ht := (trimmedUnder_cutFill info mmIdx budget fill remaining).1
    refine ⟨?_, h.fits.mono ht⟩
    rw [ht.orderId]
    exact h.listed
  le fill remaining h hover hbound := by
    obtain ⟨side, hside⟩ := h.listed
    have ht := (trimmedUnder_cutFill info mmIdx budget fill remaining).1
    have hle : capitalUnder info mmIdx (cutFill info mmIdx budget fill remaining) ≤
        capitalUnder info mmIdx fill := capitalUnder_le h.fits ht
    have hold := capitalUnder_eq hside
    have hnew : capitalUnder info mmIdx (cutFill info mmIdx budget fill remaining) =
        side.capitalNeeded fill.fillPrice (fill.fillQty -
          trimQtyToFitBudget side fill.fillPrice fill.fillQty remaining budget) := by
      rw [cutFill_eq hside]
      exact capitalUnder_eq hside
    have hspec := trimQtyToFitBudget_spec (h.fits mmIdx side hside) (hold ▸ hbound) hover
    rw [← hnew, ← hold] at hspec
    refine ⟨hle, (Nat.sub_le _ _).trans hbound, hspec.imp_left fun hmet => ?_⟩
    omega

/-- One visit is a cut. -/
theorem trimFill_eq_step {i : ℕ} {todo : List ℕ} {st : List Fill × ℕ}
    (h : CutDown.Inv (capitalUnder info mmIdx) budget 0 (OfConstraint info mmIdx) (i :: todo) st) :
    trimFill info budget st i =
      CutDown.step (capitalUnder info mmIdx) (cutFill info mmIdx budget) budget st i := by
  obtain ⟨fills, remaining⟩ := st
  unfold trimFill CutDown.step
  dsimp only
  split_ifs with hmet
  · rfl
  · cases hfill : fills[i]? with
    | none => rfl
    | some fill =>
      obtain ⟨⟨side, hside⟩, hfits⟩ := h.kinds i (List.mem_cons_self ..) fill hfill
      have htotal : remaining + 0 = (fills.map (capitalUnder info mmIdx)).sum := h.total
      have hbound : capitalUnder info mmIdx fill ≤ remaining := by
        rw [← Nat.add_zero remaining, htotal]
        exact CutDown.weight_le_sum hfill
      obtain ⟨hle, -⟩ := (cuts_cutFill info mmIdx budget).le fill remaining ⟨⟨side, hside⟩, hfits⟩
        (Nat.lt_of_not_le hmet) hbound
      have hold := capitalUnder_eq hside
      have hcut := cutFill_eq hside budget remaining
      generalize htrim : trimQtyToFitBudget side fill.fillPrice fill.fillQty remaining budget = trim
        at hcut
      have hnew : capitalUnder info mmIdx { fill with fillQty := fill.fillQty - trim } =
          side.capitalNeeded fill.fillPrice (fill.fillQty - trim) := capitalUnder_eq hside
      rw [hcut] at hle
      dsimp only
      rw [hside, hcut]
      dsimp only
      rw [htrim]
      split_ifs with hzero
      · subst hzero
        obtain ⟨hi, rfl⟩ := List.getElem?_eq_some_iff.mp hfill
        show (fills, remaining) = (fills.set i fills[i], remaining -
          (capitalUnder info mmIdx fills[i] - capitalUnder info mmIdx fills[i]))
        rw [Nat.sub_self, Nat.sub_zero, List.set_getElem_self]
      · rw [← hold, ← hnew]
        refine Prod.ext rfl ?_
        show _ - _ + _ = _ - (_ - _)
        omega

theorem foldl_trimFill_eq_run {todo : List ℕ} {st : List Fill × ℕ}
    (h : CutDown.Inv (capitalUnder info mmIdx) budget 0 (OfConstraint info mmIdx) todo st) :
    todo.foldl (trimFill info budget) st =
      CutDown.run (capitalUnder info mmIdx) (cutFill info mmIdx budget) budget todo st := by
  induction todo generalizing st with
  | nil => rfl
  | cons i todo ih =>
    rw [List.foldl_cons, trimFill_eq_step h]
    exact ih (h.step (cuts_cutFill info mmIdx budget))

theorem mmFill?_eq_some {source : Fill × ℕ} {entry : ℕ × Nanos} :
    mmFill? info mmIdx source = some entry ↔ ∃ side,
      info.get? source.1.orderId = some (mmIdx, side) ∧ source.1.fillQty ≠ 0 ∧
        entry = (source.2, side.capitalNeeded source.1.fillPrice source.1.fillQty) := by
  unfold mmFill?
  split
  · next hnone => simp [hnone]
  · next idx side hinfo =>
    rw [hinfo]
    constructor
    · intro h
      split_ifs at h with hskip
      rw [not_or, not_not] at hskip
      obtain ⟨rfl, hqty⟩ := hskip
      exact ⟨side, rfl, hqty, (Option.some.inj h).symm⟩
    · rintro ⟨side', hside, hqty, rfl⟩
      cases hside
      exact if_neg (by simp [hqty])

theorem capital_mmFill? (entry : Fill × ℕ) :
    ((mmFill? info mmIdx entry).map Prod.snd).getD 0 = capitalUnder info mmIdx entry.1 := by
  cases hentry : mmFill? info mmIdx entry with
  | some listed =>
    obtain ⟨side, hside, -, rfl⟩ := mmFill?_eq_some.mp hentry
    exact (capitalUnder_eq hside).symm
  | none =>
    symm
    by_contra hcapital
    obtain ⟨⟨side, hside⟩, hqty⟩ := listed_of_capitalUnder_ne_zero hcapital
    have hlisted := mmFill?_eq_some.mpr ⟨side, hside, hqty, rfl⟩
    rw [hentry] at hlisted
    cases hlisted

/-- The capital of the listed fills is the capital under the constraint. -/
theorem sum_mmFills (info : MmOrderInfo) (mmIdx : ℕ) (fills : List Fill) :
    ((mmFills info mmIdx fills).map Prod.snd).sum = usedCapital info mmIdx fills := by
  have hsum : ∀ entries : List (Fill × ℕ), ((entries.filterMap (mmFill? info mmIdx)).map
      Prod.snd).sum = (entries.map fun entry => capitalUnder info mmIdx entry.1).sum := by
    intro entries
    induction entries with
    | nil => rfl
    | cons entry entries ih =>
      rw [List.map_cons, List.sum_cons, ← ih, ← capital_mmFill? entry, List.filterMap_cons]
      cases mmFill? info mmIdx entry with
      | none => exact (Nat.zero_add _).symm
      | some listed => rfl
  rw [mmFills, hsum, usedCapital]
  have hfst : (fills.zipIdx.map Prod.fst).map (capitalUnder info mmIdx) =
      fills.map (capitalUnder info mmIdx) := by rw [List.zipIdx_map_fst]
  rw [← hfst, List.map_map]
  rfl

theorem inv_mmFills (hfits : ∀ fill ∈ fills, FitsUnder info fill) :
    CutDown.Inv (capitalUnder info mmIdx) budget 0 (OfConstraint info mmIdx)
      ((sortByKey Prod.snd (mmFills info mmIdx fills)).map Prod.fst)
      (fills, ((mmFills info mmIdx fills).map Prod.snd).sum) := by
  have hmem : ∀ i, i ∈ (sortByKey Prod.snd (mmFills info mmIdx fills)).map Prod.fst ↔
      ∃ fill side, fills[i]? = some fill ∧ info.get? fill.orderId = some (mmIdx, side) ∧
        fill.fillQty ≠ 0 := by
    intro i
    rw [((perm_sortByKey Prod.snd (mmFills info mmIdx fills)).map Prod.fst).mem_iff]
    simp only [mmFills, List.mem_map, List.mem_filterMap, mmFill?_eq_some]
    constructor
    · rintro ⟨_, ⟨⟨fill, j⟩, hmem, side, hside, hqty, rfl⟩, rfl⟩
      exact ⟨fill, side, List.mem_zipIdx_iff_getElem?.mp hmem, hside, hqty⟩
    · rintro ⟨fill, side, hget, hside, hqty⟩
      exact ⟨_, ⟨(fill, i), List.mem_zipIdx_iff_getElem?.mpr hget, side, hside, hqty, rfl⟩, rfl⟩
  refine ⟨sum_mmFills info mmIdx fills, fun i hi fill hget => ?_,
    .inr fun i fill hget hcapital => ?_⟩
  · obtain ⟨fill', side, hget', hside, -⟩ := (hmem i).mp hi
    obtain rfl : fill' = fill := Option.some.inj (hget'.symm.trans hget)
    exact ⟨⟨side, hside⟩, hfits fill' (List.mem_of_getElem? hget)⟩
  · obtain ⟨⟨side, hside⟩, hqty⟩ := listed_of_capitalUnder_ne_zero hcapital
    exact (hmem i).mpr ⟨fill, side, hget, hside, hqty⟩

theorem TrimmedUnder.refl (info : MmOrderInfo) (mmIdx : ℕ) (fill : Fill) :
    TrimmedUnder info mmIdx fill fill := ⟨.refl fill, fun _ => rfl⟩

theorem TrimmedUnder.trans {a b c : Fill} (h : TrimmedUnder info mmIdx a b)
    (h' : TrimmedUnder info mmIdx b c) : TrimmedUnder info mmIdx a c := by
  refine ⟨h.1.trans h'.1, fun hnot => ?_⟩
  have hb := h.2 hnot
  rw [h'.2 (hb ▸ hnot), hb]

/-- **One constraint**: its fills end within the budget, and no other fill changes. -/
theorem trimConstraint_spec (hfits : ∀ fill ∈ fills, FitsUnder info fill) :
    List.Forall₂ (TrimmedUnder info mmIdx) fills (trimConstraint info mmIdx budget fills) ∧
      usedCapital info mmIdx (trimConstraint info mmIdx budget fills) ≤ budget := by
  have hinv : CutDown.Inv (capitalUnder info mmIdx) budget 0 (OfConstraint info mmIdx) _ _ :=
    inv_mmFills hfits
  unfold trimConstraint
  dsimp only
  split_ifs with hmet
  · refine ⟨List.forall₂_same.mpr fun fill _ => .refl info mmIdx fill, ?_⟩
    rwa [sum_mmFills] at hmet
  · rw [foldl_trimFill_eq_run hinv]
    refine ⟨CutDown.forall₂_run (TrimmedUnder.refl info mmIdx) (fun _ _ _ => TrimmedUnder.trans)
      (trimmedUnder_cutFill info mmIdx budget) _ (fills, _), ?_⟩
    exact (CutDown.run_spec (cuts_cutFill info mmIdx budget) hinv.total hinv.kinds
      (hinv.left.resolve_left hmet)).2

theorem trimConstraint_of_within (h : usedCapital info mmIdx fills ≤ budget) :
    trimConstraint info mmIdx budget fills = fills := by
  unfold trimConstraint
  dsimp only
  rw [sum_mmFills, if_pos h]

/-- Trimming one constraint leaves the capital of another. -/
theorem usedCapital_of_trimmedUnder {other : ℕ} {trims : List Fill} (hne : other ≠ mmIdx)
    (h : List.Forall₂ (TrimmedUnder info mmIdx) fills trims) :
    usedCapital info other trims = usedCapital info other fills := by
  have hpoint : ∀ a b : Fill, TrimmedUnder info mmIdx a b →
      capitalUnder info other b = capitalUnder info other a := by
    intro a b hab
    by_cases hlisted : ∃ side, info.get? a.orderId = some (mmIdx, side)
    · obtain ⟨side, hside⟩ := hlisted
      unfold capitalUnder
      rw [hab.1.orderId, hside]
      dsimp only
      rw [if_neg (Ne.symm hne), if_neg (Ne.symm hne)]
    · rw [hab.2 fun side hside => hlisted ⟨side, hside⟩]
  rw [usedCapital, CutDown.map_eq_of_forall₂ hpoint h, usedCapital]

end Constraint

/-! ## All constraints -/

/-- Trimmed, and only if the fill is one of a constraint that is above its budget. -/
def TrimmedOver (info : MmOrderInfo) (entries : List (MmConstraint × ℕ)) (fills : List Fill)
    (fill trimmed : Fill) : Prop :=
  Trimmed fill trimmed ∧
    ((∀ entry ∈ entries, (∃ side, info.get? fill.orderId = some (entry.2, side)) →
      usedCapital info entry.2 fills ≤ entry.1.maxCapital) → trimmed = fill)

section Constraints

variable {info : MmOrderInfo} {entries : List (MmConstraint × ℕ)} {fills : List Fill}

/-- What the pass over the constraints leaves. -/
structure WithinBudgets (info : MmOrderInfo) (entries : List (MmConstraint × ℕ))
    (fills trims : List Fill) : Prop where
  trimmed : List.Forall₂ (TrimmedOver info entries fills) fills trims
  budgets : ∀ entry ∈ entries, usedCapital info entry.2 trims ≤ entry.1.maxCapital
  others : ∀ idx, idx ∉ entries.map Prod.snd → usedCapital info idx trims =
    usedCapital info idx fills

theorem withinBudgets_foldl (hnodup : (entries.map Prod.snd).Nodup)
    (hfits : ∀ fill ∈ fills, FitsUnder info fill) :
    WithinBudgets info entries fills (entries.foldl (fun fills entry =>
      trimConstraint info entry.2 entry.1.maxCapital fills) fills) := by
  induction entries generalizing fills with
  | nil =>
    exact ⟨List.forall₂_same.mpr fun fill _ => ⟨.refl fill, fun _ => rfl⟩, nofun, fun _ _ => rfl⟩
  | cons entry entries ih =>
    rw [List.map_cons, List.nodup_cons] at hnodup
    obtain ⟨mid, hmid_eq⟩ : ∃ mid, trimConstraint info entry.2 entry.1.maxCapital fills = mid :=
      ⟨_, rfl⟩
    have hspec : List.Forall₂ (TrimmedUnder info entry.2) fills mid ∧
        usedCapital info entry.2 mid ≤ entry.1.maxCapital := hmid_eq ▸ trimConstraint_spec hfits
    have hkept : usedCapital info entry.2 fills ≤ entry.1.maxCapital → mid = fills :=
      fun hwithin => hmid_eq ▸ trimConstraint_of_within hwithin
    obtain ⟨htrims, hbudget⟩ := hspec
    rw [List.foldl_cons, hmid_eq]
    have hmid : ∀ fill ∈ mid, FitsUnder info fill := by
      intro fill hfill
      obtain ⟨source, hsource, ht⟩ := CutDown.exists_of_forall₂_right htrims hfill
      exact (hfits source hsource).mono ht.1
    have hused : ∀ idx, idx ≠ entry.2 → usedCapital info idx mid = usedCapital info idx fills :=
      fun idx hne => usedCapital_of_trimmedUnder hne htrims
    have hrest := ih hnodup.2 hmid
    refine ⟨?_, ?_, ?_⟩
    · have hhead : List.Forall₂ (fun fill trimmed => TrimmedUnder info entry.2 fill trimmed ∧
          (usedCapital info entry.2 fills ≤ entry.1.maxCapital → trimmed = fill)) fills mid := by
        by_cases hwithin : usedCapital info entry.2 fills ≤ entry.1.maxCapital
        · rw [hkept hwithin]
          exact List.forall₂_same.mpr fun fill _ => ⟨.refl info entry.2 fill, fun _ => rfl⟩
        · exact htrims.imp fun _ _ hab => ⟨hab, fun h => absurd h hwithin⟩
      refine CutDown.forall₂_comp (fun a b c hab hbc => ?_) hhead hrest.trimmed
      refine ⟨hab.1.1.trans hbc.1, fun hwithin => ?_⟩
      obtain ⟨hentry, hentries⟩ := List.forall_mem_cons.mp hwithin
      -- The fill passes this constraint unchanged, and then the others.
      have hfirst : b = a := by
        by_cases hlisted : ∃ side, info.get? a.orderId = some (entry.2, side)
        · exact hab.2 (hentry hlisted)
        · exact hab.1.2 fun side hside => hlisted ⟨side, hside⟩
      subst hfirst
      refine hbc.2 fun other hother hlisted => ?_
      rw [hused other.2 fun heq => hnodup.1 (heq ▸ List.mem_map_of_mem hother)]
      exact hentries other hother hlisted
    · intro other hother
      rcases List.mem_cons.mp hother with rfl | hother
      · rw [hrest.others _ hnodup.1]
        exact hbudget
      · exact hrest.budgets other hother
    · intro idx hidx
      rw [List.map_cons, List.mem_cons, not_or] at hidx
      rw [hrest.others idx hidx.2, hused idx hidx.1]

end Constraints

end Sybil.Solver
