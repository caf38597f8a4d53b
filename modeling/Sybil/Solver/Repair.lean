import Mathlib
import Sybil.Sequencer.Settlement
import Sybil.Solver.Trim

/-!
# What the integer repair leaves

The second pass visits the markets one after the other.  A market whose imbalance points to an
outcome without a price is cut until the imbalance is zero: the fills of the other direction are
the offset of the loop, and the budget is zero.  The imbalances of the other markets stay, and
so does every budget that the first pass met, since cutting a fill never locks more capital.
-/

namespace Sybil.Solver

open Engine

open Sequencer (orderMapOf)

open Verifier (sortByKey perm_sortByKey)

variable {a b fill : Fill} {candidate : ℕ × Qty} {trims : List Fill}

/-! ## Imbalance -/

/-- YES minus NO that a fill adds to a market. -/
def netUnder (orderMap : OrdMap ℕ Order) (market : MarketId) (fill : Fill) : ℤ :=
  match orderMap.get? fill.orderId with
  | none => 0
  | some order =>
    if order.marketAt 0 = market then outcomeDiffCoeff order * fill.fillQty else 0

/-- YES minus NO of the fills of a market. -/
def netDiff (orderMap : OrdMap ℕ Order) (market : MarketId) (fills : List Fill) : ℤ :=
  (fills.map (netUnder orderMap market)).sum

/-- Does a fill of the market point in the direction? -/
def Towards (orderMap : OrdMap ℕ Order) (market : MarketId) (direction : ℤ) (fill : Fill) : Prop :=
  ∃ order, orderMap.get? fill.orderId = some order ∧ order.marketAt 0 = market ∧
    outcomeDiffCoeff order = direction

/-- The quantity of a fill in a direction. -/
def qtyTowards (orderMap : OrdMap ℕ Order) (market : MarketId) (direction : ℤ) (fill : Fill) : ℕ :=
  match orderMap.get? fill.orderId with
  | none => 0
  | some order =>
    if order.marketAt 0 = market ∧ outcomeDiffCoeff order = direction then fill.fillQty else 0

/-- The unit of a known order is one YES or one NO, long or short. -/
def UnitFill (orderMap : OrdMap ℕ Order) (fill : Fill) : Prop :=
  ∀ order, orderMap.get? fill.orderId = some order →
    outcomeDiffCoeff order = 1 ∨ outcomeDiffCoeff order = -1

theorem outcomeDiffCoeff_of_oneHot {order : Order} {outcome : ℕ} {sells : Bool}
    (h : order.BinaryOneHot outcome sells) :
    outcomeDiffCoeff order = 1 ∨ outcomeDiffCoeff order = -1 := by
  have hpayoff := h.payoff
  have hother := h.other
  unfold outcomeDiffCoeff
  rcases h.binary with rfl | rfl
  · rw [hpayoff, show order.payoffAt 1 = 0 from hother]
    cases sells <;> decide
  · rw [hpayoff, show order.payoffAt 0 = 0 from hother]
    cases sells <;> decide

section Imbalance

variable {orderMap : OrdMap ℕ Order} {market : MarketId} {direction : ℤ} {trimmed : Fill}
  {fills : List Fill}

theorem qtyTowards_of_towards (h : Towards orderMap market direction fill) :
    qtyTowards orderMap market direction fill = fill.fillQty := by
  obtain ⟨order, hget, hdir⟩ := h
  rw [qtyTowards, hget]
  exact if_pos hdir

theorem qtyTowards_of_not_towards (h : ¬ Towards orderMap market direction fill) :
    qtyTowards orderMap market direction fill = 0 := by
  unfold qtyTowards
  split
  · rfl
  · next order hget => exact if_neg fun hdir => h ⟨order, hget, hdir⟩

theorem Towards.of_orderId (h : Towards orderMap market direction fill)
    (hid : trimmed.orderId = fill.orderId) : Towards orderMap market direction trimmed := by
  obtain ⟨order, hget, hdir⟩ := h
  exact ⟨order, hid ▸ hget, hdir⟩

theorem UnitFill.of_trimmed (h : UnitFill orderMap fill) (ht : Trimmed fill trimmed) :
    UnitFill orderMap trimmed := by
  intro order hget
  exact h order (ht.orderId ▸ hget)

/-- The imbalance of a fill, seen from a direction. -/
theorem direction_mul_netUnder (hunit : UnitFill orderMap fill)
    (hdir : direction = 1 ∨ direction = -1) :
    direction * netUnder orderMap market fill =
      qtyTowards orderMap market direction fill - qtyTowards orderMap market (-direction) fill := by
  unfold netUnder qtyTowards
  cases hget : orderMap.get? fill.orderId with
  | none => simp
  | some order =>
    by_cases hmarket : order.marketAt 0 = market
    · rcases hunit order hget with hcoeff | hcoeff <;> rcases hdir with rfl | rfl <;>
        simp [hmarket, hcoeff]
    · simp [hmarket]

theorem direction_mul_netDiff (hunit : ∀ fill ∈ fills, UnitFill orderMap fill)
    (hdir : direction = 1 ∨ direction = -1) :
    direction * netDiff orderMap market fills =
      ((fills.map (qtyTowards orderMap market direction)).sum : ℕ) -
        ((fills.map (qtyTowards orderMap market (-direction))).sum : ℕ) := by
  induction fills with
  | nil => simp [netDiff]
  | cons fill fills ih =>
    obtain ⟨hfill, hfills⟩ := List.forall_mem_cons.mp hunit
    have hhead : direction * netUnder orderMap market fill = _ := direction_mul_netUnder hfill hdir
    have htail := ih hfills
    unfold netDiff at htail ⊢
    simp only [List.map_cons, List.sum_cons, Nat.cast_add, mul_add]
    omega

theorem netDiff_of_forall₂ {R : Fill → Fill → Prop}
    (heq : ∀ a b, R a b → netUnder orderMap market b = netUnder orderMap market a)
    (h : List.Forall₂ R fills trims) :
    netDiff orderMap market trims = netDiff orderMap market fills := by
  rw [netDiff, CutDown.map_eq_of_forall₂ heq h, netDiff]

theorem get?_diffByMarket (orderMap : OrdMap ℕ Order) (fills : List Fill) (market : MarketId) :
    ((diffByMarket orderMap fills).get? market).getD 0 = netDiff orderMap market fills := by
  -- Over the fills from the back: the last one adds its share to one entry.
  induction fills using List.reverseRecOn with
  | nil => rfl
  | append_singleton fills fill ih =>
    have hnet : netDiff orderMap market (fills ++ [fill]) =
        netDiff orderMap market fills + netUnder orderMap market fill := by
      simp [netDiff]
    rw [hnet, ← ih, diffByMarket, List.foldl_append, List.foldl_cons, List.foldl_nil,
      ← diffByMarket, netUnder]
    cases orderMap.get? fill.orderId with
    | none => exact (add_zero _).symm
    | some order =>
      dsimp only
      split_ifs with hzero hmarket hmarket
      · rw [hzero, zero_mul, add_zero]
      · exact (add_zero _).symm
      · subst hmarket
        rw [OrdMap.get?_insert_self, Option.getD_some]
      · rw [OrdMap.get?_insert_of_ne (Ne.symm hmarket), add_zero]

end Imbalance

/-! ## The candidates of a market -/

section Market

variable {orderMap : OrdMap ℕ Order} {market : MarketId} {direction : ℤ} {fills : List Fill}

/-- The cut of a visited candidate. -/
def cutCandidate (orderMap : OrdMap ℕ Order) (market : MarketId) (direction : ℤ) (fill : Fill)
    (remaining : ℕ) : Fill :=
  { fill with
    fillQty := fill.fillQty - min (qtyTowards orderMap market direction fill) remaining }

theorem trimmed_cutCandidate (orderMap : OrdMap ℕ Order) (market : MarketId) (direction : ℤ)
    (fill : Fill) (remaining : ℕ) :
    Trimmed fill (cutCandidate orderMap market direction fill remaining) := trimmed_sub fill _

theorem cutCandidate_of_not_towards (h : ¬ Towards orderMap market direction fill) (remaining : ℕ) :
    cutCandidate orderMap market direction fill remaining = fill := by
  rw [cutCandidate, qtyTowards_of_not_towards h, Nat.zero_min, Nat.sub_zero]

theorem qtyTowards_cutCandidate (h : Towards orderMap market direction fill) (remaining : ℕ) :
    qtyTowards orderMap market direction (cutCandidate orderMap market direction fill remaining) =
      fill.fillQty - min fill.fillQty remaining := by
  have hid := (trimmed_cutCandidate orderMap market direction fill remaining).orderId
  rw [qtyTowards_of_towards (h.of_orderId hid), cutCandidate, qtyTowards_of_towards h]

theorem cuts_cutCandidate (orderMap : OrdMap ℕ Order) (market : MarketId) (direction : ℤ)
    (offset : ℕ) :
    CutDown.Cuts (qtyTowards orderMap market direction) (cutCandidate orderMap market direction) 0
      offset (Towards orderMap market direction) where
  kept fill remaining h :=
    h.of_orderId (trimmed_cutCandidate orderMap market direction fill remaining).orderId
  le fill remaining h _ _ := by
    have hqty := qtyTowards_of_towards h
    have hcut := qtyTowards_cutCandidate h remaining
    omega

/-- One visit is a cut, of the quantity that was listed. -/
theorem trimCandidate_eq_step {st : List Fill × ℕ} (hget : st.1[candidate.1]? = some fill)
    (hdir : Towards orderMap market direction fill) (hqty : candidate.2 = fill.fillQty) :
    trimCandidate st candidate = CutDown.step (qtyTowards orderMap market direction)
      (cutCandidate orderMap market direction) 0 st candidate.1 := by
  obtain ⟨fills, remaining⟩ := st
  obtain ⟨i, qty⟩ := candidate
  dsimp only at hget hqty
  subst hqty
  have hmin : (if fill.fillQty < remaining then fill.fillQty else remaining) =
      min fill.fillQty remaining := by
    split_ifs with hlt
    · exact (Nat.min_eq_left hlt.le).symm
    · exact (Nat.min_eq_right (Nat.le_of_not_lt hlt)).symm
  have hold := qtyTowards_of_towards hdir
  have hnew := qtyTowards_cutCandidate hdir remaining
  unfold trimCandidate CutDown.step
  dsimp only
  rw [hget, hmin]
  split_ifs with hzero hpos hpos
  · rfl
  · omega
  · omega
  · have hset : fills.modify i (fun visited => { visited with
        fillQty := visited.fillQty - min fill.fillQty remaining }) =
          fills.set i (cutCandidate orderMap market direction fill remaining) := by
      rw [List.modify_eq_set_getElem?, hget]
      show fills.set i _ = _
      rw [cutCandidate, hold]
    refine Prod.ext hset ?_
    show remaining - _ = remaining - (_ - _)
    rw [hold, hnew]
    omega

theorem foldl_trimCandidate_eq_run {candidates : List (ℕ × Qty)} {st : List Fill × ℕ}
    (hnodup : (candidates.map Prod.fst).Nodup)
    (h : ∀ candidate ∈ candidates, ∃ fill, st.1[candidate.1]? = some fill ∧
      Towards orderMap market direction fill ∧ candidate.2 = fill.fillQty) :
    candidates.foldl trimCandidate st = CutDown.run (qtyTowards orderMap market direction)
      (cutCandidate orderMap market direction) 0 (candidates.map Prod.fst) st := by
  induction candidates generalizing st with
  | nil => rfl
  | cons candidate candidates ih =>
    rw [List.map_cons, List.nodup_cons] at hnodup
    obtain ⟨⟨fill, hget, hdir, hqty⟩, hrest⟩ := List.forall_mem_cons.mp h
    rw [List.foldl_cons, trimCandidate_eq_step hget hdir hqty]
    refine ih hnodup.2 fun other hother => ?_
    have hne : other.1 ≠ candidate.1 :=
      fun heq => hnodup.1 (heq ▸ List.mem_map_of_mem hother)
    rw [CutDown.getElem?_step_of_ne hne]
    exact hrest other hother

theorem mintCandidate?_eq_some {source : Fill × ℕ} :
    mintCandidate? orderMap market direction source = some candidate ↔
      Towards orderMap market direction source.1 ∧ candidate = (source.2, source.1.fillQty) := by
  unfold mintCandidate? Towards
  split
  · next hnone => simp [hnone]
  · next order hget =>
    rw [hget]
    constructor
    · intro h
      split_ifs at h with hskip
      rw [not_or, not_not, not_not] at hskip
      exact ⟨⟨order, rfl, hskip⟩, (Option.some.inj h).symm⟩
    · rintro ⟨⟨_, ⟨⟩, hmarket, hcoeff⟩, rfl⟩
      exact if_neg (by simp [hmarket, hcoeff])

theorem mem_mintCandidates :
    candidate ∈ mintCandidates orderMap market direction fills ↔
      ∃ fill, fills[candidate.1]? = some fill ∧ Towards orderMap market direction fill ∧
        candidate.2 = fill.fillQty := by
  simp only [mintCandidates, List.mem_filterMap, mintCandidate?_eq_some]
  constructor
  · rintro ⟨⟨fill, i⟩, hmem, hdir, rfl⟩
    exact ⟨fill, List.mem_zipIdx_iff_getElem?.mp hmem, hdir, rfl⟩
  · rintro ⟨fill, hget, hdir, hqty⟩
    exact ⟨(fill, candidate.1), List.mem_zipIdx_iff_getElem?.mpr hget, hdir, Prod.ext rfl hqty⟩

theorem nodup_mintCandidates (orderMap : OrdMap ℕ Order) (market : MarketId) (direction : ℤ)
    (fills : List Fill) :
    ((mintCandidates orderMap market direction fills).map Prod.fst).Nodup := by
  have hsub : ((mintCandidates orderMap market direction fills).map Prod.fst).Sublist
      (fills.zipIdx.map Prod.snd) := by
    unfold mintCandidates
    generalize fills.zipIdx = entries
    induction entries with
    | nil => exact .slnil
    | cons entry entries ih =>
      rw [List.filterMap_cons]
      cases hentry : mintCandidate? orderMap market direction entry with
      | none => exact ih.cons _
      | some candidate =>
        obtain ⟨-, rfl⟩ := mintCandidate?_eq_some.mp hentry
        exact ih.cons_cons _
  refine hsub.nodup ?_
  rw [List.zipIdx_map_snd]
  exact List.nodup_range'

/-- Trimmed, and only in the direction. -/
def TrimmedTowards (orderMap : OrdMap ℕ Order) (market : MarketId) (direction : ℤ)
    (fill trimmed : Fill) : Prop :=
  Trimmed fill trimmed ∧ (¬ Towards orderMap market direction fill → trimmed = fill)

theorem TrimmedTowards.refl (orderMap : OrdMap ℕ Order) (market : MarketId) (direction : ℤ)
    (fill : Fill) : TrimmedTowards orderMap market direction fill fill := ⟨.refl fill, fun _ => rfl⟩

theorem trimmedTowards_cutCandidate (orderMap : OrdMap ℕ Order) (market : MarketId)
    (direction : ℤ) (fill : Fill) (remaining : ℕ) :
    TrimmedTowards orderMap market direction fill
      (cutCandidate orderMap market direction fill remaining) :=
  ⟨trimmed_cutCandidate orderMap market direction fill remaining,
    fun hnot => cutCandidate_of_not_towards hnot remaining⟩

theorem TrimmedTowards.trans {c : Fill} (h : TrimmedTowards orderMap market direction a b)
    (h' : TrimmedTowards orderMap market direction b c) :
    TrimmedTowards orderMap market direction a c := by
  refine ⟨h.1.trans h'.1, fun hnot => ?_⟩
  have hb := h.2 hnot
  rw [h'.2 (hb ▸ hnot), hb]

theorem qtyTowards_neg (a b : Fill) (hdir : direction = 1 ∨ direction = -1)
    (h : TrimmedTowards orderMap market direction a b) :
    qtyTowards orderMap market (-direction) b = qtyTowards orderMap market (-direction) a := by
  by_cases hnot : Towards orderMap market direction a
  · have hneg : ∀ fill, Towards orderMap market direction fill →
        qtyTowards orderMap market (-direction) fill = 0 := by
      rintro fill ⟨order, hget, -, hcoeff⟩
      refine qtyTowards_of_not_towards ?_
      rintro ⟨order', hget', -, hcoeff'⟩
      obtain rfl : order = order' := Option.some.inj (hget.symm.trans hget')
      omega
    rw [hneg a hnot, hneg b (hnot.of_orderId h.1.orderId)]
  · rw [h.2 hnot]

theorem netDiff_trimCandidates (hunit : ∀ fill ∈ fills, UnitFill orderMap fill)
    (hdir : direction = 1 ∨ direction = -1)
    (hpos : 0 < direction * netDiff orderMap market fills) :
    let trims := ((sortByKey Prod.snd (mintCandidates orderMap market direction fills)).foldl
      trimCandidate (fills, (netDiff orderMap market fills).natAbs)).1
    List.Forall₂ (TrimmedTowards orderMap market direction) fills trims ∧
      netDiff orderMap market trims = 0 := by
  have hperm := perm_sortByKey Prod.snd (mintCandidates orderMap market direction fills)
  generalize sortByKey Prod.snd (mintCandidates orderMap market direction fills) = candidates
    at hperm
  have hmem : ∀ candidate, candidate ∈ candidates ↔ ∃ fill, fills[candidate.1]? = some fill ∧
      Towards orderMap market direction fill ∧ candidate.2 = fill.fillQty :=
    fun candidate => hperm.mem_iff.trans mem_mintCandidates
  intro trims
  have htrims : trims = (CutDown.run (qtyTowards orderMap market direction)
      (cutCandidate orderMap market direction) 0 (candidates.map Prod.fst)
      (fills, (netDiff orderMap market fills).natAbs)).1 := by
    refine congrArg Prod.fst (foldl_trimCandidate_eq_run ?_ fun candidate hcandidate =>
      (hmem candidate).mp hcandidate)
    exact (hperm.map Prod.fst).nodup_iff.mpr (nodup_mintCandidates orderMap market direction fills)
  have hrel : List.Forall₂ (TrimmedTowards orderMap market direction) fills trims := by
    rw [htrims]
    exact CutDown.forall₂_run (TrimmedTowards.refl orderMap market direction)
      (fun _ _ _ => TrimmedTowards.trans) (trimmedTowards_cutCandidate orderMap market direction) _
      (fills, _)
  refine ⟨hrel, ?_⟩
  have hnet : direction * netDiff orderMap market fills = _ := direction_mul_netDiff hunit hdir
  have hoffset : (trims.map (qtyTowards orderMap market (-direction))).sum =
      (fills.map (qtyTowards orderMap market (-direction))).sum :=
    congrArg List.sum (CutDown.map_eq_of_forall₂ (fun a b => qtyTowards_neg a b hdir) hrel)
  have htotal : (netDiff orderMap market fills).natAbs +
      (fills.map (qtyTowards orderMap market (-direction))).sum =
        (fills.map (qtyTowards orderMap market direction)).sum := by
    rcases hdir with rfl | rfl <;> omega
  have hkinds : ∀ i ∈ candidates.map Prod.fst, ∀ fill, fills[i]? = some fill →
      Towards orderMap market direction fill := by
    intro i hi fill hget
    obtain ⟨candidate, hcandidate, rfl⟩ := List.mem_map.mp hi
    obtain ⟨fill', hget', hdir', -⟩ := (hmem candidate).mp hcandidate
    obtain rfl : fill' = fill := Option.some.inj (hget'.symm.trans hget)
    exact hdir'
  have hall : ∀ i fill, fills[i]? = some fill → qtyTowards orderMap market direction fill ≠ 0 →
      i ∈ candidates.map Prod.fst := by
    intro i fill hget hqty
    have htowards : Towards orderMap market direction fill := by
      by_contra hnot
      exact hqty (qtyTowards_of_not_towards hnot)
    exact List.mem_map.mpr ⟨(i, fill.fillQty), (hmem _).mpr ⟨fill, hget, htowards, rfl⟩, rfl⟩
  obtain ⟨hsum, hle⟩ := CutDown.run_spec (cuts_cutCandidate orderMap market direction _) htotal
    hkinds hall
  have hunits : ∀ fill ∈ trims, UnitFill orderMap fill := by
    intro fill hfill
    obtain ⟨source, hsource, ht⟩ := CutDown.exists_of_forall₂_right hrel hfill
    exact (hunit source hsource).of_trimmed ht.1
  have hnet' : direction * netDiff orderMap market trims = _ := direction_mul_netDiff hunits hdir
  rw [← htrims] at hsum hle
  rcases hdir with rfl | rfl <;> omega

end Market

/-! ## All markets -/

/-- An outcome of the market has no price. -/
def ZeroPriced (clearingPrices : OrdMap MarketId (List Nanos)) (market : MarketId) : Prop :=
  priceOrZero clearingPrices market 0 = 0 ∨ priceOrZero clearingPrices market 1 = 0

/-- The imbalance of the market points to an outcome without a price. -/
def MintsAtZeroPrice (clearingPrices : OrdMap MarketId (List Nanos)) (market : MarketId)
    (diff : ℤ) : Prop :=
  (0 < diff ∧ priceOrZero clearingPrices market 0 = 0) ∨
    (diff < 0 ∧ priceOrZero clearingPrices market 1 = 0)

/-- The fill is one of the market. -/
def InMarket (orderMap : OrdMap ℕ Order) (market : MarketId) (fill : Fill) : Prop :=
  ∃ order, orderMap.get? fill.orderId = some order ∧ order.marketAt 0 = market

/-- Trimmed, and only if the fill is one of a listed market with an outcome without a price. -/
def TrimmedIn (orderMap : OrdMap ℕ Order) (clearingPrices : OrdMap MarketId (List Nanos))
    (markets : List MarketId) (fill trimmed : Fill) : Prop :=
  Trimmed fill trimmed ∧
    ((∀ market ∈ markets, InMarket orderMap market fill → ¬ ZeroPriced clearingPrices market) →
      trimmed = fill)

section Markets

variable {orderMap : OrdMap ℕ Order} {clearingPrices : OrdMap MarketId (List Nanos)}
  {market : MarketId} {fills : List Fill}

theorem zeroPriceMintDirection_eq_some {diff direction : ℤ}
    (h : zeroPriceMintDirection market diff clearingPrices = some direction) :
    (direction = 1 ∨ direction = -1) ∧ 0 < direction * diff ∧ ZeroPriced clearingPrices market := by
  unfold zeroPriceMintDirection at h
  split_ifs at h with hzero hyes hno
  · cases h
    exact ⟨.inl rfl, by omega, .inl hyes.2⟩
  · cases h
    exact ⟨.inr rfl, by omega, .inr hno.2⟩

theorem not_mintsAtZeroPrice_of_none {diff : ℤ}
    (h : zeroPriceMintDirection market diff clearingPrices = none) :
    ¬ MintsAtZeroPrice clearingPrices market diff := by
  unfold zeroPriceMintDirection at h
  split_ifs at h with hzero hyes hno
  · rintro (⟨hpos, -⟩ | ⟨hneg, -⟩) <;> omega
  · rintro (hpos | hneg)
    · exact hyes hpos
    · exact hno hneg

theorem not_mintsAtZeroPrice_zero : ¬ MintsAtZeroPrice clearingPrices market 0 := by
  rintro (⟨h, -⟩ | ⟨h, -⟩) <;> omega

theorem netUnder_of_trimmedIn {other : MarketId} (hne : other ≠ market)
    (h : TrimmedIn orderMap clearingPrices [market] a b) :
    netUnder orderMap other b = netUnder orderMap other a := by
  by_cases hin : InMarket orderMap market a
  · obtain ⟨order, hget, rfl⟩ := hin
    unfold netUnder
    rw [h.1.orderId, hget]
    dsimp only
    rw [if_neg (Ne.symm hne), if_neg (Ne.symm hne)]
  · rw [h.2 (List.forall_mem_singleton.mpr fun hmarket => absurd hmarket hin)]

theorem trimMarket_spec {entry : MarketId × ℤ} (hunit : ∀ fill ∈ fills, UnitFill orderMap fill)
    (hentry : entry.2 = netDiff orderMap entry.1 fills) :
    List.Forall₂ (TrimmedIn orderMap clearingPrices [entry.1]) fills
        (trimMarket orderMap clearingPrices fills entry) ∧
      ¬ MintsAtZeroPrice clearingPrices entry.1
        (netDiff orderMap entry.1 (trimMarket orderMap clearingPrices fills entry)) := by
  unfold trimMarket
  split
  · next hnone =>
    refine ⟨List.forall₂_same.mpr fun fill _ => ⟨.refl fill, fun _ => rfl⟩, ?_⟩
    rw [← hentry]
    exact not_mintsAtZeroPrice_of_none hnone
  · next direction hdirection =>
    obtain ⟨hdir, hpos, hpriced⟩ := zeroPriceMintDirection_eq_some hdirection
    rw [hentry] at hpos ⊢
    obtain ⟨htrims, hnet⟩ := netDiff_trimCandidates hunit hdir hpos
    constructor
    · refine htrims.imp fun a b hab => ⟨hab.1, fun hnot => hab.2 ?_⟩
      rintro ⟨order, hget, hmarket, -⟩
      exact hnot entry.1 (List.mem_singleton_self _) ⟨order, hget, hmarket⟩ hpriced
    · rw [hnet]
      exact not_mintsAtZeroPrice_zero

/-- What the pass over the markets leaves. -/
structure Cleared (orderMap : OrdMap ℕ Order) (clearingPrices : OrdMap MarketId (List Nanos))
    (markets : List MarketId) (fills trims : List Fill) : Prop where
  trimmed : List.Forall₂ (TrimmedIn orderMap clearingPrices markets) fills trims
  cleared : ∀ market ∈ markets,
    ¬ MintsAtZeroPrice clearingPrices market (netDiff orderMap market trims)
  others : ∀ market, market ∉ markets →
    netDiff orderMap market trims = netDiff orderMap market fills

theorem cleared_foldl {entries : List (MarketId × ℤ)} (hnodup : (entries.map Prod.fst).Nodup)
    (hunit : ∀ fill ∈ fills, UnitFill orderMap fill)
    (hentries : ∀ entry ∈ entries, entry.2 = netDiff orderMap entry.1 fills) :
    Cleared orderMap clearingPrices (entries.map Prod.fst) fills
      (entries.foldl (trimMarket orderMap clearingPrices) fills) := by
  induction entries generalizing fills with
  | nil =>
    exact ⟨List.forall₂_same.mpr fun fill _ => ⟨.refl fill, fun _ => rfl⟩, nofun, fun _ _ => rfl⟩
  | cons entry entries ih =>
    rw [List.map_cons, List.nodup_cons] at hnodup
    obtain ⟨hentry, hentries⟩ := List.forall_mem_cons.mp hentries
    have hspec : List.Forall₂ (TrimmedIn orderMap clearingPrices [entry.1]) fills
        (trimMarket orderMap clearingPrices fills entry) ∧ _ := trimMarket_spec hunit hentry
    rw [List.foldl_cons]
    generalize trimMarket orderMap clearingPrices fills entry = mid at hspec
    obtain ⟨htrims, hmints⟩ := hspec
    have hnet : ∀ market, market ≠ entry.1 →
        netDiff orderMap market mid = netDiff orderMap market fills :=
      fun market hne => netDiff_of_forall₂ (fun _ _ => netUnder_of_trimmedIn hne) htrims
    have hmid : ∀ fill ∈ mid, UnitFill orderMap fill := by
      intro fill hfill
      obtain ⟨source, hsource, ht⟩ := CutDown.exists_of_forall₂_right htrims hfill
      exact (hunit source hsource).of_trimmed ht.1
    have hne : ∀ other ∈ entries, other.1 ≠ entry.1 :=
      fun other hother heq => hnodup.1 (heq ▸ List.mem_map_of_mem hother)
    have hrest := ih hnodup.2 hmid fun other hother => by
      rw [hnet other.1 (hne other hother)]
      exact hentries other hother
    refine ⟨?_, ?_, ?_⟩
    · refine CutDown.forall₂_comp (fun a b c hab hbc => ?_) htrims hrest.trimmed
      refine ⟨hab.1.trans hbc.1, fun hnot => ?_⟩
      obtain ⟨hhead, htail⟩ := List.forall_mem_cons.mp hnot
      obtain rfl : b = a := hab.2 (List.forall_mem_singleton.mpr hhead)
      exact hbc.2 htail
    · intro market hmarket
      rcases List.mem_cons.mp hmarket with rfl | hmarket
      · rw [hrest.others _ hnodup.1]
        exact hmints
      · exact hrest.cleared market hmarket
    · intro market hmarket
      rw [List.map_cons, List.mem_cons, not_or] at hmarket
      rw [hrest.others market hmarket.2, hnet market hmarket.1]

/-- **No market mints at a price of zero** after the second pass, before the empty fills are
dropped. -/
theorem cleared_trimMarkets (hunit : ∀ fill ∈ fills, UnitFill orderMap fill)
    (htrims : trims = (diffByMarket orderMap fills).entries.foldl
      (trimMarket orderMap clearingPrices) fills) :
    List.Forall₂ (TrimmedIn orderMap clearingPrices (diffByMarket orderMap fills).keys)
      fills trims ∧
      ∀ market, ¬ MintsAtZeroPrice clearingPrices market (netDiff orderMap market trims) := by
  have hentries : ∀ entry ∈ (diffByMarket orderMap fills).entries,
      entry.2 = netDiff orderMap entry.1 fills := by
    rintro ⟨market, diff⟩ hentry
    rw [← get?_diffByMarket, OrdMap.mem_entries_iff.mp hentry, Option.getD_some]
  have hcleared : Cleared orderMap clearingPrices (diffByMarket orderMap fills).keys fills trims :=
    htrims ▸ cleared_foldl (OrdMap.nodup_keys _) hunit hentries
  refine ⟨hcleared.trimmed, fun market => ?_⟩
  by_cases hmarket : market ∈ (diffByMarket orderMap fills).keys
  · exact hcleared.cleared market hmarket
  · have hnone : (diffByMarket orderMap fills).get? market = none :=
      Option.eq_none_iff_forall_ne_some.mpr fun diff hdiff =>
        hmarket (OrdMap.mem_keys_iff.mpr ⟨diff, hdiff⟩)
    rw [hcleared.others market hmarket, ← get?_diffByMarket, hnone]
    exact not_mintsAtZeroPrice_zero

end Markets

/-! ## Both passes -/

/-- Capital that a fill locks under a budget. -/
def lockedBy (mm : MmConstraint) (fill : Fill) : ℕ :=
  if fill.orderId ∈ mm.orderIds then
    ((mm.orderSides.get? fill.orderId).map fun side =>
      side.capitalNeeded fill.fillPrice fill.fillQty).getD 0
  else 0

/-- Capital that the fills lock under a budget. -/
def lockedCapital (mm : MmConstraint) (fills : List Fill) : ℕ := (fills.map (lockedBy mm)).sum

section Info

variable {constraints : List MmConstraint} {mm : MmConstraint} {mmIdx orderId : ℕ} {side : MmSide}

/-- When no order is under two budgets, the index of orders says what the budgets say. -/
theorem get?_buildMmOrderInfo
    (hdisjoint : constraints.Pairwise fun a b => a.orderIds.Disjoint b.orderIds) :
    (buildMmOrderInfo constraints).get? orderId = some (mmIdx, side) ↔
      ∃ mm, constraints[mmIdx]? = some mm ∧ orderId ∈ mm.orderIds ∧
        mm.orderSides.get? orderId = some side := by
  have hmem : ∀ idx side, (orderId, (idx, side)) ∈ (constraints.zipIdx.flatMap fun entry =>
      entry.1.orderIds.filterMap fun orderId => (entry.1.orderSides.get? orderId).map fun side =>
        (orderId, (entry.2, side))) ↔ ∃ mm, constraints[idx]? = some mm ∧ orderId ∈ mm.orderIds ∧
        mm.orderSides.get? orderId = some side := by
    intro idx side
    simp only [List.mem_flatMap, List.mem_filterMap, Option.map_eq_some_iff, Prod.mk.injEq]
    constructor
    · rintro ⟨⟨mm, j⟩, hentry, _, hid, _, hside, rfl, rfl, rfl⟩
      exact ⟨mm, List.mem_zipIdx_iff_getElem?.mp hentry, hid, hside⟩
    · rintro ⟨mm, hget, hid, hside⟩
      exact ⟨(mm, idx), List.mem_zipIdx_iff_getElem?.mpr hget, orderId, hid, side, hside, rfl, rfl,
        rfl⟩
  constructor
  · intro h
    exact (hmem mmIdx side).mp (OrdMap.mem_of_get?_ofList h)
  · rintro ⟨mm, hget, hid, hside⟩
    obtain ⟨⟨idx, side'⟩, hinfo⟩ :=
      OrdMap.contains_ofList.mpr ⟨_, (hmem mmIdx side).mpr ⟨mm, hget, hid, hside⟩⟩
    obtain ⟨mm', hget', hid', hside'⟩ := (hmem idx side').mp (OrdMap.mem_of_get?_ofList hinfo)
    -- Two budgets of one order are one budget.
    have hidx : idx = mmIdx := by
      by_contra hne
      obtain ⟨hi, rfl⟩ := List.getElem?_eq_some_iff.mp hget
      obtain ⟨hj, rfl⟩ := List.getElem?_eq_some_iff.mp hget'
      rcases Nat.lt_or_gt_of_ne hne with hlt | hlt
      · exact List.pairwise_iff_getElem.mp hdisjoint idx mmIdx hj hi hlt hid' hid
      · exact List.pairwise_iff_getElem.mp hdisjoint mmIdx idx hi hj hlt hid hid'
    subst hidx
    obtain rfl : mm' = mm := Option.some.inj (hget'.symm.trans hget)
    obtain rfl : side' = side := Option.some.inj (hside'.symm.trans hside)
    exact hinfo

theorem capitalUnder_buildMmOrderInfo
    (hdisjoint : constraints.Pairwise fun a b => a.orderIds.Disjoint b.orderIds)
    (hmm : constraints[mmIdx]? = some mm) (fill : Fill) :
    capitalUnder (buildMmOrderInfo constraints) mmIdx fill = lockedBy mm fill := by
  unfold lockedBy
  split_ifs with hid
  · cases hside : mm.orderSides.get? fill.orderId with
    | some side =>
      exact capitalUnder_eq ((get?_buildMmOrderInfo hdisjoint).mpr ⟨mm, hmm, hid, hside⟩)
    | none =>
      by_contra hcapital
      obtain ⟨⟨side, hinfo⟩, -⟩ := listed_of_capitalUnder_ne_zero hcapital
      obtain ⟨mm', hmm', -, hside'⟩ := (get?_buildMmOrderInfo hdisjoint).mp hinfo
      obtain rfl : mm' = mm := Option.some.inj (hmm'.symm.trans hmm)
      rw [hside] at hside'
      cases hside'
  · by_contra hcapital
    obtain ⟨⟨side, hinfo⟩, -⟩ := listed_of_capitalUnder_ne_zero hcapital
    obtain ⟨mm', hmm', hid', -⟩ := (get?_buildMmOrderInfo hdisjoint).mp hinfo
    obtain rfl : mm' = mm := Option.some.inj (hmm'.symm.trans hmm)
    exact hid hid'

theorem usedCapital_buildMmOrderInfo
    (hdisjoint : constraints.Pairwise fun a b => a.orderIds.Disjoint b.orderIds)
    (hmm : constraints[mmIdx]? = some mm) (fills : List Fill) :
    usedCapital (buildMmOrderInfo constraints) mmIdx fills = lockedCapital mm fills :=
  congrArg List.sum (List.map_congr_left fun fill _ =>
    capitalUnder_buildMmOrderInfo hdisjoint hmm fill)

end Info

section Drop

variable {fills : List Fill}

/-- Dropping the empty fills leaves every sum over quantities. -/
theorem sum_map_filter_pos {M : Type*} [AddCommMonoid M] {f : Fill → M}
    (hzero : ∀ fill : Fill, fill.fillQty = 0 → f fill = 0) (fills : List Fill) :
    ((fills.filter fun fill => 0 < fill.fillQty).map f).sum = (fills.map f).sum := by
  induction fills with
  | nil => rfl
  | cons fill fills ih =>
    by_cases hpos : 0 < fill.fillQty
    · rw [List.filter_cons_of_pos (by simpa using hpos), List.map_cons, List.sum_cons, ih,
        List.map_cons, List.sum_cons]
    · rw [List.filter_cons_of_neg (by simpa using hpos), ih, List.map_cons, List.sum_cons,
        hzero fill (Nat.eq_zero_of_not_pos hpos), zero_add]

theorem netDiff_filter_pos (orderMap : OrdMap ℕ Order) (market : MarketId) (fills : List Fill) :
    netDiff orderMap market (fills.filter fun fill => 0 < fill.fillQty) =
      netDiff orderMap market fills := by
  refine sum_map_filter_pos (fun fill hqty => ?_) fills
  unfold netUnder
  rw [hqty]
  split
  · rfl
  · rw [Nat.cast_zero, mul_zero, ite_self]

theorem lockedBy_of_trimmed {mm : MmConstraint} (ht : Trimmed a b)
    (hfits : ∀ side, a.orderId ∈ mm.orderIds → mm.orderSides.get? a.orderId = some side →
      side.FitsCapital a.fillPrice a.fillQty) : lockedBy mm b ≤ lockedBy mm a := by
  unfold lockedBy
  rw [ht.orderId, ht.fillPrice]
  split_ifs with hid
  · cases hside : mm.orderSides.get? a.orderId with
    | none => exact le_refl _
    | some side => exact MmSide.capitalNeeded_mono (hfits side hid hside) ht.fillQty
  · exact le_refl _

theorem lockedCapital_filter_pos (mm : MmConstraint) (fills : List Fill) :
    lockedCapital mm (fills.filter fun fill => 0 < fill.fillQty) = lockedCapital mm fills := by
  refine sum_map_filter_pos (fun fill hqty => ?_) fills
  unfold lockedBy
  rw [hqty]
  split_ifs
  · cases mm.orderSides.get? fill.orderId with
    | none => rfl
    | some side => exact MmSide.capitalNeeded_zero
  · rfl

/-- The left fill is what was left of the right one. -/
def LeftOf (trimmed fill : Fill) : Prop := Trimmed fill trimmed

instance : IsTrans Fill LeftOf := ⟨fun _ _ _ h h' => Trimmed.trans h' h⟩

theorem sublist_filter_of_forall₂ {R : Fill → Fill → Prop} (hR : ∀ a b, R a b → Trimmed a b)
    (p : Fill → Bool) (h : List.Forall₂ R fills trims) :
    List.SublistForall₂ LeftOf (trims.filter p) fills := by
  induction h with
  | nil => exact .nil
  | @cons fill trimmed fills trims hrel _ ih =>
    by_cases hp : p trimmed
    · rw [List.filter_cons_of_pos hp]
      exact .cons (hR _ _ hrel) ih
    · rw [List.filter_cons_of_neg hp]
      exact .cons_right ih

theorem exists_of_leftOf (h : List.SublistForall₂ LeftOf trims fills) {trimmed : Fill}
    (hmem : trimmed ∈ trims) : ∃ fill ∈ fills, Trimmed fill trimmed := by
  induction h with
  | nil => cases hmem
  | cons hleft _ ih =>
    rcases List.mem_cons.mp hmem with rfl | hmem
    · exact ⟨_, List.mem_cons_self .., hleft⟩
    · obtain ⟨fill, hfill, ht⟩ := ih hmem
      exact ⟨fill, List.mem_cons_of_mem _ hfill, ht⟩
  | cons_right _ ih =>
    obtain ⟨fill, hfill, ht⟩ := ih hmem
    exact ⟨fill, List.mem_cons_of_mem _ hfill, ht⟩

/-- The capital of market makers' fills fits 64 bits. -/
def CapitalFits (constraints : List MmConstraint) (fills : List Fill) : Prop :=
  ∀ fill ∈ fills, ∀ mm ∈ constraints, ∀ side, fill.orderId ∈ mm.orderIds →
    mm.orderSides.get? fill.orderId = some side → side.FitsCapital fill.fillPrice fill.fillQty

theorem CapitalFits.of_leftOf {constraints : List MmConstraint} (h : CapitalFits constraints fills)
    (hleft : List.SublistForall₂ LeftOf trims fills) : CapitalFits constraints trims := by
  intro trimmed htrimmed mm hmm side hid hside
  obtain ⟨fill, hfill, ht⟩ := exists_of_leftOf hleft htrimmed
  rw [ht.orderId] at hid hside
  rw [ht.fillPrice]
  exact (h fill hfill mm hmm side hid hside).mono ht.fillQty

theorem lockedCapital_of_leftOf {constraints : List MmConstraint} {mm : MmConstraint}
    (hfits : CapitalFits constraints fills) (hmm : mm ∈ constraints)
    (h : List.SublistForall₂ LeftOf trims fills) :
    lockedCapital mm trims ≤ lockedCapital mm fills := by
  induction h with
  | nil => exact Nat.zero_le _
  | cons hleft _ ih =>
    obtain ⟨hfill, hfits⟩ := List.forall_mem_cons.mp hfits
    exact Nat.add_le_add (lockedBy_of_trimmed hleft (hfill mm hmm)) (ih hfits)
  | cons_right _ ih =>
    obtain ⟨-, hfits⟩ := List.forall_mem_cons.mp hfits
    exact (ih hfits).trans (Nat.le_add_left _ _)

end Drop

/-- What the repair of the integer solution promises. -/
structure Repaired (orders : List Order) (constraints : List MmConstraint)
    (clearingPrices : OrdMap MarketId (List Nanos)) (fills repaired : List Fill) : Prop where
  budgets : ∀ mm ∈ constraints, lockedCapital mm repaired ≤ mm.maxCapital
  /-- Prices stay and quantities never grow. -/
  shrinks : List.SublistForall₂ LeftOf repaired fills
  unchanged : ∀ fill ∈ fills, 0 < fill.fillQty →
    (∀ mm ∈ constraints, fill.orderId ∈ mm.orderIds → lockedCapital mm fills ≤ mm.maxCapital) →
    (∀ order ∈ orders, order.id = fill.orderId → ¬ ZeroPriced clearingPrices (order.marketAt 0)) →
    fill ∈ repaired
  positive : ∀ fill ∈ repaired, 0 < fill.fillQty
  cleared : ∀ market,
    ¬ MintsAtZeroPrice clearingPrices market (netDiff (orderMapOf orders) market repaired)

/-- The two passes, one after the other. -/
def repair (orders : List Order) (constraints : List MmConstraint)
    (clearingPrices : OrdMap MarketId (List Nanos)) (fills : List Fill) : List Fill :=
  trimZeroPriceMinting (orderMapOf orders) clearingPrices
    (trimMmBudgetOverflows constraints (buildMmOrderInfo constraints) fills)

section Repair

variable {orders : List Order} {constraints : List MmConstraint}
  {clearingPrices : OrdMap MarketId (List Nanos)} {fills : List Fill}

theorem mem_of_get?_orderMapOf {orderId : ℕ} {order : Order}
    (h : (orderMapOf orders).get? orderId = some order) : order ∈ orders ∧ order.id = orderId := by
  obtain ⟨order', hmem, heq⟩ := List.mem_map.mp (OrdMap.mem_of_get?_ofList h)
  cases heq
  exact ⟨hmem, rfl⟩

theorem unitFill_of_oneHot
    (hshape : ∀ order ∈ orders, ∃ outcome sells, order.BinaryOneHot outcome sells) (fill : Fill) :
    UnitFill (orderMapOf orders) fill := by
  intro order hget
  obtain ⟨outcome, sells, hone⟩ := hshape order (mem_of_get?_orderMapOf hget).1
  exact outcomeDiffCoeff_of_oneHot hone

/-- The first pass meets the budgets and leaves the fills of the makers within theirs. -/
theorem trimMmBudgetOverflows_spec
    (hdisjoint : constraints.Pairwise fun a b => a.orderIds.Disjoint b.orderIds)
    (hfits : CapitalFits constraints fills)
    (htrims : trims = trimMmBudgetOverflows constraints (buildMmOrderInfo constraints) fills) :
    (∀ mm ∈ constraints, lockedCapital mm trims ≤ mm.maxCapital) ∧
      List.SublistForall₂ LeftOf trims fills ∧
      ∀ fill ∈ fills, 0 < fill.fillQty →
        (∀ mm ∈ constraints, fill.orderId ∈ mm.orderIds →
          lockedCapital mm fills ≤ mm.maxCapital) → fill ∈ trims := by
  have hunder : ∀ fill ∈ fills, FitsUnder (buildMmOrderInfo constraints) fill := by
    intro fill hfill idx side hinfo
    obtain ⟨mm, hmm, hid, hside⟩ := (get?_buildMmOrderInfo hdisjoint).mp hinfo
    exact hfits fill hfill mm (List.mem_of_getElem? hmm) side hid hside
  have hnodup : (constraints.zipIdx.map Prod.snd).Nodup := by
    rw [List.zipIdx_map_snd]
    exact List.nodup_range'
  have hwithin := withinBudgets_foldl hnodup hunder
  rw [trimMmBudgetOverflows] at htrims
  generalize constraints.zipIdx.foldl _ fills = cut at hwithin htrims
  subst htrims
  refine ⟨fun mm hmm => ?_, sublist_filter_of_forall₂ (fun _ _ hab => hab.1) _ hwithin.trimmed,
    fun fill hfill hpos hbudgets => ?_⟩
  · obtain ⟨idx, hidx⟩ := List.mem_iff_getElem?.mp hmm
    rw [lockedCapital_filter_pos, ← usedCapital_buildMmOrderInfo hdisjoint hidx]
    exact hwithin.budgets (mm, idx) (List.mem_zipIdx_iff_getElem?.mpr hidx)
  · obtain ⟨trimmed, htrimmed, -, hsame⟩ := CutDown.exists_of_forall₂_left hwithin.trimmed hfill
    obtain rfl : trimmed = fill := by
      refine hsame ?_
      rintro ⟨mm, idx⟩ hentry ⟨side, hinfo⟩
      have hidx : constraints[idx]? = some mm := List.mem_zipIdx_iff_getElem?.mp hentry
      obtain ⟨mm', hmm', hid, -⟩ := (get?_buildMmOrderInfo hdisjoint).mp hinfo
      obtain rfl : mm' = mm := Option.some.inj (hmm'.symm.trans hidx)
      rw [usedCapital_buildMmOrderInfo hdisjoint hidx]
      exact hbudgets mm' (List.mem_of_getElem? hidx) hid
    exact List.mem_filter.mpr ⟨htrimmed, decide_eq_true hpos⟩

/-- The second pass clears the markets and leaves those whose outcomes have prices. -/
theorem trimZeroPriceMinting_spec
    (hshape : ∀ order ∈ orders, ∃ outcome sells, order.BinaryOneHot outcome sells)
    (htrims : trims = trimZeroPriceMinting (orderMapOf orders) clearingPrices fills) :
    (∀ market, ¬ MintsAtZeroPrice clearingPrices market
        (netDiff (orderMapOf orders) market trims)) ∧
      List.SublistForall₂ LeftOf trims fills ∧
      ∀ fill ∈ fills, 0 < fill.fillQty →
        (∀ order ∈ orders, order.id = fill.orderId →
          ¬ ZeroPriced clearingPrices (order.marketAt 0)) → fill ∈ trims := by
  have hspec : List.Forall₂ (TrimmedIn (orderMapOf orders) clearingPrices _) fills _ ∧ _ :=
    cleared_trimMarkets (fun fill _ => unitFill_of_oneHot hshape fill) rfl
  obtain ⟨hrel, hcleared⟩ := hspec
  rw [trimZeroPriceMinting] at htrims
  generalize (diffByMarket (orderMapOf orders) fills).entries.foldl _ fills = cut
    at hrel hcleared htrims
  subst htrims
  refine ⟨fun market => ?_, sublist_filter_of_forall₂ (fun _ _ hab => hab.1) _ hrel,
    fun fill hfill hpos hpriced => ?_⟩
  · rw [netDiff_filter_pos]
    exact hcleared market
  · obtain ⟨trimmed, htrimmed, -, hsame⟩ := CutDown.exists_of_forall₂_left hrel hfill
    obtain rfl : trimmed = fill := by
      refine hsame ?_
      rintro _ - ⟨order, hget, rfl⟩
      obtain ⟨horder, hid⟩ := mem_of_get?_orderMapOf hget
      exact hpriced order horder hid
    exact List.mem_filter.mpr ⟨htrimmed, decide_eq_true hpos⟩

/-- **The integer repair**: budgets are met, no market mints at a price of zero, quantities only
shrink and the fills that need no repair stay; and a fill that can meet the budget alone loses as
few units as possible. -/
theorem repair_meets_budgets_and_clears_zero_prices
    (hshape : ∀ order ∈ orders, ∃ outcome sells, order.BinaryOneHot outcome sells)
    (hdisjoint : constraints.Pairwise fun a b => a.orderIds.Disjoint b.orderIds)
    (hfits : CapitalFits constraints fills) :
    Repaired orders constraints clearingPrices fills
        (repair orders constraints clearingPrices fills) ∧
      ∀ (side : MmSide) (price : Nanos) (qty : Qty) (others budget : ℕ),
        side.FitsCapital price qty →
        (∃ trim ≤ qty, others + side.capitalNeeded price (qty - trim) ≤ budget) →
        IsLeast {trim | trim ≤ qty ∧ others + side.capitalNeeded price (qty - trim) ≤ budget}
          (trimQtyToFitBudget side price qty (others + side.capitalNeeded price qty) budget) := by
  refine ⟨?_, fun side price qty others budget => isLeast_trimQtyToFitBudget⟩
  obtain ⟨hbudgets, hleft, hkept⟩ := trimMmBudgetOverflows_spec hdisjoint hfits rfl
  have hmid := hfits.of_leftOf hleft
  have hrepair : repair orders constraints clearingPrices fills = trimZeroPriceMinting
      (orderMapOf orders) clearingPrices
        (trimMmBudgetOverflows constraints (buildMmOrderInfo constraints) fills) := rfl
  obtain ⟨hcleared, hleft', hkept'⟩ := trimZeroPriceMinting_spec hshape hrepair
  exact {
    budgets := fun mm hmm => (lockedCapital_of_leftOf hmid hmm hleft').trans (hbudgets mm hmm)
    shrinks := IsTrans.trans _ _ _ hleft' hleft
    unchanged := fun fill hfill hpos hbudget hpriced =>
      hkept' fill (hkept fill hfill hpos hbudget) hpos hpriced
    positive := fun fill hfill => of_decide_eq_true (List.mem_filter.mp hfill).2
    cleared := hcleared }

end Repair

/-! ## Examples -/

/-- A bid of a dollar for an outcome of a market. -/
def outcomeBid (id : ℕ) (market : MarketId) (outcome : Fin 2) : Order :=
  { Order.new id with
    markets := (Vector.replicate 5 MarketId.none).set 0 market Order.firstMarket_lt
    numMarkets := 1
    payoffs := (Vector.replicate 32 0).set outcome 1 (Order.state_lt outcome)
    numStates := 2
    limitPrice := nanosPerDollar
    maxFill := 5000 }

theorem oneHot_outcomeBid (id : ℕ) (market : MarketId) (outcome : Fin 2) :
    (outcomeBid id market outcome).BinaryOneHot outcome false := by
  refine ⟨rfl, rfl, ?_, ?_, ?_⟩
  · omega
  · fin_cases outcome <;> rfl
  · fin_cases outcome <;> rfl

/-- Half a dollar for each outcome of the first market, and nothing for YES of the second. -/
def mixedPrices : OrdMap MarketId (List Nanos) :=
  OrdMap.ofList [(0, [500000000, 500000000]), (1, [0, 1000000000])]

/-- The budgets of two market makers with an order each. -/
def makerBudgets : List MmConstraint :=
  [(MmConstraint.new 0 1000000).addOrder 7 .buyYes, (MmConstraint.new 1 1000000).addOrder 8 .buyNo]

/-- Bids of the makers for both outcomes of the first market, and of somebody else for YES of the
second. -/
def mixedBids : List Order := [outcomeBid 7 0 0, outcomeBid 8 0 1, outcomeBid 9 1 0]

def mixedFills : List Fill := [⟨7, 3, 500000000, 0⟩, ⟨8, 2, 500000000, 0⟩, ⟨9, 4, 0, 0⟩]

/-- The first maker is above the budget and loses a unit, the second meets it exactly; the bid
for the worthless outcome goes. -/
theorem repair_of_overrun_budget :
    repair mixedBids makerBudgets mixedPrices mixedFills =
        [⟨7, 2, 500000000, 0⟩, ⟨8, 2, 500000000, 0⟩] ∧
      Repaired mixedBids makerBudgets mixedPrices mixedFills
        (repair mixedBids makerBudgets mixedPrices mixedFills) := by
  have hfits : ∀ fill ∈ mixedFills, ∀ mm ∈ makerBudgets,
      ∀ side ∈ mm.orderSides.get? fill.orderId,
        (side.pricePerShare fill.fillPrice * fill.fillQty + (shareScale - 1)) / shareScale <
          2 ^ 64 := by decide +kernel
  refine ⟨by decide +kernel, (repair_meets_budgets_and_clears_zero_prices ?_ ?_ ?_).1⟩
  · intro order horder
    simp only [mixedBids, List.mem_cons, List.not_mem_nil, or_false] at horder
    rcases horder with rfl | rfl | rfl <;> exact ⟨_, _, oneHot_outcomeBid _ _ _⟩
  · exact List.pairwise_pair.mpr (List.disjoint_singleton.mpr (by decide))
  · exact fun fill hfill mm hmm side _ hside => hfits fill hfill mm hmm side hside

/-- **An empty fill does not stay**: no budget and no price asks for a repair, and the fill of
quantity zero is dropped. -/
theorem repair_drops_empty_fill :
    ¬ ZeroPriced mixedPrices ((outcomeBid 7 0 0).marketAt 0) ∧
      repair [outcomeBid 7 0 0] [] mixedPrices [⟨7, 0, 500000000, 0⟩] = [] := by
  refine ⟨?_, by decide⟩
  rintro (h | h) <;> revert h <;> decide

end Sybil.Solver
