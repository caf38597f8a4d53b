import Sybil.Lib.FoldFrames
import Sybil.Solver.Problem

/-!
# Integer prices that support the fills

Prices come out of the solver as floating-point duals, and rounding one can move it across the
limit of an order that was filled at it.  `integerSupportingYesPrices` takes the rounded prices
and the rounded fills and moves the prices back: every market has an interval of YES prices that
all its filled orders accept, and its price is clamped into it.  The YES prices of a group may
not exceed a dollar in total, so what the clamping put on top is taken away again, from the
market with the most room first.

A group in which this cannot work keeps its prices, and the verifier will see it.  The duals and
the rounding itself are left out: the rounded prices and quantities are arguments.
-/

namespace Sybil.Solver

open Engine

open Verifier (sortByKey perm_sortByKey)

variable {group : ℕ} {market : MarketId} {markets : List MarketId}

/-! ## The algorithm -/

/-- Tighten the interval of the market of a filled order. -/
def tightenBounds (bounds : OrdMap MarketId (Nanos × Nanos)) (entry : Qty × Order) :
    OrdMap MarketId (Nanos × Nanos) :=
  let order := entry.2
  if entry.1 < 1 ∨ order.numMarkets ≠ 1 ∨ order.numStates ≠ 2 then bounds
  else
    match bounds.get? (order.marketAt 0) with
    | none => bounds
    | some (lower, upper) =>
      let limit := min order.limitPrice nanosPerDollar
      let complementaryLimit := nanosPerDollar - limit
      bounds.insert (order.marketAt 0)
        (if order.payoffAt 0 ≠ 0 then
          if order.isSeller then (max lower limit, upper) else (lower, min upper limit)
        else if order.isSeller then (lower, min upper complementaryLimit)
        else (max lower complementaryLimit, upper))

/-- The interval of every market. -/
def supportBounds (quantities : List Qty) (orders : List Order) (markets : List MarketId) :
    OrdMap MarketId (Nanos × Nanos) :=
  (quantities.zip orders).foldl tightenBounds
    (OrdMap.ofList (markets.map fun market => (market, (0, nanosPerDollar))))

/-- The price of a market, zero when it is missing, moved into an interval. -/
def clampedPrice (prices : OrdMap MarketId Nanos) (market : MarketId) (bounds : Nanos × Nanos) :
    Nanos :=
  max bounds.1 (min bounds.2 ((prices.get? market).getD 0))

/-- Clamp the price of a market without a group, if its interval is not empty. -/
def clampMarket (ctx : SolverContext) (bounds : OrdMap MarketId (Nanos × Nanos))
    (prices : OrdMap MarketId Nanos) (market : MarketId) : OrdMap MarketId Nanos :=
  if ctx.marketToGroup.contains market then prices
  else
    match bounds.get? market with
    | none => prices
    | some interval =>
      if interval.1 ≤ interval.2 then prices.insert market (clampedPrice prices market interval)
      else prices

/-- A market of a group with its clamped price and its lower bound. -/
structure Candidate where
  market : MarketId
  price : ℕ
  lower : ℕ
  deriving DecidableEq, Repr

variable {candidates : List Candidate}

/-- The candidate of a market; none when its interval is empty. -/
def candidate? (bounds : OrdMap MarketId (Nanos × Nanos)) (prices : OrdMap MarketId Nanos)
    (market : MarketId) : Option Candidate :=
  match bounds.get? market with
  | none => none
  | some interval =>
    if interval.2 < interval.1 then none
    else some ⟨market, clampedPrice prices market interval, interval.1⟩

/-- Take the excess away, candidate by candidate; the rest of the excess is returned too. -/
def reduceExcess : ℕ → List Candidate → ℕ × List Candidate
  | excess, [] => (excess, [])
  | excess, c :: candidates =>
    let reduction := min excess (c.price - c.lower)
    let reduced := { c with price := c.price - reduction }
    if excess - reduction = 0 then (0, reduced :: candidates)
    else
      let rest := reduceExcess (excess - reduction) candidates
      (rest.1, reduced :: rest.2)

/-- The candidate with the most room first, then in the order of the markets. -/
def sortCandidates (candidates : List Candidate) : List Candidate :=
  sortByKey (fun c => toLex (OrderDual.toDual (c.price - c.lower), c.market)) candidates

/-- The markets of a group, in the order of the context. -/
def groupedMarkets (ctx : SolverContext) (group : ℕ) : List MarketId :=
  ctx.markets.filter fun market => ctx.marketToGroup.get? market = some group

/-- Move the prices of a group. -/
def supportGroup (ctx : SolverContext) (bounds : OrdMap MarketId (Nanos × Nanos))
    (prices : OrdMap MarketId Nanos) (group : ℕ) : OrdMap MarketId Nanos :=
  match (groupedMarkets ctx group).mapM (candidate? bounds prices) with
  | none => prices
  | some candidates =>
    let sum := (candidates.map Candidate.price).sum
    let reduced := reduceExcess (sum - nanosPerDollar) (sortCandidates candidates)
    if reduced.1 = 0 then
      reduced.2.foldl (fun prices c => prices.insert c.market c.price) prices
    else prices

/-- Move the rounded prices to prices that support the fills. -/
def integerSupportingYesPrices (quantities : List Qty) (orders : List Order) (ctx : SolverContext)
    (prices : OrdMap MarketId Nanos) : OrdMap MarketId Nanos :=
  let bounds := supportBounds quantities orders ctx.markets
  (List.range ctx.numGroups).foldl (supportGroup ctx bounds)
    (ctx.markets.foldl (clampMarket ctx bounds) prices)

/-! ## Intervals -/

/-- The price of the traded outcome at a YES price. -/
def fillPriceAt (order : Order) (yesPrice : Nanos) : Nanos :=
  if order.payoffAt 0 ≠ 0 then yesPrice else nanosPerDollar - yesPrice

/-- The YES prices that an order accepts, as an interval. -/
def acceptedYes (order : Order) : Nanos × Nanos :=
  let limit := min order.limitPrice nanosPerDollar
  if order.payoffAt 0 ≠ 0 then
    if order.isSeller then (limit, nanosPerDollar) else (0, limit)
  else if order.isSeller then
    (0, nanosPerDollar - limit) else (nanosPerDollar - limit, nanosPerDollar)

/-- The filled orders of a market. -/
def filledOn (entries : List (Qty × Order)) (market : MarketId) : List Order :=
  (entries.filter fun entry => ¬ (entry.1 < 1 ∨ entry.2.numMarkets ≠ 1 ∨ entry.2.numStates ≠ 2) ∧
    entry.2.marketAt 0 = market).map Prod.snd

/-- The intersection of the intervals of some orders. -/
def supportInterval (orders : List Order) : Nanos × Nanos :=
  orders.foldl (fun interval order =>
    (max interval.1 (acceptedYes order).1, min interval.2 (acceptedYes order).2))
    (0, nanosPerDollar)

section Interval

variable {entries : List (Qty × Order)} {order : Order} {price : Nanos}

theorem supportInterval_concat (orders : List Order) (order : Order) :
    supportInterval (orders ++ [order]) =
      (max (supportInterval orders).1 (acceptedYes order).1,
        min (supportInterval orders).2 (acceptedYes order).2) := by
  rw [supportInterval, List.foldl_append]
  rfl

theorem supportInterval_snd_le (orders : List Order) :
    (supportInterval orders).2 ≤ nanosPerDollar := by
  induction orders using List.reverseRecOn with
  | nil => exact le_refl _
  | append_singleton orders order ih =>
    rw [supportInterval_concat]
    exact (min_le_left _ _).trans ih

/-- A price lies in the interval exactly when it lies in that of every order. -/
theorem mem_supportInterval {orders : List Order} :
    (supportInterval orders).1 ≤ price ∧ price ≤ (supportInterval orders).2 ↔
      price ≤ nanosPerDollar ∧
        ∀ order ∈ orders, (acceptedYes order).1 ≤ price ∧ price ≤ (acceptedYes order).2 := by
  induction orders using List.reverseRecOn with
  | nil => simp [supportInterval]
  | append_singleton orders order ih =>
    rw [supportInterval_concat, List.forall_mem_append, List.forall_mem_singleton, max_le_iff,
      le_min_iff, and_and_and_comm, ih, and_assoc]

/-- A price of a market is accepted by an order exactly when it lies in the order's interval. -/
theorem mem_acceptedYes (hlimit : order.limitPrice ≤ nanosPerDollar)
    (hprice : price ≤ nanosPerDollar) :
    (acceptedYes order).1 ≤ price ∧ price ≤ (acceptedYes order).2 ↔
      order.isSatisfiedAtPrice (fillPriceAt order price) = true := by
  have hmin : min order.limitPrice nanosPerDollar = order.limitPrice := min_eq_left hlimit
  -- A limit of the NO side, as one of the YES side.
  have hno : ∀ limit price dollar : ℕ, limit ≤ dollar → price ≤ dollar →
      ((0 ≤ price ∧ price ≤ dollar - limit) ↔ limit ≤ dollar - price) ∧
        ((dollar - limit ≤ price ∧ price ≤ dollar) ↔ dollar - price ≤ limit) := by omega
  obtain ⟨hsell, hbuy⟩ := hno _ _ _ hlimit hprice
  unfold acceptedYes Order.isSatisfiedAtPrice fillPriceAt
  dsimp only
  rw [hmin]
  split_ifs with hyes hseller hseller
  · rw [decide_eq_true_eq]
    exact and_iff_left hprice
  · rw [decide_eq_true_eq]
    exact and_iff_right (Nat.zero_le _)
  · rwa [decide_eq_true_eq]
  · rwa [decide_eq_true_eq]

theorem filledOn_concat (entries : List (Qty × Order)) (entry : Qty × Order) (market : MarketId) :
    filledOn (entries ++ [entry]) market = filledOn entries market ++ filledOn [entry] market := by
  rw [filledOn, List.filter_append, List.map_append]
  rfl

theorem filledOn_singleton (qty : Qty) (order : Order) (market : MarketId) :
    filledOn [(qty, order)] market =
      if ¬ (qty < 1 ∨ order.numMarkets ≠ 1 ∨ order.numStates ≠ 2) ∧ order.marketAt 0 = market
        then [order] else [] := by
  rw [filledOn, List.filter_singleton]
  split_ifs with h
  · rw [decide_eq_true h]
    rfl
  · rw [decide_eq_false h]
    rfl

/-- **The table of intervals**: the interval of a market is that of its filled orders. -/
theorem get?_supportBounds {quantities : List Qty} {orders : List Order}
    (hmarket : market ∈ markets) :
    (supportBounds quantities orders markets).get? market =
      some (supportInterval (filledOn (quantities.zip orders) market)) := by
  unfold supportBounds
  induction quantities.zip orders using List.reverseRecOn with
  | nil =>
    obtain ⟨interval, hget⟩ := OrdMap.contains_ofList.mpr
      ⟨_, List.mem_map_of_mem (f := fun market => (market, ((0 : Nanos), nanosPerDollar))) hmarket⟩
    obtain ⟨_, -, heq⟩ := List.mem_map.mp (OrdMap.mem_of_get?_ofList hget)
    cases heq
    exact hget
  | append_singleton entries entry ih =>
    rw [List.foldl_append, List.foldl_cons, List.foldl_nil, filledOn_concat]
    generalize entries.foldl tightenBounds _ = bounds at ih ⊢
    obtain ⟨qty, order⟩ := entry
    unfold tightenBounds
    dsimp only
    by_cases hskip : qty < 1 ∨ order.numMarkets ≠ 1 ∨ order.numStates ≠ 2
    · have hnone : filledOn [(qty, order)] market = [] := by
        rw [filledOn_singleton, if_neg fun h => h.1 hskip]
      rw [if_pos hskip, hnone, List.append_nil]
      exact ih
    · rw [if_neg hskip]
      by_cases hown : order.marketAt 0 = market
      · have hone : filledOn [(qty, order)] market = [order] := by
          rw [filledOn_singleton, if_pos ⟨hskip, hown⟩]
        have hupper := supportInterval_snd_le (filledOn entries market)
        rw [hown, ih, hone, supportInterval_concat]
        dsimp only
        rw [OrdMap.get?_insert_self]
        unfold acceptedYes
        dsimp only
        split_ifs <;> simp [hupper]
      · have hnone : filledOn [(qty, order)] market = [] := by
          rw [filledOn_singleton, if_neg fun h => hown h.2]
        rw [hnone, List.append_nil]
        cases bounds.get? (order.marketAt 0) with
        | none => exact ih
        | some interval =>
          dsimp only
          rw [OrdMap.get?_insert_of_ne (Ne.symm hown)]
          exact ih

end Interval

/-! ## Taking the excess away -/

/-- What the reduction leaves. -/
structure Reduced (excess : ℕ) (candidates : List Candidate) (out : ℕ × List Candidate) :
    Prop where
  markets : out.2.map Candidate.market = candidates.map Candidate.market
  lowers : out.2.map Candidate.lower = candidates.map Candidate.lower
  /-- A price moves down, and not below the bound. -/
  moves : ∀ c' ∈ out.2, ∃ c ∈ candidates, c'.market = c.market ∧ c'.lower = c.lower ∧
    c.lower ≤ c'.price ∧ c'.price ≤ c.price
  total : (out.2.map Candidate.price).sum + excess = (candidates.map Candidate.price).sum + out.1
  left : out.1 ≤ excess
  /-- Some excess is left only when no candidate has any room. -/
  ends : out.1 = 0 ∨ (out.2.map Candidate.price).sum = (candidates.map Candidate.lower).sum

theorem reduced_reduceExcess (hroom : ∀ c ∈ candidates, c.lower ≤ c.price) (excess : ℕ) :
    Reduced excess candidates (reduceExcess excess candidates) := by
  induction candidates generalizing excess with
  | nil => exact ⟨rfl, rfl, nofun, rfl, le_refl _, .inr rfl⟩
  | cons c candidates ih =>
    obtain ⟨hc, hrest⟩ := List.forall_mem_cons.mp hroom
    have hown : ∀ reduction : ℕ, reduction ≤ c.price - c.lower →
        c.lower ≤ c.price - reduction ∧ c.price - reduction ≤ c.price := by
      intro reduction hle
      omega
    unfold reduceExcess
    dsimp only
    generalize hreduction : min excess (c.price - c.lower) = reduction
    have hle : reduction ≤ c.price - c.lower := hreduction ▸ min_le_right _ _
    have hle' : reduction ≤ excess := hreduction ▸ min_le_left _ _
    split_ifs with hdone
    · refine ⟨rfl, rfl, ?_, ?_, Nat.zero_le _, .inl rfl⟩
      · refine List.forall_mem_cons.mpr
          ⟨⟨c, List.mem_cons_self .., rfl, rfl, hown reduction hle⟩, ?_⟩
        exact fun c' hc' => ⟨c', List.mem_cons_of_mem _ hc', rfl, rfl, hrest c' hc', le_refl _⟩
      · simp only [List.map_cons, List.sum_cons]
        omega
    · have hih := ih hrest (excess - reduction)
      generalize reduceExcess (excess - reduction) candidates = rest at hih ⊢
      -- The whole room of this candidate is used up.
      have hall : reduction = c.price - c.lower := by
        rcases min_choice excess (c.price - c.lower) with h | h
        · omega
        · exact hreduction.symm.trans h
      have hlower : c.price - reduction = c.lower := by
        rw [hall]
        exact Nat.sub_sub_self hc
      refine ⟨?_, ?_, ?_, ?_, hih.left.trans (Nat.sub_le _ _), hih.ends.imp_right fun hsum => ?_⟩
      · exact congrArg (c.market :: ·) hih.markets
      · exact congrArg (c.lower :: ·) hih.lowers
      · refine List.forall_mem_cons.mpr
          ⟨⟨c, List.mem_cons_self .., rfl, rfl, hown reduction hle⟩, ?_⟩
        intro c' hc'
        obtain ⟨source, hsource, hmoves⟩ := hih.moves c' hc'
        exact ⟨source, List.mem_cons_of_mem _ hsource, hmoves⟩
      · have htotal := hih.total
        simp only [List.map_cons, List.sum_cons]
        omega
      · simp only [List.map_cons, List.sum_cons]
        rw [hsum, hlower]

/-! ## One group -/

section Group

variable {ctx : SolverContext} {bounds : OrdMap MarketId (Nanos × Nanos)}
  {prices : OrdMap MarketId Nanos} {interval : MarketId → Nanos × Nanos}

theorem clampedPrice_mem {bound : Nanos × Nanos} (h : bound.1 ≤ bound.2) :
    bound.1 ≤ clampedPrice prices market bound ∧ clampedPrice prices market bound ≤ bound.2 :=
  ⟨le_max_left _ _, max_le h (min_le_left _ _)⟩

/-- The lowest price of a market in its interval. -/
def lowerOf (interval : MarketId → Nanos × Nanos) (market : MarketId) : ℕ := (interval market).1

/-- A group has prices that support its fills. -/
def Feasible (interval : MarketId → Nanos × Nanos) (markets : List MarketId) : Prop :=
  (∀ market ∈ markets, (interval market).1 ≤ (interval market).2) ∧
    (markets.map (lowerOf interval)).sum ≤ nanosPerDollar

/-- The candidate of a market with a non-empty interval. -/
def candidateOf (interval : MarketId → Nanos × Nanos) (prices : OrdMap MarketId Nanos)
    (market : MarketId) : Candidate :=
  ⟨market, clampedPrice prices market (interval market), (interval market).1⟩

theorem candidate?_eq (hbound : bounds.get? market = some (interval market)) :
    candidate? bounds prices market =
      if (interval market).2 < (interval market).1 then none
      else some (candidateOf interval prices market) := by
  rw [candidate?, hbound]
  rfl

theorem mapM_candidate?_of_nonempty
    (hbounds : ∀ market ∈ markets, bounds.get? market = some (interval market))
    (hnonempty : ∀ market ∈ markets, (interval market).1 ≤ (interval market).2) :
    markets.mapM (candidate? bounds prices) = some (markets.map (candidateOf interval prices)) := by
  refine mapM_eq_some_map fun market hmarket => ?_
  rw [candidate?_eq (hbounds market hmarket), if_neg (Nat.not_lt.mpr (hnonempty market hmarket))]

theorem nonempty_of_mapM_candidate?
    (hbounds : ∀ market ∈ markets, bounds.get? market = some (interval market))
    (h : markets.mapM (candidate? bounds prices) = some candidates) :
    ∀ market ∈ markets, (interval market).1 ≤ (interval market).2 := by
  induction markets generalizing candidates with
  | nil => exact fun _ => nofun
  | cons market markets ih =>
    obtain ⟨hbound, hrest⟩ := List.forall_mem_cons.mp hbounds
    rw [List.mapM_cons, candidate?_eq hbound] at h
    split_ifs at h with hempty
    · cases h
    · obtain ⟨_, -, h⟩ := Option.bind_eq_some_iff.mp h
      obtain ⟨rest, hmap, -⟩ := Option.bind_eq_some_iff.mp h
      exact List.forall_mem_cons.mpr ⟨Nat.le_of_not_lt hempty, ih hrest hmap⟩

theorem get?_foldl_insert (hnodup : (candidates.map Candidate.market).Nodup) {c : Candidate}
    (hc : c ∈ candidates) (prices : OrdMap MarketId Nanos) :
    (candidates.foldl (fun prices c => prices.insert c.market c.price) prices).get? c.market =
      some c.price := by
  have hframe : ∀ (m : OrdMap MarketId Nanos) (c : Candidate) (k : MarketId), ¬ k = c.market →
      (m.insert c.market c.price).get? k = m.get? k := fun m c k hk => OrdMap.get?_insert_of_ne hk
  obtain ⟨mid, -, hget⟩ := OrdMap.exists_step_of_mem (fun (c : Candidate) k => k = c.market)
    hframe hc hnodup.of_map (fun other hother hne k hk hk' =>
      hne (List.inj_on_of_nodup_map hnodup hother hc (hk'.symm.trans hk))) prices
  rw [hget c.market rfl, OrdMap.get?_insert_self]

/-- What the reduction makes of the candidates of a group. -/
structure ReducedGroup (interval : MarketId → Nanos × Nanos) (markets : List MarketId)
    (out : ℕ × List Candidate) : Prop where
  perm : (out.2.map Candidate.market).Perm markets
  within : ∀ c ∈ out.2, (interval c.market).1 ≤ c.price ∧ c.price ≤ (interval c.market).2
  done : out.1 = 0 ↔ (markets.map (lowerOf interval)).sum ≤ nanosPerDollar
  capped : out.1 = 0 → (out.2.map Candidate.price).sum ≤ nanosPerDollar

theorem reducedGroup (prices : OrdMap MarketId Nanos)
    (hnonempty : ∀ market ∈ markets, (interval market).1 ≤ (interval market).2) :
    ReducedGroup interval markets (reduceExcess
      (((markets.map (candidateOf interval prices)).map Candidate.price).sum - nanosPerDollar)
      (sortCandidates (markets.map (candidateOf interval prices)))) := by
  have hperm : (sortCandidates (markets.map (candidateOf interval prices))).Perm
      (markets.map (candidateOf interval prices)) := perm_sortByKey _ _
  generalize sortCandidates (markets.map (candidateOf interval prices)) = sorted at hperm
  have hmem : ∀ c ∈ sorted, ∃ market ∈ markets, c = candidateOf interval prices market := by
    intro c hc
    obtain ⟨market, hmarket, rfl⟩ := List.mem_map.mp (hperm.mem_iff.mp hc)
    exact ⟨market, hmarket, rfl⟩
  have hclamped : ∀ market ∈ markets,
      (interval market).1 ≤ (candidateOf interval prices market).price ∧
        (candidateOf interval prices market).price ≤ (interval market).2 :=
    fun market hmarket => clampedPrice_mem (hnonempty market hmarket)
  have hroom : ∀ c ∈ sorted, c.lower ≤ c.price := by
    intro c hc
    obtain ⟨market, hmarket, rfl⟩ := hmem c hc
    exact (hclamped market hmarket).1
  rw [← (hperm.map Candidate.price).sum_eq]
  generalize hexcess : (sorted.map Candidate.price).sum - nanosPerDollar = excess
  have hreduced := reduced_reduceExcess hroom excess
  generalize reduceExcess excess sorted = out at hreduced
  have hlower : (sorted.map Candidate.lower).sum =
      (markets.map (lowerOf interval)).sum := by
    rw [(hperm.map Candidate.lower).sum_eq, List.map_map]
    rfl
  have hwithin : ∀ c ∈ out.2, (interval c.market).1 ≤ c.price ∧
      c.price ≤ (interval c.market).2 := by
    intro c hc
    obtain ⟨source, hsource, hmarket, -, hlow, hhigh⟩ := hreduced.moves c hc
    obtain ⟨market, hmem, rfl⟩ := hmem source hsource
    rw [hmarket]
    exact ⟨hlow, hhigh.trans (hclamped market hmem).2⟩
  have hbelow : (sorted.map Candidate.lower).sum ≤ (out.2.map Candidate.price).sum := by
    rw [← hreduced.lowers]
    refine List.sum_le_sum fun c hc => ?_
    obtain ⟨source, -, -, hsame, hlow, -⟩ := hreduced.moves c hc
    exact hsame.trans_le hlow
  have htotal := hreduced.total
  have hleft := hreduced.left
  refine ⟨?_, hwithin, ?_, fun hdone => ?_⟩
  · rw [hreduced.markets]
    refine (hperm.map Candidate.market).trans ?_
    rw [List.map_map]
    exact List.Perm.of_eq (List.map_id markets)
  · rw [← hlower]
    constructor
    · intro hdone
      omega
    · intro hle
      rcases hreduced.ends with hdone | hstuck
      · exact hdone
      · omega
  · omega

theorem nodup_groupedMarkets (hnodup : ctx.markets.Nodup) (group : ℕ) :
    (groupedMarkets ctx group).Nodup := hnodup.filter _

variable
  (hbounds : ∀ market ∈ groupedMarkets ctx group, bounds.get? market = some (interval market))

include hbounds

/-- A group that is not feasible keeps its prices. -/
theorem supportGroup_of_not_feasible (h : ¬ Feasible interval (groupedMarkets ctx group)) :
    supportGroup ctx bounds prices group = prices := by
  unfold supportGroup
  by_cases hnonempty : ∀ market ∈ groupedMarkets ctx group,
      (interval market).1 ≤ (interval market).2
  · rw [mapM_candidate?_of_nonempty hbounds hnonempty]
    dsimp only
    rw [if_neg]
    exact fun hdone => h ⟨hnonempty, (reducedGroup prices hnonempty).done.mp hdone⟩
  · split
    · rfl
    · next candidates hmap => exact absurd (nonempty_of_mapM_candidate? hbounds hmap) hnonempty

/-- A feasible group is written back as it was reduced. -/
theorem exists_reducedGroup (prices : OrdMap MarketId Nanos)
    (h : Feasible interval (groupedMarkets ctx group)) :
    ∃ out, ReducedGroup interval (groupedMarkets ctx group) out ∧ out.1 = 0 ∧
      supportGroup ctx bounds prices group =
        out.2.foldl (fun prices c => prices.insert c.market c.price) prices := by
  have hreduced := reducedGroup prices h.1
  have hdone := hreduced.done.mpr h.2
  refine ⟨_, hreduced, hdone, ?_⟩
  unfold supportGroup
  rw [mapM_candidate?_of_nonempty hbounds h.1]
  exact if_pos hdone

/-- **A feasible group** gets prices in the intervals of its markets, at most a dollar in total. -/
theorem supportGroup_of_feasible (hnodup : ctx.markets.Nodup)
    (h : Feasible interval (groupedMarkets ctx group)) :
    (∀ market ∈ groupedMarkets ctx group, ∃ price,
        (supportGroup ctx bounds prices group).get? market = some price ∧
          (interval market).1 ≤ price ∧ price ≤ (interval market).2) ∧
      ((groupedMarkets ctx group).map fun market =>
        ((supportGroup ctx bounds prices group).get? market).getD 0).sum ≤ nanosPerDollar := by
  obtain ⟨out, hreduced, hdone, hprices⟩ := exists_reducedGroup hbounds prices h
  rw [hprices]
  have hdistinct : (out.2.map Candidate.market).Nodup :=
    hreduced.perm.nodup_iff.mpr (nodup_groupedMarkets hnodup group)
  constructor
  · intro market hmarket
    obtain ⟨c, hc, rfl⟩ := List.mem_map.mp (hreduced.perm.mem_iff.mpr hmarket)
    exact ⟨c.price, get?_foldl_insert hdistinct hc prices, hreduced.within c hc⟩
  · rw [← (hreduced.perm.map _).sum_eq, List.map_map]
    refine (congrArg List.sum (List.map_congr_left fun c hc => ?_)).trans_le
      (hreduced.capped hdone)
    show (OrdMap.get? _ c.market).getD 0 = c.price
    rw [get?_foldl_insert hdistinct hc prices, Option.getD_some]

theorem get?_supportGroup_of_not_mem
    (hmarket : market ∉ groupedMarkets ctx group) :
    (supportGroup ctx bounds prices group).get? market = prices.get? market := by
  by_cases h : Feasible interval (groupedMarkets ctx group)
  · obtain ⟨out, hreduced, -, hprices⟩ := exists_reducedGroup hbounds prices h
    rw [hprices]
    refine OrdMap.get?_foldl_of_untouched (fun (c : Candidate) k => k = c.market)
      (fun m c k hk => OrdMap.get?_insert_of_ne hk) (fun c hc heq => hmarket ?_) prices
    rw [heq]
    exact hreduced.perm.mem_iff.mp (List.mem_map_of_mem hc)
  · rw [supportGroup_of_not_feasible hbounds h]

end Group

/-! ## All markets -/

/-- The interval of a market: the YES prices that all its filled orders accept. -/
def intervalOf (quantities : List Qty) (orders : List Order) (market : MarketId) : Nanos × Nanos :=
  supportInterval (filledOn (quantities.zip orders) market)

section Loops

variable {ctx : SolverContext} {quantities : List Qty} {orders : List Order}
  {prices : OrdMap MarketId Nanos}

theorem get?_clampMarket_of_ne {bounds : OrdMap MarketId (Nanos × Nanos)} {other : MarketId}
    (h : ¬ market = other) :
    (clampMarket ctx bounds prices other).get? market = prices.get? market := by
  unfold clampMarket
  split_ifs
  · rfl
  · split
    · rfl
    · split_ifs
      · exact OrdMap.get?_insert_of_ne h
      · rfl

theorem exists_clampMarket (hnodup : ctx.markets.Nodup) (hmarket : market ∈ ctx.markets) :
    ∃ mid : OrdMap MarketId Nanos, mid.get? market = prices.get? market ∧
      (ctx.markets.foldl (clampMarket ctx (supportBounds quantities orders ctx.markets))
          prices).get? market =
        (clampMarket ctx (supportBounds quantities orders ctx.markets) mid market).get? market := by
  have hframe : ∀ (m : OrdMap MarketId Nanos) (other k : MarketId), ¬ k = other →
      (clampMarket ctx (supportBounds quantities orders ctx.markets) m other).get? k = m.get? k :=
    fun m other k hk => get?_clampMarket_of_ne hk
  obtain ⟨mid, hmid, hget⟩ := OrdMap.exists_step_of_mem (fun other k => k = other) hframe hmarket
    hnodup (fun other _ hne k hk hk' => hne (hk'.symm.trans hk)) prices
  exact ⟨mid, hmid market rfl, hget market rfl⟩

theorem get?_clampMarkets_of_nonempty (hnodup : ctx.markets.Nodup) (hmarket : market ∈ ctx.markets)
    (hgroup : ctx.marketToGroup.contains market = false)
    (hnonempty : (intervalOf quantities orders market).1 ≤
      (intervalOf quantities orders market).2) :
    (ctx.markets.foldl (clampMarket ctx (supportBounds quantities orders ctx.markets))
        prices).get? market =
      some (clampedPrice prices market (intervalOf quantities orders market)) := by
  obtain ⟨mid, hmid, hget⟩ := exists_clampMarket hnodup hmarket
  rw [hget, clampMarket, hgroup, if_neg Bool.false_ne_true, get?_supportBounds hmarket,
    ← intervalOf]
  dsimp only
  rw [if_pos hnonempty, OrdMap.get?_insert_self, clampedPrice, clampedPrice, hmid]

theorem get?_clampMarkets_of_kept (hnodup : ctx.markets.Nodup) (hmarket : market ∈ ctx.markets)
    (hkept : ctx.marketToGroup.contains market = true ∨
      (intervalOf quantities orders market).2 < (intervalOf quantities orders market).1) :
    (ctx.markets.foldl (clampMarket ctx (supportBounds quantities orders ctx.markets))
        prices).get? market = prices.get? market := by
  obtain ⟨mid, hmid, hget⟩ := exists_clampMarket hnodup hmarket
  rw [hget, ← hmid, clampMarket, get?_supportBounds hmarket, ← intervalOf]
  dsimp only
  split_ifs with hgroup hnonempty
  · rfl
  · exact absurd (hkept.resolve_left hgroup) (Nat.not_lt.mpr hnonempty)
  · rfl

theorem mem_groupedMarkets :
    market ∈ groupedMarkets ctx group ↔
      market ∈ ctx.markets ∧ ctx.marketToGroup.get? market = some group := by
  rw [groupedMarkets, List.mem_filter, decide_eq_true_eq]

theorem get?_supportBounds_grouped :
    ∀ market ∈ groupedMarkets ctx group, (supportBounds quantities orders ctx.markets).get? market =
      some (intervalOf quantities orders market) :=
  fun _ hmarket => get?_supportBounds (mem_groupedMarkets.mp hmarket).1

/-- The second loop leaves the markets without a group. -/
theorem get?_supportGroups_of_ungrouped
    (hgroup : ∀ group, market ∉ groupedMarkets ctx group) (groups : List ℕ) :
    (groups.foldl (supportGroup ctx (supportBounds quantities orders ctx.markets)) prices).get?
      market = prices.get? market := by
  refine OrdMap.get?_foldl_of_untouched (fun group k => k ∈ groupedMarkets ctx group)
    (fun m group k hk => ?_) (fun group _ => hgroup group) prices
  exact get?_supportGroup_of_not_mem get?_supportBounds_grouped hk

theorem exists_supportGroup (hgroup : group < ctx.numGroups) :
    ∃ mid : OrdMap MarketId Nanos,
      (∀ market ∈ groupedMarkets ctx group, mid.get? market = prices.get? market) ∧
      ∀ market ∈ groupedMarkets ctx group, ((List.range ctx.numGroups).foldl
          (supportGroup ctx (supportBounds quantities orders ctx.markets)) prices).get? market =
        (supportGroup ctx (supportBounds quantities orders ctx.markets) mid group).get? market := by
  refine OrdMap.exists_step_of_mem (fun group k => k ∈ groupedMarkets ctx group)
    (fun m group k hk => ?_) (List.mem_range.mpr hgroup) List.nodup_range
    (fun other _ hne k hk hk' => hne ?_) prices
  · exact get?_supportGroup_of_not_mem get?_supportBounds_grouped hk
  · have hfirst := (mem_groupedMarkets.mp hk).2
    rw [(mem_groupedMarkets.mp hk').2] at hfirst
    exact Option.some.inj hfirst

/-- The prices of a group come from its own step, taken at the prices before both loops. -/
theorem exists_supportGroup_of_lt (hnodup : ctx.markets.Nodup) (hgroup : group < ctx.numGroups) :
    ∃ mid : OrdMap MarketId Nanos,
      (∀ market ∈ groupedMarkets ctx group, mid.get? market = prices.get? market) ∧
      ∀ market ∈ groupedMarkets ctx group,
        (integerSupportingYesPrices quantities orders ctx prices).get? market =
        (supportGroup ctx (supportBounds quantities orders ctx.markets) mid group).get? market := by
  obtain ⟨mid, hmid, hget⟩ := exists_supportGroup hgroup
  refine ⟨mid, fun market hmarket => (hmid market hmarket).trans ?_, hget⟩
  obtain ⟨hmem, hgrouped⟩ := mem_groupedMarkets.mp hmarket
  refine get?_clampMarkets_of_kept hnodup hmem (.inl ?_)
  rw [OrdMap.contains_iff]
  exact ⟨group, hgrouped⟩

theorem get?_integerSupportingYesPrices_of_not_mem (hmarket : market ∉ ctx.markets) :
    (integerSupportingYesPrices quantities orders ctx prices).get? market = prices.get? market := by
  unfold integerSupportingYesPrices
  dsimp only
  rw [get?_supportGroups_of_ungrouped fun group hmem => hmarket (mem_groupedMarkets.mp hmem).1]
  refine OrdMap.get?_foldl_of_untouched (fun other k => k = other)
    (fun m other k hk => get?_clampMarket_of_ne hk) (fun other hother heq => ?_) prices
  exact hmarket (heq ▸ hother)

end Loops

/-! ## Every fill is supported -/

/-- The markets of a group that some order trades. -/
def tradedMarkets (problem : Problem) (group : MarketGroup) : List MarketId :=
  (collectMarkets problem.orders).filter fun market => market ∈ group.markets

/-- The market of the order has a price, and the order accepts it. -/
def PricedWithinLimit (prices : OrdMap MarketId Nanos) (order : Order) : Prop :=
  ∃ price, prices.get? (order.marketAt 0) = some price ∧
    order.isSatisfiedAtPrice (fillPriceAt order price) = true

/-- What the moved prices promise. -/
structure Supported (problem : Problem) (quantities : List Qty)
    (prices moved : OrdMap MarketId Nanos) : Prop where
  ungrouped : ∀ entry ∈ quantities.zip problem.orders, 0 < entry.1 →
    (∀ group ∈ problem.marketGroups, entry.2.marketAt 0 ∉ group.markets) →
    (intervalOf quantities problem.orders (entry.2.marketAt 0)).1 ≤
      (intervalOf quantities problem.orders (entry.2.marketAt 0)).2 →
    PricedWithinLimit moved entry.2
  grouped : ∀ group ∈ problem.marketGroups,
    Feasible (intervalOf quantities problem.orders) (tradedMarkets problem group) →
    (∀ entry ∈ quantities.zip problem.orders, 0 < entry.1 → entry.2.marketAt 0 ∈ group.markets →
      PricedWithinLimit moved entry.2) ∧
    ((tradedMarkets problem group).map fun market => (moved.get? market).getD 0).sum ≤
      nanosPerDollar
  keptMarket : ∀ market, (∀ group ∈ problem.marketGroups, market ∉ group.markets) →
    (intervalOf quantities problem.orders market).2 <
      (intervalOf quantities problem.orders market).1 → moved.get? market = prices.get? market
  keptGroup : ∀ group ∈ problem.marketGroups,
    ¬ Feasible (intervalOf quantities problem.orders) (tradedMarkets problem group) →
    ∀ market ∈ group.markets, moved.get? market = prices.get? market

section Supported

variable {problem : Problem} {quantities : List Qty} {prices : OrdMap MarketId Nanos}

/-- What the admission check says of an order, besides its payoffs. -/
theorem shape_of_validate {order : Order} (h : order.validateBinaryOneHot = .ok ()) :
    order.numMarkets = 1 ∧ order.numStates = 2 ∧ order.marketAt 0 ≠ MarketId.none ∧
      order.limitPrice ≤ nanosPerDollar := by
  unfold Order.validateBinaryOneHot at h
  split_ifs at h with h₁ h₂ h₃ h₄ h₅ h₆ h₇ h₈ h₉
  exact ⟨not_not.mp h₁, not_not.mp h₂, h₃, Nat.le_of_not_lt h₅⟩

theorem mem_filledOn {entries : List (Qty × Order)} {entry : Qty × Order} (hentry : entry ∈ entries)
    (hfilled : 0 < entry.1) (hshape : entry.2.validateBinaryOneHot = .ok ()) :
    entry.2 ∈ filledOn entries (entry.2.marketAt 0) := by
  obtain ⟨hmarkets, hstates, -⟩ := shape_of_validate hshape
  refine List.mem_map_of_mem (List.mem_filter.mpr ⟨hentry, decide_eq_true ⟨?_, rfl⟩⟩)
  rintro (hzero | hone | htwo)
  · exact absurd hfilled (Nat.not_lt.mpr (Nat.le_of_lt_succ hzero))
  · exact hone hmarkets
  · exact htwo hstates

/-- A price in the interval of a market is accepted by its filled orders. -/
theorem satisfied_of_mem_interval {entry : Qty × Order}
    (hentry : entry ∈ quantities.zip problem.orders) (hfilled : 0 < entry.1)
    (hshape : entry.2.validateBinaryOneHot = .ok ()) {price : Nanos}
    (hprice : (intervalOf quantities problem.orders (entry.2.marketAt 0)).1 ≤ price ∧
      price ≤ (intervalOf quantities problem.orders (entry.2.marketAt 0)).2) :
    entry.2.isSatisfiedAtPrice (fillPriceAt entry.2 price) = true := by
  obtain ⟨hdollar, hall⟩ := mem_supportInterval.mp hprice
  exact (mem_acceptedYes (shape_of_validate hshape).2.2.2 hdollar).mp
    (hall entry.2 (mem_filledOn hentry hfilled hshape))

theorem groupedMarkets_buildSolverContext (hdisjoint : GroupsDisjoint problem.marketGroups)
    {g : ℕ} {group : MarketGroup} (hgroup : problem.marketGroups[g]? = some group) :
    groupedMarkets (buildSolverContext problem) g = tradedMarkets problem group := by
  refine List.filter_congr fun market _ => ?_
  refine decide_eq_decide.mpr ((get?_marketToGroup hdisjoint).trans ?_)
  rw [hgroup]
  exact ⟨fun ⟨_, heq, hmem⟩ => Option.some.inj heq ▸ hmem, fun hmem => ⟨group, rfl, hmem⟩⟩

theorem contains_marketToGroup {groups : List MarketGroup} :
    (marketToGroup groups).contains market = true ↔ ∃ group ∈ groups, market ∈ group.markets := by
  rw [OrdMap.contains_iff, marketToGroup, OrdMap.contains_ofList]
  simp only [List.mem_flatMap, List.mem_map, Prod.mk.injEq]
  constructor
  · rintro ⟨_, ⟨group, j⟩, hentry, _, hmarket, rfl, -⟩
    exact ⟨group, List.mem_of_getElem? (List.mem_zipIdx_iff_getElem?.mp hentry), hmarket⟩
  · rintro ⟨group, hgroup, hmarket⟩
    obtain ⟨j, hj⟩ := List.mem_iff_getElem?.mp hgroup
    exact ⟨j, (group, j), List.mem_zipIdx_iff_getElem?.mpr hj, market, hmarket, rfl, rfl⟩

theorem not_mem_groupedMarkets (hdisjoint : GroupsDisjoint problem.marketGroups)
    (h : ∀ group ∈ problem.marketGroups, market ∉ group.markets) (g : ℕ) :
    market ∉ groupedMarkets (buildSolverContext problem) g := by
  intro hmem
  obtain ⟨group, hgroup, hmarket⟩ :=
    (get?_marketToGroup hdisjoint).mp (mem_groupedMarkets.mp hmem).2
  exact h group (List.mem_of_getElem? hgroup) hmarket

/-- **The moved prices support every fill** of a market whose interval is not empty, and of a group
with a point in its intervals of at most a dollar; all other prices stay. -/
theorem integerSupportingYesPrices_supports
    (hshape : ∀ order ∈ problem.orders, order.validateBinaryOneHot = .ok ())
    (hdisjoint : GroupsDisjoint problem.marketGroups) :
    Supported problem quantities prices (integerSupportingYesPrices quantities problem.orders
      (buildSolverContext problem) prices) := by
  have hnodup : (buildSolverContext problem).markets.Nodup := nodup_distinct _
  have horder : ∀ entry ∈ quantities.zip problem.orders, entry.2 ∈ problem.orders :=
    fun entry hentry => (List.of_mem_zip hentry).2
  have htraded : ∀ entry ∈ quantities.zip problem.orders,
      entry.2.marketAt 0 ∈ (buildSolverContext problem).markets := by
    intro entry hentry
    obtain ⟨hmarkets, -, hmarket, -⟩ := shape_of_validate (hshape _ (horder entry hentry))
    exact mem_collectMarkets (horder entry hentry) hmarkets hmarket
  have hungrouped : ∀ market, (∀ group ∈ problem.marketGroups, market ∉ group.markets) →
      (integerSupportingYesPrices quantities problem.orders (buildSolverContext problem)
        prices).get? market = ((buildSolverContext problem).markets.foldl
          (clampMarket (buildSolverContext problem) (supportBounds quantities problem.orders
            (buildSolverContext problem).markets)) prices).get? market :=
    fun market h => get?_supportGroups_of_ungrouped (not_mem_groupedMarkets hdisjoint h) _
  have hgroups : ∀ g group, problem.marketGroups[g]? = some group →
      ∃ mid : OrdMap MarketId Nanos, (∀ market ∈ groupedMarkets (buildSolverContext problem) g,
          mid.get? market = prices.get? market) ∧
        ∀ market ∈ groupedMarkets (buildSolverContext problem) g,
          (integerSupportingYesPrices quantities problem.orders (buildSolverContext problem)
            prices).get? market = (supportGroup (buildSolverContext problem) (supportBounds
              quantities problem.orders (buildSolverContext problem).markets) mid g).get? market :=
    fun g group hg => exists_supportGroup_of_lt hnodup (List.getElem?_eq_some_iff.mp hg).1
  refine ⟨?_, ?_, ?_, ?_⟩
  · intro entry hentry hfilled hfree hnonempty
    have hgroup : (buildSolverContext problem).marketToGroup.contains (entry.2.marketAt 0) =
        false := by
      refine Bool.eq_false_iff.mpr fun hcontains => ?_
      obtain ⟨group, hgroup, hmem⟩ := contains_marketToGroup.mp hcontains
      exact hfree group hgroup hmem
    refine ⟨_, (hungrouped _ hfree).trans
      (get?_clampMarkets_of_nonempty hnodup (htraded entry hentry) hgroup hnonempty), ?_⟩
    exact satisfied_of_mem_interval hentry hfilled (hshape _ (horder entry hentry))
      (clampedPrice_mem hnonempty)
  · intro group hgroup hfeasible
    obtain ⟨g, hg⟩ := List.mem_iff_getElem?.mp hgroup
    have hmarkets := groupedMarkets_buildSolverContext hdisjoint hg
    rw [← hmarkets] at hfeasible ⊢
    obtain ⟨mid, -, hget⟩ := hgroups g group hg
    obtain ⟨hprices, hsum⟩ := supportGroup_of_feasible get?_supportBounds_grouped hnodup hfeasible
    constructor
    · intro entry hentry hfilled hmem
      have hgrouped : entry.2.marketAt 0 ∈ groupedMarkets (buildSolverContext problem) g := by
        rw [hmarkets]
        exact List.mem_filter.mpr ⟨htraded entry hentry, decide_eq_true hmem⟩
      obtain ⟨price, hprice, hinterval⟩ := hprices _ hgrouped
      exact ⟨price, (hget _ hgrouped).trans hprice, satisfied_of_mem_interval hentry hfilled
        (hshape _ (horder entry hentry)) hinterval⟩
    · refine (congrArg List.sum (List.map_congr_left fun market hmarket => ?_)).trans_le hsum
      rw [hget market hmarket]
  · intro market hfree hempty
    by_cases hmarket : market ∈ (buildSolverContext problem).markets
    · rw [hungrouped market hfree]
      exact get?_clampMarkets_of_kept hnodup hmarket (.inr hempty)
    · exact get?_integerSupportingYesPrices_of_not_mem hmarket
  · intro group hgroup hinfeasible market hmem
    by_cases hmarket : market ∈ (buildSolverContext problem).markets
    · obtain ⟨g, hg⟩ := List.mem_iff_getElem?.mp hgroup
      have hmarkets := groupedMarkets_buildSolverContext hdisjoint hg
      have hgrouped : market ∈ groupedMarkets (buildSolverContext problem) g := by
        rw [hmarkets]
        exact List.mem_filter.mpr ⟨hmarket, decide_eq_true hmem⟩
      rw [← hmarkets] at hinfeasible
      obtain ⟨mid, hmid, hget⟩ := hgroups g group hg
      rw [hget market hgrouped,
        supportGroup_of_not_feasible get?_supportBounds_grouped hinfeasible, hmid market hgrouped]
    · exact get?_integerSupportingYesPrices_of_not_mem hmarket

end Supported

/-- A bid for YES of a market. -/
def bidOn (id : ℕ) (market : MarketId) (limitPrice : Nanos) : Order :=
  { Order.new id with
    markets := (Vector.replicate 5 MarketId.none).set 0 market Order.firstMarket_lt
    numMarkets := 1
    payoffs := (Vector.replicate 32 0).set 0 1 Order.firstState_lt
    numStates := 2
    limitPrice
    maxFill := 1000 }

/-- Two bids in a group of two markets. -/
def twoBids : Problem where
  orders := [bidOn 1 0 600000000, bidOn 2 1 400000001]
  marketGroups := [⟨"either", none, [0, 1]⟩]

/-- A price that was rounded a nano too high is moved back. -/
theorem integerSupportingYesPrices_two_bids :
    (bidOn 1 0 600000000).isSatisfiedAtPrice 600000001 = false ∧
      Supported twoBids [1000, 1000] (OrdMap.ofList [(0, 600000001), (1, 400000000)])
        (integerSupportingYesPrices [1000, 1000] twoBids.orders (buildSolverContext twoBids)
          (OrdMap.ofList [(0, 600000001), (1, 400000000)])) := by
  refine ⟨by decide, integerSupportingYesPrices_supports ?_ (List.pairwise_singleton _ _)⟩
  exact List.forall_mem_cons.mpr ⟨rfl, List.forall_mem_singleton.mpr rfl⟩

end Sybil.Solver
