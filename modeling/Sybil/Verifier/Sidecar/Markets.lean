import Sybil.Verifier.Sidecar.RestingOrders

/-!
# Sidecar: markets and market groups

A market keeps its metadata, and its status changes only with a `MarketResolved`
event.  With such an event the pass looks at the status *after* the block only:
it does not ask whether the market was still active before.
-/

namespace Sybil.Verifier

open Engine

/-- A violation of the market transition. -/
def statusMismatch (details : String) : Violation := ⟨.sidecarMarketStatusMismatch, details⟩

/-! ## Debug texts -/

def dbgPrices (prices : List Nanos) : String :=
  "[" ++ ", ".intercalate (prices.map fun price => s!"Nanos({price})") ++ "]"

def dbgOracleSource : OracleSourceSnapshot → String
  | .admin => "Admin"
  | .dataFeed id => s!"DataFeed({id})"

def dbgMarketStatus : MarketStatusSnapshot → String
  | .active => "Active"
  | .resolved record =>
    "Resolved \x7b record: ResolutionRecordSnapshot \x7b payout_nanos: " ++
      s!"Nanos({record.payoutNanos}), resolved_by: {dbgOracleSource record.resolvedBy}, " ++
      s!"resolved_at_ms: {record.resolvedAtMs}" ++ " \x7d \x7d"

/-! ## Collecting markets -/

/-- The stored prices are absent or one per outcome, and at most a dollar. -/
def marketPriceViolations (market : MarketSnapshot) : List Violation :=
  reportIf (market.lastClearingPrices.length ≠ 0 ∧
      market.lastClearingPrices.length ≠ market.numOutcomes)
    (statusMismatch (s!"market {dbgMarket market.marketId} last clearing price count " ++
      s!"{market.lastClearingPrices.length} is neither zero nor num_outcomes " ++
      s!"{market.numOutcomes}")) ++
  market.lastClearingPrices.zipIdx.flatMap fun (price, outcome) =>
    reportIf (nanosPerDollar < price)
      (statusMismatch (s!"market {dbgMarket market.marketId} outcome {outcome} last clearing " ++
        s!"price {price} exceeds NANOS_PER_DOLLAR {nanosPerDollar}"))

/-- Markets by id, and the reports of their stored prices. -/
def keyedMarkets (markets : List MarketSnapshot) :
    OrdMap MarketId MarketSnapshot × List Violation :=
  let collected := collectKeyed (fun market : MarketSnapshot => market.marketId)
    (fun market => statusMismatch s!"duplicate market id {dbgMarket market.marketId}") markets
  (collected.1, markets.flatMap marketPriceViolations ++ collected.2)

/-- Market and payout of a resolution. -/
def resolutionEvent : SystemEventWitness → Option (MarketId × Nanos)
  | .marketResolved marketId payoutNanos _ => some (marketId, payoutNanos)
  | _ => none

/-- Record a resolution; a payout above a dollar is reported and left out. -/
def resolutionStep (resolved : OrdMap MarketId Nanos) (event : MarketId × Nanos) :
    OrdMap MarketId Nanos × List Violation :=
  if nanosPerDollar < event.2 then
    (resolved, [⟨.settlementOverflow, s!"Market {dbgMarket event.1}: payout_nanos {event.2} " ++
      s!"exceeds NANOS_PER_DOLLAR {nanosPerDollar}"⟩])
  else
    (resolved.insert event.1 event.2, reportIf (resolved.contains event.1 = true)
      (statusMismatch s!"duplicate MarketResolved event for {dbgMarket event.1}"))

/-- Payouts of the markets resolved in the block. -/
def marketResolutionEvents (events : List SystemEventWitness) :
    OrdMap MarketId Nanos × List Violation :=
  reportLoop resolutionStep ∅ (events.filterMap resolutionEvent)

/-- What an accepted block says about its resolutions. -/
structure ResolutionsChecked (events : List SystemEventWitness) : Prop where
  distinct : ((events.filterMap resolutionEvent).map Prod.fst).Nodup
  payout_le : ∀ event ∈ events.filterMap resolutionEvent, event.2 ≤ nanosPerDollar
  get? : ∀ market payout, (marketResolutionEvents events).1.get? market = some payout ↔
    (market, payout) ∈ events.filterMap resolutionEvent

theorem resolutionStep_silent {resolved : OrdMap MarketId Nanos} {event : MarketId × Nanos}
    (h : (resolutionStep resolved event).2 = []) :
    event.2 ≤ nanosPerDollar ∧ resolved.get? event.1 = none ∧
      (resolutionStep resolved event).1 = resolved.insert event.1 event.2 := by
  unfold resolutionStep at h ⊢
  split_ifs at h ⊢ with hpayout
  rw [reportIf_eq_nil, Bool.not_eq_true, OrdMap.contains_eq_false_iff] at h
  exact ⟨not_lt.mp hpayout, h, rfl⟩

theorem resolutionLoop_silent {resolved : OrdMap MarketId Nanos} {l : List (MarketId × Nanos)}
    (h : (reportLoop resolutionStep resolved l).2 = []) :
    (l.map Prod.fst).Nodup ∧ (∀ event ∈ l, event.2 ≤ nanosPerDollar ∧
      resolved.get? event.1 = none) ∧
    ∀ market payout, (reportLoop resolutionStep resolved l).1.get? market = some payout ↔
      (market, payout) ∈ l ∨ resolved.get? market = some payout := by
  induction l generalizing resolved with
  | nil => simp
  | cons event l ih =>
    obtain ⟨hevent, hrest⟩ := silent_cons.mp h
    obtain ⟨hpayout, hnew, hstep⟩ := resolutionStep_silent hevent
    obtain ⟨hdistinct, hchecked, hget⟩ := ih hrest
    rw [reportLoop_cons_fst]
    simp only [hstep, OrdMap.get?_insert] at hchecked hget ⊢
    -- A later event of the same market would have been reported as a duplicate.
    have hfresh : ∀ later ∈ l, later.1 ≠ event.1 := by
      intro later hlater heq
      have hnone := (hchecked later hlater).2
      rw [if_pos heq] at hnone
      exact nomatch hnone
    refine ⟨?_, ?_, fun market payout => ?_⟩
    · rw [List.map_cons, List.nodup_cons]
      refine ⟨fun hmem => ?_, hdistinct⟩
      obtain ⟨later, hlater, heq⟩ := List.mem_map.mp hmem
      exact hfresh later hlater heq
    · intro later hlater
      rcases List.mem_cons.mp hlater with rfl | hlater
      · exact ⟨hpayout, hnew⟩
      · obtain ⟨hle, hnone⟩ := hchecked later hlater
        rw [if_neg (hfresh later hlater)] at hnone
        exact ⟨hle, hnone⟩
    · rw [hget market payout, List.mem_cons]
      by_cases hmarket : market = event.1
      · subst hmarket
        rw [if_pos rfl, hnew, Option.some.injEq, Prod.ext_iff]
        simp only [true_and, reduceCtorEq, or_false, eq_comm (a := payout)]
        exact or_comm
      · rw [if_neg hmarket, Prod.ext_iff]
        simp only [hmarket, false_and, false_or]

/-- **The resolutions of a block** are of distinct markets and pay at most a dollar. -/
theorem resolutionsChecked_of_silent {events : List SystemEventWitness}
    (h : (marketResolutionEvents events).2 = []) : ResolutionsChecked events := by
  obtain ⟨hdistinct, hchecked, hget⟩ := resolutionLoop_silent h
  refine ⟨hdistinct, fun event hevent => (hchecked event hevent).1, fun market payout => ?_⟩
  rw [marketResolutionEvents, hget market payout, OrdMap.get?_empty]
  simp

/-! ## The market transition -/

/-- Is the market resolved with this payout? -/
def isResolvedWith (status : MarketStatusSnapshot) (payoutNanos : Nanos) : Bool :=
  match status with
  | .resolved record => decide (record.payoutNanos = payoutNanos)
  | .active => false

/-- The status of a pre-existing market. -/
def verifyStatus (resolutions : OrdMap MarketId Nanos) (marketId : MarketId)
    (pre post : MarketSnapshot) : List Violation :=
  match resolutions.get? marketId with
  | some payoutNanos =>
    reportIf (isResolvedWith post.status payoutNanos = false)
      (statusMismatch (s!"MarketResolved event for {dbgMarket marketId} not reflected in " ++
        s!"committed status {dbgMarketStatus post.status}"))
  | none =>
    reportIf (pre.status ≠ post.status)
      (statusMismatch s!"market {dbgMarket marketId} status was silently edited")

/-- What became of a market. -/
def verifyPreMarket (resolutions : OrdMap MarketId Nanos) (post : OrdMap MarketId MarketSnapshot)
    (entry : MarketId × MarketSnapshot) : List Violation :=
  let (marketId, preMarket) := entry
  match post.get? marketId with
  | none => [statusMismatch s!"pre-existing market {dbgMarket marketId} was deleted"]
  | some postMarket =>
    reportIf (preMarket.name ≠ postMarket.name ∨ preMarket.numOutcomes ≠ postMarket.numOutcomes ∨
        preMarket.metadataDigest ≠ postMarket.metadataDigest ∨
        preMarket.resolutionTemplate ≠ postMarket.resolutionTemplate)
      (statusMismatch s!"market {dbgMarket marketId} metadata was silently edited") ++
    verifyStatus resolutions marketId preMarket postMarket

/-- The clearing prices of the block are stored. -/
def verifyStoredPrices (post : OrdMap MarketId MarketSnapshot) (entry : MarketId × List Nanos) :
    List Violation :=
  match post.get? entry.1 with
  | some postMarket =>
    reportIf (postMarket.lastClearingPrices ≠ entry.2)
      (statusMismatch (s!"market {dbgMarket entry.1} committed last clearing prices " ++
        s!"{dbgPrices postMarket.lastClearingPrices} != witnessed prices {dbgPrices entry.2}"))
  | none =>
    [statusMismatch (s!"market {dbgMarket entry.1} has witnessed clearing prices but no " ++
      "committed market leaf")]

/-- A market without clearing prices in the block keeps the stored ones. -/
def verifyCarriedPrices (clearingPrices : OrdMap MarketId (List Nanos))
    (post : OrdMap MarketId MarketSnapshot) (entry : MarketId × MarketSnapshot) : List Violation :=
  if clearingPrices.contains entry.1 then []
  else
    match post.get? entry.1 with
    | none => []
    | some postMarket =>
      reportIf (postMarket.lastClearingPrices ≠ entry.2.lastClearingPrices)
        (statusMismatch (s!"market {dbgMarket entry.1} last clearing prices changed without a " ++
          "witnessed clearing entry"))

/-- A new market without clearing prices in the block stores none. -/
def verifyNewPrices (clearingPrices : OrdMap MarketId (List Nanos))
    (pre : OrdMap MarketId MarketSnapshot) (entry : MarketId × MarketSnapshot) : List Violation :=
  reportIf (pre.contains entry.1 = false ∧ clearingPrices.contains entry.1 = false ∧
      entry.2.lastClearingPrices ≠ [])
    (statusMismatch (s!"new market {dbgMarket entry.1} has last clearing prices without a " ++
      "witnessed clearing entry"))

/-- A resolution shows in the status after the block. -/
def verifyResolutionEvent (post : OrdMap MarketId MarketSnapshot) (entry : MarketId × Nanos) :
    List Violation :=
  match post.get? entry.1 with
  | some market =>
    reportIf (isResolvedWith market.status entry.2 = false)
      (statusMismatch (s!"MarketResolved event for {dbgMarket entry.1} not reflected in " ++
        s!"committed status {dbgMarketStatus market.status}"))
  | none =>
    [statusMismatch
      s!"MarketResolved event for {dbgMarket entry.1} missing from committed market sidecar"]

/-- A market that the witness lists as resolved is resolved. -/
def verifyListedResolved (post : OrdMap MarketId MarketSnapshot) (marketId : MarketId) :
    List Violation :=
  match post.get? marketId with
  | some market =>
    reportIf (market.status = .active)
      (statusMismatch (s!"resolved_markets contains {dbgMarket marketId} but committed status " ++
        s!"is {dbgMarketStatus market.status}"))
  | none =>
    [statusMismatch
      s!"resolved_markets contains {dbgMarket marketId} but market is missing from sidecar"]

/-- Checks that relate the markets to those before the block. -/
def verifyMarketDelta (w : BlockWitness) (pre post : OrdMap MarketId MarketSnapshot)
    (resolutions : OrdMap MarketId Nanos) : List Violation :=
  pre.entries.flatMap (verifyPreMarket resolutions post) ++
    w.clearingPrices.entries.flatMap (verifyStoredPrices post) ++
    pre.entries.flatMap (verifyCarriedPrices w.clearingPrices post) ++
    post.entries.flatMap (verifyNewPrices w.clearingPrices pre)

/-- Verify the transition of the markets. -/
def verifyMarketTransition (w : BlockWitness) : List Violation :=
  let pre := keyedMarkets w.preStateSidecar.markets
  let post := keyedMarkets w.stateSidecar.markets
  let resolutions := marketResolutionEvents w.systemEvents
  pre.2 ++ post.2 ++ resolutions.2 ++
    (if w.previousHeader.isSome then verifyMarketDelta w pre.1 post.1 resolutions.1 else []) ++
    resolutions.1.entries.flatMap (verifyResolutionEvent post.1) ++
    w.resolvedMarkets.flatMap (verifyListedResolved post.1)

/-! ## Market groups -/

/-- A violation of the group transition. -/
def groupMismatch (details : String) : Violation := ⟨.sidecarMarketGroupMismatch, details⟩

/-- Creation keys are valid and distinct. -/
def creationKeyStep (seen : List String) (group : MarketGroupSnapshot) :
    List String × List Violation :=
  match group.creationKey with
  | none => (seen, [])
  | some key =>
    if operatorCreationKeyIsValid key then
      (key :: seen, reportIf (key ∈ seen)
        (groupMismatch s!"duplicate market group creation key {key.quote}"))
    else (seen,
      [groupMismatch s!"market group {group.groupId} has invalid creation key {key.quote}"])

/-- Groups by id, and the reports of their creation keys. -/
def keyedMarketGroups (groups : List MarketGroupSnapshot) :
    OrdMap ℕ MarketGroupSnapshot × List Violation :=
  let collected := collectKeyed (fun group : MarketGroupSnapshot => group.groupId)
    (fun group => groupMismatch s!"duplicate market group id {group.groupId}") groups
  (collected.1, (reportLoop creationKeyStep [] groups).2 ++ collected.2)

/-- Extension of a group. -/
def groupExtension : SystemEventWitness → Option (ℕ × MarketId)
  | .marketGroupExtended groupId marketId => some (groupId, marketId)
  | _ => none

/-- Markets that the block adds to a group. -/
def allowedAdditions (events : List SystemEventWitness) (groupId : ℕ) : List MarketId :=
  ((events.filterMap groupExtension).filter fun ext => ext.1 = groupId).map Prod.snd

/-- The set of a list of markets. -/
def marketSet (markets : List MarketId) : OrdMap MarketId Unit :=
  OrdMap.ofList (markets.map fun market => (market, ()))

/-- What became of a group: resolved markets leave it, and it ends with fewer than two. -/
def verifyPreGroup (events : List SystemEventWitness) (post : OrdMap ℕ MarketGroupSnapshot)
    (entry : ℕ × MarketGroupSnapshot) : List Violation :=
  let (groupId, preGroup) := entry
  let remaining := preGroup.markets.filter fun market => market ∉ resolvedMarketEvents events
  match post.get? groupId with
  | none =>
    reportIf (2 ≤ remaining.length)
      (groupMismatch s!"pre-existing market group {groupId} was deleted")
  | some postGroup =>
    reportIf (preGroup.name ≠ postGroup.name)
      (groupMismatch s!"market group {groupId} name was silently edited") ++
    reportIf (preGroup.creationKey ≠ postGroup.creationKey)
      (groupMismatch s!"market group {groupId} creation identity was silently edited") ++
    reportIf (marketSet postGroup.markets ≠
        marketSet (remaining ++ allowedAdditions events groupId))
      (groupMismatch (s!"market group {groupId} membership changed without matching " ++
        "resolution/extension event"))

/-- Verify the transition of the market groups; a genesis block has none. -/
def verifyMarketGroupTransition (w : BlockWitness) : List Violation :=
  let pre := keyedMarketGroups w.preStateSidecar.marketGroups
  let post := keyedMarketGroups w.stateSidecar.marketGroups
  pre.2 ++ post.2 ++
    (if w.previousHeader.isNone then []
      else pre.1.entries.flatMap (verifyPreGroup w.systemEvents post.1))

end Sybil.Verifier
