import Sybil.Verifier.Chain
import Sybil.Verifier.ResolutionPayout

/-!
# When a resolution is final

The market pass lets a status change only with a `MarketResolved` event.  With such an
event it compares the payout with the status after the block, and never asks whether
the market was still active before.  A resolved market therefore stays as it is in an
accepted block exactly when the block does not resolve it again
(`resolutionFinal_iff`), and over a chain of blocks that resolve active markets only,
a payout never changes once it is set.
-/

namespace Sybil.Verifier

open Engine

variable {P : Primitives} {w w' : BlockWitness} {market : MarketId}
  {status : MarketStatusSnapshot} {record : ResolutionRecordSnapshot}

/-! ## The committed status -/

/-- The status of a market in a sidecar. -/
def committedStatus (sidecar : StateSidecarSnapshot) (market : MarketId) :
    Option MarketStatusSnapshot :=
  ((keyedMarkets sidecar.markets).1.get? market).map MarketSnapshot.status

/-- **Resolution is irreversible** in a block. -/
structure ResolutionFinal (w : BlockWitness) : Prop where
  kept : ∀ market record, committedStatus w.preStateSidecar market = some (.resolved record) →
    committedStatus w.stateSidecar market = some (.resolved record)
  silent : ∀ market record, committedStatus w.preStateSidecar market = some (.resolved record) →
    Unresolved market w.systemEvents

/-- The block resolves only markets that were active, or not committed, before it. -/
def ResolvesActive (w : BlockWitness) : Prop :=
  ∀ market payout affected, .marketResolved market payout affected ∈ w.systemEvents →
    committedStatus w.preStateSidecar market = none ∨
      committedStatus w.preStateSidecar market = some .active

/-- In an accepted block the markets of both sidecars are listed once. -/
theorem nodup_markets (h : verifyMarketTransition w = []) :
    (w.preStateSidecar.markets.map fun m => m.marketId).Nodup ∧
      (w.stateSidecar.markets.map fun m => m.marketId).Nodup := by
  simp only [verifyMarketTransition, keyedMarkets, List.append_eq_nil_iff] at h
  obtain ⟨⟨⟨⟨⟨⟨-, hpre⟩, -, hpost⟩, -⟩, -⟩, -⟩, -⟩ := h
  exact ⟨collectKeyed_silent.mp hpre, collectKeyed_silent.mp hpost⟩

theorem mem_resolutionEvent {events : List SystemEventWitness} {payout : Nanos} :
    (market, payout) ∈ events.filterMap resolutionEvent ↔
      ∃ affected, .marketResolved market payout affected ∈ events := by
  rw [List.mem_filterMap]
  constructor
  · rintro ⟨event, hevent, hresolved⟩
    cases event with
    | marketResolved resolved payout affected =>
      obtain ⟨rfl, rfl⟩ := Prod.mk.inj (Option.some.inj hresolved)
      exact ⟨affected, hevent⟩
    | _ => exact nomatch hresolved
  · rintro ⟨affected, hevent⟩
    exact ⟨_, hevent, rfl⟩

/-- The committed status is that of the listed market. -/
theorem committedStatus_eq_some_iff {sidecar : StateSidecarSnapshot}
    (h : (sidecar.markets.map fun m => m.marketId).Nodup) :
    committedStatus sidecar market = some status ↔
      ∃ m ∈ sidecar.markets, m.marketId = market ∧ m.status = status := by
  rw [committedStatus, Option.map_eq_some_iff]
  simp only [keyedMarkets, collectKeyed_get? (collectKeyed_silent.mpr h), and_assoc]

/-! ## One block -/

/-- What the market pass says about a committed market: it is still there, with the payout of the
event that resolves it, or with its old status when no event does. -/
theorem verifyStatus_of_verifyMarketTransition (h : verifyMarketTransition w = [])
    (hprev : w.previousHeader.isSome)
    (hstatus : committedStatus w.preStateSidecar market = some status) :
    ∃ postMarket, (keyedMarkets w.stateSidecar.markets).1.get? market = some postMarket ∧
      ((∃ payout affected, .marketResolved market payout affected ∈ w.systemEvents ∧
        isResolvedWith postMarket.status payout = true) ∨
      (Unresolved market w.systemEvents ∧ postMarket.status = status)) := by
  simp only [verifyMarketTransition, hprev, if_true, List.append_eq_nil_iff, verifyMarketDelta,
    List.flatMap_eq_nil_iff] at h
  obtain ⟨⟨⟨-, hresolutions⟩, ⟨⟨hmarkets, -⟩, -⟩, -⟩, -⟩ := h.1
  obtain ⟨preMarket, hpre, rfl⟩ := Option.map_eq_some_iff.mp hstatus
  have hmarket := hmarkets (market, preMarket) (OrdMap.mem_entries_iff.mpr hpre)
  have hchecked := resolutionsChecked_of_silent hresolutions
  simp only [verifyPreMarket] at hmarket
  split at hmarket
  · exact absurd hmarket (List.cons_ne_nil _ _)
  · next postMarket hpost =>
    refine ⟨postMarket, hpost, ?_⟩
    rw [List.append_eq_nil_iff, verifyStatus] at hmarket
    cases hpayout : (marketResolutionEvents w.systemEvents).1.get? market with
    | some payout =>
      rw [hpayout] at hmarket
      obtain ⟨affected, hevent⟩ := mem_resolutionEvent.mp ((hchecked.get? market payout).mp hpayout)
      exact Or.inl ⟨payout, affected, hevent, by simpa using hmarket.2⟩
    | none =>
      rw [hpayout] at hmarket
      simp only [reportIf_eq_nil, ne_eq, not_not] at hmarket
      refine Or.inr ⟨fun payout affected hevent => ?_, hmarket.2.symm⟩
      have hsome := (hchecked.get? market payout).mpr (mem_resolutionEvent.mpr ⟨affected, hevent⟩)
      rw [hpayout] at hsome
      cases hsome

/-- A market that the block does not resolve keeps its status. -/
theorem committedStatus_of_unresolved (h : verifyMarketTransition w = [])
    (hprev : w.previousHeader.isSome) (hevents : Unresolved market w.systemEvents)
    (hstatus : committedStatus w.preStateSidecar market = some status) :
    committedStatus w.stateSidecar market = some status := by
  obtain ⟨postMarket, hpost, hevent | hkept⟩ :=
    verifyStatus_of_verifyMarketTransition h hprev hstatus
  · obtain ⟨payout, affected, hmem, -⟩ := hevent
    exact absurd hmem (hevents payout affected)
  · rw [committedStatus, hpost, Option.map_some, hkept.2]

theorem resolutionFinal_iff_of_markets (h : verifyMarketTransition w = [])
    (hprev : w.previousHeader.isSome) : ResolutionFinal w ↔ ResolvesActive w := by
  constructor
  · intro hfinal market payout affected hevent
    cases hstatus : committedStatus w.preStateSidecar market with
    | none => exact Or.inl rfl
    | some status =>
      cases status with
      | active => exact Or.inr rfl
      | resolved record => exact absurd hevent (hfinal.silent market record hstatus payout affected)
  · intro hactive
    have hsilent : ∀ market record,
        committedStatus w.preStateSidecar market = some (.resolved record) →
          Unresolved market w.systemEvents := by
      intro market record hstatus payout affected hevent
      rcases hactive market payout affected hevent with hnone | hsome
      · rw [hnone] at hstatus
        exact nomatch hstatus
      · rw [hsome] at hstatus
        exact nomatch hstatus
    exact ⟨fun market record hstatus =>
      committedStatus_of_unresolved h hprev (hsilent market record hstatus) hstatus, hsilent⟩

/-! ## Chains -/

/-- The next block starts from the statuses that the last one committed. -/
theorem Continues.committedStatus_eq (h : Continues w w') (hw : verifyMarketTransition w = [])
    (hw' : verifyMarketTransition w' = []) (market : MarketId) :
    committedStatus w'.preStateSidecar market = committedStatus w.stateSidecar market := by
  have hperm : (w'.preStateSidecar.markets.map id).Perm (w.stateSidecar.markets.map id) := by
    simpa using h.markets
  have hget := get?_ofList_of_perm (f := id) (fun _ => rfl) (nodup_markets hw').1
    (nodup_markets hw).2 hperm market
  simp only [Option.map_id, id] at hget
  simp only [committedStatus, keyedMarkets, collectKeyed_fst, hget]

/-- One more block that resolves active markets only. -/
theorem committedStatus_extends (hw : verifyFull P w = []) (h : Extends P w w')
    (hactive : ResolvesActive w')
    (hstatus : committedStatus w.stateSidecar market = some (.resolved record)) :
    committedStatus w'.stateSidecar market = some (.resolved record) := by
  obtain ⟨hcontinues, hw'⟩ := h
  have hmarkets := (verifyFull_eq_nil_iff.mp hw).sidecar.markets
  have hmarkets' := (verifyFull_eq_nil_iff.mp hw').sidecar.markets
  have hprev : w'.previousHeader.isSome := by
    rw [hcontinues.header]
    rfl
  have hfinal := (resolutionFinal_iff_of_markets hmarkets' hprev).mpr hactive
  refine hfinal.kept market record ?_
  rw [hcontinues.committedStatus_eq hmarkets hmarkets', hstatus]

/-- **When a resolution is final.**  In an accepted block with a parent, resolution is irreversible
exactly when the block resolves active markets only; along a chain of such blocks a resolved market
keeps its record. -/
theorem resolutionFinal_iff (P : Primitives) :
    (∀ w : BlockWitness, verifyFull P w = [] → w.previousHeader.isSome →
      (ResolutionFinal w ↔ ResolvesActive w)) ∧
    ∀ (first : BlockWitness) (rest : List BlockWitness), verifyFull P first = [] →
      (first :: rest).IsChain (fun w w' => Extends P w w' ∧ ResolvesActive w') →
        ∀ market record, committedStatus first.stateSidecar market = some (.resolved record) →
          ∀ w ∈ rest, committedStatus w.stateSidecar market = some (.resolved record) := by
  refine ⟨fun w hw hprev =>
    resolutionFinal_iff_of_markets (verifyFull_eq_nil_iff.mp hw).sidecar.markets hprev, ?_⟩
  intro first rest hfirst hchain market record hstatus w hw
  -- The status is carried along the chain together with the acceptance of the block.
  have hcarried := hchain.cons_induction
    (fun w => verifyFull P w = [] ∧ committedStatus w.stateSidecar market = some (.resolved record))
    rest (fun w w' hstep hw => ⟨hstep.1.2, committedStatus_extends hw.1 hstep.1 hstep.2 hw.2⟩)
    ⟨hfirst, hstatus⟩
  exact (hcarried w hw).2

/-! ## A second resolution -/

/-- The block that resolves market 7, over no accounts. -/
def resolvingBlock (P : Primitives) (preSidecar : StateSidecarSnapshot) : BlockWitness :=
  secondBlock P (idleContent [] [] preSidecar (resolvedSidecar P 1000000000)
    [.marketResolved 7 1000000000 []])

/-- The block after it, without events. -/
def settledBlock (P : Primitives) : BlockWitness :=
  nextBlock P (resolvingBlock P (oneMarketSidecar P [])).header
    (idleContent [] [] (resolvedSidecar P 1000000000) (resolvedSidecar P 1000000000) [])

theorem keysUntouched_resolving : KeysUntouched [.marketResolved 7 1000000000 []] :=
  List.forall_mem_singleton.mpr ⟨rfl, nofun⟩

theorem verifyFull_resolvingBlock (P : Primitives) :
    verifyFull P (resolvingBlock P (oneMarketSidecar P [])) = [] :=
  verifyFull_idle rfl
    ⟨keysUntouched_resolving, List.nodup_nil, rfl, nofun, nofun, rfl, rfl, rfl, rfl⟩
    (sidecarAccepted_idle ⟨rfl, rfl⟩ ⟨rfl, rfl⟩ rfl ⟨rfl, rfl, rfl, rfl, rfl, rfl, rfl⟩) rfl

theorem verifyFull_resolvingBlock_again (P : Primitives) :
    verifyFull P (resolvingBlock P (resolvedSidecar P 0)) = [] :=
  verifyFull_idle rfl
    ⟨keysUntouched_resolving, List.nodup_nil, rfl, nofun, nofun, rfl, rfl, rfl, rfl⟩
    (sidecarAccepted_idle ⟨rfl, rfl⟩ ⟨rfl, rfl⟩ rfl ⟨rfl, rfl, rfl, rfl, rfl, rfl, rfl⟩) rfl

theorem verifyFull_settledBlock (P : Primitives) : verifyFull P (settledBlock P) = [] :=
  verifyFull_nextBlock rfl rfl
    ⟨nofun, List.nodup_nil, rfl, nofun, nofun, rfl, rfl, rfl, rfl⟩
    (sidecarAccepted_idle ⟨rfl, rfl⟩ ⟨rfl, rfl⟩ rfl ⟨rfl, rfl, rfl, rfl, rfl, rfl, rfl⟩) rfl

/-- A market that resolves to YES is still resolved to YES in the next block. -/
theorem resolutionFinal_iff_settled :
    ∃ record : ResolutionRecordSnapshot, record.payoutNanos = 1000000000 ∧ ∀ P : Primitives,
      ResolutionFinal (settledBlock P) ∧
        committedStatus (settledBlock P).stateSidecar 7 = some (.resolved record) := by
  refine ⟨⟨1000000000, .admin, 0⟩, rfl, fun P => ?_⟩
  have hactive : ResolvesActive (settledBlock P) := nofun
  refine ⟨((resolutionFinal_iff P).1 _ (verifyFull_settledBlock P) rfl).mpr hactive, ?_⟩
  have hextends : Extends P (resolvingBlock P (oneMarketSidecar P [])) (settledBlock P) :=
    ⟨⟨rfl, rfl, List.Perm.nil, List.Perm.refl _⟩, verifyFull_settledBlock P⟩
  exact (resolutionFinal_iff P).2 _ [settledBlock P] (verifyFull_resolvingBlock P)
    (List.isChain_pair.mpr ⟨hextends, hactive⟩) 7 _ rfl _ List.mem_cons_self

/-- **A market can be resolved twice.**  A market that was resolved to NO is resolved to YES. -/
theorem second_resolution_accepted :
    ¬ ∃ P : Primitives, ∀ w : BlockWitness, verifyFull P w = [] → w.previousHeader.isSome →
      ResolutionFinal w := by
  rintro ⟨P, hclaim⟩
  have hfinal := hclaim (resolvingBlock P (resolvedSidecar P 0))
    (verifyFull_resolvingBlock_again P) rfl
  have hsilent := hfinal.silent 7 ⟨0, .admin, 0⟩ rfl
  exact hsilent 1000000000 [] (List.mem_singleton.mpr rfl)

end Sybil.Verifier
