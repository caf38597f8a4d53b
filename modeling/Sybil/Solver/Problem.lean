import Sybil.Solver.Trim

/-!
# The problem that a solver is given

A batch to be cleared: the orders and the groups of mutually exclusive markets, with the index
tables that every solver builds from it first.
-/

namespace Sybil.Solver

open Engine

/-- A batch, as far as prices are found from it. -/
structure Problem where
  orders : List Order
  marketGroups : List MarketGroup

/-- Keep the first of equal items. -/
def distinct {α : Type} [DecidableEq α] (l : List α) : List α :=
  l.foldl (fun seen a => if a ∈ seen then seen else seen ++ [a]) []

/-- The markets of the orders, in the order in which they appear. -/
def collectMarkets (orders : List Order) : List MarketId :=
  distinct ((orders.flatMap Order.activeMarkets).filter fun market => market ≠ MarketId.none)

/-- The group of every grouped market, by its index; the last group of a market counts. -/
def marketToGroup (groups : List MarketGroup) : OrdMap MarketId ℕ :=
  OrdMap.ofList (groups.zipIdx.flatMap fun entry => entry.1.markets.map fun market =>
    (market, entry.2))

/-- The tables that the solvers share. -/
structure SolverContext where
  markets : List MarketId
  marketToGroup : OrdMap MarketId ℕ
  numGroups : ℕ

def buildSolverContext (problem : Problem) : SolverContext where
  markets := collectMarkets problem.orders
  marketToGroup := marketToGroup problem.marketGroups
  numGroups := problem.marketGroups.length

/-! ## Distinct items -/

section Distinct

variable {α : Type} [DecidableEq α] {l : List α}

theorem distinct_concat (l : List α) (a : α) :
    distinct (l ++ [a]) = if a ∈ distinct l then distinct l else distinct l ++ [a] := by
  rw [distinct, List.foldl_append]
  rfl

theorem mem_distinct {a : α} : a ∈ distinct l ↔ a ∈ l := by
  induction l using List.reverseRecOn with
  | nil => rfl
  | append_singleton l b ih =>
    rw [distinct_concat]
    split_ifs with hb
    · rw [ih, List.mem_append, List.mem_singleton]
      refine ⟨.inl, fun h => h.elim id fun hab => ?_⟩
      subst hab
      exact ih.mp hb
    · rw [List.mem_append, ih, List.mem_append]

theorem nodup_distinct (l : List α) : (distinct l).Nodup := by
  induction l using List.reverseRecOn with
  | nil => exact List.nodup_nil
  | append_singleton l b ih =>
    rw [distinct_concat]
    split_ifs with hb
    · exact ih
    · refine List.nodup_append.mpr ⟨ih, List.nodup_singleton b, ?_⟩
      rintro a ha _ hb' rfl
      exact hb (List.mem_singleton.mp hb' ▸ ha)

end Distinct

theorem mem_collectMarkets {orders : List Order} {order : Order} (horder : order ∈ orders)
    (hone : order.numMarkets = 1) (hmarket : order.marketAt 0 ≠ MarketId.none) :
    order.marketAt 0 ∈ collectMarkets orders := by
  rw [collectMarkets, mem_distinct, List.mem_filter]
  refine ⟨List.mem_flatMap.mpr ⟨order, horder, ?_⟩, decide_eq_true hmarket⟩
  rw [Order.activeMarkets, hone, Order.marketAt]
  have hlen : order.markets.toList.length = 5 := order.markets.size_toArray
  match hlist : order.markets.toList with
  | [] => simp [hlist] at hlen
  | market :: _ => exact List.mem_singleton_self _

/-- No market is in two groups. -/
def GroupsDisjoint (groups : List MarketGroup) : Prop :=
  groups.Pairwise fun a b => a.markets.Disjoint b.markets

/-- When no market is in two groups, the table says in which group a market is. -/
theorem get?_marketToGroup {groups : List MarketGroup} (hdisjoint : GroupsDisjoint groups)
    {market : MarketId} {g : ℕ} :
    (marketToGroup groups).get? market = some g ↔
      ∃ group, groups[g]? = some group ∧ market ∈ group.markets := by
  have hmem : ∀ g, (market, g) ∈ (groups.zipIdx.flatMap fun entry =>
      entry.1.markets.map fun market => (market, entry.2)) ↔
        ∃ group, groups[g]? = some group ∧ market ∈ group.markets := by
    intro g
    simp only [List.mem_flatMap, List.mem_map, Prod.mk.injEq]
    constructor
    · rintro ⟨⟨group, j⟩, hentry, _, hmarket, rfl, rfl⟩
      exact ⟨group, List.mem_zipIdx_iff_getElem?.mp hentry, hmarket⟩
    · rintro ⟨group, hget, hmarket⟩
      exact ⟨(group, g), List.mem_zipIdx_iff_getElem?.mpr hget, market, hmarket, rfl, rfl⟩
  constructor
  · exact fun h => (hmem g).mp (OrdMap.mem_of_get?_ofList h)
  · rintro ⟨group, hget, hmarket⟩
    obtain ⟨g', hg'⟩ := OrdMap.contains_ofList.mpr ⟨_, (hmem g).mpr ⟨group, hget, hmarket⟩⟩
    obtain ⟨group', hget', hmarket'⟩ := (hmem g').mp (OrdMap.mem_of_get?_ofList hg')
    obtain rfl : g' = g := by
      by_contra hne
      obtain ⟨hi, rfl⟩ := List.getElem?_eq_some_iff.mp hget
      obtain ⟨hj, rfl⟩ := List.getElem?_eq_some_iff.mp hget'
      rcases Nat.lt_or_gt_of_ne hne with hlt | hlt
      · exact List.pairwise_iff_getElem.mp hdisjoint g' g hj hi hlt hmarket' hmarket
      · exact List.pairwise_iff_getElem.mp hdisjoint g g' hi hj hlt hmarket hmarket'
    exact hg'

end Sybil.Solver
