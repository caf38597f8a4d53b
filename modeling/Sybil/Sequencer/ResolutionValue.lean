import Sybil.Sequencer.Admission
import Sybil.Sequencer.BatchConservation
import Sybil.Verifier.Solvency

/-!
# What a resolution pays

A resolution turns the YES and NO positions of a market into cash.  Prices of the two outcomes
add up to a dollar, so a market whose totals agree is worth that total in dollars however it
resolves.  Each position is rounded on its own, in magnitude: a positive one loses less than a
nano and a negative one owes less than a nano too little.
-/

namespace Sybil.Sequencer

open Engine TradingSequencer
open Verifier (floorPayout asI64)

variable {yesPayout : Nanos}

/-! ## The pass over the accounts -/

/-- One account in the loop of `resolve_market`: the store so far, and the accounts that held
shares. -/
def resolveMarketStep (market : MarketId) (yesPayout : Nanos) (st : OrdMap ℕ Account × List ℕ)
    (entry : ℕ × Account) : Option (OrdMap ℕ Account × List ℕ) :=
  (resolveAccount market yesPayout entry.2).map fun account =>
    (st.1.insert entry.1 account,
      if holdsShares market entry.2 then st.2 ++ [entry.1] else st.2)

/-- `resolve_market`: pay out the positions of a market; returns the accounts that held any. -/
def AccountStore.resolveMarket (accounts : AccountStore) (market : MarketId) (yesPayout : Nanos) :
    Option (AccountStore × List ℕ) :=
  (accounts.accounts.entries.foldlM (resolveMarketStep market yesPayout)
    (accounts.accounts, [])).map fun st => ({ accounts with accounts := st.1 }, st.2)

/-- The accounts with shares of a market. -/
def AccountStore.holders (accounts : AccountStore) (market : MarketId) : List ℕ :=
  (accounts.accounts.entries.filter fun entry => holdsShares market entry.2).map Prod.fst

theorem foldlM_resolveMarketStep {market : MarketId} (l : List (ℕ × Account))
    (m : OrdMap ℕ Account) (affected : List ℕ) :
    l.foldlM (resolveMarketStep market yesPayout) (m, affected) =
      (l.foldlM (fun m entry => (resolveAccount market yesPayout entry.2).map fun account =>
        m.insert entry.1 account) m).map fun m =>
          (m, affected ++ (l.filter fun entry => holdsShares market entry.2).map Prod.fst) := by
  induction l generalizing m affected with
  | nil => exact congrArg (fun ids => some (m, ids)) (List.append_nil affected).symm
  | cons entry l ih =>
    rw [List.foldlM_cons, List.foldlM_cons, resolveMarketStep]
    cases resolveAccount market yesPayout entry.2 with
    | none => rfl
    | some account =>
      refine (ih _ _).trans ?_
      cases hholds : holdsShares market entry.2 with
      | true =>
        simp only [List.filter_cons, hholds, if_true, List.map_cons, List.append_assoc]
        rfl
      | false =>
        simp only [List.filter_cons, hholds]
        rfl

/-- The sequencer settles a resolution with the accounts that the pass returns. -/
theorem resolveMarket_eq_settleResolution (accounts : AccountStore) (market : MarketId)
    (yesPayout : Nanos) :
    accounts.resolveMarket market yesPayout =
      (settleResolution market yesPayout accounts).map fun after =>
        (after, accounts.holders market) := by
  rw [AccountStore.resolveMarket, foldlM_resolveMarketStep, settleResolution, Option.map_map,
    Option.map_map]
  rfl

/-! ## One account -/

/-- No arithmetic of the account's payout leaves its range: both payouts are `i64`s, and so are
the balances after each. -/
structure Account.PayoutsFit (a : Account) (market : MarketId) (yesPayout : Nanos) : Prop where
  yes : yesPayout * (a.position market 0).natAbs / shareScale < 2 ^ 63
  no : (nanosPerDollar - yesPayout) * (a.position market 1).natAbs / shareScale < 2 ^ 63
  afterYes : -2 ^ 63 ≤ a.balance + floorPayout yesPayout (a.position market 0) ∧
    a.balance + floorPayout yesPayout (a.position market 0) < 2 ^ 63
  afterNo :
    -2 ^ 63 ≤ a.balance + floorPayout yesPayout (a.position market 0) +
      floorPayout (nanosPerDollar - yesPayout) (a.position market 1) ∧
    a.balance + floorPayout yesPayout (a.position market 0) +
      floorPayout (nanosPerDollar - yesPayout) (a.position market 1) < 2 ^ 63

instance (a : Account) (market : MarketId) (yesPayout : Nanos) :
    Decidable (a.PayoutsFit market yesPayout) :=
  decidable_of_iff (_ ∧ _ ∧ _ ∧ _) ⟨fun ⟨h₁, h₂, h₃, h₄⟩ => ⟨h₁, h₂, h₃, h₄⟩,
    fun h => ⟨h.yes, h.no, h.afterYes, h.afterNo⟩⟩

/-- The account after its payout. -/
def Account.resolved (a : Account) (market : MarketId) (yesPayout : Nanos) : Account :=
  { a with
    balance := a.balance + floorPayout yesPayout (a.position market 0) +
      floorPayout (nanosPerDollar - yesPayout) (a.position market 1)
    positions := (a.positions.erase (toLex (market, 0))).erase (toLex (market, 1)) }

/-- A payout that is an `i64` is the floor with the sign of the position. -/
theorem checkedI64_payout {price : Nanos} {quantity : ℤ}
    (h : price * quantity.natAbs / shareScale < 2 ^ 63) :
    checkedI64 (asI64 (notionalNanos price quantity.natAbs) * quantity.sign) =
      some (floorPayout price quantity) := by
  have hnotional : asI64 (notionalNanos price quantity.natAbs) =
      ((price * quantity.natAbs / shareScale : ℕ) : ℤ) := by
    rw [notionalNanos, Nat.mod_eq_of_lt (h.trans (by norm_num)), asI64, if_pos h]
  have hcast : ((price * quantity.natAbs / shareScale : ℕ) : ℤ) < 2 ^ 63 := by exact_mod_cast h
  have hnonneg : 0 ≤ ((price * quantity.natAbs / shareScale : ℕ) : ℤ) := Int.natCast_nonneg _
  rw [hnotional, checkedI64_eq_some_iff]
  refine ⟨?_, rfl⟩
  generalize ((price * quantity.natAbs / shareScale : ℕ) : ℤ) = paid at hcast hnonneg ⊢
  rcases Int.sign_trichotomy quantity with hs | hs | hs <;> rw [hs] <;> constructor <;> omega

theorem resolveAccount_eq {a : Account} {market : MarketId} (h : a.PayoutsFit market yesPayout) :
    resolveAccount market yesPayout a = some (a.resolved market yesPayout) := by
  have hyes : checkedI64 (a.balance + floorPayout yesPayout (a.position market 0)) = some _ :=
    checkedI64_eq_some_iff.mpr ⟨h.afterYes, rfl⟩
  have hno : checkedI64 (a.balance + floorPayout yesPayout (a.position market 0) +
      floorPayout (nanosPerDollar - yesPayout) (a.position market 1)) = some _ :=
    checkedI64_eq_some_iff.mpr ⟨h.afterNo, rfl⟩
  simp only [resolveAccount, checkedI64_payout h.yes, checkedI64_payout h.no, Option.bind_some,
    Account.addBalance, hyes, Option.map_some, hno, Account.resolved]

theorem get?_resolved (a : Account) (market : MarketId) (yesPayout : Nanos) (key : PositionKey) :
    (a.resolved market yesPayout).positions.get? key =
      if key = toLex (market, 0) ∨ key = toLex (market, 1) then none
      else a.positions.get? key := by
  rw [Account.resolved, OrdMap.get?_erase, OrdMap.get?_erase]
  by_cases h₀ : key = toLex (market, 0) <;> by_cases h₁ : key = toLex (market, 1) <;> simp [h₀, h₁]

/-! ## Rounding -/

/-- A payout is within a nano of its exact value, on the side of zero. -/
theorem floorPayout_bounds (price : Nanos) (quantity : ℤ) :
    price * quantity - (if 0 < quantity then 1000 else 0) ≤ 1000 * floorPayout price quantity ∧
      1000 * floorPayout price quantity ≤ price * quantity + if quantity < 0 then 1000 else 0 := by
  have hdiv : ∀ n : ℕ, 1000 * (n / 1000) ≤ n ∧ n < 1000 * (n / 1000) + 1000 := fun n => by omega
  obtain ⟨hle, hlt⟩ := hdiv (price * quantity.natAbs)
  have hle' : 1000 * ((price * quantity.natAbs / 1000 : ℕ) : ℤ) ≤ price * quantity.natAbs := by
    exact_mod_cast hle
  have hlt' : (price : ℤ) * quantity.natAbs <
    1000 * ((price * quantity.natAbs / 1000 : ℕ) : ℤ) + 1000 := by
    exact_mod_cast hlt
  rw [floorPayout, shareScale]
  rcases lt_trichotomy quantity 0 with hneg | rfl | hpos
  · have habs : ((quantity.natAbs : ℕ) : ℤ) = -quantity := by omega
    rw [habs, mul_neg] at hle' hlt'
    rw [Int.sign_eq_neg_one_of_neg hneg, if_neg (by omega), if_pos hneg]
    constructor <;> linarith
  · simp
  · have habs : ((quantity.natAbs : ℕ) : ℤ) = quantity := by omega
    rw [habs] at hle' hlt'
    rw [Int.sign_eq_one_of_pos hpos, if_pos hpos, if_neg (by omega)]
    constructor <;> linarith

/-- How many positions of a market satisfy a condition, over all accounts and both outcomes. -/
def AccountStore.countPositions (accounts : AccountStore) (market : MarketId) (p : ℤ → Bool) : ℤ :=
  accounts.accounts.sumBy fun _ a =>
    (if p (a.position market 0) then 1 else 0) + if p (a.position market 1) then 1 else 0

/-- The payouts of an account are within a nano for each of its positions of the market. -/
theorem resolved_balance_bounds (a : Account) (market : MarketId)
    (hpayout : yesPayout ≤ nanosPerDollar) :
    (yesPayout : ℤ) * a.position market 0 + (10 ^ 9 - yesPayout) * a.position market 1 ≤
      1000 * ((a.resolved market yesPayout).balance - a.balance) +
        1000 * ((if 0 < a.position market 0 then 1 else 0) +
          if 0 < a.position market 1 then 1 else 0) ∧
    1000 * ((a.resolved market yesPayout).balance - a.balance) ≤
      (yesPayout : ℤ) * a.position market 0 + (10 ^ 9 - yesPayout) * a.position market 1 +
        1000 * ((if a.position market 0 < 0 then 1 else 0) +
          if a.position market 1 < 0 then 1 else 0) := by
  obtain ⟨hyes, hyes'⟩ := floorPayout_bounds yesPayout (a.position market 0)
  obtain ⟨hno, hno'⟩ := floorPayout_bounds (nanosPerDollar - yesPayout) (a.position market 1)
  have hprice : ((nanosPerDollar - yesPayout : ℕ) : ℤ) = 10 ^ 9 - yesPayout := by
    rw [Nat.cast_sub hpayout]
    rfl
  rw [hprice] at hno hno'
  have hscale : ∀ (c : Prop) [Decidable c], (if c then (1000 : ℤ) else 0) =
    1000 * if c then 1 else 0 :=
    fun c _ => by split_ifs <;> rfl
  rw [hscale] at hyes hyes' hno hno'
  have hchange : (a.resolved market yesPayout).balance - a.balance =
      floorPayout yesPayout (a.position market 0) +
        floorPayout (nanosPerDollar - yesPayout) (a.position market 1) := by
    rw [Account.resolved]
    ring
  rw [hchange]
  constructor <;> linarith

/-- What a resolution has done to an account store. -/
structure Resolved (accounts after : AccountStore) (affected : List ℕ) (market : MarketId)
    (total : ℤ) : Prop where
  /-- No YES or NO position of the market is left. -/
  closed : ∀ id a, after.accounts.get? id = some a → ∀ outcome, outcome = 0 ∨ outcome = 1 →
    a.positions.get? (toLex (market, outcome)) = none
  /-- The accounts returned are those that held shares, each once. -/
  nodup : affected.Nodup
  mem_affected : ∀ id, id ∈ affected ↔ ∃ a, accounts.accounts.get? id = some a ∧
    (a.position market 0 ≠ 0 ∨ a.position market 1 ≠ 0)
  /-- The accounts are the same, with the same positions in other markets. -/
  contains : ∀ id, after.accounts.contains id = accounts.accounts.contains id
  others : ∀ id a a', accounts.accounts.get? id = some a → after.accounts.get? id = some a' →
    ∀ other outcome, other ≠ market →
      a'.positions.get? (toLex (other, outcome)) = a.positions.get? (toLex (other, outcome))
  /-- The balances grow by a dollar for each share of the total, up to rounding. -/
  lower : 10 ^ 6 * total - accounts.countPositions market (fun q => 0 < q) ≤
    after.totalBalance - accounts.totalBalance
  upper : after.totalBalance - accounts.totalBalance ≤
    10 ^ 6 * total + accounts.countPositions market fun q => q < 0

/-- The exact value of the positions of a market whose totals agree: a dollar for each share. -/
theorem sum_exact_value (accounts : AccountStore) (market : MarketId) (yesPayout : ℤ) {total : ℤ}
    (hyes : accounts.totalPosition market 0 = total)
    (hno : accounts.totalPosition market 1 = total) :
    (accounts.accounts.sumBy fun _ a =>
      yesPayout * a.position market 0 + (10 ^ 9 - yesPayout) * a.position market 1) =
        10 ^ 9 * total := by
  rw [OrdMap.sumBy_add, OrdMap.sumBy_mul_left, OrdMap.sumBy_mul_left]
  change yesPayout * accounts.totalPosition market 0 +
    (10 ^ 9 - yesPayout) * accounts.totalPosition market 1 = 10 ^ 9 * total
  rw [hyes, hno]
  ring

/-- The balances grow by the exact value of the positions, up to a nano for each. -/
theorem resolved_total_bounds (accounts : AccountStore) (market : MarketId) {total : ℤ}
    (hpayout : yesPayout ≤ nanosPerDollar) (hyes : accounts.totalPosition market 0 = total)
    (hno : accounts.totalPosition market 1 = total) :
    10 ^ 6 * total - accounts.countPositions market (fun q => 0 < q) ≤
        (accounts.accounts.sumBy fun _ a => (a.resolved market yesPayout).balance) -
          accounts.totalBalance ∧
      (accounts.accounts.sumBy fun _ a => (a.resolved market yesPayout).balance) -
          accounts.totalBalance ≤
        10 ^ 6 * total + accounts.countPositions market fun q => q < 0 := by
  have hvalue := sum_exact_value accounts market yesPayout hyes hno
  -- Write the balances after as the balances before and the changes.
  have hsplit : (accounts.accounts.sumBy fun _ a => (a.resolved market yesPayout).balance) =
      accounts.totalBalance + accounts.accounts.sumBy fun _ a =>
        (a.resolved market yesPayout).balance - a.balance := by
    rw [AccountStore.totalBalance, ← OrdMap.sumBy_add]
    exact OrdMap.sumBy_congr fun _ a _ => by ring
  have hlower : 10 ^ 9 * total ≤
      1000 * (accounts.accounts.sumBy fun _ a =>
        (a.resolved market yesPayout).balance - a.balance) +
        1000 * accounts.countPositions market (fun q => 0 < q) := by
    rw [← hvalue, AccountStore.countPositions, ← OrdMap.sumBy_mul_left, ← OrdMap.sumBy_mul_left,
      ← OrdMap.sumBy_add]
    refine OrdMap.sumBy_le_sumBy fun _ a _ => ?_
    simpa using (resolved_balance_bounds a market hpayout).1
  have hupper :
      1000 * (accounts.accounts.sumBy fun _ a =>
        (a.resolved market yesPayout).balance - a.balance) ≤
        10 ^ 9 * total + 1000 * accounts.countPositions market (fun q => q < 0) := by
    rw [← hvalue, AccountStore.countPositions, ← OrdMap.sumBy_mul_left, ← OrdMap.sumBy_mul_left,
      ← OrdMap.sumBy_add]
    refine OrdMap.sumBy_le_sumBy fun _ a _ => ?_
    simpa using (resolved_balance_bounds a market hpayout).2
  rw [hsplit]
  constructor <;> linarith

/-- **A resolution conserves value** up to the rounding of each position. -/
theorem resolve_market_conserves (accounts : AccountStore) (market : MarketId) {yesPayout : Nanos}
    {total : ℤ} (hpayout : yesPayout ≤ nanosPerDollar)
    (hyes : accounts.totalPosition market 0 = total)
    (hno : accounts.totalPosition market 1 = total)
    (hfits : ∀ id a, accounts.accounts.get? id = some a → a.PayoutsFit market yesPayout) :
    ∃ after affected, accounts.resolveMarket market yesPayout = some (after, affected) ∧
      Resolved accounts after affected market total := by
  have hpass := OrdMap.foldlM_insert_of_forall (m := accounts.accounts)
    fun id a ha => resolveAccount_eq (hfits id a ha)
  have hget :
    ∀ id a', (accounts.accounts.mapValues fun _ a => a.resolved market yesPayout).get? id =
      some a' → ∃ a, accounts.accounts.get? id = some a ∧ a.resolved market yesPayout = a' := by
    intro id a' ha'
    rw [OrdMap.get?_mapValues] at ha'
    exact Option.map_eq_some_iff.mp ha'
  refine ⟨⟨accounts.accounts.mapValues fun _ a => a.resolved market yesPayout, accounts.nextId⟩,
    accounts.holders market, ?_, ?_⟩
  · rw [resolveMarket_eq_settleResolution, settleResolution, hpass]
    rfl
  obtain ⟨hlower, hupper⟩ := resolved_total_bounds accounts market hpayout hyes hno
  have htotal : (accounts.accounts.sumBy fun _ a => (a.resolved market yesPayout).balance) =
      AccountStore.totalBalance ⟨accounts.accounts.mapValues fun _ a => a.resolved market yesPayout,
        accounts.nextId⟩ := (OrdMap.sumBy_mapValues _ _).symm
  rw [htotal] at hlower hupper
  refine ⟨?_, ?_, ?_, ?_, ?_, hlower, hupper⟩
  · intro id a' ha' outcome houtcome
    obtain ⟨a, -, rfl⟩ := hget id a' ha'
    rw [get?_resolved, if_pos (houtcome.imp (by rintro rfl; rfl) (by rintro rfl; rfl))]
  · exact accounts.accounts.nodup_keys.sublist (List.filter_sublist.map Prod.fst)
  · intro id
    simp only [AccountStore.holders, List.mem_map, List.mem_filter, Prod.exists,
      exists_and_right, exists_eq_right, OrdMap.mem_entries_iff, holdsShares, decide_eq_true_eq]
  · intro id
    rw [OrdMap.contains, OrdMap.get?_mapValues, Option.isSome_map, OrdMap.contains]
  · intro id a a' ha ha' other outcome hother
    obtain ⟨_, hsame, rfl⟩ := hget id a' ha'
    cases ha.symm.trans hsame
    have hne : ∀ o, toLex (other, outcome) ≠ toLex (market, o) := fun o heq =>
      hother (congrArg Prod.fst (toLex.injective heq))
    rw [get?_resolved, if_neg (not_or.mpr ⟨hne 0, hne 1⟩)]

/-- An account without cash that holds a number of shares. -/
def holding (id : ℕ) (outcome : ℕ) (quantity : ℤ) : ℕ × Account :=
  (id, ⟨id, 0, OrdMap.insert ∅ (toLex (7, outcome)) quantity, 0, 0⟩)

/-- Two holders, and MINT short of the difference. -/
def shortMint : AccountStore :=
  ⟨OrdMap.ofList [holding 1 0 2501, holding 2 1 1500, holding AccountId.mint 0 (-1001)], 3⟩

/-- At a third of a dollar for YES the three payouts are rounded towards zero. -/
theorem resolve_market_conserves_short :
    (shortMint.resolveMarket 7 333333333).isSome = true ∧
      ∃ after affected, shortMint.resolveMarket 7 333333333 = some (after, affected) ∧
        Resolved shortMint after affected 7 1500 := by
  have hentries : ∀ e ∈ shortMint.accounts.entries, e.2.PayoutsFit 7 333333333 := by
    decide +kernel
  exact ⟨by decide +kernel, resolve_market_conserves shortMint 7 (by decide) (by decide +kernel)
    (by decide +kernel) fun id a ha => hentries (id, a) (OrdMap.mem_entries_iff.mpr ha)⟩

end Sybil.Sequencer
