import Mathlib
import Sybil.Sequencer.BookRuns
import Sybil.Sequencer.Production
import Sybil.Verifier.Sidecar.Markets
import Sybil.Sequencer.SettlementReplay
import Sybil.Sequencer.OrderAccounting
import Sybil.Verifier.Rejections

/-!
# Accepted orders are covered

The verifier adds up the worst-case costs of an account's accepted buys, in the order of the
witness, and compares each sum with the balance.  The sequencer never adds up costs.  At
block start it judges each resting order alone, against what all the others reserve, the ones
that are about to leave included, and what an order reserves can be more than it costs.

The costs add up nevertheless.  If one buy is kept, its cost and everything that the others
reserve fit the balance (`buyCosts_le_of_kept`), and what the others reserve covers what they
cost.  Sells reserve what they offer, so one kept sell bounds all of them.  New orders are
accepted against what is reserved, which is at least what is owed.

* `Affordable` is the resulting invariant of the book during a block.
* `covered_in_block` is the result for any sound book and any orders, and for any listing of
  the accepted ones.  It speaks of accounts with a resting buy and of outcomes with a resting
  sell: an account may have a negative balance or position and no orders, like the one that
  the exchange mints from.
-/

namespace Sybil.Sequencer

open Engine

open Verifier (WitnessOrder BlockWitness verifyAccepted accountsOf isPureBuy reservedFor)

variable {order : Order}

/-! ## What the resting orders owe -/

namespace OrderBook

/-- Cost of the resting buys of an account. -/
def buyCosts (book : OrderBook) (accountId : ℕ) : ℤ :=
  ((book.orders.filter fun ro => ro.accountId = accountId ∧ ro.order.isSeller = false).map
    fun ro => (buyCost ro.order : ℤ)).sum

/-- Shares of an outcome that the resting sells of an account offer. -/
def sellQuantities (book : OrderBook) (accountId : ℕ) (market : MarketId) (outcome : ℕ) : ℤ :=
  ((book.orders.filter fun ro => ro.accountId = accountId ∧ ro.order.marketAt 0 = market ∧
    ro.order.payoffAt outcome < 0).map fun ro => (ro.order.maxFill : ℤ)).sum

end OrderBook

namespace RestingOrder

/-- What an order can cost an account. -/
def costAt (ro : RestingOrder) (accountId : ℕ) : ℤ :=
  if ro.accountId = accountId ∧ ro.order.isSeller = false then buyCost ro.order else 0

variable {ro : RestingOrder}

theorem Covered.costAt_le (h : ro.Covered) (accountId : ℕ) :
    ro.costAt accountId ≤ ro.balanceAt accountId := by
  obtain ⟨outcome, sells, hshape⟩ := Order.binaryOneHot_of_validate h.shape
  have hcovers := h.covers _ (balanceReservation_eq h.shape hshape)
  have hnonneg := h.balance_nonneg
  unfold costAt balanceAt
  rw [hshape.isSeller_eq]
  cases sells with
  | true =>
    rw [if_neg (by simp)]
    split_ifs
    · exact hnonneg
    · exact le_refl _
  | false =>
    by_cases hid : ro.accountId = accountId
    · rw [if_pos ⟨hid, rfl⟩, if_pos hid]
      simpa using hcovers
    · rw [if_neg (fun h => hid h.1), if_neg hid]

/-- A one-hot order has a negative payoff in the outcome that it sells. -/
theorem payoffAt_neg_iff {own outcome : ℕ} {sells : Bool} (hshape : order.BinaryOneHot own sells)
    (houtcome : outcome = 0 ∨ outcome = 1) :
    order.payoffAt outcome < 0 ↔ sells = true ∧ outcome = own := by
  have hpayoff := hshape.payoff
  have hother := hshape.other
  rcases hshape.binary with rfl | rfl <;> rcases houtcome with rfl | rfl <;> cases sells <;>
    simp_all

/-- A covered order reserves the shares that it offers. -/
theorem Covered.sharesAt_eq (h : ro.Covered) (accountId : ℕ) (market : MarketId) (outcome : ℕ)
    (houtcome : outcome = 0 ∨ outcome = 1) :
    ro.sharesAt (toLex (accountId, toLex (market, outcome))) =
      if ro.accountId = accountId ∧ ro.order.marketAt 0 = market ∧
        ro.order.payoffAt outcome < 0 then
        (ro.order.maxFill : ℤ) else 0 := by
  obtain ⟨own, sells, hshape⟩ := Order.binaryOneHot_of_validate h.shape
  by_cases hid : ro.accountId = accountId
  · subst hid
    have hiff : (sells = true ∧ toLex (market, outcome) = toLex (ro.order.marketAt 0, own)) ↔
        (ro.accountId = ro.accountId ∧ ro.order.marketAt 0 = market ∧
          ro.order.payoffAt outcome < 0) := by
      rw [toLex_inj, Prod.mk.injEq, payoffAt_neg_iff hshape houtcome]
      constructor
      · exact fun ⟨hsells, hmarket, hown⟩ => ⟨rfl, hmarket.symm, hsells, hown⟩
      · exact fun ⟨_, hmarket, hsells, hown⟩ => ⟨hsells, hmarket.symm, hown⟩
    rw [OrderBook.sharesAt_of_covered h hshape]
    exact if_congr hiff rfl rfl
  · rw [if_neg fun h => hid h.1, RestingOrder.sharesAt]
    refine List.sum_eq_zero fun x hx => ?_
    obtain ⟨entry, -, rfl⟩ := List.mem_map.mp hx
    exact if_neg fun heq => hid (Prod.mk.inj (toLex.injective heq)).1

end RestingOrder

namespace OrderBook

variable {book book' : OrderBook} {ro : RestingOrder} {accountId outcome : ℕ} {market : MarketId}
  {account : Account}

theorem buyCosts_eq (book : OrderBook) (accountId : ℕ) :
    book.buyCosts accountId = (book.orders.map fun ro => ro.costAt accountId).sum := by
  rw [buyCosts, sum_map_filter]
  simp only [decide_eq_true_eq]
  rfl

/-- The sells of a sound book offer what is reserved. -/
theorem Sound.sellQuantities_eq (h : book.Sound) (houtcome : outcome = 0 ∨ outcome = 1) :
    book.sellQuantities accountId market outcome =
      book.reservations.position.amount (toLex (accountId, toLex (market, outcome))) := by
  rw [sellQuantities, sum_map_filter, h.tally.position]
  refine congrArg List.sum (List.map_congr_left fun ro hro => ?_)
  rw [(h.covered ro hro).sharesAt_eq accountId market outcome houtcome]
  simp only [decide_eq_true_eq]

/-- The buys of a sound book cost at most what is reserved. -/
theorem Sound.buyCosts_le (h : book.Sound) (accountId : ℕ) :
    book.buyCosts accountId ≤ book.reservations.balance.amount accountId := by
  rw [buyCosts_eq, h.tally.balance]
  exact List.sum_le_sum fun ro hro => (h.covered ro hro).costAt_le accountId

/-- **One kept buy bounds them all.**  Besides the order itself, the kept orders cost at most what
they reserve, which is part of what the order was judged against. -/
theorem buyCosts_le_of_kept (hbook : book.Sound) (hsub : book'.orders.Sublist book.orders)
    (hro : ro ∈ book'.orders) :
    book'.buyCosts ro.accountId ≤ ro.costAt ro.accountId +
      (book.reservations.balance.amount ro.accountId - ro.reservedBalance) := by
  obtain ⟨before, after, hsplit⟩ := List.append_of_mem hro
  have hperm : book'.orders.Perm (ro :: (before ++ after)) := hsplit ▸ List.perm_middle
  have hcovered : ∀ other ∈ book'.orders, other.Covered := fun other hother =>
    hbook.covered other (hsub.subset hother)
  have hcosts : book'.buyCosts ro.accountId = ro.costAt ro.accountId +
      ((before ++ after).map fun other => other.costAt ro.accountId).sum := by
    rw [buyCosts_eq, (hperm.map _).sum_eq, List.map_cons, List.sum_cons]
  have hothers : ((before ++ after).map fun other => other.costAt ro.accountId).sum ≤
      ((before ++ after).map fun other => other.balanceAt ro.accountId).sum :=
    List.sum_le_sum fun other hother => (hcovered other
      (hperm.mem_iff.mpr (List.mem_cons_of_mem _ hother))).costAt_le _
  have hreserved : (book'.orders.map fun other => other.balanceAt ro.accountId).sum ≤
      book.reservations.balance.amount ro.accountId := by
    rw [hbook.tally.balance]
    refine (hsub.map _).sum_le_sum fun x hx => ?_
    obtain ⟨other, hother, rfl⟩ := List.mem_map.mp hx
    exact (hbook.covered other hother).nonneg.balanceAt _
  rw [(hperm.map _).sum_eq, List.map_cons, List.sum_cons, RestingOrder.balanceAt,
    if_pos rfl] at hreserved
  rw [hcosts]
  linarith

theorem sellQuantities_le_of_sublist (hsub : book'.orders.Sublist book.orders) :
    book'.sellQuantities accountId market outcome ≤
      book.sellQuantities accountId market outcome := by
  refine ((hsub.filter _).map _).sum_le_sum fun x hx => ?_
  obtain ⟨ro, -, rfl⟩ := List.mem_map.mp hx
  exact Int.natCast_nonneg _

/-! ## The book during a block -/

/-- What the owner of a resting order has: balance for its resting buys when the order buys, and
shares for its resting sells of the outcome when it sells. -/
def OwnerCovers (accounts : AccountStore) (book : OrderBook) (ro : RestingOrder) : Prop :=
  ∃ account, accounts.accounts.get? ro.accountId = some account ∧
    (ro.order.isSeller = false → book.buyCosts ro.accountId ≤ account.balance) ∧
    ∀ outcome, ro.order.BinaryOneHot outcome true →
      book.sellQuantities ro.accountId (ro.order.marketAt 0) outcome ≤
        account.position (ro.order.marketAt 0) outcome

/-- The book is sound, its orders are live at the height and every owner covers theirs. -/
structure Affordable (accounts : AccountStore) (height : ℕ) (book : OrderBook) : Prop where
  sound : book.Sound
  owners : ∀ ro ∈ book.orders, book.OwnerCovers accounts ro
  live : ∀ ro ∈ book.orders, ∀ expiry, ro.order.expiresAtBlock = some expiry → height ≤ expiry

/-- No order rests longer than it asks for. -/
def ExpiresInTime (book : OrderBook) : Prop :=
  ∀ ro ∈ book.orders, ∀ expiry, ro.order.expiresAtBlock = some expiry → ro.expiresAtBlock ≤ expiry

variable {accounts : AccountStore} {activeMarkets : List MarketId} {height : ℕ}

/-- A kept order has tradeable markets and an owner. -/
theorem kept_of_revalidationExit (h : book.revalidationExit accounts activeMarkets ro = none) :
    ro.order.activeMarkets.all (fun m => activeMarkets.contains m) = true ∧
      ∃ account, accounts.accounts.get? ro.accountId = some account := by
  unfold revalidationExit at h
  split_ifs at h with hmarkets
  split at h
  · cases h
  · next account haccount => exact ⟨Bool.not_eq_false _ ▸ hmarkets, account, haccount⟩

/-- **The start of a block.** -/
theorem affordable_revalidate (hbook : book.Sound) (hlive : ∀ ro ∈ book.orders, ∀ expiry,
      ro.order.expiresAtBlock = some expiry → height ≤ expiry)
    {removed : List (RestingOrder × RestingRevalidationExit)}
    (h : book.revalidate accounts activeMarkets = .ok (book', removed)) :
    book'.Affordable accounts height := by
  obtain ⟨horders, -, -, htallied⟩ := revalidate_eq_ok h
  have hsub : book'.orders.Sublist book.orders := horders ▸ List.filter_sublist
  have hsound : book'.Sound :=
    ⟨(htallied hbook.tallied).tally, fun ro hro => hbook.covered ro (hsub.subset hro)⟩
  refine ⟨hsound, fun ro hro => ?_, fun ro hro => hlive ro (hsub.subset hro)⟩
  have hmem : ro ∈ book.orders := hsub.subset hro
  have hexit : book.revalidationExit accounts activeMarkets ro = none := by
    rw [horders] at hro
    exact Option.isNone_iff_eq_none.mp (List.mem_filter.mp hro).2
  obtain ⟨hmarkets, account, haccount⟩ := kept_of_revalidationExit hexit
  refine ⟨account, haccount, fun hbuy => ?_, fun outcome hshape => ?_⟩
  · obtain ⟨outcome, sells, hshape⟩ := Order.binaryOneHot_of_validate (hbook.covered ro hmem).shape
    obtain rfl : sells = false := hshape.isSeller_eq.symm.trans hbuy
    obtain ⟨-, hcost⟩ :=
      (revalidationExit_eq_none_iff hbook hmem hmarkets haccount hshape).mp hexit
    have hall := buyCosts_le_of_kept hbook hsub hro
    rw [RestingOrder.costAt, if_pos ⟨rfl, hbuy⟩] at hall
    simp only [Bool.false_eq_true, if_false] at hcost
    linarith
  · obtain ⟨-, hshares⟩ :=
      (revalidationExit_eq_none_iff hbook hmem hmarkets haccount hshape).mp hexit
    have hall : book'.sellQuantities ro.accountId (ro.order.marketAt 0) outcome ≤
        book.sellQuantities ro.accountId (ro.order.marketAt 0) outcome :=
      sellQuantities_le_of_sublist hsub
    rw [hbook.sellQuantities_eq hshape.binary] at hall
    simp only [if_true] at hshares
    linarith

section Acceptance

variable {found : Account} {a own : ℕ} {sells : Bool} (h : book.Sound)
  (haccepts : book.Accepts order accountId account height book' ro)
  (hown : order.BinaryOneHot own sells)

include h haccepts hown

/-- A balance that covered the buys of an account still does; the buys with the new one are covered
because it was admitted. -/
theorem Accepts.buyCosts_le (hfound : a = accountId → account = found)
    (hcase : book.buyCosts a ≤ found.balance ∨ (a = accountId ∧ sells = false)) :
    book'.buyCosts a ≤ found.balance := by
  rw [buyCosts_eq, haccepts.book_eq, List.map_append, List.sum_append, ← buyCosts_eq,
    List.map_singleton, List.sum_singleton, RestingOrder.costAt, haccepts.order_eq,
    haccepts.accountId_eq, hown.isSeller_eq]
  by_cases hnew : a = accountId ∧ sells = false
  · obtain ⟨rfl, rfl⟩ := hnew
    obtain rfl := hfound rfl
    have hvalid : order.validateBinaryOneHot = .ok () := shape_of_validated haccepts.validated
    have hfunds := (validated_iff hvalid hown).mp ⟨_, haccepts.validated⟩
    have hreserved := h.buyCosts_le a
    simp only [Bool.false_eq_true, if_false] at hfunds
    rw [if_pos ⟨rfl, rfl⟩]
    linarith
  · rw [if_neg (fun hcost => hnew ⟨hcost.1.symm, hcost.2⟩), add_zero]
    exact hcase.resolve_right hnew

/-- The same for the sells of an outcome. -/
theorem Accepts.sellQuantities_le (houtcome : outcome = 0 ∨ outcome = 1)
    (hfound : a = accountId → account = found)
    (hcase : book.sellQuantities a market outcome ≤ found.position market outcome ∨
      (a = accountId ∧ market = order.marketAt 0 ∧ outcome = own ∧ sells = true)) :
    book'.sellQuantities a market outcome ≤ found.position market outcome := by
  have hsound := h.accept haccepts
  have hmem : ro ∈ book'.orders := by simp [haccepts.book_eq]
  have hsold := RestingOrder.payoffAt_neg_iff hown houtcome
  have hshares : book'.sellQuantities a market outcome = book.sellQuantities a market outcome +
      ro.sharesAt (toLex (a, toLex (market, outcome))) := by
    rw [hsound.sellQuantities_eq houtcome, h.sellQuantities_eq houtcome, hsound.tally.position,
      h.tally.position, haccepts.book_eq, List.map_append, List.sum_append, List.map_singleton,
      List.sum_singleton]
  rw [hshares, (hsound.covered ro hmem).sharesAt_eq a market outcome houtcome, haccepts.order_eq,
    haccepts.accountId_eq]
  by_cases hnew : a = accountId ∧ market = order.marketAt 0 ∧ outcome = own ∧ sells = true
  · obtain ⟨rfl, rfl, rfl, rfl⟩ := hnew
    obtain rfl := hfound rfl
    have hvalid : order.validateBinaryOneHot = .ok () := shape_of_validated haccepts.validated
    have hfunds := (validated_iff hvalid hown).mp ⟨_, haccepts.validated⟩
    simp only [if_true, BookReservations.amount_acctPositions] at hfunds
    rw [if_pos ⟨rfl, rfl, hsold.mpr ⟨rfl, rfl⟩⟩, h.sellQuantities_eq houtcome]
    linarith
  · rw [if_neg (fun hsell => hnew ⟨hsell.1.symm, hsell.2.1.symm, (hsold.mp hsell.2.2).2,
      (hsold.mp hsell.2.2).1⟩), add_zero]
    exact hcase.resolve_right hnew

end Acceptance

/-- **One acceptance.** -/
theorem Affordable.accept (h : book.Affordable accounts height) {nowMs : ℕ}
    (haccount : accounts.accounts.get? accountId = some account)
    (hlive : ∀ expiry, order.expiresAtBlock = some expiry → height ≤ expiry)
    (haccept : book.accept order accountId account height nowMs = .ok (book', ro)) :
    book'.Affordable accounts height := by
  have haccepts := accepts_of_accept haccept
  have horders : book'.orders = book.orders ++ [ro] := by rw [haccepts.book_eq]
  obtain ⟨own, sells, hown⟩ :=
    Order.binaryOneHot_of_validate (shape_of_validated haccepts.validated)
  refine ⟨h.sound.accept haccepts, fun other hother => ?_, fun other hother => ?_⟩
  · rw [horders] at hother
    rcases List.mem_append.mp hother with hother | hother
    · obtain ⟨found, hget, hbuy, hsell⟩ := h.owners other hother
      have hfound : other.accountId = accountId → account = found := fun heq =>
        Option.some.inj (haccount.symm.trans (heq ▸ hget))
      exact ⟨found, hget,
        fun hseller => haccepts.buyCosts_le h.sound hown hfound (.inl (hbuy hseller)),
        fun outcome hshape => haccepts.sellQuantities_le h.sound hown hshape.binary hfound
          (.inl (hsell outcome hshape))⟩
    · obtain rfl := List.mem_singleton.mp hother
      refine ⟨account, haccepts.accountId_eq ▸ haccount, fun hseller => ?_,
        fun outcome hshape => ?_⟩
      · exact haccepts.buyCosts_le h.sound hown (fun _ => rfl) (.inr ⟨haccepts.accountId_eq,
          hown.isSeller_eq.symm.trans (haccepts.order_eq ▸ hseller)⟩)
      · rw [haccepts.order_eq] at hshape ⊢
        exact haccepts.sellQuantities_le h.sound hown hshape.binary (fun _ => rfl)
          (.inr ⟨haccepts.accountId_eq, rfl, hshape.outcome_unique hown,
            hown.isSeller_eq.symm.trans hshape.isSeller_eq⟩)
  · rw [horders] at hother
    rcases List.mem_append.mp hother with hother | hother
    · exact h.live other hother
    · obtain rfl := List.mem_singleton.mp hother
      exact haccepts.order_eq ▸ hlive

end OrderBook

/-! ## The pass of the verifier -/

section Pass

open Verifier (Accounts AccountSnapshot ReservedBalances verifyBuyCover verifySellCover
  verifySellOutcome verifyCover expiryViolations firstPosition hasPositive)

variable {wo : WitnessOrder} {snapshot : AccountSnapshot} {reserved : ReservedBalances}
  {height outcome : ℕ} {postSystem : Accounts}

/-- A buy within what the batch left of the balance. -/
theorem verifyBuyCover_silent (hvalid : wo.order.validateBinaryOneHot = .ok ())
    (hheld : 0 ≤ reserved.amount wo.accountId) (hbalance : snapshot.balance < 2 ^ 63)
    (hcover : reserved.amount wo.accountId + buyCost wo.order ≤ snapshot.balance) :
    (verifyBuyCover reserved wo snapshot).2 = [] := by
  have hheld' : (reserved.get? wo.accountId).getD 0 = reserved.amount wo.accountId := rfl
  have hleft : checkedI64 (snapshot.balance - reserved.amount wo.accountId) =
      some (snapshot.balance - reserved.amount wo.accountId) := by
    rw [checkedI64_eq_some_iff]
    omega
  have hsum : checkedI64 (reserved.amount wo.accountId + buyCost wo.order) =
      some (reserved.amount wo.accountId + buyCost wo.order) := by
    rw [checkedI64_eq_some_iff]
    omega
  have henough : ¬snapshot.balance - reserved.amount wo.accountId < buyCost wo.order := by omega
  unfold verifyBuyCover
  dsimp only
  rw [checkedPriceQtyCeil_eq hvalid]
  dsimp only
  rw [hheld', hleft]
  dsimp only
  rw [hsum]
  exact reportIf_eq_nil.mpr henough

theorem verifySellCover_silent (hvalid : wo.order.validateBinaryOneHot = .ok ())
    (hshape : wo.order.BinaryOneHot outcome true)
    (hshares : (wo.order.maxFill : ℤ) ≤
      firstPosition snapshot.positions (wo.order.marketAt 0) outcome) :
    verifySellCover wo snapshot = [] := by
  have hfill : (wo.order.maxFill : ℤ) ≤ 1000000000 := by
    exact_mod_cast (bounds_of_validate hvalid).2
  have hcast : i64OfU64 wo.order.maxFill = some (wo.order.maxFill : ℤ) :=
    i64OfU64_eq_some_iff.mpr ⟨by omega, rfl⟩
  have hqty : (Verifier.checkedPositionQty (-1) wo.order.maxFill).bind (fun q => checkedI64 (-q)) =
      some (wo.order.maxFill : ℤ) := by
    have hneg : checkedI64 (-1 * (wo.order.maxFill : ℤ)) = some (-1 * (wo.order.maxFill : ℤ)) := by
      rw [checkedI64_eq_some_iff]
      omega
    rw [Verifier.checkedPositionQty, hcast]
    show (checkedI64 _).bind _ = _
    rw [hneg]
    show checkedI64 _ = _
    rw [checkedI64_eq_some_iff]
    omega
  have houtcome : verifySellOutcome wo snapshot outcome = [] := by
    have hpayoff : wo.order.payoffAt outcome = -1 := hshape.payoff
    simp only [verifySellOutcome, hpayoff, hqty]
    rw [if_neg (by decide), reportIf_eq_nil]
    omega
  have hother : verifySellOutcome wo snapshot (1 - outcome) = [] := by
    rw [verifySellOutcome, if_pos hshape.other.ge]
  rw [verifySellCover, if_pos hshape.numMarkets, hshape.numStates]
  rcases hshape.binary with rfl | rfl
  · simpa [List.range_succ] using ⟨houtcome, hother⟩
  · simpa [List.range_succ] using ⟨hother, houtcome⟩

/-- **A covered order** passes. -/
theorem verifyAccepted_silent (hmm : wo.isMm = false)
    (hvalid : wo.order.validateBinaryOneHot = .ok ())
    (hlive : ∀ expiry, wo.order.expiresAtBlock = some expiry → height ≤ expiry)
    (hsnapshot : postSystem.get? wo.accountId = some snapshot)
    (hbuy : wo.order.isSeller = false → 0 ≤ reserved.amount wo.accountId ∧
      snapshot.balance < 2 ^ 63 ∧
      reserved.amount wo.accountId + buyCost wo.order ≤ snapshot.balance)
    (hsell : ∀ outcome, wo.order.BinaryOneHot outcome true → (wo.order.maxFill : ℤ) ≤
      firstPosition snapshot.positions (wo.order.marketAt 0) outcome) :
    (verifyAccepted height postSystem reserved wo).2 = [] := by
  have hexpiry : expiryViolations height wo.order = [] := by
    unfold expiryViolations
    split
    · next expiry hexpiry => exact reportIf_eq_nil.mpr (Nat.not_lt.mpr (hlive expiry hexpiry))
    · rfl
  have hcover : (verifyCover reserved wo snapshot).2 = [] := by
    obtain ⟨outcome, sells, hshape⟩ := Order.binaryOneHot_of_validate hvalid
    unfold verifyCover
    rw [hasPositive_of_oneHot hshape, hshape.isSeller_eq]
    cases sells with
    | false =>
      obtain ⟨hheld, hbalance, hcover⟩ := hbuy hshape.isSeller_eq
      have hsilent := verifyBuyCover_silent hvalid hheld hbalance hcover
      simpa using hsilent
    | true =>
      have hsilent := verifySellCover_silent hvalid hshape (hsell outcome hshape)
      simpa using hsilent
  have hlimit := Nat.not_lt.mpr (bounds_of_validate hvalid).1
  simp only [verifyAccepted, hlimit, if_false, hvalid, hmm, Bool.false_eq_true, hsnapshot, hexpiry,
    hcover, List.append_nil]

theorem verifyAccepted_mm (hmm : wo.isMm = true) :
    (verifyAccepted height postSystem reserved wo).1 = reserved := by
  unfold verifyAccepted
  simp only [hmm, if_true]
  split_ifs
  · rfl
  · split <;> rfl

end Pass

/-! ## A witness that lists the book -/

/-- The entry of a resting order in a witness. -/
def RestingOrder.listed (ro : RestingOrder) : WitnessOrder := ⟨ro.order, ro.accountId, false⟩

/-- The pass over the accepted orders reports nothing of those that are not a market maker's,
whatever it makes of the others. -/
def SilentOnBook (w : BlockWitness) : Prop :=
  ∀ before wo after, w.orders = before ++ wo :: after → wo.isMm = false →
    (verifyAccepted w.header.height (accountsOf w.postSystemState)
      (reportLoop (verifyAccepted w.header.height (accountsOf w.postSystemState)) ∅ before).1
        wo).2 = []

section Listing

variable {w : BlockWitness} {book : OrderBook} {accounts : AccountStore} {ro : RestingOrder}
  {keyState : ℕ → Digest × ℕ}

theorem reservedFor_listed (h : ro.Covered) (accountId : ℕ) :
    reservedFor ro.listed accountId = ro.costAt accountId := by
  obtain ⟨outcome, sells, hshape⟩ := Order.binaryOneHot_of_validate h.shape
  have hbuy : isPureBuy ro.order = !sells := by
    rw [isPureBuy, hasPositive_of_oneHot hshape, hshape.isSeller_eq, Bool.and_self]
  rw [reservedFor, RestingOrder.costAt, hshape.isSeller_eq]
  show (if (decide (ro.accountId = accountId) && !false && isPureBuy ro.order) = true then _
    else _) = _
  rw [hbuy]
  cases sells <;> simp
  rfl

theorem sum_reservedFor_nonneg (orders : List WitnessOrder) (accountId : ℕ) :
    0 ≤ (orders.map fun wo => reservedFor wo accountId).sum := by
  refine List.sum_nonneg fun x hx => ?_
  obtain ⟨wo, -, rfl⟩ := List.mem_map.mp hx
  unfold reservedFor
  split_ifs
  · exact Int.natCast_nonneg _
  · exact le_refl _

theorem reservedFor_mm {wo : WitnessOrder} (hmm : wo.isMm = true) (accountId : ℕ) :
    reservedFor wo accountId = 0 := by
  rw [reservedFor, hmm]
  simp

/-- The listed orders reserve what the book's buys cost, in any order. -/
theorem sum_reservedFor {orders : List WitnessOrder} (hcovered : ∀ ro ∈ book.orders, ro.Covered)
    (hlisted : (orders.filter fun wo => !wo.isMm).Perm (book.orders.map RestingOrder.listed))
    (accountId : ℕ) :
    (orders.map fun wo => reservedFor wo accountId).sum = book.buyCosts accountId := by
  calc (orders.map fun wo => reservedFor wo accountId).sum
      = ((orders.filter fun wo => !wo.isMm).map fun wo => reservedFor wo accountId).sum := by
        rw [sum_map_filter]
        refine congrArg List.sum (List.map_congr_left fun wo _ => ?_)
        cases hmm : wo.isMm with
        | true => exact reservedFor_mm hmm accountId
        | false => rfl
    _ = ((book.orders.map RestingOrder.listed).map fun wo => reservedFor wo accountId).sum :=
        (hlisted.map _).sum_eq
    _ = book.buyCosts accountId := by
        rw [OrderBook.buyCosts_eq, List.map_map]
        exact congrArg List.sum (List.map_congr_left fun ro hro =>
          reservedFor_listed (hcovered ro hro) accountId)

/-- **Any listing of an affordable book** passes. -/
theorem OrderBook.Affordable.silentOnBook (h : book.Affordable accounts w.header.height)
    (hkeyed : accounts.Keyed)
    (hwidth : ∀ id account, accounts.accounts.get? id = some account → account.balance < 2 ^ 63)
    (hpost : w.postSystemState = snapshotAccounts keyState accounts)
    (hlisted : (w.orders.filter fun wo => !wo.isMm).Perm (book.orders.map RestingOrder.listed)) :
    SilentOnBook w := by
  set step := verifyAccepted w.header.height (accountsOf w.postSystemState) with hstep
  have htotal := sum_reservedFor h.sound.covered hlisted
  -- An order passes when what is reserved so far is the cost of the orders before it.
  have hpass : ∀ before wo after, w.orders = before ++ wo :: after → wo.isMm = false →
      (∀ a, (reportLoop step ∅ before).1.amount a =
        (before.map fun wo => reservedFor wo a).sum) →
      (step (reportLoop step ∅ before).1 wo).2 = [] := by
    intro before wo after hsplit hmm hamount
    have hmem : wo ∈ w.orders.filter fun wo => !wo.isMm :=
      List.mem_filter.mpr ⟨hsplit ▸ List.mem_append_right _ List.mem_cons_self, by rw [hmm]; rfl⟩
    obtain ⟨ro, hro, rfl⟩ := List.mem_map.mp (hlisted.mem_iff.mp hmem)
    have hcovered := h.sound.covered ro hro
    obtain ⟨account, haccount, hbuy, hsell⟩ := h.owners ro hro
    have hsnapshot : (accountsOf w.postSystemState).get? ro.listed.accountId =
        some (snapshotAccount keyState account) := by
      rw [hpost, get?_snapshotAccounts keyState hkeyed]
      exact congrArg (Option.map _) haccount
    refine verifyAccepted_silent hmm hcovered.shape (h.live ro hro) hsnapshot
      (fun hseller => ⟨?_, hwidth _ _ haccount, ?_⟩) fun outcome hshape => ?_
    · rw [hamount]
      exact sum_reservedFor_nonneg before _
    · have hsum := htotal ro.accountId
      rw [hsplit, List.map_append, List.sum_append, List.map_cons, List.sum_cons,
        reservedFor_listed hcovered, RestingOrder.costAt, if_pos ⟨rfl, hseller⟩] at hsum
      have hrest := sum_reservedFor_nonneg after ro.accountId
      have hbalance := hbuy hseller
      have hsofar := hamount ro.accountId
      show (reportLoop step ∅ before).1.amount ro.accountId + (buyCost ro.order : ℤ) ≤
        account.balance
      linarith
    · rw [firstPosition_snapshotAccount]
      refine le_trans ?_ (hsell outcome hshape)
      refine List.single_le_sum (fun x hx => ?_) _ (List.mem_map.mpr ⟨ro, List.mem_filter.mpr
        ⟨hro, decide_eq_true ⟨rfl, rfl, ?_⟩⟩, rfl⟩)
      · obtain ⟨other, -, rfl⟩ := List.mem_map.mp hx
        exact Int.natCast_nonneg _
      · have hpayoff : ro.order.payoffAt outcome = -1 := hshape.payoff
        rw [hpayoff]
        decide
  have hamount : ∀ before after, w.orders = before ++ after → ∀ a,
      (reportLoop step ∅ before).1.amount a = (before.map fun wo => reservedFor wo a).sum := by
    intro before
    induction before using List.reverseRecOn with
    | nil => exact fun _ _ _ => OrdMap.amount_empty
    | append_singleton before wo ih =>
      intro after hsplit a
      rw [List.append_assoc] at hsplit
      have hsofar := ih (wo :: after) hsplit
      rw [reportLoop_append_fst, List.map_append, List.sum_append, ← hsofar a]
      show (step (reportLoop step ∅ before).1 wo).1.amount a = _ + (reservedFor wo a + 0)
      rw [add_zero]
      cases hmm : wo.isMm with
      | true => rw [reservedFor_mm hmm, add_zero, hstep, verifyAccepted_mm hmm]
      | false => exact Verifier.amount_verifyAccepted (hpass before wo after hsplit hmm hsofar) a
  exact fun before wo after hsplit hmm => hpass before wo after hsplit hmm
    (hamount before (wo :: after) hsplit)

end Listing

/-! ## Any book, any orders -/

namespace OrderBook

/-- One `accept` call of the submission loop: for an order that is live, on an account that
exists. -/
def acceptInBlock (ctx : IntakeContext) (book : OrderBook) (entry : ℕ × Order) : OrderBook :=
  match ctx.accounts.accounts.get? entry.1 with
  | none => book
  | some account =>
    if entry.2.effectiveExpiresAtBlock ctx.height book.ttl < ctx.height then book
    else
      match book.accept entry.2 entry.1 account ctx.height ctx.timestampMs with
      | .ok (book, _) => book
      | .error _ => book

/-- The book of a block: `expire`, `revalidate`, then the `accept` calls. -/
def inBlock (book : OrderBook) (ctx : IntakeContext) (entries : List (ℕ × Order)) :
    Except ReservationError OrderBook := do
  let (book, _) ← book.expire ctx.height
  let (book, _) ← book.revalidate ctx.accounts ctx.activeMarkets
  pure (entries.foldl (acceptInBlock ctx) book)

variable {book : OrderBook} {ctx : IntakeContext}

/-- An order lives no longer than it asks for. -/
theorem le_expiry_of_effective {height ttl expiry : ℕ}
    (hexpiry : order.expiresAtBlock = some expiry)
    (h : height ≤ order.effectiveExpiresAtBlock height ttl) : height ≤ expiry := by
  unfold Order.effectiveExpiresAtBlock at h
  rw [hexpiry] at h
  exact h.trans (min_le_left _ _)

theorem Affordable.acceptInBlock (h : book.Affordable ctx.accounts ctx.height)
    (entry : ℕ × Order) : (book.acceptInBlock ctx entry).Affordable ctx.accounts ctx.height := by
  unfold OrderBook.acceptInBlock
  split
  · exact h
  · next account haccount =>
    split_ifs with hexpired
    · exact h
    · split
      · next book' ro haccept =>
        exact h.accept haccount (fun expiry hexpiry => le_expiry_of_effective hexpiry
          (Nat.le_of_not_lt hexpired)) haccept
      · exact h

/-- **The book of a block is affordable.** -/
theorem Sound.exists_inBlock (h : book.Sound) (hexpiry : book.ExpiresInTime)
    (ctx : IntakeContext) (entries : List (ℕ × Order)) :
    ∃ book', book.inBlock ctx entries = .ok book' ∧
      book'.Affordable ctx.accounts ctx.height := by
  obtain ⟨⟨live, expired⟩, hexpire⟩ := h.tallied.exists_expireWhere
    fun ro => decide (ro.expiresAtBlock < ctx.height)
  obtain ⟨hlive, -, -, htallied⟩ := expireWhere_eq_ok hexpire
  have hmem : ∀ ro ∈ live.orders, ro ∈ book.orders ∧ ctx.height ≤ ro.expiresAtBlock := by
    intro ro hro
    rw [hlive] at hro
    obtain ⟨hro, hnot⟩ := List.mem_filter.mp hro
    simp only [Bool.not_eq_true', decide_eq_false_iff_not] at hnot
    exact ⟨hro, Nat.le_of_not_lt hnot⟩
  have hsound : live.Sound :=
    ⟨(htallied h.tallied).tally, fun ro hro => h.covered ro (hmem ro hro).1⟩
  obtain ⟨⟨kept, removed⟩, hrevalidate⟩ :=
    hsound.tallied.exists_revalidate ctx.accounts ctx.activeMarkets
  have hkept : kept.Affordable ctx.accounts ctx.height := affordable_revalidate hsound
    (fun ro hro expiry hasks => (hmem ro hro).2.trans (hexpiry ro (hmem ro hro).1 expiry hasks))
    hrevalidate
  refine ⟨entries.foldl (OrderBook.acceptInBlock ctx) kept, ?_, ?_⟩
  · refine bind_eq_ok.mpr ⟨(live, expired), hexpire, bind_eq_ok.mpr ⟨(kept, removed), ?_, rfl⟩⟩
    exact hrevalidate
  · exact List.foldlRecOn entries _ (motive := fun book : OrderBook =>
      book.Affordable ctx.accounts ctx.height) hkept fun _ hbook entry _ =>
        hbook.acceptInBlock entry

end OrderBook

/-- **Accepted orders are covered.**  A sound book whose orders rest no longer than they ask for
goes through the start of a block and any `accept` calls.  The owner of a resting buy then has
balance for all their resting buys, the owner of a resting sell has shares for all their resting
sells of the outcome, and the verifier's pass is silent on the orders of the book, in whatever order
a witness lists them. -/
theorem covered_in_block {book : OrderBook} (hbook : book.Sound) (hexpiry : book.ExpiresInTime)
    (ctx : IntakeContext) (entries : List (ℕ × Order)) :
    ∃ book', book.inBlock ctx entries = .ok book' ∧
      (∀ ro ∈ book'.orders, ∃ account,
        ctx.accounts.accounts.get? ro.accountId = some account ∧
        (ro.order.isSeller = false → book'.buyCosts ro.accountId ≤ account.balance) ∧
        ∀ outcome, ro.order.BinaryOneHot outcome true →
          book'.sellQuantities ro.accountId (ro.order.marketAt 0) outcome ≤
            account.position (ro.order.marketAt 0) outcome) ∧
      ∀ (w : BlockWitness) (keyState : ℕ → Digest × ℕ), w.header.height = ctx.height →
        ctx.accounts.Keyed →
        (∀ id account, ctx.accounts.accounts.get? id = some account → account.balance < 2 ^ 63) →
        w.postSystemState = snapshotAccounts keyState ctx.accounts →
        (w.orders.filter fun wo => !wo.isMm).Perm (book'.orders.map RestingOrder.listed) →
        SilentOnBook w := by
  obtain ⟨book', hblock, haffordable⟩ := hbook.exists_inBlock hexpiry ctx entries
  refine ⟨book', hblock, haffordable.owners,
    fun w keyState hheight hkeyed hwidth hpost hlisted => ?_⟩
  rw [← hheight] at haffordable
  exact haffordable.silentOnBook hkeyed hwidth hpost hlisted

/-- What a block reads at height `2`, on the accounts of `twoHolders`. -/
def secondBlock : IntakeContext := ⟨twoHolders.accounts, [7], 2, 0⟩

/-- A witness of block `2` that lists the orders of a book. -/
def listing (book : OrderBook) : BlockWitness :=
  { Verifier.rejectingBlock [] with
    header := ⟨2, 0, 0, 0, 0, 0, 0⟩
    postSystemState := snapshotAccounts (fun _ => (0, 0)) secondBlock.accounts
    orders := book.orders.map RestingOrder.listed }

/-- What is left of a buy of account `1`; it still reserves a nano more than that costs. -/
def partFilledBuy : RestingOrder where
  order := { Verifier.yesBuy 400000000 with maxFill := 600 }
  accountId := 1
  createdAt := 0
  expiresAtBlock := 10
  reservedBalance := 240000001
  reservedPositions := []
  hasBeenMatched := true
  originalMaxFill := 1000
  createdAtMs := 0

/-- A sell of a share of YES that asks to leave after block `5`. -/
def restingSell (orderId accountId : ℕ) : RestingOrder where
  order := { Verifier.yesSell orderId with expiresAtBlock := some 5 }
  accountId
  createdAt := 0
  expiresAtBlock := 5
  reservedBalance := 0
  reservedPositions := [(toLex (7, 0), 1000)]
  hasBeenMatched := false
  originalMaxFill := 1000
  createdAtMs := 0

/-- The book of these orders; account `2` sells what it does not have. -/
def mixedBook : OrderBook :=
  let orders := [partFilledBuy, restingSell 2 1, restingSell 3 2]
  ⟨orders, orders.foldl BookReservations.add ⟨∅, ∅⟩, 10⟩

theorem sound_mixedBook : mixedBook.Sound := by
  refine OrderBook.sound_of_covered 10 fun ro hro => ?_
  simp only [List.mem_cons, List.not_mem_nil, or_false] at hro
  rcases hro with rfl | rfl | rfl
  · exact RestingOrder.covered_of_reserves 240000000 (by decide +kernel) (by decide +kernel)
  · exact RestingOrder.covered_of_reserves 0 (by decide +kernel) (by decide +kernel)
  · exact RestingOrder.covered_of_reserves 0 (by decide +kernel) (by decide +kernel)

/-- The uncovered sell is evicted and a buy of account `2` accepted; the orders that rest are
covered, and the pass is silent on a witness that lists them. -/
theorem covered_in_block_mixed :
    ∃ book', mixedBook.inBlock secondBlock [(2, { Verifier.yesBuy 300000000 with id := 4 })] =
        .ok book' ∧
      book'.orders.map (fun ro => ro.order.id) = [1, 2, 4] ∧
      (∀ ro ∈ book'.orders, ∃ account,
        secondBlock.accounts.accounts.get? ro.accountId = some account ∧
        (ro.order.isSeller = false → book'.buyCosts ro.accountId ≤ account.balance)) ∧
      SilentOnBook (listing book') := by
  have hexpiry : ∀ ro ∈ mixedBook.orders, ∀ expiry ∈ ro.order.expiresAtBlock,
      ro.expiresAtBlock ≤ expiry := by decide +kernel
  have hids : (mixedBook.inBlock secondBlock
      [(2, { Verifier.yesBuy 300000000 with id := 4 })]).toOption.map (fun book' =>
        book'.orders.map fun ro => ro.order.id) = some [1, 2, 4] := by decide +kernel
  have hwidth : ∀ entry ∈ secondBlock.accounts.accounts.entries, entry.2.balance < 2 ^ 63 := by
    decide +kernel
  obtain ⟨book', hblock, howners, hsilent⟩ := covered_in_block sound_mixedBook hexpiry secondBlock
    [(2, { Verifier.yesBuy 300000000 with id := 4 })]
  rw [hblock] at hids
  refine ⟨book', hblock, Option.some.inj hids, fun ro hro => ?_, ?_⟩
  · obtain ⟨account, haccount, hbuy, -⟩ := howners ro hro
    exact ⟨account, haccount, hbuy⟩
  · refine hsilent _ _ rfl keyed_twoHolders
      (fun id account h => hwidth (id, account) (OrdMap.mem_entries_iff.mpr h)) rfl ?_
    rw [List.filter_eq_self.mpr fun wo hwo => ?_]
    · exact List.Perm.refl _
    · obtain ⟨ro, -, rfl⟩ := List.mem_map.mp hwo
      rfl

/-- A buy that asked to leave after block `1` and is booked until block `10`. -/
def overdue : RestingOrder where
  order := { Verifier.yesBuy 400000000 with expiresAtBlock := some 1 }
  accountId := 1
  createdAt := 0
  expiresAtBlock := 10
  reservedBalance := 400000000
  reservedPositions := []
  hasBeenMatched := false
  originalMaxFill := 1000
  createdAtMs := 0

/-- A book with this order, its cost reserved. -/
def overdueBook : OrderBook := ⟨[overdue], BookReservations.add ⟨∅, ∅⟩ overdue, 10⟩

theorem sound_overdueBook : overdueBook.Sound :=
  OrderBook.sound_of_covered 10 (List.forall_mem_singleton.mpr
    (RestingOrder.covered_of_reserves 400000000 (by decide +kernel) (by decide +kernel)))

/-- An account that owes a nano and has no orders. -/
def debtor : AccountStore := ⟨OrdMap.insert ∅ 9 ⟨9, -1, ∅, 0, 0⟩, 10⟩

/-- **Not for every account, and not for every book.**  An account without orders may owe: its
resting buys cost nothing, which is more than it has.  And a book with the right reservations may
keep an order beyond the block that the order asks for; the verifier then reports it. -/
theorem not_covered_in_every_block :
    (∃ book' account, (OrderBook.new 10).inBlock ⟨debtor, [7], 2, 0⟩ [] = .ok book' ∧
      debtor.accounts.get? 9 = some account ∧ ¬book'.buyCosts 9 ≤ account.balance) ∧
    overdueBook.Sound ∧ ∃ book', overdueBook.inBlock secondBlock [] = .ok book' ∧
      (Verifier.verifyOrders (listing book')).map (fun violation => violation.kind) =
        [.orderExpiryViolation] := by
  refine ⟨⟨OrderBook.new 10, _, by decide +kernel, rfl, by decide +kernel⟩, sound_overdueBook, ?_⟩
  have hblock : (overdueBook.inBlock secondBlock []).toOption.map (fun book' =>
      (Verifier.verifyOrders (listing book')).map fun violation => violation.kind) =
      some [.orderExpiryViolation] := by
    decide +kernel
  obtain ⟨book', hbook', hkinds⟩ := Option.map_eq_some_iff.mp hblock
  exact ⟨book', toOption_eq_some.mp hbook', hkinds⟩

end Sybil.Sequencer
