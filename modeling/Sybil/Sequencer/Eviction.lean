import Sybil.Sequencer.BookRuns

/-!
# Eviction and admission

`revalidate` asks of a resting order what admission asked of it, against what the other
orders reserve (`revalidationExit_eq`).  Before that it removes every order of an account
without cash.  A buy of such an account would be refused anyway, but a sell takes shares and
no cash: admission accepts it, and the next block evicts it.
-/

namespace Sybil.Sequencer

open Engine

/-- Validation reads the reserved positions by amount. -/
theorem validateOrderWithReservation_congr {order : Order} {account : Account}
    {reservedBalance : ℤ} {reserved reserved' : OrdMap PositionKey ℤ}
    (h : ∀ key, reserved.amount key = reserved'.amount key) :
    validateOrderWithReservation order account reservedBalance reserved =
      validateOrderWithReservation order account reservedBalance reserved' := by
  have hsell : validateSellOutcome order account reserved =
      validateSellOutcome order account reserved' := by
    funext s
    simp only [validateSellOutcome, h]
  simp only [validateOrderWithReservation, hsell]

namespace OrderBook

variable {book book' : OrderBook} {ro : RestingOrder} {accounts : AccountStore}
  {activeMarkets : List MarketId} {account : Account}

/-- The reservations of all resting orders but one. -/
def reservedByOthers (book : OrderBook) (ro : RestingOrder) : BookReservations :=
  (book.orders.erase ro).foldl BookReservations.add ⟨∅, ∅⟩

theorem Tallied.tally_others (hbook : book.Tallied) (ro : RestingOrder) :
    (book.reservedByOthers ro).Tally (book.orders.erase ro) := by
  have hempty : BookReservations.Tally ⟨∅, ∅⟩ [] := ⟨.empty _, .empty _⟩
  exact tally_addRows hempty fun other hother =>
    (hbook.reserve other (List.mem_of_mem_erase hother)).toNonnegReserve

/-- What is left of the aggregates without an order is what the others reserve. -/
theorem Tallied.amount_others (hbook : book.Tallied) (hro : ro ∈ book.orders) :
    (∀ a, (book.reservedByOthers ro).balance.amount a =
        book.reservations.balance.amount a - ro.balanceAt a) ∧
      ∀ key, (book.reservedByOthers ro).position.amount key =
        book.reservations.position.amount key - ro.sharesAt key := by
  have hothers := hbook.tally_others ro
  have hall := hbook.tally.perm (List.perm_cons_erase hro)
  refine ⟨fun a => ?_, fun key => ?_⟩
  · rw [hothers.balance a, hall.balance a, List.map_cons, List.sum_cons]
    ring
  · rw [hothers.position key, hall.position key, List.map_cons, List.sum_cons]
    ring

/-- What admission would say to the order, given its account and all other resting orders. -/
def readmission (book : OrderBook) (ro : RestingOrder) (account : Account) :
    Except RejectionReason ℤ :=
  validateOrderWithReservation ro.order account
    ((book.reservedByOthers ro).balance.amount ro.accountId)
    ((book.reservedByOthers ro).acctPositions ro.accountId)

/-- The order trades only markets that are active. -/
def OnActiveMarkets (activeMarkets : List MarketId) (ro : RestingOrder) : Prop :=
  ro.order.activeMarkets.all (fun m => activeMarkets.contains m) = true

/-- Why an order is evicted, in terms of what the other orders reserve. -/
theorem revalidationExit_eq (hbook : book.Tallied) (hro : ro ∈ book.orders) :
    book.revalidationExit accounts activeMarkets ro =
      if ro.order.activeMarkets.all (fun m => activeMarkets.contains m) = false then
        some .marketInactive
      else
        match accounts.accounts.get? ro.accountId with
        | none => some .accountGone
        | some account =>
          if account.balance ≤ 0 then some .accountInsolvent
          else
            match book.readmission ro account with
            | .ok _ => none
            | .error reason => some (.rejected reason) := by
  obtain ⟨hbalance, hposition⟩ := hbook.amount_others hro
  have hown : ro.balanceAt ro.accountId = ro.reservedBalance := if_pos rfl
  have hvalidate : ∀ account positions, (∀ key, OrdMap.amount positions key =
      book.reservations.position.amount (toLex (ro.accountId, key)) -
        ro.sharesAt (toLex (ro.accountId, key))) →
      validateOrderWithReservation ro.order account
        (book.reservations.balance.amount ro.accountId - ro.reservedBalance) positions =
          book.readmission ro account := by
    intro account positions hpositions
    rw [readmission, hbalance, hown]
    refine validateOrderWithReservation_congr fun key => ?_
    rw [hpositions, BookReservations.amount_acctPositions, hposition]
  unfold revalidationExit
  split_ifs with hmarkets
  · rfl
  cases haccount : accounts.accounts.get? ro.accountId with
  | none => rfl
  | some account =>
    dsimp only
    split_ifs with hcash
    · rfl
    exact congrArg (fun answer : Except RejectionReason ℤ =>
      match answer with
      | .ok _ => none
      | .error reason => some (RestingRevalidationExit.rejected reason))
      (hvalidate account _ (amount_withoutSelf hbook hro))

/-- The four reasons for an eviction. -/
theorem revalidationExit_eq_some (hbook : book.Tallied) (hro : ro ∈ book.orders)
    {exit : RestingRevalidationExit} :
    book.revalidationExit accounts activeMarkets ro = some exit ↔
      (¬OnActiveMarkets activeMarkets ro ∧ exit = .marketInactive) ∨
      (OnActiveMarkets activeMarkets ro ∧ accounts.accounts.get? ro.accountId = none ∧
        exit = .accountGone) ∨
      ∃ account, OnActiveMarkets activeMarkets ro ∧
        accounts.accounts.get? ro.accountId = some account ∧
        ((account.balance ≤ 0 ∧ exit = .accountInsolvent) ∨
          (0 < account.balance ∧ ∃ reason, book.readmission ro account = .error reason ∧
            exit = .rejected reason)) := by
  rw [revalidationExit_eq hbook hro]
  by_cases hmarkets : OnActiveMarkets activeMarkets ro
  · have hactive : ¬ro.order.activeMarkets.all (fun m => activeMarkets.contains m) = false := by
      rw [hmarkets]
      decide
    rw [if_neg hactive]
    cases haccount : accounts.accounts.get? ro.accountId with
    | none => simp [hmarkets, eq_comm]
    | some account =>
      by_cases hcash : account.balance ≤ 0
      · simp [hmarkets, hcash, not_lt.mpr hcash, eq_comm]
      · cases hanswer : book.readmission ro account with
        | ok cost => simp [hmarkets, hcash, hanswer]
        | error reason => simp [hmarkets, hcash, not_le.mp hcash, hanswer, eq_comm]
  · have hinactive : ro.order.activeMarkets.all (fun m => activeMarkets.contains m) = false :=
      Bool.eq_false_iff.mpr hmarkets
    rw [if_pos hinactive]
    simp [hmarkets, eq_comm]

/-! ## Accounts without cash -/

/-- A sell that the position of its account covers, besides what the other orders reserve. -/
def CoveredSell (book : OrderBook) (accounts : AccountStore) (ro : RestingOrder) : Prop :=
  ∃ account outcome, accounts.accounts.get? ro.accountId = some account ∧
    ro.order.validateBinaryOneHot = .ok () ∧ ro.order.BinaryOneHot outcome true ∧
    (ro.order.maxFill : ℤ) ≤ account.position (ro.order.marketAt 0) outcome -
      ((book.orders.erase ro).map fun other =>
        other.sharesAt (toLex (ro.accountId, toLex (ro.order.marketAt 0, outcome)))).sum

/-- A buy that costs nothing, of an account that has nothing and reserves nothing. -/
def IdleBuy (book : OrderBook) (accounts : AccountStore) (ro : RestingOrder) : Prop :=
  ∃ account outcome, accounts.accounts.get? ro.accountId = some account ∧
    ro.order.validateBinaryOneHot = .ok () ∧ ro.order.BinaryOneHot outcome false ∧
    buyCost ro.order = 0 ∧ account.balance = 0 ∧
    ((book.orders.erase ro).map fun other => other.balanceAt ro.accountId).sum = 0

/-- The account of the order has no cash. -/
def Cashless (accounts : AccountStore) (ro : RestingOrder) : Prop :=
  ∃ account, accounts.accounts.get? ro.accountId = some account ∧ account.balance ≤ 0

/-- Admission takes an order of an account without cash exactly when it is a covered sell or an
idle buy. -/
theorem readmission_of_cashless (hbook : book.Tallied)
    (haccount : accounts.accounts.get? ro.accountId = some account) (hcash : account.balance ≤ 0) :
    (∃ cost, book.readmission ro account = .ok cost) ↔
      book.CoveredSell accounts ro ∨ book.IdleBuy accounts ro := by
  have hothers := hbook.tally_others ro
  have hshares : ∀ key, ((book.reservedByOthers ro).acctPositions ro.accountId).amount key =
      ((book.orders.erase ro).map fun other =>
        other.sharesAt (toLex (ro.accountId, key))).sum := fun key => by
    rw [BookReservations.amount_acctPositions, hothers.position]
  have hnonneg : 0 ≤ ((book.orders.erase ro).map fun other =>
      other.balanceAt ro.accountId).sum := by
    refine List.sum_nonneg fun x hx => ?_
    obtain ⟨other, hother, rfl⟩ := List.mem_map.mp hx
    exact (hbook.reserve other (List.mem_of_mem_erase hother)).toNonnegReserve.balanceAt _
  constructor
  · rintro ⟨cost, hcost⟩
    have hvalid := shape_of_validated hcost
    obtain ⟨outcome, sells, hshape⟩ := Order.binaryOneHot_of_validate hvalid
    have hpass := (validated_iff hvalid hshape).mp ⟨cost, hcost⟩
    cases sells with
    | true =>
      rw [if_pos rfl, hshares] at hpass
      exact .inl ⟨account, outcome, haccount, hvalid, hshape, hpass⟩
    | false =>
      rw [if_neg (by decide), hothers.balance] at hpass
      have hpos : 0 ≤ (buyCost ro.order : ℤ) := Int.natCast_nonneg _
      exact .inr ⟨account, outcome, haccount, hvalid, hshape, by omega, by omega, by omega⟩
  · rintro (⟨_, outcome, hsame, hvalid, hshape, hcover⟩ |
      ⟨_, outcome, hsame, hvalid, hshape, hcost, hzero, hnone⟩)
    · cases haccount.symm.trans hsame
      refine (validated_iff hvalid hshape).mpr ?_
      rwa [if_pos rfl, hshares]
    · cases haccount.symm.trans hsame
      refine (validated_iff hvalid hshape).mpr ?_
      rw [if_neg (by decide), hothers.balance, hcost, hzero, hnone]
      exact le_rfl

/-- The evictions are such as admission would make: the market is inactive, the account is
missing, or the order would be refused besides all other orders; cash evicts no covered sell. -/
structure AgreesWithAdmission (book : OrderBook) (accounts : AccountStore)
    (activeMarkets : List MarketId) (removed : List (RestingOrder × RestingRevalidationExit)) :
    Prop where
  just : ∀ entry ∈ removed, ¬OnActiveMarkets activeMarkets entry.1 ∨
    accounts.accounts.get? entry.1.accountId = none ∨
    ∃ account reason, accounts.accounts.get? entry.1.accountId = some account ∧
      book.readmission entry.1 account = .error reason
  covered_sell : ∀ entry ∈ removed, book.CoveredSell accounts entry.1 →
    entry.2 ≠ .accountInsolvent

/-- On active markets no account without cash rests a covered sell or an idle buy. -/
def NoCashlessCover (book : OrderBook) (accounts : AccountStore) (activeMarkets : List MarketId) :
    Prop :=
  ∀ ro ∈ book.orders, OnActiveMarkets activeMarkets ro → Cashless accounts ro →
    ¬book.CoveredSell accounts ro ∧ ¬book.IdleBuy accounts ro

/-- What is evicted for its account's cash could be admitted again if it is a covered sell or an
idle buy. -/
theorem not_refused_of_cashless (hbook : book.Tallied) (hcash : Cashless accounts ro)
    (hcover : book.CoveredSell accounts ro ∨ book.IdleBuy accounts ro) :
    ¬∃ account reason, accounts.accounts.get? ro.accountId = some account ∧
      book.readmission ro account = .error reason := by
  rintro ⟨account, reason, haccount, hrefused⟩
  obtain ⟨_, hsame, hbalance⟩ := hcash
  cases haccount.symm.trans hsame
  obtain ⟨cost, hcost⟩ := (readmission_of_cashless hbook haccount hbalance).mpr hcover
  exact absurd (hrefused.symm.trans hcost) nofun

/-- **Eviction agrees with admission** exactly when no account without cash rests an order on
active markets that needs none. -/
theorem revalidate_agrees_iff (hbook : book.Tallied) (accounts : AccountStore)
    (activeMarkets : List MarketId) :
    ∃ book' removed, book.revalidate accounts activeMarkets = .ok (book', removed) ∧
      (book.AgreesWithAdmission accounts activeMarkets removed ↔
        book.NoCashlessCover accounts activeMarkets) := by
  obtain ⟨⟨book', removed⟩, hrun⟩ := hbook.exists_revalidate accounts activeMarkets
  obtain ⟨-, hmem, -, -⟩ := revalidate_eq_ok hrun
  refine ⟨book', removed, hrun, fun hagrees ro hro hmarkets hcash => ?_, fun hnone => ?_⟩
  · -- Such an order is evicted for the cash, and neither of the other reasons holds of it.
    obtain ⟨account, haccount, hbalance⟩ := hcash
    have hexit : (ro, RestingRevalidationExit.accountInsolvent) ∈ removed :=
      (hmem _).mpr ⟨hro, (revalidationExit_eq_some hbook hro).mpr
        (.inr (.inr ⟨account, hmarkets, haccount, .inl ⟨hbalance, rfl⟩⟩))⟩
    have hrefused : book.CoveredSell accounts ro ∨ book.IdleBuy accounts ro → False := by
      intro hcover
      rcases hagrees.just _ hexit with hinactive | hgone | hrefused
      · exact hinactive hmarkets
      · exact absurd (hgone.symm.trans haccount) nofun
      · exact not_refused_of_cashless hbook ⟨account, haccount, hbalance⟩ hcover hrefused
    exact ⟨fun h => hrefused (.inl h), fun h => hrefused (.inr h)⟩
  · constructor
    · intro entry hentry
      obtain ⟨hro, hexit⟩ := (hmem entry).mp hentry
      rcases (revalidationExit_eq_some hbook hro).mp hexit with
        ⟨hinactive, -⟩ | ⟨-, hgone, -⟩ |
          ⟨account, hmarkets, haccount, ⟨hcash, -⟩ | ⟨-, reason, hrefused, -⟩⟩
      · exact .inl hinactive
      · exact .inr (.inl hgone)
      · obtain ⟨hsell, hbuy⟩ := hnone entry.1 hro hmarkets ⟨account, haccount, hcash⟩
        have hanswer :=
          mt (readmission_of_cashless hbook haccount hcash).mp (not_or.mpr ⟨hsell, hbuy⟩)
        cases hreadmit : book.readmission entry.1 account with
        | ok cost => exact absurd ⟨cost, hreadmit⟩ hanswer
        | error reason => exact .inr (.inr ⟨account, reason, haccount, hreadmit⟩)
      · exact .inr (.inr ⟨account, reason, haccount, hrefused⟩)
    · intro entry hentry hcover hinsolvent
      obtain ⟨hro, hexit⟩ := (hmem entry).mp hentry
      rcases (revalidationExit_eq_some hbook hro).mp hexit with
        ⟨-, hother⟩ | ⟨-, -, hother⟩ |
          ⟨account, hmarkets, haccount, ⟨hcash, -⟩ | ⟨-, reason, -, hother⟩⟩
      · exact absurd (hinsolvent.symm.trans hother) nofun
      · exact absurd (hinsolvent.symm.trans hother) nofun
      · exact (hnone entry.1 hro hmarkets ⟨account, haccount, hcash⟩).1 hcover
      · exact absurd (hinsolvent.symm.trans hother) nofun

/-! ## A share without cash -/

/-- An account with one share of YES and no cash. -/
def shareHolder : Account := ⟨1, 0, OrdMap.ofList [(toLex (7, 0), 1000)], 0, 0⟩

/-- The holder alone. -/
def shareStore : AccountStore := ⟨OrdMap.ofList [(1, shareHolder)], 2⟩

/-- An offer of the share at sixty cents. -/
def shareOffer : Order :=
  { Order.new 3 with
    markets := (Vector.replicate 5 MarketId.none).set 0 7 Order.firstMarket_lt
    numMarkets := 1
    payoffs := (Vector.replicate 32 0).set 0 (-1) Order.firstState_lt
    numStates := 2
    limitPrice := 600000000
    maxFill := 1000 }

/-- The offer as it rests. -/
def restingOffer : RestingOrder where
  order := shareOffer
  accountId := 1
  createdAt := 4
  expiresAtBlock := 14
  reservedBalance := 0
  reservedPositions := [(toLex (7, 0), 1000)]
  hasBeenMatched := false
  originalMaxFill := 1000
  createdAtMs := 0

/-- The book with the offer. -/
def offerBook : OrderBook := ⟨[restingOffer], BookReservations.add ⟨∅, ∅⟩ restingOffer, 10⟩

theorem accept_shareOffer :
    (OrderBook.new 10).accept shareOffer 1 shareHolder 4 0 = .ok (offerBook, restingOffer) := by
  decide +kernel

theorem tallied_offerBook : offerBook.Tallied :=
  ((sound_new 10).accept (accepts_of_accept accept_shareOffer)).tallied

theorem revalidate_agrees_iff_offer :
    offerBook.Tallied ∧ ∃ book' removed,
      offerBook.revalidate shareStore [7] = .ok (book', removed) ∧
        (offerBook.AgreesWithAdmission shareStore [7] removed ↔
          offerBook.NoCashlessCover shareStore [7]) :=
  ⟨tallied_offerBook, revalidate_agrees_iff tallied_offerBook shareStore [7]⟩

/-- **A covered sell is evicted for want of cash**: the account offers its one share, admission
accepts the offer, and revalidation against the same account removes it. -/
theorem covered_sell_evicted :
    (OrderBook.new 10).accept shareOffer 1 shareHolder 4 0 = .ok (offerBook, restingOffer) ∧
      offerBook.revalidate shareStore [7] =
        .ok (OrderBook.new 10, [(restingOffer, .accountInsolvent)]) ∧
      ¬offerBook.AgreesWithAdmission shareStore [7] [(restingOffer, .accountInsolvent)] := by
  refine ⟨accept_shareOffer, by decide +kernel, fun hagrees => ?_⟩
  have haccount : shareStore.accounts.get? 1 = some shareHolder := by decide +kernel
  have hreadmit : offerBook.readmission restingOffer shareHolder = .ok 0 := by decide +kernel
  have hmarkets : OnActiveMarkets [7] restingOffer := by
    unfold OnActiveMarkets
    decide +kernel
  rcases hagrees.just _ (List.mem_singleton_self _) with hinactive | hgone |
    ⟨_, reason, hsame, hrefused⟩
  · exact hinactive hmarkets
  · exact absurd (hgone.symm.trans haccount) nofun
  · cases haccount.symm.trans hsame
    exact absurd (hrefused.symm.trans hreadmit) nofun

end OrderBook

end Sybil.Sequencer
