import Sybil.Lib.Run
import Sybil.Sequencer.Reservations
import Sybil.Sequencer.Restore

/-!
# Runs of the order book

The book over its whole life: any sequence of its operations, starting from an empty
book.  A refused operation leaves the book as it was.  A failed release does not: the
source stops in the middle of it, so a run ends there.

`run_tallied` says that no run ends there, and that after every run the aggregates are
the sums of what the resting orders reserve.  Of a row that comes back from disk it
assumes only that its reserves are not negative.

`reservations_cover_execution` follows the orders that were admitted here.  A buy
reserves a ceiling of a ceiling of its cost, one for each block that filled a part of
it, and pays floors.  The roundings of the two never work against each other: the
reserve covers what is left of the order, and a fill frees at least what it costs.
-/

namespace Sybil.Sequencer

open Engine

variable {fills : List Fill} {order : Order} {outcome : ℕ}

namespace OrderBook

/-! ## Operations -/

/-- An operation on the book. -/
inductive Operation where
  | accept (order : Order) (accountId : ℕ) (account : Account) (currentHeight createdAtMs : ℕ)
  | cancel (accountId orderId : ℕ)
  | cancelAccepted (accepted : RestingOrder)
  | expire (currentHeight : ℕ)
  | expireCommittedThrough (currentHeight : ℕ)
  | revalidate (accounts : AccountStore) (activeMarkets : List MarketId)
  | settle (fills : List Fill) (mmOrderIds : List ℕ) (currentHeight : ℕ)
  | reinsertForReplay (resting : RestingOrder)
  | restore (orders : List RestingOrder) (ttl : ℕ)

/-- Why an operation fails. -/
inductive Failure where
  | rejected (reason : RejectionReason)
  | notFound
  | wrongOwner
  | reservation (error : ReservationError)
  deriving DecidableEq

/-- The failure of a cancellation. -/
def CancelError.failure : CancelError → Failure
  | .notFound => .notFound
  | .wrongOwner => .wrongOwner
  | .reservation error => .reservation error

/-- The book after an operation. -/
def apply (book : OrderBook) : Operation → Except Failure OrderBook
  | .accept order accountId account currentHeight createdAtMs =>
    ((book.accept order accountId account currentHeight createdAtMs).mapError .rejected).map
      Prod.fst
  | .cancel accountId orderId =>
    ((book.cancel accountId orderId).mapError CancelError.failure).map Prod.fst
  | .cancelAccepted accepted =>
    ((book.cancelAccepted accepted).mapError CancelError.failure).map Prod.fst
  | .expire currentHeight => ((book.expire currentHeight).mapError .reservation).map Prod.fst
  | .expireCommittedThrough currentHeight =>
    ((book.expireCommittedThrough currentHeight).mapError .reservation).map Prod.fst
  | .revalidate accounts activeMarkets =>
    ((book.revalidate accounts activeMarkets).mapError .reservation).map Prod.fst
  | .settle fills mmOrderIds currentHeight =>
    ((book.settle fills mmOrderIds currentHeight).mapError .reservation).map Prod.fst
  | .reinsertForReplay resting => (book.reinsertForReplay resting).mapError .reservation
  | .restore orders ttl => .ok (OrderBook.restore orders ttl)

/-- One step of a run: a refusal changes nothing, a failed release ends the run. -/
def exec (book : OrderBook) (op : Operation) : Option OrderBook :=
  match book.apply op with
  | .ok next => some next
  | .error (.reservation _) => none
  | .error _ => some book

/-- The rows that an operation puts into the book without validating them. -/
def Operation.rows : Operation → List RestingOrder
  | .reinsertForReplay resting => [resting]
  | .restore orders _ => orders.filter hasValidReserve
  | _ => []

/-- Where an order of the book after an operation comes from. -/
inductive Origin (book : OrderBook) (op : Operation) (ro : RestingOrder) : Prop where
  | kept (h : ro ∈ book.orders)
  | accepted {order : Order} {accountId : ℕ} {account : Account} {height : ℕ} {next : OrderBook}
      (h : book.Accepts order accountId account height next ro)
  | remainder {source : RestingOrder} {filled : ℕ} (hsource : source ∈ book.orders)
      (hfilled : filled < source.order.maxFill) (h : ro = OrderBook.remainder source filled)
  | row (h : ro ∈ op.rows)

variable {book book' : OrderBook} {op : Operation}

theorem map_mapError_eq_ok {ε ε' α β : Type} {x : Except ε α} {f : ε → ε'} {g : α → β} {b : β}
    (h : (x.mapError f).map g = .ok b) : ∃ a, x = .ok a ∧ g a = b := by
  cases x with
  | error e => cases h
  | ok a => exact ⟨a, rfl, Except.ok.inj h⟩

theorem hasValidReserve_iff {ro : RestingOrder} : hasValidReserve ro = true ↔ ro.NonnegReserve := by
  simp only [hasValidReserve, Bool.and_eq_true, decide_eq_true_eq, List.all_eq_true]
  exact ⟨fun h => ⟨h.1, h.2⟩, fun h => ⟨h.balance, h.positions⟩⟩

/-- Adding rows one after the other adds them to the tally. -/
theorem tally_addRows {r : BookReservations} {orders rows : List RestingOrder} (h : r.Tally orders)
    (hrows : ∀ ro ∈ rows, ro.NonnegReserve) :
    (rows.foldl BookReservations.add r).Tally (orders ++ rows) := by
  induction rows generalizing r orders with
  | nil => simpa using h
  | cons ro rows ih =>
    obtain ⟨hro, hrest⟩ := List.forall_mem_cons.mp hrows
    simpa using ih (h.add hro) hrest

/-- A book of covered orders with what they reserve. -/
theorem sound_of_covered {orders : List RestingOrder} (ttl : ℕ)
    (h : ∀ ro ∈ orders, ro.Covered) :
    Sound ⟨orders, orders.foldl BookReservations.add ⟨∅, ∅⟩, ttl⟩ :=
  ⟨tally_addRows (tallied_new ttl).tally fun ro hro => (h ro hro).nonneg, h⟩

/-- A restored book is tallied, whatever the rows are. -/
theorem tallied_restore {orders : List RestingOrder} (ttl : ℕ)
    (hrows : ∀ ro ∈ orders.filter hasValidReserve, ro.I64Reserve) :
      (restore orders ttl).Tallied where
  tally := tally_addRows (tallied_new ttl).tally fun ro hro => (hrows ro hro).toNonnegReserve
  reserve := hrows

/-- What an operation that succeeds does: where its orders come from, and that it keeps the
aggregates in step with them. -/
theorem apply_eq_ok (h : book.apply op = .ok book') :
    (∀ ro ∈ book'.orders, Origin book op ro) ∧
      (book.Tallied → (∀ ro ∈ op.rows, ro.I64Reserve) → book'.Tallied) := by
  cases op with
  | accept order accountId account currentHeight createdAtMs =>
    obtain ⟨⟨_, accepted⟩, haccept, rfl⟩ := map_mapError_eq_ok h
    have haccepts := accepts_of_accept haccept
    have hbook' := haccepts.book_eq
    refine ⟨fun ro hro => ?_, fun hbook _ => hbook' ▸ hbook.add haccepts.covered.i64Reserve⟩
    rw [hbook'] at hro
    rcases List.mem_append.mp hro with hro | hro
    · exact .kept hro
    · obtain rfl := List.mem_singleton.mp hro
      exact .accepted haccepts
  | cancel | cancelAccepted =>
    obtain ⟨⟨_, ro⟩, hcancel, rfl⟩ := map_mapError_eq_ok h
    obtain ⟨-, -, -, hperm, -, -, htallied⟩ := cancel_eq_ok hcancel
    exact ⟨fun other hother => .kept (hperm.mem_iff.mp (List.mem_cons_of_mem _ hother)),
      fun hbook _ => htallied hbook⟩
  | expire | expireCommittedThrough =>
    obtain ⟨⟨_, removed⟩, hexpire, rfl⟩ := map_mapError_eq_ok h
    obtain ⟨horders, -, -, htallied⟩ := expireWhere_eq_ok hexpire
    exact ⟨fun ro hro => .kept (List.mem_of_mem_filter (horders ▸ hro)),
      fun hbook _ => htallied hbook⟩
  | revalidate accounts activeMarkets =>
    obtain ⟨⟨_, removed⟩, hrevalidate, rfl⟩ := map_mapError_eq_ok h
    obtain ⟨horders, -, -, htallied⟩ := revalidate_eq_ok hrevalidate
    exact ⟨fun ro hro => .kept (List.mem_of_mem_filter (horders ▸ hro)),
      fun hbook _ => htallied hbook⟩
  | settle fills mmOrderIds currentHeight =>
    obtain ⟨⟨_, removed⟩, hsettle, rfl⟩ := map_mapError_eq_ok h
    obtain ⟨horders, -, htallied⟩ := settle_eq_ok hsettle
    refine ⟨fun ro hro => ?_, fun hbook _ => htallied hbook⟩
    rw [horders] at hro
    obtain ⟨source, hsource, hsurvives⟩ := List.mem_filterMap.mp hro
    obtain ⟨-, hfilled, -, hro⟩ := survivor_eq_some hsurvives
    split_ifs at hro
    · exact .kept (hro ▸ hsource)
    · exact .remainder hsource hfilled hro
  | reinsertForReplay resting =>
    obtain ⟨_, -, h⟩ := bind_eq_ok.mp (mapError_eq_ok.mp h)
    obtain rfl := Except.ok.inj h
    refine ⟨fun ro hro => ?_, fun hbook hrows =>
      hbook.add (hrows resting (by simp [Operation.rows]))⟩
    rcases List.mem_append.mp hro with hro | hro
    · exact .kept hro
    · exact .row hro
  | restore orders ttl =>
    obtain rfl := Except.ok.inj h
    exact ⟨fun ro hro => .row hro, fun _ hrows => tallied_restore ttl hrows⟩

/-- A fact about orders that acceptance establishes and partial fills keep holds of every order of
the book, if it holds of the rows put into it. -/
theorem forall_orders_of_exec {good : RestingOrder → Prop}
    (haccept : ∀ (book : OrderBook) order accountId account height next ro,
      book.Accepts order accountId account height next ro → good ro)
    (hremainder : ∀ ro filled, good ro → filled < ro.order.maxFill → good (remainder ro filled))
    (hrows : ∀ ro ∈ op.rows, good ro) (hbook : ∀ ro ∈ book.orders, good ro)
    (h : book.exec op = some book') : ∀ ro ∈ book'.orders, good ro := by
  unfold exec at h
  split at h
  · next next hnext =>
    obtain rfl := Option.some.inj h
    intro ro hro
    cases (apply_eq_ok hnext).1 ro hro with
    | kept hkept => exact hbook ro hkept
    | accepted haccepts => exact haccept _ _ _ _ _ _ _ haccepts
    | remainder hsource hfilled heq => exact heq ▸ hremainder _ _ (hbook _ hsource) hfilled
    | row hrow => exact hrows ro hrow
  · cases h
  · obtain rfl := Option.some.inj h
    exact hbook

/-- The rows of an operation are words of 64 bits, and a replayed row reserves nothing negative. -/
def Operation.Admissible : Operation → Prop
  | .reinsertForReplay resting => resting.I64Reserve
  | .restore orders _ => ∀ ro ∈ orders,
      ro.reservedBalance < 2 ^ 63 ∧ ∀ entry ∈ ro.reservedPositions, entry.2 < 2 ^ 63
  | _ => True

theorem Operation.Admissible.rows (h : op.Admissible) : ∀ ro ∈ op.rows, ro.I64Reserve := by
  cases op with
  | reinsertForReplay resting =>
    intro ro hro
    obtain rfl := List.mem_singleton.mp hro
    exact h
  | restore orders ttl =>
    intro ro hro
    obtain ⟨hmem, hvalid⟩ := List.mem_filter.mp hro
    exact ⟨hasValidReserve_iff.mp hvalid, (h ro hmem).1, (h ro hmem).2⟩
  | _ => exact nofun

/-- No operation on a tallied book fails on a release. -/
theorem Tallied.apply_ne_reservation (hbook : book.Tallied) (hop : op.Admissible)
    (error : ReservationError) : book.apply op ≠ .error (.reservation error) := by
  have hok : ∀ {α : Type} {x : Except ReservationError (OrderBook × α)},
    (∃ result, x = .ok result) →
      (x.mapError Failure.reservation).map Prod.fst ≠ .error (.reservation error) := by
    rintro α x ⟨result, rfl⟩ h
    cases h
  have hcancel : ∀ accountId orderId, ((book.cancel accountId orderId).mapError
      CancelError.failure).map Prod.fst ≠ .error (.reservation error) := by
    intro accountId orderId h
    have hne := hbook.cancel_ne_reservation accountId orderId error
    rcases hx : book.cancel accountId orderId with cancelError | result
    · rw [hx] at h hne
      cases cancelError with
      | notFound => cases h
      | wrongOwner => cases h
      | reservation error' => exact hne (by cases h; rfl)
    · rw [hx] at h
      cases h
  cases op with
  | accept order accountId account currentHeight createdAtMs =>
    intro h
    simp only [apply] at h
    rcases hx : book.accept order accountId account currentHeight createdAtMs with reason | result
    · rw [hx] at h
      cases h
    · rw [hx] at h
      cases h
  | cancel accountId orderId => exact hcancel accountId orderId
  | cancelAccepted accepted => exact hcancel accepted.accountId accepted.order.id
  | expire currentHeight => exact hok (hbook.exists_expireWhere _)
  | expireCommittedThrough currentHeight => exact hok (hbook.exists_expireWhere _)
  | revalidate accounts activeMarkets => exact hok (hbook.exists_revalidate accounts activeMarkets)
  | settle fills mmOrderIds currentHeight =>
    exact hok (hbook.exists_settle fills mmOrderIds currentHeight)
  | reinsertForReplay resting =>
    have hvalid := hasValidReserve_iff.mpr hop.toNonnegReserve
    intro h
    simp only [apply, reinsertForReplay, ensure, if_pos hvalid] at h
    cases h
  | restore orders ttl =>
    intro h
    cases h

/-- **One step.**  A tallied book stays tallied, and the run goes on. -/
theorem Tallied.exec (hbook : book.Tallied) (hop : op.Admissible) :
    ∃ next, book.exec op = some next ∧ next.Tallied := by
  have hne := fun error => hbook.apply_ne_reservation hop error
  unfold OrderBook.exec
  split
  · next next hnext => exact ⟨next, rfl, (apply_eq_ok hnext).2 hbook hop.rows⟩
  · next error herror => exact absurd herror (hne error)
  · exact ⟨book, rfl, hbook⟩

/-- A run of admissible operations ends in a tallied book. -/
theorem exists_run (hbook : book.Tallied) {ops : List Operation}
    (hops : ∀ op ∈ ops, op.Admissible) :
    ∃ final, Run.run OrderBook.exec book ops = some final ∧ final.Tallied := by
  induction ops generalizing book with
  | nil => exact ⟨book, rfl, hbook⟩
  | cons op ops ih =>
    obtain ⟨hop, hrest⟩ := List.forall_mem_cons.mp hops
    obtain ⟨next, hnext, htallied⟩ := hbook.exec hop
    rw [Run.run, hnext]
    exact ih htallied hrest

/-- **The aggregates of a book are the sums of its orders.**  No sequence of operations makes a
release fail; after each the aggregates are what the resting orders reserve, and nothing that is
reserved is negative. -/
theorem run_tallied (ttl : ℕ) (ops : List Operation) (hops : ∀ op ∈ ops, op.Admissible) :
    ∃ book, Run.run OrderBook.exec (new ttl) ops = some book ∧
      (∀ accountId, book.reservations.balance.amount accountId =
        (book.orders.map fun ro => ro.balanceAt accountId).sum ∧
          0 ≤ book.reservations.balance.amount accountId) ∧
      (∀ accountId market outcome,
        let key := toLex (accountId, (toLex (market, outcome) : PositionKey))
        book.reservations.position.amount key = (book.orders.map fun ro => ro.sharesAt key).sum ∧
          0 ≤ book.reservations.position.amount key) ∧
      (∀ ro ∈ book.orders, ro.NonnegReserve) ∧
      ∀ op : Operation, op.Admissible → ∀ error, book.apply op ≠ .error (.reservation error) := by
  obtain ⟨book, hrun, hbook⟩ := exists_run (tallied_new ttl) hops
  refine ⟨book, hrun, fun accountId => ⟨hbook.tally.balance accountId, ?_⟩,
    fun accountId market outcome => ⟨hbook.tally.position _, ?_⟩,
    fun ro hro => (hbook.reserve ro hro).toNonnegReserve,
    fun op hop error => hbook.apply_ne_reservation hop error⟩
  · rw [hbook.tally.balance accountId]
    refine List.sum_nonneg fun x hx => ?_
    obtain ⟨ro, hro, rfl⟩ := List.mem_map.mp hx
    exact (hbook.reserve ro hro).balanceAt accountId
  · rw [hbook.tally.position]
    refine List.sum_nonneg fun x hx => ?_
    obtain ⟨ro, hro, rfl⟩ := List.mem_map.mp hx
    exact (hbook.reserve ro hro).sharesAt _

/-- A buy of one share at a third of a dollar. -/
def thirdBuy : Order :=
  { Order.new 1 with
    markets := (Vector.replicate 5 MarketId.none).set 0 7 Order.firstMarket_lt
    numMarkets := 1
    payoffs := (Vector.replicate 32 0).set 0 1 Order.firstState_lt
    numStates := 2
    limitPrice := 333333333
    maxFill := 1000 }

/-- The buy is accepted; then three tenths of it are filled in each of two blocks. -/
def twoPartialFills : List Operation :=
  [.accept thirdBuy 1 ⟨1, 1000000000, ∅, 1000000000, 0⟩ 0 0,
    .settle [⟨1, 300, 333333333, 1⟩] [] 1, .settle [⟨1, 300, 333333333, 1⟩] [] 2]

theorem admissible_twoPartialFills : ∀ op ∈ twoPartialFills, op.Admissible := by
  simp [twoPartialFills, Operation.Admissible]

theorem run_tallied_twoPartialFills :
    (∀ op ∈ twoPartialFills, op.Admissible) ∧
      ∃ book, Run.run OrderBook.exec (new 10) twoPartialFills = some book ∧
        book.reservations.balance.amount 1 = (book.orders.map fun ro => ro.balanceAt 1).sum := by
  obtain ⟨book, hrun, hbalance, -⟩ := run_tallied 10 twoPartialFills admissible_twoPartialFills
  exact ⟨admissible_twoPartialFills, book, hrun, (hbalance 1).1⟩

example : (Run.run OrderBook.exec (new 10) twoPartialFills).map
    (fun book => book.reservations.balance.amount 1) = some 133333334 := by decide +kernel

/-! ## Orders that were admitted here -/

/-- The order reserves what is left of it. -/
structure CoversRemaining (ro : RestingOrder) : Prop where
  buy : ∀ outcome, ro.order.BinaryOneHot outcome false → (buyCost ro.order : ℤ) ≤ ro.reservedBalance
  sell : ∀ outcome, ro.order.BinaryOneHot outcome true →
    ro.reservedPositions = [(toLex (ro.order.marketAt 0, outcome), (ro.order.maxFill : ℤ))]

/-- What an admitted order carries besides its cover: an order that was never matched reserves its
exact cost, and no order reserves more than it did when it was admitted. -/
structure Restorable (ro : RestingOrder) : Prop where
  covered : ro.Covered
  fresh : ro.hasBeenMatched = false → balanceReservation ro.order = .ok ro.reservedBalance
  original : ∃ maximum,
    validateOrderShape { ro.order with maxFill := ro.originalMaxFill } = .ok () ∧
      balanceReservation { ro.order with maxFill := ro.originalMaxFill } = .ok maximum ∧
      ro.reservedBalance ≤ maximum

section Admitted

variable {ro : RestingOrder} {filled : ℕ}

theorem coversRemaining_of_covered (h : ro.Covered) : CoversRemaining ro where
  buy _ hshape := h.covers _ (balanceReservation_buy h.shape hshape)
  sell _ hshape := h.positions.trans (sellReservations_sell h.shape hshape)

theorem restorable_of_accepts {accountId : ℕ} {account : Account} {height : ℕ}
    (h : book.Accepts order accountId account height book' ro) : Restorable ro where
  covered := h.covered
  fresh _ := h.order_eq ▸ h.balanceReservation_eq
  original := by
    have horiginal : { ro.order with maxFill := ro.originalMaxFill } = order := by
      rw [h.original_eq, h.order_eq]
    rw [horiginal]
    exact ⟨_, validateOrderShape_eq_ok.mpr (shape_of_validated h.validated),
      h.balanceReservation_eq, le_rfl⟩

theorem restorable_remainder (h : Restorable ro) (hfilled : filled < ro.order.maxFill) :
    Restorable (remainder ro filled) where
  covered := covered_remainder h.covered hfilled
  fresh hfresh := nomatch hfresh
  original := by
    obtain ⟨maximum, hshape, hcost, hle⟩ := h.original
    exact ⟨maximum, hshape, hcost,
      (reservedBalance_remainder h.covered.i64Reserve hfilled).2.trans hle⟩

/-- The check of a restore accepts such an order. -/
theorem validateRestoredOrder_of_restorable (h : Restorable ro) :
    validateRestoredOrder ro = .ok () := by
  obtain ⟨outcome, sells, hshape⟩ := Order.binaryOneHot_of_validate h.covered.shape
  have hcost := balanceReservation_eq h.covered.shape hshape
  have hminimum := h.covered.covers _ hcost
  obtain ⟨maximum, hshape', hcost', hmaximum⟩ := h.original
  have hfresh := h.fresh
  rw [hcost] at hfresh
  simp only [validateRestoredOrder, validateOrderShape_eq_ok.mpr h.covered.shape, hcost, hshape',
    hcost', h.covered.positions, bind_eq_ok, mapError_eq_ok, ensure_eq_ok, exists_const, true_and]
  refine ⟨_, rfl, ?_⟩
  cases hmatched : ro.hasBeenMatched with
  | false => simpa using (Except.ok.inj (hfresh hmatched)).symm
  | true =>
    simp only [if_true, bind_eq_ok, ensure_eq_ok, exists_const]
    refine ⟨hminimum, ?_⟩
    split_ifs
    · exact bind_eq_ok.mpr ⟨maximum, mapError_eq_ok.mpr (bind_eq_ok.mpr ⟨(), rfl, rfl⟩),
        ensure_eq_ok.mpr hmaximum⟩
    · rfl

/-! ## What a fill costs and what it frees -/

/-- What the fills of an order take from the balance of its account. -/
def charge (order : Order) (fills : List Fill) : ℤ :=
  ((fills.filter fun fill => fill.orderId = order.id).map fun fill =>
    (computeFillSettlement order fill).elim 0 fun delta => -delta.balanceDelta).sum

/-- The fills of an order respect its limit and its size. -/
structure RespectsLimit (order : Order) (fills : List Fill) : Prop where
  price : ∀ fill ∈ fills, fill.orderId = order.id →
    if order.isSeller then order.limitPrice ≤ fill.fillPrice else fill.fillPrice ≤ order.limitPrice
  quantity : filledQty fills order.id ≤ order.maxFill

/-- A settled fill takes the floor of its notional from a buyer and nothing from a seller. -/
theorem fillCharge_le {sells : Bool} (hshape : order.BinaryOneHot outcome sells) (fill : Fill) :
    (computeFillSettlement order fill).elim 0 (fun delta => -delta.balanceDelta) ≤
      if sells then 0 else ((fill.fillPrice * fill.fillQty / shareScale : ℕ) : ℤ) := by
  unfold computeFillSettlement
  split
  · next delta hdelta =>
    by_cases hqty : fill.fillQty = 0
    · rw [computeFillSettlementChecked, if_pos hqty] at hdelta
      obtain rfl := Except.ok.inj hdelta
      split_ifs
      · exact le_rfl
      · exact Int.natCast_nonneg _
    · rw [computeFillSettlementChecked_oneHot hshape hqty hdelta]
      cases sells with
      | true =>
        simp only [Option.elim, if_true, one_mul]
        exact neg_nonpos.mpr (Int.natCast_nonneg _)
      | false => simp
  · split_ifs
    · exact le_rfl
    · exact Int.natCast_nonneg _

theorem charge_sell_nonpos (hshape : order.BinaryOneHot outcome true) (fills : List Fill) :
    charge order fills ≤ 0 := by
  refine (List.sum_le_card_nsmul _ 0 fun x hx => ?_).trans_eq (smul_zero _)
  obtain ⟨fill, -, rfl⟩ := List.mem_map.mp hx
  exact fillCharge_le hshape fill

/-- The fills of a buy take at most its limit for each share. -/
theorem charge_buy_le (hshape : order.BinaryOneHot outcome false)
    (hprice : ∀ fill ∈ fills, fill.orderId = order.id → fill.fillPrice ≤ order.limitPrice) :
    charge order fills * shareScale ≤ order.limitPrice * filledQty fills order.id := by
  induction fills with
  | nil => simp [charge, filledQty]
  | cons fill fills ih =>
    obtain ⟨hfill, hrest⟩ := List.forall_mem_cons.mp hprice
    have ih := ih hrest
    by_cases hid : fill.orderId = order.id
    · have hone := fillCharge_le hshape fill
      rw [if_neg Bool.false_ne_true] at hone
      have hfloor : ((fill.fillPrice * fill.fillQty / shareScale : ℕ) : ℤ) * shareScale ≤
          order.limitPrice * fill.fillQty := by
        exact_mod_cast (Nat.div_mul_le_self _ _).trans (Nat.mul_le_mul_right _ (hfill hid))
      simp only [charge, filledQty, List.filter_cons, hid, decide_true, if_true, List.map_cons,
        List.sum_cons] at ih ⊢
      push_cast at ih ⊢
      have hscale : (0 : ℤ) ≤ shareScale := Int.natCast_nonneg _
      have hmul := mul_le_mul_of_nonneg_right hone hscale
      rw [add_mul, mul_add]
      exact add_le_add (hmul.trans hfloor) ih
    · simp only [charge, filledQty, List.filter_cons, hid, decide_false] at ih ⊢
      exact ih

/-- What an order reserves after a block; nothing when it left the book. -/
def reservedAfter (fills : List Fill) (mmOrderIds : List ℕ) (height : ℕ) (ro : RestingOrder) : ℤ :=
  (survivor fills mmOrderIds height ro).elim 0 fun rest => rest.reservedBalance

/-- What is freed of a reserve that covers an order at its limit pays for the part that was
filled. -/
theorem paid_add_ceil_le {reserved paid limit size filled : ℕ} (hsize : 0 < size)
    (hcover : limit * size ≤ reserved * shareScale) (hpaid : paid * shareScale ≤ limit * filled)
    (hfilled : filled ≤ size) :
    paid + (reserved * (size - filled) + (size - 1)) / size ≤ reserved := by
  have hscale : 0 < shareScale := by decide
  have hpart : paid * size ≤ reserved * filled := by
    refine Nat.le_of_mul_le_mul_right ?_ hscale
    calc paid * size * shareScale = paid * shareScale * size := by ring
      _ ≤ limit * filled * size := Nat.mul_le_mul_right size hpaid
      _ = limit * size * filled := by ring
      _ ≤ reserved * shareScale * filled := Nat.mul_le_mul_right filled hcover
      _ = reserved * filled * shareScale := by ring
  have hpaid' : paid ≤ reserved :=
    Nat.le_of_mul_le_mul_right (hpart.trans (Nat.mul_le_mul_left reserved hfilled)) hsize
  have hceil : (reserved * (size - filled) + (size - 1)) / size ≤ reserved - paid := by
    refine (ceil_le_iff hsize).mpr ?_
    rw [Nat.mul_sub, Nat.sub_mul]
    exact Nat.sub_le_sub_left hpart _
  omega

/-- The fills of a covered order are paid for by its reserve. -/
theorem charge_le_reserved (h : ro.Covered) (hlimit : RespectsLimit ro.order fills) :
    charge ro.order fills ≤ ro.reservedBalance ∧
      (filledQty fills ro.order.id = 0 → charge ro.order fills ≤ 0) ∧
      (filledQty fills ro.order.id < ro.order.maxFill → charge ro.order fills ≤
        ro.reservedBalance - (remainder ro (filledQty fills ro.order.id)).reservedBalance) := by
  obtain ⟨outcome, sells, hshape⟩ := Order.binaryOneHot_of_validate h.shape
  cases sells with
  | true =>
    have hcharge := charge_sell_nonpos hshape fills
    exact ⟨hcharge.trans h.balance_nonneg, fun _ => hcharge, fun hfilled =>
      hcharge.trans (sub_nonneg.mpr (reservedBalance_remainder h.i64Reserve hfilled).2)⟩
  | false =>
    have hprice : ∀ fill ∈ fills, fill.orderId = ro.order.id →
        fill.fillPrice ≤ ro.order.limitPrice := by
      intro fill hfill hid
      have := hlimit.price fill hfill hid
      rwa [hshape.isSeller_eq, if_neg Bool.false_ne_true] at this
    have hcharge := charge_buy_le hshape hprice
    have hscale : (shareScale : ℤ) = 1000 := rfl
    -- The charge and the reserve as natural numbers.
    have hpaid : (charge ro.order fills).toNat * shareScale ≤
        ro.order.limitPrice * filledQty fills ro.order.id := by
      zify
      rcases le_total 0 (charge ro.order fills) with hnonneg | hneg
      · rw [Int.toNat_of_nonneg hnonneg]
        exact hcharge
      · rw [Int.toNat_of_nonpos hneg]
        positivity
    have hcost := (coversRemaining_of_covered h).buy outcome hshape
    have hcover : ro.order.limitPrice * ro.order.maxFill ≤
        ro.reservedBalance.toNat * shareScale :=
      (ceil_le_iff (by decide)).mp ((Int.le_toNat h.balance_nonneg).mpr hcost)
    have hto := Int.toNat_of_nonneg h.balance_nonneg
    have hself := Int.self_le_toNat (charge ro.order fills)
    refine ⟨?_, fun hzero => ?_, fun hfilled => ?_⟩
    · have : (charge ro.order fills).toNat ≤ ro.reservedBalance.toNat := by
        refine Nat.le_of_mul_le_mul_right (hpaid.trans ?_) (show 0 < shareScale by decide)
        exact (Nat.mul_le_mul_left _ hlimit.quantity).trans hcover
      omega
    · rw [hzero, hscale, Nat.cast_zero, mul_zero] at hcharge
      omega
    · have := paid_add_ceil_le (Nat.zero_lt_of_lt hfilled) hcover hpaid hlimit.quantity
      rw [(reservedBalance_remainder h.i64Reserve hfilled).1]
      omega

/-- **One block.**  An order that is filled within its limit reserves no more than before, and frees
at least what its fills cost. -/
theorem reservedAfter_le (h : ro.Covered) (hlimit : RespectsLimit ro.order fills)
    (mmOrderIds : List ℕ) (height : ℕ) :
    0 ≤ reservedAfter fills mmOrderIds height ro ∧
      reservedAfter fills mmOrderIds height ro ≤ ro.reservedBalance ∧
      charge ro.order fills ≤ ro.reservedBalance - reservedAfter fills mmOrderIds height ro := by
  obtain ⟨hcharge, hnone, hpart⟩ := charge_le_reserved h hlimit
  unfold reservedAfter
  cases hsurvives : survivor fills mmOrderIds height ro with
  | none =>
    simp only [Option.elim]
    exact ⟨le_rfl, h.balance_nonneg, by rwa [sub_zero]⟩
  | some rest =>
    have hcovered := covered_survivor h hsurvives
    obtain ⟨-, hfilled, -, hrest⟩ := survivor_eq_some hsurvives
    simp only [Option.elim]
    refine ⟨hcovered.balance_nonneg, ?_⟩
    by_cases hzero : filledQty fills ro.order.id = 0
    · rw [hrest, if_pos hzero, sub_self]
      exact ⟨le_rfl, hnone hzero⟩
    · rw [hrest, if_neg hzero]
      exact ⟨(reservedBalance_remainder h.i64Reserve hfilled).2, hpart hfilled⟩

end Admitted

/-! ## Runs without foreign rows -/

/-- The operation brings no row that was not admitted here: nothing is replayed, and a restore is of
the book's own snapshot. -/
def Trades (book : OrderBook) : Operation → Prop
  | .reinsertForReplay _ => False
  | .restore orders _ => orders = book.snapshot
  | _ => True

theorem Trades.rows (h : book.Trades op) : op.rows ⊆ book.orders := by
  cases op with
  | reinsertForReplay resting => exact h.elim
  | restore orders ttl =>
    intro ro hro
    rw [h] at hro
    exact List.mem_of_mem_filter hro
  | _ => exact nofun

/-- The aggregates are right, and every order was admitted here. -/
structure Admitted (book : OrderBook) : Prop where
  tallied : book.Tallied
  restorable : ∀ ro ∈ book.orders, Restorable ro

theorem admitted_new (ttl : ℕ) : (new ttl).Admitted := ⟨tallied_new ttl, nofun⟩

theorem Admitted.exec (hbook : book.Admitted) (htrades : book.Trades op)
    (h : book.exec op = some book') : book'.Admitted := by
  have hrows : ∀ ro ∈ op.rows, Restorable ro := fun ro hro => hbook.restorable ro (htrades.rows hro)
  refine ⟨?_, forall_orders_of_exec (fun _ _ _ _ _ _ _ => restorable_of_accepts)
    (fun _ _ => restorable_remainder) hrows hbook.restorable h⟩
  unfold OrderBook.exec at h
  split at h
  · next _ hnext =>
    obtain rfl := Option.some.inj h
    exact (apply_eq_ok hnext).2 hbook.tallied fun ro hro => (hrows ro hro).covered.i64Reserve
  · cases h
  · obtain rfl := Option.some.inj h
    exact hbook.tallied

/-- The book of a run without foreign rows. -/
theorem admitted_of_run {ttl : ℕ} {ops : List Operation}
    (hops : Run.Along OrderBook.exec Trades (new ttl) ops)
    (hrun : Run.run OrderBook.exec (new ttl) ops = some book) : book.Admitted :=
  Run.invariant_of_run (fun _ _ _ hbook htrades hexec => Admitted.exec hbook htrades hexec)
    (admitted_new ttl) hops hrun

theorem Admitted.coversRemaining (hbook : book.Admitted) : ∀ ro ∈ book.orders, CoversRemaining ro :=
  fun ro hro => coversRemaining_of_covered (hbook.restorable ro hro).covered

theorem Admitted.validateRestored (hbook : book.Admitted) :
    validateRestoredReservations book.orders = .ok () :=
  checkAll_eq_ok.mpr fun ro hro => validateRestoredOrder_of_restorable (hbook.restorable ro hro)

/-- What the orders of an account reserve after a block, read from the orders before it. -/
theorem amount_settled {mmOrderIds : List ℕ} {height : ℕ} (hbook' : book'.Tallied)
    (horders : book'.orders = book.orders.filterMap (survivor fills mmOrderIds height))
    (accountId : ℕ) : book'.reservations.balance.amount accountId =
      (book.orders.map fun ro =>
        if ro.accountId = accountId then reservedAfter fills mmOrderIds height ro else 0).sum := by
  rw [hbook'.tally.balance, horders]
  induction book.orders with
  | nil => rfl
  | cons ro orders ih =>
    rw [List.map_cons, List.sum_cons, ← ih, List.filterMap_cons]
    cases hsurvives : survivor fills mmOrderIds height ro with
    | none => simp [reservedAfter, hsurvives]
    | some rest =>
      rw [List.map_cons, List.sum_cons, RestingOrder.balanceAt, (survivor_fields hsurvives).2.1,
        reservedAfter, hsurvives]
      rfl

/-- **Reservations cover execution.**  In every book of orders admitted here, a buy reserves at
least the ceiling of what is left of it at its limit, and a sell exactly its shares; a restore
accepts the book.  A block never raises the reserve of an order, frees at least what the fills of
the order cost when they are within its limit, and so never lowers the free balance of an
account. -/
theorem reservations_cover_execution {ttl : ℕ} {ops : List Operation}
    (hops : Run.Along OrderBook.exec Trades (new ttl) ops)
    (hrun : Run.run OrderBook.exec (new ttl) ops = some book) :
    (∀ ro ∈ book.orders, CoversRemaining ro) ∧
    validateRestoredReservations book.orders = .ok () ∧
    ∀ fills mmOrderIds height, ∃ next removed,
      book.settle fills mmOrderIds height = .ok (next, removed) ∧
      next.orders = book.orders.filterMap (survivor fills mmOrderIds height) ∧
      (∀ ro ∈ next.orders, CoversRemaining ro) ∧
      validateRestoredReservations next.orders = .ok () ∧
      (∀ ro ∈ book.orders, RespectsLimit ro.order fills →
        0 ≤ reservedAfter fills mmOrderIds height ro ∧
        reservedAfter fills mmOrderIds height ro ≤ ro.reservedBalance ∧
        charge ro.order fills ≤ ro.reservedBalance - reservedAfter fills mmOrderIds height ro) ∧
      ∀ accountId,
        (∀ ro ∈ book.orders, ro.accountId = accountId → RespectsLimit ro.order fills) →
        ∀ balance : ℤ, balance - book.reservations.balance.amount accountId ≤
          balance - (book.orders.map fun ro =>
              if ro.accountId = accountId then charge ro.order fills else 0).sum -
            next.reservations.balance.amount accountId := by
  have hbook := admitted_of_run hops hrun
  refine ⟨hbook.coversRemaining, hbook.validateRestored, fun fills mmOrderIds height => ?_⟩
  obtain ⟨⟨next, removed⟩, hsettle⟩ := hbook.tallied.exists_settle fills mmOrderIds height
  obtain ⟨horders, -, -⟩ := settle_eq_ok hsettle
  -- The settled book is the book of a run that is one block longer.
  have hexec : book.exec (.settle fills mmOrderIds height) = some next := by
    simp only [OrderBook.exec, apply, hsettle]
    rfl
  have hnext : next.Admitted :=
    hbook.exec (show book.Trades (.settle fills mmOrderIds height) from trivial) hexec
  refine ⟨next, removed, hsettle, horders, hnext.coversRemaining, hnext.validateRestored,
    fun ro hro hlimit =>
      reservedAfter_le (hbook.restorable ro hro).covered hlimit mmOrderIds height,
    fun accountId hlimit balance => ?_⟩
  have hsum : (book.orders.map fun ro =>
        if ro.accountId = accountId then charge ro.order fills else 0).sum +
      next.reservations.balance.amount accountId ≤ book.reservations.balance.amount accountId := by
    rw [amount_settled hnext.tallied horders, hbook.tallied.tally.balance, ← List.sum_map_add]
    refine List.sum_le_sum fun ro hro => ?_
    rw [RestingOrder.balanceAt]
    split_ifs with haccount
    · have := (reservedAfter_le (hbook.restorable ro hro).covered (hlimit ro hro haccount)
        mmOrderIds height).2.2
      linarith
    · exact le_of_eq (add_zero 0)
  linarith

theorem reservations_cover_execution_twoPartialFills :
    ∃ book, Run.Along OrderBook.exec Trades (new 10) twoPartialFills ∧
      Run.run OrderBook.exec (new 10) twoPartialFills = some book ∧
      (∀ ro ∈ book.orders, CoversRemaining ro) ∧
      validateRestoredReservations book.orders = .ok () := by
  obtain ⟨book, hrun, -⟩ := exists_run (tallied_new 10) admissible_twoPartialFills
  have htrades : Run.Along OrderBook.exec Trades (new 10) twoPartialFills := by
    refine Run.along_of_forall (fun op hop book => ?_) _
    simp only [twoPartialFills, List.mem_cons, List.not_mem_nil, or_false] at hop
    rcases hop with rfl | rfl | rfl
    · trivial
    · trivial
    · trivial
  obtain ⟨hcovers, hrestore, -⟩ := reservations_cover_execution htrades hrun
  exact ⟨book, htrades, hrun, hcovers, hrestore⟩

end OrderBook

end Sybil.Sequencer
