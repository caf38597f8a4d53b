import Sybil.Sequencer.Reservations
import Sybil.Sequencer.Restore

/-!
# Settlement of the book and its replay

The sequencer settles its book order by order (`OrderBook.settle`); the verifier computes from
the leaf of an order what its leaf after the block must be (`expectedPostResting`).  The two are
written over different types and agree through the leaf of an order (`survivor_snapshot`): the
same three tests in an order that makes no difference, and the same ceilings.

An order with nothing left to fill is filled, also when no fill was for it: an order of quantity
zero leaves both books at the first block.
-/

namespace Sybil.Sequencer.OrderBook

open Engine Verifier

variable {book book' : OrderBook} {ro : RestingOrder} {fills : List Fill} {mmOrderIds : List ℕ}
  {height : ℕ}

/-! ## One order -/

/-- Scaling what is reserved does not change its order. -/
theorem sortByKey_scaled (f : ℤ → ℤ) (entries : List (PositionKey × ℤ)) :
    sortByKey (fun entry : PositionKey × ℤ => entry.1) (entries.map fun e => (e.1, f e.2)) =
      (sortByKey (fun entry : PositionKey × ℤ => entry.1) entries).map fun e => (e.1, f e.2) := by
  unfold sortByKey
  symm
  refine List.map_mergeSort ?_
  intro a _ b _
  rfl

theorem restingOrderSnapshot_remainder (ro : RestingOrder) (filled : ℕ) :
    restingOrderSnapshot (remainder ro filled) =
      { restingOrderSnapshot ro with
        order := { ro.order with maxFill := ro.order.maxFill - filled }
        reservedBalance := asI64 (ceilMulRatio (asU64 ro.reservedBalance)
          (ro.order.maxFill - filled) ro.order.maxFill)
        reservedPositions := (restingOrderSnapshot ro).reservedPositions.map fun entry =>
          (entry.1, entry.2.1,
            asI64 (ceilMulRatio (asU64 entry.2.2) (ro.order.maxFill - filled)
              ro.order.maxFill)) } := by
  have hsorted := sortByKey_scaled (fun qty => asI64 (ceilMulRatio (asU64 qty)
    (ro.order.maxFill - filled) ro.order.maxFill)) ro.reservedPositions
  simp only [restingOrderSnapshot, remainder, hsorted, List.map_map]
  rfl

/-- **The verifier expects of an order what the book makes of it.** -/
theorem survivor_snapshot (hmm : ro.order.id ∉ mmOrderIds) :
    (survivor fills mmOrderIds height ro).map restingOrderSnapshot =
      expectedPostResting (restingOrderSnapshot ro) (filledQty fills ro.order.id) height := by
  have hleaf : (restingOrderSnapshot ro).order.maxFill = ro.order.maxFill ∧
      (restingOrderSnapshot ro).expiresAtBlock = ro.expiresAtBlock := ⟨rfl, rfl⟩
  rw [survivor, expectedPostResting, hleaf.1, hleaf.2]
  simp only [hmm, false_or]
  by_cases hgone : ro.order.maxFill ≤ filledQty fills ro.order.id ∨ ro.expiresAtBlock ≤ height
  · rw [if_pos hgone, if_pos hgone]
    rfl
  · rw [if_neg hgone, if_neg hgone]
    by_cases hfilled : filledQty fills ro.order.id = 0
    · rw [if_pos hfilled, if_pos hfilled]
      rfl
    · rw [if_neg hfilled, if_neg hfilled, Option.map_some, restingOrderSnapshot_remainder]
      rfl

/-! ## Orders that leave -/

/-- How an order leaves the book when it does. -/
def departure (fills : List Fill) (mmOrderIds : List ℕ) (height : ℕ) (ro : RestingOrder) :
    Option (RestingOrder × RestingExit) :=
  let filled := filledQty fills ro.order.id
  let matched := { ro with hasBeenMatched := ro.hasBeenMatched || decide (0 < filled) }
  if ro.order.id ∈ mmOrderIds then some (ro, .settled)
  else if ro.order.maxFill ≤ filled then some (matched, .settled)
  else if ro.expiresAtBlock ≤ height then some (matched, .expired)
  else none

theorem removed_settleStep {st st' : SettleState}
    (h : settleStep fills mmOrderIds height st ro = .ok st') :
    st'.removed = st.removed ++ (departure fills mmOrderIds height ro).toList := by
  unfold settleStep departure at *
  simp only [] at h ⊢
  split_ifs at h ⊢
  any_goals obtain ⟨r, -, h⟩ := bind_eq_ok.mp h
  all_goals cases Except.ok.inj h
  -- What stays adds nothing to the list.
  any_goals exact (List.append_nil _).symm
  all_goals rfl

/-- The orders that a settlement returns are those that leave. -/
theorem removed_settle {removed : List (RestingOrder × RestingExit)}
    (h : book.settle fills mmOrderIds height = .ok (book', removed)) :
    removed = book.orders.filterMap (departure fills mmOrderIds height) := by
  obtain ⟨final, hloop, h⟩ := bind_eq_ok.mp h
  cases Except.ok.inj h
  have hall : ∀ (orders : List RestingOrder) (st st' : SettleState),
      orders.foldlM (settleStep fills mmOrderIds height) st = .ok st' →
      st'.removed = st.removed ++ orders.filterMap (departure fills mmOrderIds height) := by
    intro orders
    induction orders with
    | nil =>
      intro st st' hrun
      cases Except.ok.inj hrun
      exact (List.append_nil _).symm
    | cons ro orders ih =>
      intro st st' hrun
      obtain ⟨next, hstep, hrun⟩ := foldlM_cons_eq_ok.mp hrun
      rw [ih next st' hrun, removed_settleStep hstep, List.append_assoc, List.filterMap_cons]
      cases departure fills mmOrderIds height ro <;> rfl
  exact hall _ _ _ hloop

/-- An order leaves exactly when nothing of it survives. -/
theorem departure_isSome_iff :
    (departure fills mmOrderIds height ro).isSome = true ↔
      survivor fills mmOrderIds height ro = none := by
  unfold departure survivor
  simp only []
  by_cases hmm : ro.order.id ∈ mmOrderIds
  · simp [hmm]
  · by_cases hfull : ro.order.maxFill ≤ filledQty fills ro.order.id
    · simp [hmm, hfull]
    · by_cases hexpired : ro.expiresAtBlock ≤ height <;> simp [hmm, hfull, hexpired]

/-! ## The book -/

theorem id_survivor {rest : RestingOrder} (h : survivor fills mmOrderIds height ro = some rest) :
    rest.order.id = ro.order.id := by
  rw [(survivor_fields h).1]

/-- A settlement and the verifier's replay make the same of every resting order. -/
structure SettlesAsReplayed (book book' : OrderBook)
    (removed : List (RestingOrder × RestingExit)) (fills : List Fill) (height : ℕ) : Prop where
  /-- A remainder is kept exactly when a leaf is expected. -/
  kept_iff : ∀ ro ∈ book.orders, (∃ rest ∈ book'.orders, rest.order.id = ro.order.id) ↔
    (expectedPostResting (restingOrderSnapshot ro) (filledQty fills ro.order.id) height).isSome
  /-- Its leaf is the one expected, in every field. -/
  leaf : ∀ ro ∈ book.orders, ∀ rest ∈ book'.orders, rest.order.id = ro.order.id →
    expectedPostResting (restingOrderSnapshot ro) (filledQty fills ro.order.id) height =
      some (restingOrderSnapshot rest)
  /-- Otherwise the order is returned as removed. -/
  removed_iff : ∀ ro ∈ book.orders, (∃ entry ∈ removed, entry.1.order.id = ro.order.id) ↔
    expectedPostResting (restingOrderSnapshot ro) (filledQty fills ro.order.id) height = none
  /-- Without fills and in time an order with a quantity stays as it is. -/
  unchanged : ∀ ro ∈ book.orders, 0 < ro.order.maxFill → filledQty fills ro.order.id = 0 →
    height < ro.expiresAtBlock → ro ∈ book'.orders

theorem id_departure {entry : RestingOrder × RestingExit}
    (h : departure fills mmOrderIds height ro = some entry) : entry.1.order.id = ro.order.id := by
  unfold departure at h
  simp only [] at h
  split_ifs at h <;> cases h <;> rfl

/-- Two orders of a book with distinct ids that have one id are one order. -/
theorem eq_of_id (hids : (book.orders.map fun ro => ro.order.id).Nodup) {other : RestingOrder}
    (hro : ro ∈ book.orders) (hother : other ∈ book.orders) (hid : other.order.id = ro.order.id) :
    other = ro :=
  List.inj_on_of_nodup_map hids hother hro hid

/-- **The book settles as the verifier replays it.** -/
theorem settle_eq_replay (hbook : book.Tallied)
    (hids : (book.orders.map fun ro => ro.order.id).Nodup) (fills : List Fill)
    (hmm : ∀ ro ∈ book.orders, ro.order.id ∉ mmOrderIds) (height : ℕ) :
    ∃ book' removed, book.settle fills mmOrderIds height = .ok (book', removed) ∧
      SettlesAsReplayed book book' removed fills height := by
  obtain ⟨⟨book', removed⟩, hsettle⟩ := hbook.exists_settle fills mmOrderIds height
  have horders := (settle_eq_ok hsettle).1
  have hremoved := removed_settle hsettle
  -- What the book keeps under the id of an order is what survives of that order.
  have hkept : ∀ ro ∈ book.orders, ∀ rest, rest ∈ book'.orders ∧ rest.order.id = ro.order.id ↔
      survivor fills mmOrderIds height ro = some rest := by
    intro ro hro rest
    rw [horders, List.mem_filterMap]
    constructor
    · rintro ⟨⟨other, hother, hrest⟩, hid⟩
      rwa [← eq_of_id hids hro hother ((id_survivor hrest).symm.trans hid)]
    · exact fun hrest => ⟨⟨ro, hro, hrest⟩, id_survivor hrest⟩
  have hgone : ∀ ro ∈ book.orders, (∃ entry ∈ removed, entry.1.order.id = ro.order.id) ↔
      survivor fills mmOrderIds height ro = none := by
    intro ro hro
    rw [← departure_isSome_iff, Option.isSome_iff_exists, hremoved]
    constructor
    · rintro ⟨entry, hentry, hid⟩
      obtain ⟨other, hother, hleaves⟩ := List.mem_filterMap.mp hentry
      rw [← eq_of_id hids hro hother ((id_departure hleaves).symm.trans hid)]
      exact ⟨entry, hleaves⟩
    · rintro ⟨entry, hleaves⟩
      exact ⟨entry, List.mem_filterMap.mpr ⟨ro, hro, hleaves⟩, id_departure hleaves⟩
  refine ⟨book', removed, hsettle, ⟨fun ro hro => ?_, fun ro hro rest hrest hid => ?_,
    fun ro hro => ?_, fun ro hro hqty hnofill htime => ?_⟩⟩
  · rw [← survivor_snapshot (hmm ro hro), Option.isSome_map, Option.isSome_iff_exists]
    exact exists_congr (hkept ro hro)
  · rw [← survivor_snapshot (hmm ro hro), (hkept ro hro rest).mp ⟨hrest, hid⟩]
    rfl
  · rw [← survivor_snapshot (hmm ro hro), Option.map_eq_none_iff]
    exact hgone ro hro
  · have hstays : ¬(ro.order.id ∈ mmOrderIds ∨ ro.order.maxFill ≤ filledQty fills ro.order.id ∨
        ro.expiresAtBlock ≤ height) := by
      rw [hnofill]
      rintro (hmaker | hfull | hlate)
      · exact hmm ro hro hmaker
      · exact Nat.not_lt.mpr hfull hqty
      · exact Nat.not_lt.mpr hlate htime
    refine ((hkept ro hro ro).mpr ?_).1
    rw [survivor, if_neg hstays, if_pos hnofill]

/-! ## Two bids -/

/-- An account with a dollar. -/
def bidder : Account := ⟨1, 1000000000, ∅, 1000000000, 0⟩

/-- A bid for shares at sixty cents. -/
def bidFor (quantity : ℕ) : Order :=
  { Order.new 3 with
    markets := (Vector.replicate 5 MarketId.none).set 0 7 Order.firstMarket_lt
    numMarkets := 1
    payoffs := (Vector.replicate 32 0).set 0 1 Order.firstState_lt
    numStates := 2
    limitPrice := 600000000
    maxFill := quantity }

/-- The bid as it rests. -/
def restingBid (quantity : ℕ) (cost : ℤ) : RestingOrder where
  order := bidFor quantity
  accountId := 1
  createdAt := 4
  expiresAtBlock := 14
  reservedBalance := cost
  reservedPositions := []
  hasBeenMatched := false
  originalMaxFill := quantity
  createdAtMs := 0

/-- A book with one bid. -/
def bidBook (quantity : ℕ) (cost : ℤ) : OrderBook :=
  ⟨[restingBid quantity cost], BookReservations.add ⟨∅, ∅⟩ (restingBid quantity cost), 10⟩

theorem tallied_bidBook {quantity : ℕ} {cost : ℤ}
    (h : (OrderBook.new 10).accept (bidFor quantity) 1 bidder 4 0 =
      .ok (bidBook quantity cost, restingBid quantity cost)) : (bidBook quantity cost).Tallied :=
  ((sound_new 10).accept (accepts_of_accept h)).tallied

theorem settle_eq_replay_bid :
    ((OrderBook.new 10).accept (bidFor 1000) 1 bidder 4 0 =
        .ok (bidBook 1000 600000000, restingBid 1000 600000000) ∧
      filledQty [⟨3, 300, 500000000, 1⟩] 3 = 300) ∧
      ∃ book' removed, (bidBook 1000 600000000).settle [⟨3, 300, 500000000, 1⟩] [] 5 =
        .ok (book', removed) ∧
        SettlesAsReplayed (bidBook 1000 600000000) book' removed [⟨3, 300, 500000000, 1⟩] 5 := by
  have haccept : (OrderBook.new 10).accept (bidFor 1000) 1 bidder 4 0 =
      .ok (bidBook 1000 600000000, restingBid 1000 600000000) := by decide +kernel
  exact ⟨⟨haccept, by decide⟩,
    settle_eq_replay (tallied_bidBook haccept) (by decide) _ (by decide) 5⟩

/-- **A bid for nothing is not kept**: it has no fill and is in time, and leaves the book as
filled. -/
theorem empty_bid_removed :
    (bidBook 0 0).Tallied ∧ ((bidBook 0 0).orders.map fun ro => ro.order.id).Nodup ∧
      filledQty [] (bidFor 0).id = 0 ∧ 5 < (restingBid 0 0).expiresAtBlock ∧
      restingBid 0 0 ∈ (bidBook 0 0).orders ∧
      (bidBook 0 0).settle [] [] 5 = .ok (OrderBook.new 10, [(restingBid 0 0, .settled)]) := by
  have haccept : (OrderBook.new 10).accept (bidFor 0) 1 bidder 4 0 =
      .ok (bidBook 0 0, restingBid 0 0) := by decide +kernel
  exact ⟨tallied_bidBook haccept, by decide, rfl, by decide, List.mem_singleton_self _,
    by decide +kernel⟩

end Sybil.Sequencer.OrderBook
