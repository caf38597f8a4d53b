import Sybil.Lib.Tally
import Sybil.Sequencer.OrderBook

/-!
# The reservations of a book

Two invariants carry every later argument about the book.

* The aggregates are what the resting orders add up to (`BookReservations.Tally`).
* Each order reserves at least what it can still cost, and exactly the shares it can
  still deliver (`RestingOrder.Covered`).

The second one survives partial fills.  A remainder reserves a ceiling of a share of
what the order reserved before, which was itself such a ceiling; the roundings all go
the same way, so the reserve never falls below the cost (`covered_remainder`).
-/

namespace Sybil.Sequencer

open Engine

variable {accountId denom filled numer : ℕ} {entry : PositionKey × ℤ} {fills : List Fill}
  {mmOrderIds : List ℕ} {order : Order} {removed : List RestingOrder} {ro ro' : RestingOrder}

/-! ## What an order weighs -/

namespace RestingOrder

/-- What an order reserves of the balance of an account. -/
def balanceAt (ro : RestingOrder) (accountId : ℕ) : ℤ :=
  if ro.accountId = accountId then ro.reservedBalance else 0

/-- What an order reserves of a position of an account. -/
def sharesAt (ro : RestingOrder) (key : ℕ ×ₗ PositionKey) : ℤ :=
  (ro.reservedPositions.map fun entry =>
    if toLex (ro.accountId, entry.1) = key then entry.2 else 0).sum

/-- An order reserves no negative amount. -/
structure NonnegReserve (ro : RestingOrder) : Prop where
  balance : 0 ≤ ro.reservedBalance
  positions : ∀ entry ∈ ro.reservedPositions, 0 ≤ entry.2

theorem NonnegReserve.balanceAt (h : ro.NonnegReserve) (accountId : ℕ) :
    0 ≤ ro.balanceAt accountId := by
  unfold RestingOrder.balanceAt
  split_ifs
  · exact h.balance
  · exact le_rfl

theorem NonnegReserve.sharesAt (h : ro.NonnegReserve) (key : ℕ ×ₗ PositionKey) :
    0 ≤ ro.sharesAt key := by
  refine List.sum_nonneg fun x hx => ?_
  obtain ⟨entry, hentry, rfl⟩ := List.mem_map.mp hx
  split_ifs
  · exact h.positions entry hentry
  · exact le_rfl

/-- An order reserves amounts of an `i64` that are not negative. -/
structure I64Reserve (ro : RestingOrder) : Prop extends NonnegReserve ro where
  balance_lt : ro.reservedBalance < 2 ^ 63
  positions_lt : ∀ entry ∈ ro.reservedPositions, entry.2 < 2 ^ 63

end RestingOrder

/-! ## The aggregates -/

namespace BookReservations

/-- The aggregates are what the orders add up to. -/
structure Tally (r : BookReservations) (orders : List RestingOrder) : Prop where
  balance : r.balance.Tallies RestingOrder.balanceAt orders
  position : r.position.Tallies RestingOrder.sharesAt orders

variable {r r' : BookReservations} {orders orders' : List RestingOrder}

theorem Tally.perm (h : r.Tally orders) (hperm : orders.Perm orders') : r.Tally orders' :=
  ⟨h.balance.perm hperm, h.position.perm hperm⟩

theorem Tally.add (h : r.Tally orders) (hro : ro.NonnegReserve) :
    (r.add ro).Tally (orders ++ [ro]) where
  balance := by
    refine h.balance.concat fun accountId => ?_
    have hnonneg := hro.balance
    simp only [BookReservations.add, RestingOrder.balanceAt]
    split_ifs with hpos hid hid
    · rw [OrdMap.amount_insert, if_pos hid.symm, hid]
    · rw [OrdMap.amount_insert, if_neg (Ne.symm hid), add_zero]
    · omega
    · rw [add_zero]
  position := by
    refine h.position.concat fun key => ?_
    simp only [BookReservations.add, OrdMap.amount_addAll, RestingOrder.sharesAt, List.map_map,
      Function.comp_def]

/-- Releasing a part of a balance lowers it by that part. -/
theorem releaseBalance_eq_ok {amount : ℤ} (hamount : 0 ≤ amount)
    (h : r.releaseBalance accountId amount = .ok r') :
    r'.position = r.position ∧ ∀ a, r'.balance.amount a =
      r.balance.amount a - if accountId = a then amount else 0 := by
  simp only [releaseBalance, bind_eq_ok, ensure_eq_ok, exists_const] at h
  obtain ⟨-, h⟩ := h
  split_ifs at h with hall hpart <;> obtain rfl := Except.ok.inj h
  · refine ⟨rfl, fun a => ?_⟩
    rw [OrdMap.amount_erase]
    by_cases ha : accountId = a
    · subst ha
      simp [hall]
    · simp [ha, Ne.symm ha]
  · refine ⟨rfl, fun a => ?_⟩
    rw [OrdMap.amount_insert]
    by_cases ha : accountId = a
    · subst ha
      simp
    · simp [ha, Ne.symm ha]
  · obtain rfl : amount = 0 := by omega
    simp

/-- Releasing a part of a position lowers it by that part. -/
theorem releasePosition_eq_ok (hentry : 0 ≤ entry.2)
    (h : releasePosition accountId r entry = .ok r') :
    r'.balance = r.balance ∧ ∀ key, r'.position.amount key =
      r.position.amount key - if toLex (accountId, entry.1) = key then entry.2 else 0 := by
  simp only [releasePosition, bind_eq_ok, ensure_eq_ok, exists_const] at h
  obtain ⟨-, h⟩ := h
  split_ifs at h with hall hpart <;> obtain rfl := Except.ok.inj h
  · refine ⟨rfl, fun key => ?_⟩
    rw [OrdMap.amount_erase]
    by_cases hkey : toLex (accountId, entry.1) = key
    · subst hkey
      simp [hall]
    · simp [hkey, Ne.symm hkey]
  · refine ⟨rfl, fun key => ?_⟩
    rw [OrdMap.amount_insert]
    by_cases hkey : toLex (accountId, entry.1) = key
    · subst hkey
      simp
    · simp [hkey, Ne.symm hkey]
  · obtain hzero : entry.2 = 0 := by omega
    simp [hzero]

/-- Releasing a list of positions lowers each by its part. -/
theorem releasePositions_eq_ok {entries : List (PositionKey × ℤ)}
    (hentries : ∀ entry ∈ entries, 0 ≤ entry.2)
    (h : entries.foldlM (releasePosition accountId) r = .ok r') :
    r'.balance = r.balance ∧ ∀ key, r'.position.amount key = r.position.amount key -
      (entries.map fun entry => if toLex (accountId, entry.1) = key then entry.2 else 0).sum := by
  induction entries generalizing r with
  | nil =>
    obtain rfl := Except.ok.inj h
    simp
  | cons entry entries ih =>
    obtain ⟨mid, hmid, hrest⟩ := foldlM_cons_eq_ok.mp h
    obtain ⟨hbalance, hamount⟩ := releasePosition_eq_ok (hentries entry List.mem_cons_self) hmid
    obtain ⟨hbalance', hamount'⟩ := ih (fun e he => hentries e (List.mem_cons_of_mem _ he)) hrest
    refine ⟨hbalance'.trans hbalance, fun key => ?_⟩
    rw [hamount', hamount, List.map_cons, List.sum_cons]
    ring

/-- Releasing an order removes it from the tally. -/
theorem Tally.release (h : r.Tally (ro :: orders)) (hro : ro.NonnegReserve)
    (hrelease : r.release ro = .ok r') : r'.Tally orders := by
  simp only [BookReservations.release, bind_eq_ok, ensure_eq_ok, exists_const] at hrelease
  obtain ⟨-, _, -, hrelease⟩ := hrelease
  have hmid : ∃ mid : BookReservations, (mid.position = r.position ∧ ∀ a, mid.balance.amount a =
      r.balance.amount a - ro.balanceAt a) ∧
      ro.reservedPositions.foldlM (releasePosition ro.accountId) mid = .ok r' := by
    split_ifs at hrelease with hpos
    · obtain ⟨mid, hmid, hrest⟩ := bind_eq_ok.mp hrelease
      exact ⟨mid, releaseBalance_eq_ok hro.balance hmid, hrest⟩
    · have hzero : ro.reservedBalance = 0 := le_antisymm (not_lt.mp hpos) hro.balance
      refine ⟨r, ⟨rfl, fun a => ?_⟩, hrelease⟩
      simp [RestingOrder.balanceAt, hzero]
  obtain ⟨mid, hmid, hrest⟩ := hmid
  obtain ⟨hbalance', hposition'⟩ := releasePositions_eq_ok hro.positions hrest
  refine ⟨h.balance.tail fun a => ?_, h.position.tail fun key => ?_⟩
  · rw [hbalance', hmid.2]
  · rw [hposition', hmid.1]
    rfl

/-- Releasing orders one after the other removes them from the tally. -/
theorem Tally.releaseAll (h : r.Tally (removed ++ orders))
    (hremoved : ∀ ro ∈ removed, ro.NonnegReserve)
    (hrelease : removed.foldlM BookReservations.release r = .ok r') : r'.Tally orders := by
  induction removed generalizing r with
  | nil =>
    obtain rfl := Except.ok.inj hrelease
    exact h
  | cons ro removed ih =>
    obtain ⟨mid, hmid, hrest⟩ := foldlM_cons_eq_ok.mp hrelease
    exact ih (h.release (hremoved ro List.mem_cons_self) hmid)
      (fun ro hro => hremoved ro (List.mem_cons_of_mem _ hro)) hrest

/-! ### Nothing is released twice -/

theorem exists_releaseBalance {amount : ℤ} (h : amount ≤ r.balance.amount accountId) :
    ∃ r', r.releaseBalance accountId amount = .ok r' := by
  simp only [releaseBalance, ensure, if_pos h]
  split_ifs
  · exact ⟨_, rfl⟩
  · exact ⟨_, rfl⟩
  · exact ⟨_, rfl⟩

theorem exists_releasePosition (h : entry.2 ≤ r.position.amount (toLex (accountId, entry.1))) :
    ∃ r', releasePosition accountId r entry = .ok r' := by
  simp only [releasePosition, ensure, if_pos h]
  split_ifs
  · exact ⟨_, rfl⟩
  · exact ⟨_, rfl⟩
  · exact ⟨_, rfl⟩

/-- A list of positions can be released when each key has what the list takes from it. -/
theorem exists_releasePositions {entries : List (PositionKey × ℤ)}
    (hentries : ∀ entry ∈ entries, 0 ≤ entry.2)
    (h : ∀ key, (entries.map fun entry =>
      if toLex (accountId, entry.1) = key then entry.2 else 0).sum ≤ r.position.amount key) :
    ∃ r', entries.foldlM (releasePosition accountId) r = .ok r' := by
  induction entries generalizing r with
  | nil => exact ⟨r, rfl⟩
  | cons entry entries ih =>
    obtain ⟨hentry, hrest⟩ := List.forall_mem_cons.mp hentries
    have hnonneg : ∀ key, 0 ≤ (entries.map fun e =>
        if toLex (accountId, e.1) = key then e.2 else 0).sum := by
      intro key
      refine List.sum_nonneg fun x hx => ?_
      obtain ⟨e, he, rfl⟩ := List.mem_map.mp hx
      split_ifs
      · exact hrest e he
      · exact le_rfl
    have hfirst := h (toLex (accountId, entry.1))
    rw [List.map_cons, List.sum_cons, if_pos rfl] at hfirst
    obtain ⟨mid, hmid⟩ := exists_releasePosition
      ((le_add_of_nonneg_right (hnonneg _)).trans hfirst)
    obtain ⟨-, hamount⟩ := releasePosition_eq_ok hentry hmid
    obtain ⟨r', hr'⟩ := ih (r := mid) hrest fun key => by
      have := h key
      rw [List.map_cons, List.sum_cons] at this
      rw [hamount]
      linarith
    exact ⟨r', foldlM_cons_eq_ok.mpr ⟨mid, hmid, hr'⟩⟩

theorem Tally.exists_release (h : r.Tally (ro :: orders)) (hro : ro.NonnegReserve)
    (horders : ∀ other ∈ orders, other.NonnegReserve) : ∃ r', r.release ro = .ok r' := by
  have hall : ∀ other ∈ ro :: orders, other.NonnegReserve := List.forall_mem_cons.mpr ⟨hro, horders⟩
  have hshares : ∀ key, ro.sharesAt key ≤ r.position.amount key := fun key =>
    h.position.weigh_le (fun other hother => (hall other hother).sharesAt key) List.mem_cons_self
  have hbalance : ro.reservedBalance ≤ r.balance.amount ro.accountId := by
    have := h.balance.weigh_le (k := ro.accountId)
      (fun other hother => (hall other hother).balanceAt ro.accountId) List.mem_cons_self
    rwa [RestingOrder.balanceAt, if_pos rfl] at this
  have hentry : ∀ entry ∈ ro.reservedPositions,
      entry.2 ≤ r.position.amount (toLex (ro.accountId, entry.1)) := by
    intro entry hmem
    refine le_trans ?_ (hshares _)
    refine List.single_le_sum (fun x hx => ?_) _ (List.mem_map.mpr ⟨entry, hmem, if_pos rfl⟩)
    obtain ⟨e, he, rfl⟩ := List.mem_map.mp hx
    split_ifs
    · exact hro.positions e he
    · exact le_rfl
  have hchecks : checkAll (fun entry : PositionKey × ℤ =>
      let currentlyReserved := r.position.amount (toLex (ro.accountId, entry.1))
      ensure (entry.2 ≤ currentlyReserved)
        (ReservationError.positionOverRelease ro.accountId (ofLex entry.1).1 (ofLex entry.1).2
          currentlyReserved entry.2)) ro.reservedPositions = .ok () :=
    checkAll_eq_ok.mpr fun entry hmem => ensure_eq_ok.mpr (hentry entry hmem)
  have hrun : ∀ mid : BookReservations, mid.position = r.position →
      ∃ r', ro.reservedPositions.foldlM (releasePosition ro.accountId) mid = .ok r' := by
    intro mid hmid
    refine exists_releasePositions hro.positions fun key => ?_
    rw [hmid]
    exact hshares key
  simp only [BookReservations.release, bind_eq_ok, ensure_eq_ok, exists_const]
  by_cases hpos : 0 < ro.reservedBalance
  · obtain ⟨mid, hmid⟩ := exists_releaseBalance hbalance
    obtain ⟨r', hr'⟩ := hrun mid (releaseBalance_eq_ok hro.balance hmid).1
    refine ⟨r', hbalance, (), hchecks, ?_⟩
    rw [if_pos hpos]
    exact bind_eq_ok.mpr ⟨mid, hmid, hr'⟩
  · obtain ⟨r', hr'⟩ := hrun r rfl
    refine ⟨r', hbalance, (), hchecks, ?_⟩
    rw [if_neg hpos]
    exact hr'

theorem Tally.exists_releaseAll (h : r.Tally (removed ++ orders))
    (hall : ∀ ro ∈ removed ++ orders, ro.NonnegReserve) :
    ∃ r', removed.foldlM BookReservations.release r = .ok r' := by
  induction removed generalizing r with
  | nil => exact ⟨r, rfl⟩
  | cons ro removed ih =>
    obtain ⟨hro, hrest⟩ := List.forall_mem_cons.mp hall
    obtain ⟨mid, hmid⟩ := Tally.exists_release h hro hrest
    obtain ⟨r', hr'⟩ := ih (Tally.release h hro hmid) hrest
    exact ⟨r', foldlM_cons_eq_ok.mpr ⟨mid, hmid, hr'⟩⟩

/-- The positions reserved for one account, read from the aggregates. -/
theorem amount_acctPositions (accountId : ℕ) (key : PositionKey) :
    (r.acctPositions accountId).amount key = r.position.amount (toLex (accountId, key)) := by
  have hkeys : (((r.position.entries.filter fun e => (ofLex e.1).1 = accountId).map fun e =>
      ((ofLex e.1).2, e.2)).map Prod.fst).Nodup := by
    rw [List.map_map]
    refine List.Nodup.map_on ?_ ((List.Nodup.of_map Prod.fst r.position.nodup_keys).filter _)
    intro e he e' he' heq
    have hid := (List.mem_filter.mp he).2
    have hid' := (List.mem_filter.mp he').2
    simp only [decide_eq_true_eq] at hid hid'
    have hfst : e.1 = e'.1 := by
      refine ofLex.injective (Prod.ext (hid.trans hid'.symm) heq)
    have hmem := OrdMap.mem_entries_iff.mp (List.mem_filter.mp he).1
    have hmem' := OrdMap.mem_entries_iff.mp (List.mem_filter.mp he').1
    rw [hfst, hmem'] at hmem
    exact Prod.ext hfst (Option.some.inj hmem.symm)
  have hget : ∀ q, (r.acctPositions accountId).get? key = some q ↔
      r.position.get? (toLex (accountId, key)) = some q := by
    intro q
    rw [acctPositions, OrdMap.get?_ofList_iff hkeys, ← OrdMap.mem_entries_iff]
    simp only [List.mem_map, List.mem_filter, decide_eq_true_eq, Prod.mk.injEq]
    constructor
    · rintro ⟨e, ⟨he, hid⟩, hkey, hq⟩
      have : e = (toLex (accountId, key), q) :=
        Prod.ext (ofLex.injective (Prod.ext hid hkey)) hq
      exact this ▸ he
    · exact fun h => ⟨_, ⟨h, rfl⟩, rfl, rfl⟩
  rw [OrdMap.amount, OrdMap.amount]
  rcases h : r.position.get? (toLex (accountId, key)) with _ | q
  · rcases h' : (r.acctPositions accountId).get? key with _ | q'
    · rfl
    · rw [(hget q').mp h'] at h
      cases h
  · rw [(hget q).mpr h]

end BookReservations

/-! ## What an order reserves covers it -/

/-- An order reserves at least what it can still cost, and the shares it can still deliver. -/
structure RestingOrder.Covered (ro : RestingOrder) : Prop where
  shape : ro.order.validateBinaryOneHot = .ok ()
  balance_nonneg : 0 ≤ ro.reservedBalance
  balance_lt : ro.reservedBalance < 2 ^ 63
  covers : ∀ cost, balanceReservation ro.order = .ok cost → cost ≤ ro.reservedBalance
  positions : ro.reservedPositions = sellReservations ro.order

theorem RestingOrder.covered_of_reserves (cost : ℤ)
    (hcost : balanceReservation ro.order = .ok cost)
    (h : ro.order.validateBinaryOneHot = .ok () ∧ (0 ≤ ro.reservedBalance ∧
      ro.reservedBalance < 2 ^ 63 ∧ cost ≤ ro.reservedBalance) ∧
      ro.reservedPositions = sellReservations ro.order) : ro.Covered :=
  ⟨h.1, h.2.1.1, h.2.1.2.1, fun _ hcost' => Except.ok.inj (hcost.symm.trans hcost') ▸ h.2.1.2.2,
    h.2.2⟩

/-- A one-hot order sells what it offers, and nothing else. -/
theorem sellReservations_eq {outcome : ℕ} {sells : Bool} (h : order.validateBinaryOneHot = .ok ())
    (hshape : order.BinaryOneHot outcome sells) :
    sellReservations order =
      if sells then [(toLex (order.marketAt 0, outcome), (order.maxFill : ℤ))] else [] := by
  cases sells with
  | true => exact sellReservations_sell h hshape
  | false => exact sellReservations_buy hshape

/-- A one-hot order reserves its cost when it buys. -/
theorem balanceReservation_eq {outcome : ℕ} {sells : Bool}
    (h : order.validateBinaryOneHot = .ok ()) (hshape : order.BinaryOneHot outcome sells) :
    balanceReservation order = .ok (if sells then 0 else (buyCost order : ℤ)) := by
  cases sells with
  | true => exact balanceReservation_sell hshape
  | false => exact balanceReservation_buy h hshape

theorem RestingOrder.Covered.nonneg (h : ro.Covered) : ro.NonnegReserve where
  balance := h.balance_nonneg
  positions := by
    obtain ⟨outcome, sells, hshape⟩ := Order.binaryOneHot_of_validate h.shape
    rw [h.positions, sellReservations_eq h.shape hshape]
    cases sells <;> simp

theorem RestingOrder.Covered.i64Reserve (h : ro.Covered) : ro.I64Reserve where
  toNonnegReserve := h.nonneg
  balance_lt := h.balance_lt
  positions_lt := by
    obtain ⟨outcome, sells, hshape⟩ := Order.binaryOneHot_of_validate h.shape
    have hfill : (ro.order.maxFill : ℤ) ≤ 1000000000 := by
      exact_mod_cast (bounds_of_validate h.shape).2
    rw [h.positions, sellReservations_eq h.shape hshape]
    cases sells with
    | false => simp
    | true =>
      simp only [if_true, List.mem_singleton, forall_eq]
      omega

/-! ### Remainders -/

/-- The casts of a reserved amount do nothing. -/
theorem asU64_of_nonneg {x : ℤ} (h : 0 ≤ x) (hlt : x < 2 ^ 63) : Verifier.asU64 x = x.toNat := by
  rw [Verifier.asU64, Int.emod_eq_of_lt h (by omega)]

theorem asI64_of_lt {n : ℕ} (h : n < 2 ^ 63) : Verifier.asI64 n = n := by
  rw [Verifier.asI64, if_pos h]

/-- Rounding up, as the least bound. -/
theorem ceil_le_iff {a b c : ℕ} (hb : 0 < b) : (a + (b - 1)) / b ≤ c ↔ a ≤ c * b := by
  rw [← Nat.lt_succ_iff, Nat.div_lt_iff_lt_mul hb, Nat.succ_mul]
  omega

/-- A share of an amount is at most the amount, so the cast of the source drops nothing. -/
theorem ceilMulRatio_eq {value : ℕ} (hvalue : value < 2 ^ 63) (h : numer ≤ denom)
    (hdenom : 0 < denom) :
    ceilMulRatio value numer denom = (value * numer + (denom - 1)) / denom ∧
      ceilMulRatio value numer denom ≤ value := by
  have hle : (value * numer + (denom - 1)) / denom ≤ value :=
    (ceil_le_iff hdenom).mpr (Nat.mul_le_mul_left value h)
  have heq : ceilMulRatio value numer denom = (value * numer + (denom - 1)) / denom :=
    Nat.mod_eq_of_lt (hle.trans_lt (hvalue.trans (by norm_num)))
  exact ⟨heq, heq ▸ hle⟩

/-- What is left of a reserve covers what is left of the order. -/
theorem buyCost_remaining_le {value remaining : ℕ} (hcost : buyCost order ≤ value)
    (hfill : 0 < order.maxFill) :
    buyCost { order with maxFill := remaining } ≤
      (value * remaining + (order.maxFill - 1)) / order.maxFill := by
  have hscale : 0 < shareScale := by decide
  have hvalue : order.limitPrice * order.maxFill ≤ value * shareScale :=
    (ceil_le_iff hscale).mp hcost
  have hshare : value * remaining ≤
      (value * remaining + (order.maxFill - 1)) / order.maxFill * order.maxFill :=
    (ceil_le_iff hfill).mp le_rfl
  refine (ceil_le_iff hscale).mpr (Nat.le_of_mul_le_mul_right ?_ hfill)
  calc order.limitPrice * remaining * order.maxFill
      = order.limitPrice * order.maxFill * remaining := by ring
    _ ≤ value * shareScale * remaining := Nat.mul_le_mul_right remaining hvalue
    _ = value * remaining * shareScale := by ring
    _ ≤ (value * remaining + (order.maxFill - 1)) / order.maxFill * order.maxFill * shareScale :=
        Nat.mul_le_mul_right shareScale hshare
    _ = (value * remaining + (order.maxFill - 1)) / order.maxFill * shareScale * order.maxFill := by
        ring

section Remainder

/-- A scaled reserve, without casts. -/
theorem scaledReserve_eq {value : ℤ} (hnonneg : 0 ≤ value) (hlt : value < 2 ^ 63)
    (h : numer ≤ denom) (hdenom : 0 < denom) :
    Verifier.asI64 (ceilMulRatio (Verifier.asU64 value) numer denom) =
        ((value.toNat * numer + (denom - 1)) / denom : ℕ) ∧
      Verifier.asI64 (ceilMulRatio (Verifier.asU64 value) numer denom) ≤ value := by
  have hnat : value.toNat < 2 ^ 63 := by omega
  obtain ⟨heq, hle⟩ := ceilMulRatio_eq hnat h hdenom
  rw [asU64_of_nonneg hnonneg hlt, asI64_of_lt (hle.trans_lt hnat)]
  exact ⟨by rw [heq], (Int.ofNat_le.mpr hle).trans_eq (Int.toNat_of_nonneg hnonneg)⟩

theorem scaledReserve_nonneg {value : ℤ} (hnonneg : 0 ≤ value) (hlt : value < 2 ^ 63)
    (h : numer ≤ denom) (hdenom : 0 < denom) :
    0 ≤ Verifier.asI64 (ceilMulRatio (Verifier.asU64 value) numer denom) := by
  rw [(scaledReserve_eq hnonneg hlt h hdenom).1]
  exact Int.natCast_nonneg _

/-- A remainder reserves amounts of the same kind. -/
theorem i64Reserve_remainder (h : ro.I64Reserve) (hfilled : filled < ro.order.maxFill) :
    (OrderBook.remainder ro filled).I64Reserve := by
  have hle := Nat.sub_le ro.order.maxFill filled
  have hpos := Nat.zero_lt_of_lt hfilled
  refine ⟨⟨scaledReserve_nonneg h.balance h.balance_lt hle hpos, fun entry hentry => ?_⟩,
    (scaledReserve_eq h.balance h.balance_lt hle hpos).2.trans_lt h.balance_lt,
    fun entry hentry => ?_⟩
  · obtain ⟨e, he, rfl⟩ := List.mem_map.mp hentry
    exact scaledReserve_nonneg (h.positions e he) (h.positions_lt e he) hle hpos
  · obtain ⟨e, he, rfl⟩ := List.mem_map.mp hentry
    exact (scaledReserve_eq (h.positions e he) (h.positions_lt e he) hle hpos).2.trans_lt
      (h.positions_lt e he)

/-- The reserved balance of a remainder, without casts. -/
theorem reservedBalance_remainder (h : ro.I64Reserve) (hfilled : filled < ro.order.maxFill) :
    (OrderBook.remainder ro filled).reservedBalance =
        ((ro.reservedBalance.toNat * (ro.order.maxFill - filled) + (ro.order.maxFill - 1)) /
          ro.order.maxFill : ℕ) ∧
      (OrderBook.remainder ro filled).reservedBalance ≤ ro.reservedBalance :=
  scaledReserve_eq h.balance h.balance_lt (Nat.sub_le ro.order.maxFill filled)
    (Nat.zero_lt_of_lt hfilled)

/-- The shares reserved by a remainder are those it offers. -/
theorem reservedPositions_remainder (h : ro.Covered) (hfilled : filled < ro.order.maxFill) :
    (OrderBook.remainder ro filled).reservedPositions =
      sellReservations (OrderBook.remainder ro filled).order := by
  obtain ⟨outcome, sells, hshape⟩ := Order.binaryOneHot_of_validate h.shape
  have hrest := validate_remaining h.shape (Nat.sub_le ro.order.maxFill filled)
  have hshape' : Order.BinaryOneHot { ro.order with maxFill := ro.order.maxFill - filled } outcome
      sells := ⟨hshape.numMarkets, hshape.numStates, hshape.binary, hshape.payoff, hshape.other⟩
  have hfill := (bounds_of_validate h.shape).2
  have hlt : ro.order.maxFill < 2 ^ 63 := hfill.trans_lt (by norm_num [maxOrderQty, shareScale])
  obtain ⟨heq, -⟩ := ceilMulRatio_eq hlt (Nat.sub_le ro.order.maxFill filled) (by omega)
  have hexact : ceilMulRatio ro.order.maxFill (ro.order.maxFill - filled) ro.order.maxFill =
      ro.order.maxFill - filled := by
    rw [heq, Nat.mul_add_div (by omega), Nat.div_eq_of_lt (by omega), add_zero]
  simp only [OrderBook.remainder, h.positions]
  rw [sellReservations_eq h.shape hshape, sellReservations_eq hrest hshape']
  cases sells with
  | false => rfl
  | true =>
    simp only [if_true, List.map_singleton]
    rw [asU64_of_nonneg (Int.natCast_nonneg _) (by exact_mod_cast hlt), Int.toNat_natCast, hexact,
      asI64_of_lt ((Nat.sub_le _ _).trans_lt hlt)]
    rfl

/-- **Partial fills keep an order covered.** -/
theorem covered_remainder (h : ro.Covered) (hfilled : filled < ro.order.maxFill) :
    (OrderBook.remainder ro filled).Covered where
  shape := validate_remaining h.shape (Nat.sub_le ro.order.maxFill filled)
  balance_nonneg := (i64Reserve_remainder h.i64Reserve hfilled).balance
  balance_lt := (i64Reserve_remainder h.i64Reserve hfilled).balance_lt
  covers := by
    intro cost hcost
    obtain ⟨outcome, sells, hshape⟩ := Order.binaryOneHot_of_validate h.shape
    have hrest := validate_remaining h.shape (Nat.sub_le ro.order.maxFill filled)
    have hshape' : Order.BinaryOneHot { ro.order with maxFill := ro.order.maxFill - filled }
        outcome sells :=
      ⟨hshape.numMarkets, hshape.numStates, hshape.binary, hshape.payoff, hshape.other⟩
    have hbefore := h.covers _ (balanceReservation_eq h.shape hshape)
    obtain rfl := Except.ok.inj ((balanceReservation_eq hrest hshape').symm.trans hcost)
    rw [(reservedBalance_remainder h.i64Reserve hfilled).1]
    cases sells with
    | true => exact Int.natCast_nonneg _
    | false =>
      have hvalue : buyCost ro.order ≤ ro.reservedBalance.toNat :=
        (Int.le_toNat h.balance_nonneg).mpr (by simpa using hbefore)
      have hfill : 0 < ro.order.maxFill := Nat.zero_lt_of_lt hfilled
      exact Int.ofNat_le.mpr (buyCost_remaining_le hvalue hfill)
  positions := reservedPositions_remainder h hfilled

end Remainder

/-! ## The operations of the book -/

namespace OrderBook

/-- The aggregates are what the orders add up to. -/
structure Tallied (book : OrderBook) : Prop where
  tally : book.reservations.Tally book.orders
  reserve : ∀ ro ∈ book.orders, ro.I64Reserve

/-- The aggregates are right and every order is covered. -/
structure Sound (book : OrderBook) : Prop where
  tally : book.reservations.Tally book.orders
  covered : ∀ ro ∈ book.orders, ro.Covered

theorem tallied_new (ttl : ℕ) : (new ttl).Tallied where
  tally := ⟨.empty _, .empty _⟩
  reserve := nofun

theorem sound_new (ttl : ℕ) : (new ttl).Sound where
  tally := (tallied_new ttl).tally
  covered := nofun

theorem Sound.tallied {book : OrderBook} (h : book.Sound) : book.Tallied :=
  ⟨h.tally, fun ro hro => (h.covered ro hro).i64Reserve⟩

variable {book book' : OrderBook} {account : Account} {height createdAtMs : ℕ}

/-- What an acceptance does. -/
structure Accepts (book : OrderBook) (order : Order) (accountId : ℕ) (account : Account)
    (height : ℕ) (book' : OrderBook) (ro : RestingOrder) : Prop where
  validated : validateOrderWithReservation order account
    (book.reservations.balance.amount accountId) (book.reservations.acctPositions accountId) =
      .ok ro.reservedBalance
  order_eq : ro.order = order
  accountId_eq : ro.accountId = accountId
  expiresAtBlock_eq : ro.expiresAtBlock = order.effectiveExpiresAtBlock height book.ttl
  positions_eq : ro.reservedPositions = sellReservations order
  original_eq : ro.originalMaxFill = order.maxFill
  unmatched : ro.hasBeenMatched = false
  book_eq : book' = { book with
    orders := book.orders ++ [ro], reservations := book.reservations.add ro }

theorem accepts_of_accept
    (h : book.accept order accountId account height createdAtMs = .ok (book', ro)) :
    book.Accepts order accountId account height book' ro := by
  obtain ⟨cost, hcost, h⟩ := bind_eq_ok.mp h
  obtain ⟨rfl, rfl⟩ := Prod.mk.inj (Except.ok.inj h)
  exact ⟨hcost, rfl, rfl, rfl, rfl, rfl, rfl, rfl⟩

theorem shape_of_validated {reservedBalance cost : ℤ} {reservedPositions : OrdMap PositionKey ℤ}
    (h : validateOrderWithReservation order account reservedBalance reservedPositions = .ok cost) :
    order.validateBinaryOneHot = .ok () := by
  obtain ⟨_, hshape, -⟩ := bind_eq_ok.mp h
  exact validateOrderShape_eq_ok.mp hshape

theorem Accepts.balanceReservation_eq (h : book.Accepts order accountId account height book' ro) :
    balanceReservation order = .ok ro.reservedBalance := by
  have hvalid := shape_of_validated h.validated
  obtain ⟨outcome, sells, hshape⟩ := Order.binaryOneHot_of_validate hvalid
  cases sells with
  | true =>
    rw [((validateOrderWithReservation_sell hvalid hshape).mp h.validated).2]
    exact balanceReservation_sell hshape
  | false =>
    rw [((validateOrderWithReservation_buy hvalid hshape).mp h.validated).2]
    exact balanceReservation_buy hvalid hshape

theorem Accepts.covered (h : book.Accepts order accountId account height book' ro) :
    ro.Covered := by
  have hvalid := shape_of_validated h.validated
  have hcost := h.balanceReservation_eq
  obtain ⟨outcome, sells, hshape⟩ := Order.binaryOneHot_of_validate hvalid
  have hvalue : (if sells then 0 else (buyCost order : ℤ)) = ro.reservedBalance :=
    Except.ok.inj ((Sequencer.balanceReservation_eq hvalid hshape).symm.trans hcost)
  have hlt := buyCost_lt hvalid
  refine ⟨h.order_eq ▸ hvalid, ?_, ?_, fun cost hcost' => ?_, h.order_eq ▸ h.positions_eq⟩
  · rw [← hvalue]
    split_ifs <;> omega
  · rw [← hvalue]
    split_ifs <;> omega
  · rw [h.order_eq, hcost] at hcost'
    exact (Except.ok.inj hcost').ge

theorem Tallied.add (hbook : book.Tallied) (hro : ro.I64Reserve) :
    Tallied { book with
      orders := book.orders ++ [ro], reservations := book.reservations.add ro } where
  tally := hbook.tally.add hro.toNonnegReserve
  reserve := by
    intro other hother
    rcases List.mem_append.mp hother with hother | hother
    · exact hbook.reserve other hother
    · exact List.mem_singleton.mp hother ▸ hro

theorem Sound.accept (hbook : book.Sound)
    (h : book.Accepts order accountId account height book' ro) : book'.Sound := by
  rw [h.book_eq]
  refine ⟨(hbook.tallied.add h.covered.i64Reserve).tally, fun other hother => ?_⟩
  rcases List.mem_append.mp hother with hother | hother
  · exact hbook.covered other hother
  · exact List.mem_singleton.mp hother ▸ h.covered

theorem Tallied.remove (hbook : book.Tallied) {kept : List RestingOrder}
    {reservations : BookReservations} (hperm : (removed ++ kept).Perm book.orders)
    (hrelease : removed.foldlM BookReservations.release book.reservations = .ok reservations) :
    Tallied { book with orders := kept, reservations } where
  tally := (hbook.tally.perm hperm.symm).releaseAll
    (fun ro hro =>
      (hbook.reserve ro (hperm.mem_iff.mp (List.mem_append_left _ hro))).toNonnegReserve)
    hrelease
  reserve ro hro := hbook.reserve ro (hperm.mem_iff.mp (List.mem_append_right _ hro))

/-- The orders of a tallied book can be released in any order. -/
theorem Tallied.exists_releaseAll (hbook : book.Tallied) {kept : List RestingOrder}
    (hperm : (removed ++ kept).Perm book.orders) :
    ∃ reservations, removed.foldlM BookReservations.release book.reservations = .ok reservations :=
  (hbook.tally.perm hperm.symm).exists_releaseAll fun ro hro =>
    (hbook.reserve ro (hperm.mem_iff.mp hro)).toNonnegReserve

theorem expireWhere_eq_ok {leaves : RestingOrder → Bool}
    (h : book.expireWhere leaves = .ok (book', removed)) :
    book'.orders = book.orders.filter (fun ro => !leaves ro) ∧
      removed = book.orders.filter leaves ∧ book'.ttl = book.ttl ∧
      (book.Tallied → book'.Tallied) := by
  obtain ⟨reservations, hrelease, h⟩ := bind_eq_ok.mp h
  obtain ⟨rfl, rfl⟩ := Prod.mk.inj (Except.ok.inj h)
  exact ⟨rfl, rfl, rfl, fun hbook => hbook.remove (List.filter_append_perm _ _) hrelease⟩

theorem Tallied.exists_expireWhere (hbook : book.Tallied) (leaves : RestingOrder → Bool) :
    ∃ result, book.expireWhere leaves = .ok result := by
  obtain ⟨reservations, hrelease⟩ := hbook.exists_releaseAll
    (List.filter_append_perm leaves book.orders)
  exact ⟨_, bind_eq_ok.mpr ⟨reservations, hrelease, rfl⟩⟩

/-- The orders that revalidation removes, and those that it keeps. -/
theorem revalidate_perm (exit : RestingOrder → Option RestingRevalidationExit)
    (orders : List RestingOrder) :
    (((orders.filterMap fun ro => (exit ro).map fun reason => (ro, reason)).reverse.map Prod.fst) ++
      orders.filter fun ro => (exit ro).isNone).Perm orders := by
  have hfst : ∀ l : List RestingOrder,
      (l.filterMap fun ro => (exit ro).map fun reason => (ro, reason)).map Prod.fst =
        l.filter fun ro => (exit ro).isSome := by
    intro l
    induction l with
    | nil => rfl
    | cons ro l ih => rcases hexit : exit ro with _ | reason <;> simp [hexit, ih]
  rw [List.map_reverse, hfst]
  refine (List.Perm.append_right _ (List.reverse_perm _)).trans ?_
  simpa using List.filter_append_perm (fun ro => (exit ro).isSome) orders

theorem revalidate_eq_ok {accounts : AccountStore} {activeMarkets : List MarketId}
    {removed : List (RestingOrder × RestingRevalidationExit)}
    (h : book.revalidate accounts activeMarkets = .ok (book', removed)) :
    book'.orders =
        book.orders.filter (fun ro => (book.revalidationExit accounts activeMarkets ro).isNone) ∧
      (∀ entry, entry ∈ removed ↔ entry.1 ∈ book.orders ∧
        book.revalidationExit accounts activeMarkets entry.1 = some entry.2) ∧
      book'.ttl = book.ttl ∧ (book.Tallied → book'.Tallied) := by
  obtain ⟨reservations, hrelease, h⟩ := bind_eq_ok.mp h
  obtain ⟨rfl, rfl⟩ := Prod.mk.inj (Except.ok.inj h)
  refine ⟨rfl, fun entry => ?_, rfl, fun hbook => ?_⟩
  · simp only [List.mem_reverse, List.mem_filterMap, Option.map_eq_some_iff]
    constructor
    · rintro ⟨ro, hro, reason, hreason, rfl⟩
      exact ⟨hro, hreason⟩
    · exact fun ⟨hro, hreason⟩ => ⟨entry.1, hro, entry.2, hreason, rfl⟩
  · have hrelease' := hrelease
    rw [← List.foldlM_map (f := Prod.fst) (g := BookReservations.release)] at hrelease'
    exact hbook.remove (revalidate_perm _ _) hrelease'

theorem Tallied.exists_revalidate (hbook : book.Tallied) (accounts : AccountStore)
    (activeMarkets : List MarketId) :
    ∃ result, book.revalidate accounts activeMarkets = .ok result := by
  obtain ⟨reservations, hrelease⟩ := hbook.exists_releaseAll
    (revalidate_perm (book.revalidationExit accounts activeMarkets) book.orders)
  rw [List.foldlM_map] at hrelease
  exact ⟨_, bind_eq_ok.mpr ⟨reservations, hrelease, rfl⟩⟩

/-- The first order of an id, and the orders around it. -/
theorem find?_id_split {orderId : ℕ} (h : book.orders.find? (fun ro => ro.order.id = orderId) =
    some ro) : ro ∈ book.orders ∧ ro.order.id = orderId ∧
      ([ro] ++ book.orders.eraseP fun ro => ro.order.id = orderId).Perm book.orders := by
  obtain ⟨hid, before, after, horders, hbefore⟩ := List.find?_eq_some_iff_append.mp h
  have herase : book.orders.eraseP (fun ro => ro.order.id = orderId) = before ++ after := by
    rw [horders, List.eraseP_append_right _ (fun x hx => by simpa using hbefore x hx),
      List.eraseP_cons, hid]
    rfl
  refine ⟨List.mem_of_find?_eq_some h, by simpa using hid, ?_⟩
  rw [herase, horders, List.singleton_append]
  exact List.perm_middle.symm

theorem cancel_eq_ok {orderId : ℕ} (h : book.cancel accountId orderId = .ok (book', ro)) :
    ro ∈ book.orders ∧ ro.order.id = orderId ∧ ro.accountId = accountId ∧
      (ro :: book'.orders).Perm book.orders ∧
      book'.orders = book.orders.eraseP (fun ro => ro.order.id = orderId) ∧
      book'.ttl = book.ttl ∧ (book.Tallied → book'.Tallied) := by
  simp only [cancel, bind_eq_ok, okOr_eq_ok, ensure_eq_ok, mapError_eq_ok, exists_const] at h
  obtain ⟨found, hfound, haccount, reservations, hrelease, h⟩ := h
  obtain ⟨rfl, rfl⟩ := Prod.mk.inj (Except.ok.inj h)
  obtain ⟨hmem, hid, hperm⟩ := find?_id_split hfound
  exact ⟨hmem, hid, haccount, hperm, rfl, rfl, fun hbook =>
    hbook.remove hperm (by simpa using hrelease)⟩

/-- A cancellation is refused for its name or its owner, never for the reservations. -/
theorem Tallied.cancel_ne_reservation (hbook : book.Tallied) (accountId orderId : ℕ)
    (error : ReservationError) : book.cancel accountId orderId ≠ .error (.reservation error) := by
  intro h
  unfold cancel at h
  cases hfound : book.orders.find? (fun ro => ro.order.id = orderId) with
  | none => simp [hfound, okOr, bind, Except.bind] at h
  | some found =>
    obtain ⟨reservations, hrelease⟩ := hbook.exists_releaseAll (find?_id_split hfound).2.2
    have hrelease' : book.reservations.release found = .ok reservations := by simpa using hrelease
    by_cases howner : found.accountId = accountId
    · simp [hfound, okOr, bind, Except.bind, ensure, howner, hrelease', Except.mapError, pure,
        Except.pure] at h
    · simp [hfound, okOr, bind, Except.bind, ensure, howner] at h

/-! ### Revalidation -/

section Revalidation

variable {accounts : AccountStore} {activeMarkets : List MarketId} {outcome : ℕ} {sells : Bool}

/-- What a covered order reserves of a position of its account. -/
theorem sharesAt_of_covered (hro : ro.Covered) (hshape : ro.order.BinaryOneHot outcome sells)
    (key : PositionKey) :
    ro.sharesAt (toLex (ro.accountId, key)) =
      if sells = true ∧ key = toLex (ro.order.marketAt 0, outcome) then (ro.order.maxFill : ℤ)
      else 0 := by
  rw [RestingOrder.sharesAt, hro.positions, sellReservations_eq hro.shape hshape]
  cases sells with
  | false => rfl
  | true => simp [eq_comm]

/-- What the other orders of an account reserve of a position. -/
theorem amount_withoutSelf (hbook : book.Tallied) (hro : ro ∈ book.orders) (key : PositionKey) :
    (ro.reservedPositions.foldl (fun m entry =>
      match m.get? entry.1 with
      | some qty => m.insert entry.1 (qty - entry.2)
      | none => m) (book.reservations.acctPositions ro.accountId)).amount key =
    book.reservations.position.amount (toLex (ro.accountId, key)) -
      ro.sharesAt (toLex (ro.accountId, key)) := by
  have hown : ∀ key, ro.sharesAt key ≤ book.reservations.position.amount key := fun key =>
    hbook.tally.position.weigh_le
      (fun other hother => (hbook.reserve other hother).toNonnegReserve.sharesAt key) hro
  have hnonneg := (hbook.reserve ro hro).positions
  -- Where nothing is reserved the order itself reserves nothing.
  have hnone : ∀ entry ∈ ro.reservedPositions,
      (book.reservations.acctPositions ro.accountId).get? entry.1 = none → entry.2 = 0 := by
    intro entry hentry hnone
    have hzero : ro.sharesAt (toLex (ro.accountId, entry.1)) ≤ 0 := by
      refine (hown _).trans_eq ?_
      rw [← BookReservations.amount_acctPositions, OrdMap.amount, hnone]
      rfl
    have hle : entry.2 ≤ ro.sharesAt (toLex (ro.accountId, entry.1)) := by
      refine List.single_le_sum (fun x hx => ?_) _ (List.mem_map.mpr ⟨entry, hentry, if_pos rfl⟩)
      obtain ⟨other, hother, rfl⟩ := List.mem_map.mp hx
      split_ifs
      · exact hnonneg other hother
      · exact le_rfl
    exact le_antisymm (hle.trans hzero) (hnonneg entry hentry)
  refine (OrdMap.amount_foldl_sub hnone).trans ?_
  rw [BookReservations.amount_acctPositions, RestingOrder.sharesAt]
  simp only [toLex_inj, Prod.mk.injEq, true_and]

/-- An order on tradeable markets stays when its account has cash and affords the order besides
what the others reserve. -/
theorem revalidationExit_eq_none_iff (hbook : book.Sound) (hro : ro ∈ book.orders)
    (hmarkets : ro.order.activeMarkets.all (fun m => activeMarkets.contains m) = true)
    (haccount : accounts.accounts.get? ro.accountId = some account)
    (hshape : ro.order.BinaryOneHot outcome sells) :
    book.revalidationExit accounts activeMarkets ro = none ↔
      0 < account.balance ∧
        if sells then
          (ro.order.maxFill : ℤ) ≤ account.position (ro.order.marketAt 0) outcome -
            (book.reservations.position.amount
              (toLex (ro.accountId, toLex (ro.order.marketAt 0, outcome))) - ro.order.maxFill)
        else (buyCost ro.order : ℤ) ≤ account.balance -
          (book.reservations.balance.amount ro.accountId - ro.reservedBalance) := by
  have hcovered := hbook.covered ro hro
  have hothers := amount_withoutSelf hbook.tallied hro (toLex (ro.order.marketAt 0, outcome))
  simp only [revalidationExit, hmarkets, Bool.true_eq_false, if_false, haccount]
  by_cases hcash : account.balance ≤ 0
  · rw [if_pos hcash]
    simp [not_lt.mpr hcash]
  · rw [if_neg hcash]
    refine (verdict_eq_none_iff _).trans ((validated_iff hcovered.shape hshape).trans ?_)
    simp only [not_le.mp hcash, true_and]
    cases sells with
    | false => exact Iff.rfl
    | true =>
      rw [sharesAt_of_covered hcovered hshape, if_pos ⟨rfl, rfl⟩] at hothers
      exact iff_of_eq (congrArg (fun others : ℤ => (ro.order.maxFill : ℤ) ≤
        account.position (ro.order.marketAt 0) outcome - others) hothers)

end Revalidation

/-! ### Settlement -/

/-- What is left of an order after a block. -/
def survivor (fills : List Fill) (mmOrderIds : List ℕ) (height : ℕ) (ro : RestingOrder) :
    Option RestingOrder :=
  let filled := filledQty fills ro.order.id
  if ro.order.id ∈ mmOrderIds ∨ ro.order.maxFill ≤ filled ∨ ro.expiresAtBlock ≤ height then none
  else some (if filled = 0 then ro else remainder ro filled)

/-- A survivor is the order or a remainder of it, in time and with something left. -/
theorem survivor_eq_some (h : survivor fills mmOrderIds height ro = some ro') :
    ro.order.id ∉ mmOrderIds ∧ filledQty fills ro.order.id < ro.order.maxFill ∧
      height < ro.expiresAtBlock ∧
      ro' = if filledQty fills ro.order.id = 0 then ro
        else remainder ro (filledQty fills ro.order.id) := by
  simp only [survivor, Option.ite_none_left_eq_some, not_or, not_le, Option.some.injEq] at h
  exact ⟨h.1.1, h.1.2.1, h.1.2.2, h.2.symm⟩

/-- Only the quantity of an order changes when it survives. -/
theorem survivor_fields (h : survivor fills mmOrderIds height ro = some ro') :
    ro'.order = { ro.order with maxFill := ro'.order.maxFill } ∧ ro'.accountId = ro.accountId ∧
      ro'.expiresAtBlock = ro.expiresAtBlock := by
  obtain ⟨-, -, -, rfl⟩ := survivor_eq_some h
  split_ifs
  · exact ⟨rfl, rfl, rfl⟩
  · exact ⟨rfl, rfl, rfl⟩

theorem covered_survivor (hro : ro.Covered) (h : survivor fills mmOrderIds height ro = some ro') :
    ro'.Covered := by
  obtain ⟨-, hfilled, -, rfl⟩ := survivor_eq_some h
  split_ifs
  · exact hro
  · exact covered_remainder hro hfilled

/-- Give back a part of a reserved position, if there is one. -/
def releaseShares (accountId : ℕ) (r : BookReservations)
    (entries : (PositionKey × ℤ) × (PositionKey × ℤ)) : Except ReservationError BookReservations :=
  let released := entries.1.2 - entries.2.2
  if 0 < released then BookReservations.releasePosition accountId r (entries.1.1, released)
  else pure r

section Shares

variable {r r' : BookReservations} {entries : List (PositionKey × ℤ)} {scale : ℤ → ℤ}

/-- What scaling the reserved positions gives back of a key. -/
def sharesReleased (accountId : ℕ) (entries : List (PositionKey × ℤ)) (scale : ℤ → ℤ)
    (key : ℕ ×ₗ PositionKey) : ℤ :=
  (entries.map fun entry =>
    if toLex (accountId, entry.1) = key then entry.2 - scale entry.2 else 0).sum

theorem releaseShares_eq_ok {kept : ℤ} (hkept : kept ≤ entry.2)
    (h : releaseShares accountId r (entry, (entry.1, kept)) = .ok r') :
    r'.balance = r.balance ∧ ∀ key, r'.position.amount key =
      r.position.amount key - if toLex (accountId, entry.1) = key then entry.2 - kept else 0 := by
  simp only [releaseShares] at h
  split_ifs at h with hpos
  · exact BookReservations.releasePosition_eq_ok hpos.le h
  · obtain rfl := Except.ok.inj h
    have hzero : entry.2 - kept = 0 := le_antisymm (not_lt.mp hpos) (sub_nonneg.mpr hkept)
    simp [hzero]

theorem exists_releaseShares {kept : ℤ}
    (h : entry.2 - kept ≤ r.position.amount (toLex (accountId, entry.1))) :
    ∃ r', releaseShares accountId r (entry, (entry.1, kept)) = .ok r' := by
  simp only [releaseShares]
  split_ifs
  · exact BookReservations.exists_releasePosition h
  · exact ⟨r, rfl⟩

/-- Scaling the reserved positions lowers each key by what is given back. -/
theorem releaseAllShares_eq_ok (hscale : ∀ entry ∈ entries, scale entry.2 ≤ entry.2)
    (h : (entries.zip (entries.map fun entry => (entry.1, scale entry.2))).foldlM
      (releaseShares accountId) r = .ok r') :
    r'.balance = r.balance ∧ ∀ key, r'.position.amount key =
      r.position.amount key - sharesReleased accountId entries scale key := by
  induction entries generalizing r with
  | nil =>
    obtain rfl := Except.ok.inj h
    simp [sharesReleased]
  | cons entry entries ih =>
    obtain ⟨hentry, hrest⟩ := List.forall_mem_cons.mp hscale
    obtain ⟨mid, hmid, h⟩ := foldlM_cons_eq_ok.mp h
    obtain ⟨hbalance, hamount⟩ := releaseShares_eq_ok hentry hmid
    obtain ⟨hbalance', hamount'⟩ := ih hrest h
    refine ⟨hbalance'.trans hbalance, fun key => ?_⟩
    rw [hamount', hamount, sharesReleased, sharesReleased, List.map_cons, List.sum_cons]
    ring

theorem sharesReleased_nonneg (hscale : ∀ entry ∈ entries, scale entry.2 ≤ entry.2)
    (key : ℕ ×ₗ PositionKey) : 0 ≤ sharesReleased accountId entries scale key := by
  refine List.sum_nonneg fun x hx => ?_
  obtain ⟨entry, hentry, rfl⟩ := List.mem_map.mp hx
  split_ifs
  · exact sub_nonneg.mpr (hscale entry hentry)
  · exact le_rfl

theorem exists_releaseAllShares (hscale : ∀ entry ∈ entries, scale entry.2 ≤ entry.2)
    (h : ∀ key, sharesReleased accountId entries scale key ≤ r.position.amount key) :
    ∃ r', (entries.zip (entries.map fun entry => (entry.1, scale entry.2))).foldlM
      (releaseShares accountId) r = .ok r' := by
  induction entries generalizing r with
  | nil => exact ⟨r, rfl⟩
  | cons entry entries ih =>
    obtain ⟨hentry, hrest⟩ := List.forall_mem_cons.mp hscale
    have hsplit : ∀ key, sharesReleased accountId (entry :: entries) scale key =
        (if toLex (accountId, entry.1) = key then entry.2 - scale entry.2 else 0) +
          sharesReleased accountId entries scale key := fun key => by
      rw [sharesReleased, List.map_cons, List.sum_cons]
      rfl
    have hfirst := h (toLex (accountId, entry.1))
    rw [hsplit, if_pos rfl] at hfirst
    obtain ⟨mid, hmid⟩ := exists_releaseShares
      ((le_add_of_nonneg_right (sharesReleased_nonneg hrest _)).trans hfirst)
    obtain ⟨-, hamount⟩ := releaseShares_eq_ok hentry hmid
    obtain ⟨r', hr'⟩ := ih (r := mid) hrest fun key => by
      have := h key
      rw [hsplit] at this
      rw [hamount]
      linarith
    exact ⟨r', foldlM_cons_eq_ok.mpr ⟨mid, hmid, hr'⟩⟩

end Shares

/-- The reserved share of a remainder. -/
def scaledShare (ro : RestingOrder) (filled : ℕ) (qty : ℤ) : ℤ :=
  Verifier.asI64 (ceilMulRatio (Verifier.asU64 qty) (ro.order.maxFill - filled) ro.order.maxFill)

theorem scaledShare_le (hro : ro.I64Reserve) (hfilled : filled < ro.order.maxFill) :
    ∀ entry ∈ ro.reservedPositions, scaledShare ro filled entry.2 ≤ entry.2 := fun entry hentry =>
  (scaledReserve_eq (hro.positions entry hentry) (hro.positions_lt entry hentry)
    (Nat.sub_le _ _) (Nat.zero_lt_of_lt hfilled)).2

/-- The shares that a remainder no longer reserves. -/
theorem sharesReleased_remainder (filled : ℕ) (key : ℕ ×ₗ PositionKey) :
    sharesReleased ro.accountId ro.reservedPositions (scaledShare ro filled) key =
      ro.sharesAt key - (remainder ro filled).sharesAt key := by
  have hrest : (remainder ro filled).sharesAt key = (ro.reservedPositions.map fun entry =>
      if toLex (ro.accountId, entry.1) = key then scaledShare ro filled entry.2 else 0).sum := by
    rw [RestingOrder.sharesAt, remainder, List.map_map]
    rfl
  rw [hrest, RestingOrder.sharesAt, sharesReleased, eq_sub_iff_add_eq, ← List.sum_map_add]
  refine congrArg List.sum (List.map_congr_left fun entry _ => ?_)
  split_ifs
  · exact sub_add_cancel _ _
  · exact add_zero 0

/-- The balance that a remainder no longer reserves. -/
theorem balanceAt_remainder (filled a : ℕ) :
    ro.balanceAt a - (remainder ro filled).balanceAt a =
      if ro.accountId = a then
        ro.reservedBalance - (remainder ro filled).reservedBalance else 0 := by
  have haccount : (remainder ro filled).accountId = ro.accountId := rfl
  rw [RestingOrder.balanceAt, RestingOrder.balanceAt, haccount]
  split_ifs
  · rfl
  · exact sub_self 0

/-- The two halves of a release: the balance, then the shares. -/
theorem releaseFilled_eq (r : BookReservations) (filled : ℕ) :
    releaseFilled r ro (remainder ro filled) =
      (if 0 < ro.reservedBalance - (remainder ro filled).reservedBalance then
        r.releaseBalance ro.accountId (ro.reservedBalance - (remainder ro filled).reservedBalance)
      else pure r) >>= fun r =>
        (ro.reservedPositions.zip (ro.reservedPositions.map fun entry =>
          (entry.1, scaledShare ro filled entry.2))).foldlM (releaseShares ro.accountId) r := by
  simp only [releaseFilled]
  split_ifs
  · rfl
  · rfl

/-- Releasing what a remainder no longer reserves replaces the order in the tally. -/
theorem tally_releaseFilled {r r' : BookReservations} {orders : List RestingOrder}
    (h : r.Tally (ro :: orders)) (hro : ro.I64Reserve) (hfilled : filled < ro.order.maxFill)
    (hrelease : releaseFilled r ro (remainder ro filled) = .ok r') :
    r'.Tally (remainder ro filled :: orders) := by
  have hle := (reservedBalance_remainder hro hfilled).2
  rw [releaseFilled_eq] at hrelease
  obtain ⟨mid, hmid, hrest⟩ := bind_eq_ok.mp hrelease
  obtain ⟨hbalance', hposition'⟩ := releaseAllShares_eq_ok (scaledShare_le hro hfilled) hrest
  have hbalance : mid.position = r.position ∧ ∀ a, mid.balance.amount a =
      r.balance.amount a - (ro.balanceAt a - (remainder ro filled).balanceAt a) := by
    simp only [balanceAt_remainder]
    split_ifs at hmid with hpos
    · exact BookReservations.releaseBalance_eq_ok hpos.le hmid
    · obtain rfl := Except.ok.inj hmid
      have hzero : ro.reservedBalance - (remainder ro filled).reservedBalance = 0 := by omega
      simp [hzero]
  refine ⟨h.balance.replace fun a => ?_, h.position.replace fun key => ?_⟩
  · rw [hbalance', hbalance.2]
  · rw [hposition', hbalance.1, sharesReleased_remainder]

/-- What a remainder no longer reserves can be released. -/
theorem exists_releaseFilled {r : BookReservations} {orders : List RestingOrder}
    (h : r.Tally (ro :: orders)) (hro : ro.I64Reserve)
    (horders : ∀ other ∈ orders, other.I64Reserve) (hfilled : filled < ro.order.maxFill) :
    ∃ r', releaseFilled r ro (remainder ro filled) = .ok r' := by
  have hall : ∀ other ∈ ro :: orders, other.I64Reserve := List.forall_mem_cons.mpr ⟨hro, horders⟩
  have hrest := i64Reserve_remainder hro hfilled
  have hbalance : ro.reservedBalance - (remainder ro filled).reservedBalance ≤
      r.balance.amount ro.accountId := by
    have := h.balance.weigh_le (k := ro.accountId)
      (fun other hother => (hall other hother).balanceAt ro.accountId) List.mem_cons_self
    rw [RestingOrder.balanceAt, if_pos rfl] at this
    exact (sub_le_self _ hrest.balance).trans this
  have hshares :
    ∀ key, sharesReleased ro.accountId ro.reservedPositions (scaledShare ro filled) key ≤
      r.position.amount key := by
    intro key
    rw [sharesReleased_remainder]
    exact (sub_le_self _ (hrest.sharesAt key)).trans (h.position.weigh_le
      (fun other hother => (hall other hother).sharesAt key) List.mem_cons_self)
  rw [releaseFilled_eq]
  by_cases hpos : 0 < ro.reservedBalance - (remainder ro filled).reservedBalance
  · obtain ⟨mid, hmid⟩ := BookReservations.exists_releaseBalance hbalance
    obtain ⟨hposition, -⟩ := BookReservations.releaseBalance_eq_ok hpos.le hmid
    obtain ⟨r', hr'⟩ := exists_releaseAllShares (r := mid) (scaledShare_le hro hfilled)
      (hposition ▸ hshares)
    rw [if_pos hpos]
    exact ⟨r', bind_eq_ok.mpr ⟨mid, hmid, hr'⟩⟩
  · obtain ⟨r', hr'⟩ := exists_releaseAllShares (scaledShare_le hro hfilled) hshares
    rw [if_neg hpos]
    exact ⟨r', hr'⟩

/-- Along the settlement loop the aggregates are those of the orders kept so far and of the orders
to come. -/
structure SettleState.Tallied (st : SettleState) (rest : List RestingOrder) : Prop where
  tally : st.reservations.Tally (st.kept ++ rest)
  reserve : ∀ ro ∈ st.kept ++ rest, ro.I64Reserve

section Loop

variable {st st' : SettleState} {rest : List RestingOrder}

theorem SettleState.Tallied.next (h : st.Tallied (ro :: rest)) :
    st.reservations.Tally (ro :: (st.kept ++ rest)) ∧ ro.I64Reserve ∧
      ∀ other ∈ st.kept ++ rest, other.I64Reserve := by
  have hall := h.reserve
  simp only [List.mem_append, List.mem_cons] at hall ⊢
  exact ⟨h.tally.perm List.perm_middle, hall ro (by simp), fun other hother =>
    hall other (by tauto)⟩

theorem SettleState.Tallied.leave {r : BookReservations}
    {removed : List (RestingOrder × RestingExit)} (hr : st.reservations.release ro = .ok r)
    (h : st.Tallied (ro :: rest)) : SettleState.Tallied ⟨r, st.kept, removed⟩ rest := by
  obtain ⟨htally, hro, hothers⟩ := h.next
  exact ⟨htally.release hro.toNonnegReserve hr, hothers⟩

theorem settleStep_eq_ok (rest : List RestingOrder)
    (h : settleStep fills mmOrderIds height st ro = .ok st') :
    st'.kept = st.kept ++ (survivor fills mmOrderIds height ro).toList ∧
      (st.Tallied (ro :: rest) → st'.Tallied rest) := by
  unfold settleStep survivor at *
  simp only [] at h ⊢
  split_ifs at h with hmm hfull hexpired hpart
  · obtain ⟨r, hr, h⟩ := bind_eq_ok.mp h
    obtain rfl := Except.ok.inj h
    rw [if_pos (Or.inl hmm)]
    exact ⟨(List.append_nil _).symm, .leave hr⟩
  · obtain ⟨r, hr, h⟩ := bind_eq_ok.mp h
    obtain rfl := Except.ok.inj h
    rw [if_pos (Or.inr (Or.inl hfull))]
    exact ⟨(List.append_nil _).symm, .leave hr⟩
  · obtain ⟨r, hr, h⟩ := bind_eq_ok.mp h
    obtain rfl := Except.ok.inj h
    rw [if_pos (Or.inr (Or.inr hexpired))]
    exact ⟨(List.append_nil _).symm, .leave hr⟩
  · obtain ⟨r, hr, h⟩ := bind_eq_ok.mp h
    obtain rfl := Except.ok.inj h
    rw [if_neg (by tauto), if_neg hpart.ne']
    refine ⟨rfl, fun hst => ?_⟩
    obtain ⟨htally, hro, hothers⟩ := hst.next
    have hnext := tally_releaseFilled htally hro (not_le.mp hfull) hr
    have hperm : (remainder ro (filledQty fills ro.order.id) :: (st.kept ++ rest)).Perm
        (st.kept ++ [remainder ro (filledQty fills ro.order.id)] ++ rest) := by
      simpa using List.perm_middle.symm
    refine ⟨hnext.perm hperm, fun other hother => ?_⟩
    rcases List.mem_cons.mp (hperm.mem_iff.mpr hother) with rfl | hother
    · exact i64Reserve_remainder hro (not_le.mp hfull)
    · exact hothers other hother
  · obtain rfl := Except.ok.inj h
    rw [if_neg (by tauto), if_pos (by omega)]
    refine ⟨rfl, fun hst => ⟨?_, fun other hother => hst.reserve other ?_⟩⟩
    · simpa using hst.tally
    · simpa using hother

theorem exists_settleStep (fills : List Fill) (mmOrderIds : List ℕ) (height : ℕ)
    (h : st.Tallied (ro :: rest)) :
    ∃ st', settleStep fills mmOrderIds height st ro = .ok st' := by
  obtain ⟨htally, hro, hothers⟩ := h.next
  obtain ⟨r, hr⟩ := htally.exists_release hro.toNonnegReserve
    fun other hother => (hothers other hother).toNonnegReserve
  unfold settleStep
  simp only []
  split_ifs with hmm hfull hexpired hpart
  · exact ⟨_, bind_eq_ok.mpr ⟨r, hr, rfl⟩⟩
  · exact ⟨_, bind_eq_ok.mpr ⟨r, hr, rfl⟩⟩
  · exact ⟨_, bind_eq_ok.mpr ⟨r, hr, rfl⟩⟩
  · obtain ⟨r', hr'⟩ := exists_releaseFilled htally hro hothers (not_le.mp hfull)
    exact ⟨_, bind_eq_ok.mpr ⟨r', hr', rfl⟩⟩
  · exact ⟨_, rfl⟩

theorem settleLoop_eq_ok {orders : List RestingOrder}
    (h : orders.foldlM (settleStep fills mmOrderIds height) st = .ok st') :
    st'.kept = st.kept ++ orders.filterMap (survivor fills mmOrderIds height) ∧
      (st.Tallied orders → st'.Tallied []) := by
  induction orders generalizing st with
  | nil =>
    obtain rfl := Except.ok.inj h
    exact ⟨(List.append_nil _).symm, id⟩
  | cons ro orders ih =>
    obtain ⟨mid, hmid, h⟩ := foldlM_cons_eq_ok.mp h
    obtain ⟨hkept, htally⟩ := settleStep_eq_ok orders hmid
    obtain ⟨hkept', htally'⟩ := ih h
    refine ⟨?_, fun hst => htally' (htally hst)⟩
    rw [hkept', hkept, List.append_assoc]
    cases hro : survivor fills mmOrderIds height ro <;> simp [hro]

theorem exists_settleLoop (fills : List Fill) (mmOrderIds : List ℕ) (height : ℕ)
    {orders : List RestingOrder} (h : st.Tallied orders) :
    ∃ st', orders.foldlM (settleStep fills mmOrderIds height) st = .ok st' := by
  induction orders generalizing st with
  | nil => exact ⟨st, rfl⟩
  | cons ro orders ih =>
    obtain ⟨mid, hmid⟩ := exists_settleStep fills mmOrderIds height h
    obtain ⟨st', hst'⟩ := ih ((settleStep_eq_ok orders hmid).2 h)
    exact ⟨st', foldlM_cons_eq_ok.mpr ⟨mid, hmid, hst'⟩⟩

end Loop

/-- **What settlement does to the book.** -/
theorem settle_eq_ok {removed : List (RestingOrder × RestingExit)}
    (h : book.settle fills mmOrderIds height = .ok (book', removed)) :
    book'.orders = book.orders.filterMap (survivor fills mmOrderIds height) ∧
      book'.ttl = book.ttl ∧ (book.Tallied → book'.Tallied) := by
  obtain ⟨st, hst, h⟩ := bind_eq_ok.mp h
  obtain ⟨rfl, -⟩ := Prod.mk.inj (Except.ok.inj h)
  obtain ⟨hkept, htally⟩ := settleLoop_eq_ok hst
  refine ⟨by simpa using hkept, rfl, fun hbook => ?_⟩
  have hend := htally ⟨by simpa using hbook.tally, by simpa using hbook.reserve⟩
  exact ⟨by simpa using hend.tally, by simpa using hend.reserve⟩

theorem Tallied.exists_settle (hbook : book.Tallied) (fills : List Fill) (mmOrderIds : List ℕ)
    (height : ℕ) : ∃ result, book.settle fills mmOrderIds height = .ok result := by
  have hstart : SettleState.Tallied ⟨book.reservations, [], []⟩ book.orders :=
    ⟨by simpa using hbook.tally, by simpa using hbook.reserve⟩
  obtain ⟨st, hst⟩ := exists_settleLoop fills mmOrderIds height hstart
  exact ⟨_, bind_eq_ok.mpr ⟨st, hst, rfl⟩⟩

end OrderBook

end Sybil.Sequencer
