import Sybil.Verifier.Solvency

/-!
# Whom a resolution pays

A `MarketResolved` event carries its own list of affected accounts, and the replay
closes the positions of the accounts on the list.

## 1.  The entries of one market

A market is resolved at most once in a block (`ResolutionsChecked`), so along the
replay its entries in an account change at that one event or not at all
(`inMarket_replay`).

## 2.  The closures of one position

The closures that the replay records for an account and an outcome are the single one
of the position it had before the block, when the account is listed, and none
otherwise (`closuresOf_eq`).  Listing an account twice pays it once.  What an account
receives from the replay is its closures and the direct credits (`balanceOf_replay`).

## 3.  Every holder

No pass compares the list with the accounts that hold the market, so an accepted block
pays every holder exactly when the list names every holder (`holdersPaid_iff`).  The
second condition is arithmetic: the credit of a position is cut to 64 bits.
-/

namespace Sybil.Verifier

open Engine

variable {P : Primitives} {w : BlockWitness} {height : ℕ} {accounts next final : Accounts}
  {market : MarketId} {payout : Nanos} {affected : List ℕ}

variable {a : AccountSnapshot} {events : List SystemEventWitness} {outcome : ℕ}
  {positions : List PositionEntry} {price : Nanos} {snapshots : List AccountSnapshot}

/-! ## 1.  The entries of one market -/

/-- The entries of the two outcomes of a market. -/
def inMarket (positions : List PositionEntry) (market : MarketId) : List PositionEntry :=
  positions.filter fun entry => isPosition market 0 entry || isPosition market 1 entry

/-- Is some entry of the market not zero? -/
def HoldsIn (positions : List PositionEntry) (market : MarketId) : Prop :=
  ∃ entry ∈ inMarket positions market, entry.2.2 ≠ 0

/-- No event of the list resolves the market. -/
def Unresolved (market : MarketId) (events : List SystemEventWitness) : Prop :=
  ∀ payout affected, .marketResolved market payout affected ∉ events

theorem inMarket_withoutMarket (positions : List PositionEntry) (market : MarketId) :
    inMarket (withoutMarket positions market) market = [] := by
  rw [inMarket, withoutMarket, List.filter_filter, List.filter_filter,
    List.filter_eq_nil_iff]
  intro entry _
  cases isPosition market 0 entry <;> cases isPosition market 1 entry <;> decide

theorem isPosition_of_ne {market other : MarketId} {o o' : ℕ} {entry : PositionEntry}
    (hne : other ≠ market) (h : isPosition market o entry = true) :
    isPosition other o' entry = false := by
  rw [isPosition, decide_eq_true_eq] at h
  rw [isPosition, decide_eq_false_iff_not]
  exact fun hother => hne (hother.1.symm.trans h.1)

theorem inMarket_withoutMarket_of_ne {market other : MarketId} (hne : other ≠ market)
    (positions : List PositionEntry) :
    inMarket (withoutMarket positions other) market = inMarket positions market := by
  rw [inMarket, withoutMarket, List.filter_filter, List.filter_filter, inMarket]
  refine List.filter_congr fun entry _ => ?_
  cases h0 : isPosition market 0 entry with
  | true => simp [isPosition_of_ne hne h0]
  | false =>
    cases h1 : isPosition market 1 entry with
    | true => simp [isPosition_of_ne hne h1]
    | false => rfl

/-- A position depends on the entries of its market only. -/
theorem positionOf_inMarket (positions : List PositionEntry) (market : MarketId)
    (houtcome : outcome = 0 ∨ outcome = 1) :
    positionOf (inMarket positions market) market outcome =
      positionOf positions market outcome := by
  rw [positionOf, positionOf, inMarket, List.filter_filter]
  congr 2
  refine congrArg _ (List.filter_congr fun entry _ => ?_)
  rcases houtcome with rfl | rfl
  · cases isPosition market 0 entry <;> rfl
  · cases isPosition market 0 entry <;> cases isPosition market 1 entry <;> rfl

theorem holdsIn_of_positionOf (houtcome : outcome = 0 ∨ outcome = 1)
    (h : positionOf positions market outcome ≠ 0) : HoldsIn positions market := by
  rw [positionOf] at h
  cases hlast : (positions.filter (isPosition market outcome)).getLast? with
  | none => exact absurd (by rw [hlast]; rfl) h
  | some entry =>
    rw [hlast] at h
    obtain ⟨hmem, hposition⟩ := List.mem_filter.mp (List.mem_of_getLast? hlast)
    refine ⟨entry, List.mem_filter.mpr ⟨hmem, ?_⟩, h⟩
    rcases houtcome with rfl | rfl <;> simp [hposition]

/-- Holding a market is decided by the values that the verifier compares. -/
theorem holdsIn_iff :
    HoldsIn a.positions market ↔
      ∃ outcome, (outcome = 0 ∨ outcome = 1) ∧
        ∃ v, (normalizedPositions a).get? (toLex (market, outcome)) = some v := by
  simp only [normalizedPositions, OrdMap.contains_ofList, List.mem_map, List.mem_filter,
    decide_eq_true_eq, Prod.mk.injEq, toLex_inj]
  constructor
  · rintro ⟨entry, hentry, hne⟩
    obtain ⟨hmem, hposition⟩ := List.mem_filter.mp hentry
    rcases Bool.or_eq_true_iff.mp hposition with hyes | hno
    · exact ⟨0, Or.inl rfl, entry.2.2, entry, ⟨hmem, hne⟩, of_decide_eq_true hyes, rfl⟩
    · exact ⟨1, Or.inr rfl, entry.2.2, entry, ⟨hmem, hne⟩, of_decide_eq_true hno, rfl⟩
  · rintro ⟨outcome, houtcome, v, entry, ⟨hmem, hne⟩, hkey, -⟩
    refine ⟨entry, List.mem_filter.mpr ⟨hmem, ?_⟩, hne⟩
    have hposition : isPosition market outcome entry = true := decide_eq_true hkey
    rcases houtcome with rfl | rfl <;> simp [hposition]

theorem positionsAfter_marketResolved (id : ℕ) (positions : List PositionEntry) :
    positionsAfter id positions (.marketResolved market payout affected) =
      if id ∈ affected then withoutMarket positions market else positions :=
  rfl

/-- Events that do not resolve the market keep its entries. -/
theorem inMarket_foldl (h : Unresolved market events) (id : ℕ) (positions : List PositionEntry) :
    inMarket (events.foldl (positionsAfter id) positions) market = inMarket positions market := by
  induction events generalizing positions with
  | nil => rfl
  | cons event events ih =>
    have hstep : inMarket (positionsAfter id positions event) market =
        inMarket positions market := by
      cases event with
      | marketResolved other payout affected =>
        have hne : other ≠ market := by
          rintro rfl
          exact h payout affected List.mem_cons_self
        rw [positionsAfter_marketResolved]
        split_ifs
        · exact inMarket_withoutMarket_of_ne hne positions
        · rfl
      | _ => rfl
    rw [List.foldl_cons, ih fun payout affected hmem =>
      h payout affected (List.mem_cons_of_mem _ hmem), hstep]

/-- **The entries of a market along the replay** of the events of a block that resolves it. -/
theorem inMarket_replay {before later : List SystemEventWitness}
    (hbefore : Unresolved market before) (hlater : Unresolved market later)
    (h : replayEvents P height accounts
      (before ++ .marketResolved market payout affected :: later) = .ok final) (id : ℕ) :
    inMarket (heldPositions final id) market =
      if id ∈ affected then [] else inMarket (heldPositions accounts id) market := by
  rw [heldPositions_replay h, List.foldl_append, List.foldl_cons, inMarket_foldl hlater]
  rw [positionsAfter_marketResolved]
  split_ifs
  · exact inMarket_withoutMarket _ _
  · exact inMarket_foldl hbefore id _

/-- A resolution of an accepted block is the only one of its market. -/
theorem exists_unique_resolution (h : ResolutionsChecked events)
    (hevent : .marketResolved market payout affected ∈ events) :
    ∃ before later, events = before ++ .marketResolved market payout affected :: later ∧
      Unresolved market before ∧ Unresolved market later := by
  obtain ⟨before, later, rfl⟩ := List.append_of_mem hevent
  have hcons : (SystemEventWitness.marketResolved market payout affected :: later).filterMap
      resolutionEvent = (market, payout) :: later.filterMap resolutionEvent := rfl
  have hdistinct := h.distinct
  rw [List.filterMap_append, hcons, List.map_append, List.map_cons, List.nodup_middle,
    List.nodup_cons, List.mem_append, not_or] at hdistinct
  -- Another resolution of the market would give the same key on one of the two sides.
  have hmem : ∀ {l : List SystemEventWitness} {payout affected},
      .marketResolved market payout affected ∈ l →
        market ∈ (l.filterMap resolutionEvent).map Prod.fst := by
    intro l payout affected hl
    exact List.mem_map.mpr ⟨(market, payout), List.mem_filterMap.mpr ⟨_, hl, rfl⟩, rfl⟩
  exact ⟨before, later, rfl, fun _ _ hl => hdistinct.1.1 (hmem hl),
    fun _ _ hl => hdistinct.1.2 (hmem hl)⟩

/-! ## 2.  The closures of one position -/

/-- Is this a closure of the outcome in the account? -/
def closes (id : ℕ) (market : MarketId) (outcome : ℕ) (closure : Closure) : Bool :=
  decide (closure.accountId = id ∧ closure.market = market ∧ closure.outcome = outcome)

theorem filter_closes_of_ne {market' : MarketId} {id id' outcome' : ℕ}
    (h : id' ≠ id ∨ outcome' ≠ outcome) :
    (closeOutcome market' price id' outcome' positions).filter (closes id market outcome) = [] := by
  rw [List.filter_eq_nil_iff]
  intro closure hclosure hcloses
  obtain ⟨hid, -, houtcome, -⟩ := mem_closeOutcome hclosure
  obtain ⟨hid', -, houtcome'⟩ := of_decide_eq_true hcloses
  rcases h with h | h
  · exact h (hid.symm.trans hid')
  · exact h (houtcome.symm.trans houtcome')

theorem filter_closes_self {id : ℕ} :
    (closeOutcome market price id outcome positions).filter (closes id market outcome) =
      closeOutcome market price id outcome positions := by
  rw [List.filter_eq_self]
  intro closure hclosure
  obtain ⟨hid, hmarket, houtcome, -⟩ := mem_closeOutcome hclosure
  exact decide_eq_true ⟨hid, hmarket, houtcome⟩

theorem filter_closeAccount {id : ℕ} (houtcome : outcome = 0 ∨ outcome = 1) :
    (closeAccount market payout id positions).filter (closes id market outcome) =
      closeOutcome market (outcomePrice payout outcome) id outcome positions := by
  rw [closeAccount, List.filter_append]
  rcases houtcome with rfl | rfl
  · rw [filter_closes_self, filter_closes_of_ne (Or.inr (by decide)), List.append_nil]
    rfl
  · rw [filter_closes_self, filter_closes_of_ne (Or.inr (by decide)), List.nil_append]
    rfl

theorem filter_closeAccount_of_ne {id id' : ℕ} (hne : id' ≠ id) :
    (closeAccount market payout id' positions).filter (closes id market outcome) = [] := by
  rw [closeAccount, List.filter_append, filter_closes_of_ne (Or.inl hne),
    filter_closes_of_ne (Or.inl hne), List.append_nil]

/-- The closure of an outcome depends on the entries of the market only. -/
theorem closeOutcome_congr {id : ℕ} (houtcome : outcome = 0 ∨ outcome = 1)
    {positions' : List PositionEntry} (h : inMarket positions market = inMarket positions' market) :
    closeOutcome market price id outcome positions =
      closeOutcome market price id outcome positions' := by
  have hposition : positionOf positions market outcome = positionOf positions' market outcome := by
    rw [← positionOf_inMarket positions market houtcome, h, positionOf_inMarket _ _ houtcome]
  rw [closeOutcome, closeOutcome, hposition]

theorem closeOutcome_withoutMarket {id : ℕ} (houtcome : outcome = 0 ∨ outcome = 1)
    (positions : List PositionEntry) :
    closeOutcome market price id outcome (withoutMarket positions market) = [] := by
  have hnone : inMarket (withoutMarket positions market) market = inMarket [] market :=
    inMarket_withoutMarket positions market
  rw [closeOutcome_congr houtcome hnone]
  rfl

/-- **The closures of a resolution** in one account: its position, once, when it is listed. -/
theorem filter_resolutionClosures {id : ℕ} (houtcome : outcome = 0 ∨ outcome = 1)
    (h : affected.foldlM (resolveStep P height market payout) accounts = .ok next) :
    (resolutionClosures P height market payout accounts affected).filter
        (closes id market outcome) =
      if id ∈ affected then
        closeOutcome market (outcomePrice payout outcome) id outcome (heldPositions accounts id)
      else [] := by
  induction affected generalizing accounts with
  | nil => rfl
  | cons first affected ih =>
    obtain ⟨middle, hstep, hrest⟩ := foldlM_cons_eq_ok.mp h
    obtain ⟨a, a', ha, ha', rfl⟩ := resolveStep_eq_ok.mp hstep
    obtain ⟨-, hpositions, -⟩ := resolveAccount_eq_ok ha'
    rw [resolutionClosures_cons ha hstep, List.filter_append, ih hrest, heldPositions_insert,
      hpositions]
    by_cases hid : id = first
    · -- A second listing finds no position left.
      subst hid
      rw [filter_closeAccount houtcome, if_pos rfl, closeOutcome_withoutMarket houtcome, ite_self,
        List.append_nil, if_pos List.mem_cons_self, heldPositions_of_get? ha]
    · rw [filter_closeAccount_of_ne (Ne.symm hid), List.nil_append, if_neg hid]
      simp only [List.mem_cons, hid, false_or]

theorem replayClosures_append {before later : List SystemEventWitness} {middle : Accounts}
    (h : replayEvents P height accounts before = .ok middle) :
    replayClosures P height accounts (before ++ later) =
      replayClosures P height accounts before ++ replayClosures P height middle later := by
  induction before generalizing accounts with
  | nil =>
    obtain rfl := Except.ok.inj h
    rfl
  | cons event before ih =>
    obtain ⟨next, hnext, hrest⟩ := replayEvents_cons_eq_ok.mp h
    rw [List.cons_append, replayClosures_cons hnext, replayClosures_cons hnext, ih hrest,
      List.append_assoc]

theorem filter_replayClosures_of_unresolved {id : ℕ} (h : Unresolved market events) :
    (replayClosures P height accounts events).filter (closes id market outcome) = [] := by
  rw [List.filter_eq_nil_iff]
  intro closure hclosure hcloses
  obtain ⟨payout, affected, hmem, -⟩ := (closedBy_of_mem_replayClosures hclosure).resolved
  rw [(of_decide_eq_true hcloses).2.1] at hmem
  exact h payout affected hmem

/-- The closures that a block records for an outcome of an account. -/
def closuresOf (P : Primitives) (w : BlockWitness) (id : ℕ) (market : MarketId) (outcome : ℕ) :
    List Closure :=
  (blockClosures P w).filter (closes id market outcome)

/-- **The closures of a position**: the one of the position before the block, or none. -/
theorem closuresOf_eq {id : ℕ} (houtcome : outcome = 0 ∨ outcome = 1)
    (hchecked : ResolutionsChecked w.systemEvents)
    (hreplay : replayEvents P w.header.height (accountsOf w.preState) w.systemEvents = .ok final)
    (hevent : .marketResolved market payout affected ∈ w.systemEvents) :
    closuresOf P w id market outcome =
      if id ∈ affected then
        closeOutcome market (outcomePrice payout outcome) id outcome
          (heldPositions (accountsOf w.preState) id)
      else [] := by
  obtain ⟨before, later, hsplit, hbefore, hlater⟩ := exists_unique_resolution hchecked hevent
  rw [hsplit] at hreplay
  obtain ⟨middle, hmiddle, hrest⟩ := foldlM_append_eq_ok.mp hreplay
  obtain ⟨next, hnext, -⟩ := replayEvents_cons_eq_ok.mp hrest
  have hheld : inMarket (heldPositions middle id) market =
      inMarket (heldPositions (accountsOf w.preState) id) market := by
    rw [heldPositions_replay hmiddle, inMarket_foldl hbefore]
  rw [closuresOf, blockClosures, hsplit, replayClosures_append hmiddle, replayClosures_cons hnext,
    List.filter_append, List.filter_append, filter_replayClosures_of_unresolved hbefore,
    filter_replayClosures_of_unresolved hlater, List.nil_append, List.append_nil, eventClosures,
    filter_resolutionClosures houtcome hnext, closeOutcome_congr houtcome hheld]

/-- Balance of an account; an absent account has none. -/
def balanceOf (accounts : Accounts) (id : ℕ) : ℤ :=
  ((accounts.get? id).map AccountSnapshot.balance).getD 0

/-- The account whose balance an event changes directly. -/
def creditedAccount : SystemEventWitness → Option ℕ
  | .createAccount accountId _ _ => some accountId
  | event => changedAccount event

/-- What an event adds to the balance of an account, besides resolution payouts. -/
def directCreditTo (id : ℕ) (event : SystemEventWitness) : ℤ :=
  if creditedAccount event = some id then directCredit event else 0

/-- The credits of the closures in an account. -/
def closureCreditsTo (id : ℕ) (closures : List Closure) : ℤ :=
  closureCredits (closures.filter fun closure => closure.accountId = id)

theorem directCreditTo_eq {id k : ℕ} {event : SystemEventWitness}
    (h : creditedAccount event = some k) :
    directCreditTo id event = if id = k then directCredit event else 0 := by
  simp only [directCreditTo, h, Option.some.injEq, eq_comm]

theorem balanceOf_insert {k id : ℕ} :
    balanceOf (accounts.insert k a) id = if id = k then a.balance else balanceOf accounts id := by
  rw [balanceOf, OrdMap.get?_insert]
  split_ifs <;> rfl

theorem balanceOf_of_get? {id : ℕ} (h : accounts.get? id = some a) :
    balanceOf accounts id = a.balance := by
  rw [balanceOf, h]
  rfl

theorem closureCreditsTo_append (id : ℕ) (closures closures' : List Closure) :
    closureCreditsTo id (closures ++ closures') =
      closureCreditsTo id closures + closureCreditsTo id closures' := by
  rw [closureCreditsTo, List.filter_append, closureCredits, List.map_append, List.sum_append]
  rfl

theorem closureCreditsTo_closeAccount (id id' : ℕ) (positions : List PositionEntry) :
    closureCreditsTo id (closeAccount market payout id' positions) =
      if id = id' then signedPayout payout (positionOf positions market 0) +
        signedPayout (nanosPerDollar - payout) (positionOf positions market 1) else 0 := by
  split_ifs with hid
  · rw [← sum_closeAccount market payout id', closureCreditsTo, List.filter_eq_self.mpr]
    · rfl
    · intro closure hclosure
      exact decide_eq_true ((mem_closeAccount hclosure).1.trans hid.symm)
  · rw [closureCreditsTo, List.filter_eq_nil_iff.mpr]
    · rfl
    · intro closure hclosure hclosed
      exact hid ((of_decide_eq_true hclosed).symm.trans (mem_closeAccount hclosure).1)

theorem balanceOf_resolve
    (h : affected.foldlM (resolveStep P height market payout) accounts = .ok next) (id : ℕ) :
    balanceOf next id = balanceOf accounts id +
      closureCreditsTo id (resolutionClosures P height market payout accounts affected) := by
  induction affected generalizing accounts with
  | nil =>
    obtain rfl := Except.ok.inj h
    exact (add_zero _).symm
  | cons first affected ih =>
    obtain ⟨middle, hstep, hrest⟩ := foldlM_cons_eq_ok.mp h
    obtain ⟨a, a', ha, ha', rfl⟩ := resolveStep_eq_ok.mp hstep
    obtain ⟨-, -, hbalance⟩ := resolveAccount_eq_ok ha'
    rw [ih hrest, balanceOf_insert, hbalance, resolutionClosures_cons ha hstep,
      closureCreditsTo_append, closureCreditsTo_closeAccount]
    split_ifs with hid
    · rw [hid, balanceOf_of_get? ha]
      ring
    · ring

theorem balanceOf_applyEvent {event : SystemEventWitness}
    (h : applyEvent P height accounts event = .ok next) (id : ℕ) :
    balanceOf next id = balanceOf accounts id + directCreditTo id event +
      closureCreditsTo id (eventClosures P height accounts event) := by
  rcases applyEvent_cases h with ⟨k, balance, keys, rfl, hnone, rfl⟩ |
    ⟨market, payout, affected, rfl, hfold⟩ | ⟨k, a, a', hchanged, ha, hcredits, rfl⟩ |
    ⟨rfl, hnone, hzero, hother⟩
  · have hclosures : closureCreditsTo id
        (eventClosures P height accounts (.createAccount k balance keys)) = 0 := rfl
    rw [balanceOf_insert, hclosures, directCreditTo_eq rfl]
    split_ifs with hid
    · rw [hid, balanceOf, hnone]
      simp [createdAccount, directCredit]
    · rw [add_zero, add_zero]
  · have hdirect : directCreditTo id (.marketResolved market payout affected) = 0 :=
      ite_self 0
    rw [balanceOf_resolve hfold, hdirect, add_zero]
    rfl
  · have hclosures : closureCreditsTo id (eventClosures P height accounts event) = 0 := by
      cases event <;> first | rfl | cases hchanged
    have hcredited : creditedAccount event = some k := by
      cases event <;> first | exact hchanged | cases hchanged
    rw [balanceOf_insert, hclosures, directCreditTo_eq hcredited]
    split_ifs with hid
    · rw [hcredits.balance, hid, balanceOf_of_get? ha, add_zero]
    · rw [add_zero, add_zero]
  · have hclosures : closureCreditsTo id (eventClosures P height next event) = 0 := by
      cases event <;> first | rfl | exact absurd rfl (hother _ _ _)
    rw [directCreditTo, hzero, ite_self, hclosures, add_zero, add_zero]

/-- **The balance of an account along a replay**: the direct credits and its closures. -/
theorem balanceOf_replay (h : replayEvents P height accounts events = .ok final) (id : ℕ) :
    balanceOf final id = balanceOf accounts id + (events.map (directCreditTo id)).sum +
      closureCreditsTo id (replayClosures P height accounts events) := by
  induction events generalizing accounts with
  | nil =>
    obtain rfl := Except.ok.inj h
    simp [replayClosures, closureCreditsTo, closureCredits]
  | cons event events ih =>
    obtain ⟨next, hnext, hrest⟩ := replayEvents_cons_eq_ok.mp h
    rw [ih hrest, balanceOf_applyEvent hnext, replayClosures_cons hnext, List.map_cons,
      List.sum_cons, closureCreditsTo_append]
    ring

/-! ## 3.  Every holder -/

/-- **Resolution pays every holder**: nobody holds the market after the system events, and each
position that an account had before was closed once, for the floor of its payout. -/
structure HoldersPaid (P : Primitives) (w : BlockWitness) (market : MarketId) (payout : Nanos) :
    Prop where
  closed : ∀ a ∈ w.postSystemState, ¬ HoldsIn a.positions market
  paid : ∀ a ∈ w.preState, ∀ outcome, outcome = 0 ∨ outcome = 1 →
    positionOf a.positions market outcome ≠ 0 →
      closuresOf P w a.id market outcome =
        [{ accountId := a.id, market, outcome
           quantity := positionOf a.positions market outcome
           credit := floorPayout (outcomePrice payout outcome)
             (positionOf a.positions market outcome) }]

/-- The event lists every holder, and every payout fits into 64 bits. -/
structure HoldersListed (w : BlockWitness) (market : MarketId) (payout : Nanos)
    (affected : List ℕ) : Prop where
  listed : ∀ a ∈ w.preState, HoldsIn a.positions market → a.id ∈ affected
  fits : ∀ a ∈ w.preState, ∀ outcome, outcome = 0 ∨ outcome = 1 →
    PayoutFits (outcomePrice payout outcome) (positionOf a.positions market outcome)

/-- The 64-bit credit of a position is the floor only if the floor fits. -/
theorem payoutFits_of_eq {quantity : ℤ} (hquantity : quantity ≠ 0)
    (h : signedPayout price quantity = floorPayout price quantity) : PayoutFits price quantity := by
  have hsign : quantity.sign ≠ 0 := mt Int.sign_eq_zero_iff_zero.mp hquantity
  rw [signedPayout, floorPayout] at h
  have hmod : notionalNanos price quantity.natAbs = price * quantity.natAbs / shareScale := by
    exact_mod_cast mul_right_cancel₀ hsign h
  rw [PayoutFits, ← hmod]
  exact Nat.mod_lt _ (by decide)

-- A payout of 18,446,744,073.71 dollars is credited as 448,384 nanos.
example : signedPayout 1000000000 18446744073710 = 448384 := by decide

theorem payoutFits_zero (price : Nanos) : PayoutFits price 0 := by
  simp [PayoutFits]

theorem get?_accountsOf_of_mem (hnodup : (snapshots.map fun a => a.id).Nodup) (ha : a ∈ snapshots) :
    (accountsOf snapshots).get? a.id = some a :=
  (get?_ofList_key hnodup).mpr ⟨ha, rfl⟩

theorem heldPositions_accountsOf (hnodup : (snapshots.map fun a => a.id).Nodup)
    (ha : a ∈ snapshots) : heldPositions (accountsOf snapshots) a.id = a.positions :=
  heldPositions_of_get? (get?_accountsOf_of_mem hnodup ha)

/-- Holders in a list of snapshots, by their ids. -/
theorem forall_holder_iff {R : ℕ → Prop} (hnodup : (snapshots.map fun a => a.id).Nodup) :
    (∀ a ∈ snapshots, HoldsIn a.positions market → R a.id) ↔
      ∀ id, HoldsIn (heldPositions (accountsOf snapshots) id) market → R id := by
  constructor
  · intro h id hholds
    cases hget : (accountsOf snapshots).get? id with
    | none =>
      obtain ⟨entry, hentry, -⟩ := hholds
      rw [heldPositions, hget] at hentry
      exact absurd hentry List.not_mem_nil
    | some a =>
      obtain ⟨ha, rfl⟩ := (get?_ofList_key hnodup).mp hget
      rw [heldPositions_of_get? hget] at hholds
      exact h a ha hholds
  · intro h a ha hholds
    exact h a.id (by rwa [heldPositions_accountsOf hnodup ha])

/-- The claimed accounts hold what the replayed ones hold. -/
theorem holdsIn_claimed_iff {claimed : Accounts} {id : ℕ}
    (h : (final.get? id = none ∧ claimed.get? id = none) ∨ ∃ expected actual,
      final.get? id = some expected ∧ claimed.get? id = some actual ∧
        sameSystemValues expected actual = true) :
    HoldsIn (heldPositions claimed id) market ↔ HoldsIn (heldPositions final id) market := by
  rcases h with ⟨hfinal, hclaimed⟩ | ⟨expected, actual, hfinal, hclaimed, hsame⟩
  · rw [heldPositions, heldPositions, hfinal, hclaimed]
  · obtain ⟨-, -, hpositions, -⟩ := of_decide_eq_true hsame
    rw [heldPositions_of_get? hfinal, heldPositions_of_get? hclaimed, holdsIn_iff, holdsIn_iff,
      hpositions]

theorem balanceOf_claimed {claimed : Accounts} {id : ℕ}
    (h : (final.get? id = none ∧ claimed.get? id = none) ∨ ∃ expected actual,
      final.get? id = some expected ∧ claimed.get? id = some actual ∧
        sameSystemValues expected actual = true) :
    balanceOf claimed id = balanceOf final id := by
  rcases h with ⟨hfinal, hclaimed⟩ | ⟨expected, actual, hfinal, hclaimed, hsame⟩
  · rw [balanceOf, balanceOf, hfinal, hclaimed]
  · rw [balanceOf_of_get? hfinal, balanceOf_of_get? hclaimed, (of_decide_eq_true hsame).1]

/-- What an accepted block says about one of its resolutions. -/
structure ResolutionReplayed (P : Primitives) (w : BlockWitness) (market : MarketId)
    (payout : Nanos) (affected : List ℕ) : Prop where
  preNodup : (w.preState.map fun a => a.id).Nodup
  postNodup : (w.postSystemState.map fun a => a.id).Nodup
  balances : ∀ id, balanceOf (accountsOf w.postSystemState) id =
    balanceOf (accountsOf w.preState) id + (w.systemEvents.map (directCreditTo id)).sum +
      closureCreditsTo id (blockClosures P w)
  holders : ∀ id, HoldsIn (heldPositions (accountsOf w.postSystemState) id) market ↔
    id ∉ affected ∧ HoldsIn (heldPositions (accountsOf w.preState) id) market
  closures : ∀ id outcome, outcome = 0 ∨ outcome = 1 → closuresOf P w id market outcome =
    if id ∈ affected then
      closeOutcome market (outcomePrice payout outcome) id outcome
        (heldPositions (accountsOf w.preState) id)
    else []

theorem resolutionReplayed_of_accepted (h : verifyFull P w = [])
    (hevent : .marketResolved market payout affected ∈ w.systemEvents) :
    ResolutionReplayed P w market payout affected := by
  have haccepted := verifyFull_eq_nil_iff.mp h
  obtain ⟨hpre, hpost, -⟩ :=
    nodup_of_verifyKeys haccepted.keys
  obtain ⟨final, hreplay, hsame⟩ := verifySystemTransition_eq_nil_iff.mp haccepted.system
  have hchecked : ResolutionsChecked w.systemEvents := by
    have hmarkets := haccepted.sidecar.markets
    simp only [verifyMarketTransition, List.append_eq_nil_iff] at hmarkets
    exact resolutionsChecked_of_silent hmarkets.1.1.1.2
  refine ⟨hpre, hpost, fun id => ?_, fun id => ?_, fun id outcome houtcome => ?_⟩
  · rw [balanceOf_claimed (hsame id), balanceOf_replay hreplay, blockClosures]
  · obtain ⟨before, later, hsplit, hbefore, hlater⟩ := exists_unique_resolution hchecked hevent
    have hentries := inMarket_replay hbefore hlater (hsplit ▸ hreplay) id
    rw [holdsIn_claimed_iff (hsame id), HoldsIn, hentries]
    split_ifs with hid
    · simp [hid]
    · simp [hid, HoldsIn]
  · exact closuresOf_eq houtcome hchecked hreplay hevent

/-- **Whom a resolution pays.**  In an accepted block the balance of an account changes by the
direct credits and by its closures.  All holders of a resolved market are paid exactly when the
event lists them all and no payout exceeds 64 bits. -/
theorem holdersPaid_iff (h : verifyFull P w = [])
    (hevent : .marketResolved market payout affected ∈ w.systemEvents) :
    (∀ id, balanceOf (accountsOf w.postSystemState) id =
      balanceOf (accountsOf w.preState) id + (w.systemEvents.map (directCreditTo id)).sum +
        closureCreditsTo id (blockClosures P w)) ∧
    (HoldersPaid P w market payout ↔ HoldersListed w market payout affected) := by
  obtain ⟨hpre, hpost, hbalances, hholders, hclosures⟩ := resolutionReplayed_of_accepted h hevent
  refine ⟨hbalances, ?_⟩
  have hlisted : (∀ a ∈ w.postSystemState, HoldsIn a.positions market → False) ↔
      ∀ a ∈ w.preState, HoldsIn a.positions market → a.id ∈ affected := by
    rw [forall_holder_iff (R := fun _ => False) hpost, forall_holder_iff hpre]
    refine forall_congr' fun id => ?_
    rw [hholders id]
    tauto
  -- The closures of a listed holder carry the 64-bit credit.
  have hclosed : ∀ a ∈ w.preState, a.id ∈ affected → ∀ outcome, outcome = 0 ∨ outcome = 1 →
      closuresOf P w a.id market outcome =
        closeOutcome market (outcomePrice payout outcome) a.id outcome a.positions := by
    intro a ha hid outcome houtcome
    rw [hclosures a.id outcome houtcome, if_pos hid, heldPositions_accountsOf hpre ha]
  constructor
  · rintro ⟨hnone, hpaid⟩
    have hall := hlisted.mp hnone
    refine ⟨hall, fun a ha outcome houtcome => ?_⟩
    by_cases hzero : positionOf a.positions market outcome = 0
    · rw [hzero]
      exact payoutFits_zero _
    · have hpaid := hpaid a ha outcome houtcome hzero
      rw [hclosed a ha (hall a ha (holdsIn_of_positionOf houtcome hzero)) outcome houtcome,
        closeOutcome, if_neg hzero] at hpaid
      exact payoutFits_of_eq hzero (congrArg Closure.credit (List.cons.inj hpaid).1)
  · rintro ⟨hall, hfits⟩
    refine ⟨hlisted.mpr hall, fun a ha outcome houtcome hzero => ?_⟩
    rw [hclosed a ha (hall a ha (holdsIn_of_positionOf houtcome hzero)) outcome houtcome,
      closeOutcome, if_neg hzero, signedPayout_eq_floorPayout (hfits a ha outcome houtcome)]

/-! ## A holder left out

Accounts 1 and 2 hold a complete set each, and market 7 resolves to YES. -/

/-- An account with one share of YES and one of NO. -/
def setHolder (P : Primitives) (id : ℕ) : AccountSnapshot :=
  freshAccount P id 0 [(7, 0, 1000), (7, 1, 1000)]

/-- The account after its payout. -/
def paidHolder (P : Primitives) (id : ℕ) : AccountSnapshot :=
  { freshAccount P id 0 [] with
    balance := 1000000000
    eventsDigest := updateDigest P 0 (encodeResolutionEvent 7 1000000000 2) }

theorem resolveAccount_setHolder (P : Primitives) (id : ℕ) :
    resolveAccount P 2 7 1000000000 id (setHolder P id) = .ok (paidHolder P id) := by
  have hyes : signedNotional 1000000000 1000 = .ok 1000000000 := rfl
  have hno : signedNotional (nanosPerDollar - 1000000000) 1000 = .ok 0 := by
    rw [nanosPerDollar, Nat.sub_self]
    rfl
  have hpaid : checkedAdd 0 1000000000 id = .ok 1000000000 := rfl
  exact resolveAccount_of_ok hyes hno hpaid rfl

/-- The sidecar with the market resolved. -/
def resolvedSidecar (P : Primitives) (payout : Nanos) : StateSidecarSnapshot :=
  { oneMarketSidecar P [] with
    markets := [⟨7, "rain", 2, .resolved ⟨payout, .admin, 0⟩, 0, "", []⟩] }

/-- The block that resolves the market for the listed accounts. -/
def resolvedBlock (P : Primitives) (affected : List ℕ) (post : List AccountSnapshot) :
    BlockWitness :=
  secondBlock P (idleContent [setHolder P 1, setHolder P 2] post (oneMarketSidecar P [])
    (resolvedSidecar P 1000000000) [.marketResolved 7 1000000000 affected])

/-- Only account 1 is listed. -/
def partialBlock (P : Primitives) : BlockWitness :=
  resolvedBlock P [1] [paidHolder P 1, setHolder P 2]

/-- Both holders are listed. -/
def completeBlock (P : Primitives) : BlockWitness :=
  resolvedBlock P [1, 2] [paidHolder P 1, paidHolder P 2]

/-- Blocks that differ in the listed accounts only are accepted alike. -/
theorem verifyFull_resolvedBlock {P : Primitives} {affected : List ℕ}
    {post : List AccountSnapshot} {totals : List (MarketId × ℤ × ℤ)}
    (hreplay : affected.foldlM (resolveStep P 2 7 1000000000)
      (accountsOf [setHolder P 1, setHolder P 2]) = .ok (accountsOf post))
    (hids : (post.map fun a => a.id) = [1, 2]) (hkeyless : Keyless P post)
    (htotals : marketTotals (startAccounts post) = (totals, []))
    (hadjust : postFillAdjustments ∅ totals = ([], []))
    (hbalances : (startAccounts post).entries.flatMap negativeBalanceViolations = [])
    (hpositions : (startAccounts post).entries.flatMap negativePositionViolations = []) :
    verifyFull P (resolvedBlock P affected post) = [] := by
  have huntouched : KeysUntouched [.marketResolved 7 1000000000 affected] :=
    List.forall_mem_singleton.mpr ⟨rfl, nofun⟩
  have hnodup : ([1, 2] : List ℕ).Nodup := by decide
  exact verifyFull_idle (replayEvents_cons_eq_ok.mpr ⟨_, hreplay, rfl⟩)
    ⟨huntouched, hnodup, hids, keyless_pair rfl rfl, hkeyless, htotals, hadjust, hbalances,
      hpositions⟩
    (sidecarAccepted_idle ⟨rfl, rfl⟩ ⟨rfl, rfl⟩ rfl ⟨rfl, rfl, rfl, rfl, rfl, rfl, rfl⟩) rfl

theorem resolveStep_setHolder {P : Primitives} {accounts : Accounts} {id : ℕ}
    (h : accounts.get? id = some (setHolder P id)) :
    resolveStep P 2 7 1000000000 accounts id = .ok (accounts.insert id (paidHolder P id)) :=
  resolveStep_eq_ok.mpr ⟨_, _, h, resolveAccount_setHolder P id, rfl⟩

theorem verifyFull_partialBlock (P : Primitives) : verifyFull P (partialBlock P) = [] := by
  have htotals : marketTotals (startAccounts [paidHolder P 1, setHolder P 2]) =
      ([(7, 1000, 1000)], []) := rfl
  exact verifyFull_resolvedBlock
    (foldlM_cons_eq_ok.mpr ⟨_, resolveStep_setHolder rfl, rfl⟩) rfl (keyless_pair rfl rfl) htotals
    rfl rfl rfl

theorem verifyFull_completeBlock (P : Primitives) : verifyFull P (completeBlock P) = [] := by
  have htotals : marketTotals (startAccounts [paidHolder P 1, paidHolder P 2]) = ([], []) := rfl
  exact verifyFull_resolvedBlock
    (foldlM_cons_eq_ok.mpr ⟨_, resolveStep_setHolder rfl,
      foldlM_cons_eq_ok.mpr ⟨_, resolveStep_setHolder rfl, rfl⟩⟩) rfl (keyless_pair rfl rfl)
    htotals rfl rfl rfl

/-- With both holders listed, both are paid. -/
theorem holdersPaid_iff_complete :
    ([1, 2] : List ℕ).Nodup ∧ ∀ P : Primitives, verifyFull P (completeBlock P) = [] ∧
      HoldersPaid P (completeBlock P) 7 1000000000 := by
  refine ⟨by decide, fun P => ⟨verifyFull_completeBlock P, ?_⟩⟩
  have hevent : .marketResolved 7 1000000000 [1, 2] ∈ (completeBlock P).systemEvents :=
    List.mem_singleton.mpr rfl
  refine (holdersPaid_iff (verifyFull_completeBlock P) hevent).2.mpr ⟨?_, ?_⟩
  · intro a ha _
    rcases List.mem_pair.mp ha with rfl | rfl
    · exact List.mem_cons_self
    · exact List.mem_cons_of_mem _ List.mem_cons_self
  · intro a ha outcome houtcome
    have hposition : positionOf a.positions 7 outcome = 1000 := by
      rcases List.mem_pair.mp ha with rfl | rfl <;> rcases houtcome with rfl | rfl <;> rfl
    rw [hposition]
    rcases houtcome with rfl | rfl <;> decide

/-- **A holder can be left out.**  Account 2 keeps its positions in the resolved market. -/
theorem partial_resolution_accepted :
    ¬ ∃ P : Primitives, ∀ (w : BlockWitness) (market : MarketId) (payout : Nanos)
      (affected : List ℕ), verifyFull P w = [] →
        .marketResolved market payout affected ∈ w.systemEvents →
          HoldersPaid P w market payout := by
  rintro ⟨P, hclaim⟩
  have hpaid := hclaim (partialBlock P) 7 1000000000 [1] (verifyFull_partialBlock P)
    (List.mem_singleton.mpr rfl)
  have hmem : setHolder P 2 ∈ (partialBlock P).postSystemState :=
    List.mem_cons_of_mem _ List.mem_cons_self
  exact hpaid.closed _ hmem (holdsIn_of_positionOf (Or.inl rfl) (by decide : (1000 : ℤ) ≠ 0))

end Sybil.Verifier
