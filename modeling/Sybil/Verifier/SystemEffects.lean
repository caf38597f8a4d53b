import Sybil.Lib.Holdings
import Sybil.Verifier.System

/-!
# What a replayed system event does

`applyEvent_cases` says everything that a successful event can do to the accounts:
it creates an account, closes positions in a resolved market, changes the balance of
one account by a fixed amount, or changes nothing.  Invariants of whole replays are
derived from it.

The payouts of a resolution are recorded in a ledger of *closures*, one entry for
each position that was removed, with the quantity and the credit.  The ledger is
read off the replay and does not influence it.
-/

namespace Sybil.Verifier

open Engine

variable {P : Primitives} {height : ℕ} {accounts next final : Accounts}

variable {a a' : AccountSnapshot} {encoded : Bytes} {event : SystemEventWitness} {market : MarketId}
  {payout : Nanos}

/-! ## Single operations -/

theorem updateAccount_eq_ok {id : ℕ} {f : AccountSnapshot → Except String AccountSnapshot} :
    updateAccount accounts id f = .ok next ↔
      ∃ a a', accounts.get? id = some a ∧ f a = .ok a' ∧ next = accounts.insert id a' := by
  simp only [updateAccount, bind_eq_ok, okOr_eq_ok, pure, Except.pure, Except.ok.injEq]
  constructor
  · rintro ⟨a, ha, a', ha', rfl⟩
    exact ⟨a, a', ha, ha', rfl⟩
  · rintro ⟨a, a', ha, ha', rfl⟩
    exact ⟨a, ha, a', ha', rfl⟩

theorem checkedAdd_eq_ok {value delta result : ℤ} {id : ℕ} :
    checkedAdd value delta id = .ok result ↔
      (-2 ^ 63 ≤ value + delta ∧ value + delta < 2 ^ 63) ∧ value + delta = result := by
  rw [checkedAdd, okOr_eq_ok, checkedI64_eq_some_iff]

/-- What an operation that leaves the positions alone does to an account. -/
structure Credits (amount : ℤ) (a a' : AccountSnapshot) : Prop where
  id : a'.id = a.id
  balance : a'.balance = a.balance + amount
  positions : a'.positions = a.positions

theorem credits_creditDeposit {id : ℕ} {amount : ℤ}
    (h : creditDeposit P id amount encoded a = .ok a') : Credits amount a a' := by
  simp only [creditDeposit, bind_eq_ok, checkedAdd_eq_ok] at h
  obtain ⟨b, ⟨-, rfl⟩, d, -, h⟩ := h
  obtain rfl := Except.ok.inj h
  exact ⟨rfl, rfl, rfl⟩

theorem credits_creditBalance {id : ℕ} {amount : ℤ}
    (h : creditBalance P id amount encoded a = .ok a') : Credits amount a a' := by
  simp only [creditBalance, bind_eq_ok, checkedAdd_eq_ok] at h
  obtain ⟨b, ⟨-, rfl⟩, h⟩ := h
  obtain rfl := Except.ok.inj h
  exact ⟨rfl, rfl, rfl⟩

theorem credits_debitWithdrawal {id : ℕ} {amount : ℤ}
    (h : debitWithdrawal P id amount encoded a = .ok a') : Credits (-amount) a a' := by
  simp only [debitWithdrawal, bind_eq_ok, okOr_eq_ok, checkedI64_eq_some_iff] at h
  obtain ⟨b, ⟨-, rfl⟩, h⟩ := h
  obtain rfl := Except.ok.inj h
  exact ⟨rfl, sub_eq_add_neg _ _, rfl⟩

theorem credits_logEvent (h : logEvent P encoded a = .ok a') : Credits 0 a a' := by
  obtain rfl := Except.ok.inj h
  exact ⟨rfl, (add_zero _).symm, rfl⟩

theorem credits_advanceNonce {id nonce : ℕ} (h : advanceNonce id nonce a = .ok a') :
    Credits 0 a a' := by
  unfold advanceNonce at h
  split_ifs at h
  obtain rfl := Except.ok.inj h
  exact ⟨rfl, (add_zero _).symm, rfl⟩

/-! ## One event -/

/-- The account that a simple event changes. -/
def changedAccount : SystemEventWitness → Option ℕ
  | .deposit accountId _ => some accountId
  | .l1Deposit accountId _ _ _ _ => some accountId
  | .withdrawalCreated w => some w.accountId
  | .withdrawalRefunded accountId _ _ _ => some accountId
  | .orderCancelled accountId _ _ _ _ => some accountId
  | .keyRegistered accountId _ _ => some accountId
  | .keyRevoked accountId _ _ => some accountId
  | .quarantineClaimed accountId _ _ => some accountId
  | .clientActionAuthorized action => some action.accountNonce.1
  | _ => none

/-- The amount that an event adds to the balance of its account, besides resolution payouts. -/
def directCredit : SystemEventWitness → ℤ
  | .createAccount _ initialBalance _ => initialBalance
  | .deposit _ amount => amount
  | .l1Deposit _ amount _ _ _ => amount
  | .withdrawalCreated w => -w.amount
  | .withdrawalRefunded _ _ amount _ => amount
  | .quarantineClaimed _ amount _ => amount
  | _ => 0

/-- The account that a creation adds. -/
def createdAccount (P : Primitives) (height accountId : ℕ) (initialBalance : ℤ)
    (initialKeys : List KeyRecord) : AccountSnapshot where
  id := accountId
  balance := initialBalance
  totalDeposited := initialBalance
  positions := []
  eventsDigest := updateDigest P 0 (encodeCreateAccountEvent initialBalance height)
  keysDigest := accountKeysDigest P accountId initialKeys
  lastTradingNonce := 0

/-- Close the positions of one account in a resolved market. -/
def resolveStep (P : Primitives) (height : ℕ) (market : MarketId) (payout : Nanos)
    (accounts : Accounts) (accountId : ℕ) : Except String Accounts :=
  updateAccount accounts accountId (resolveAccount P height market payout accountId)

/-- **What an event can do.** -/
theorem applyEvent_cases (h : applyEvent P height accounts event = .ok next) :
    (∃ id balance keys, event = .createAccount id balance keys ∧ accounts.get? id = none ∧
      next = accounts.insert id (createdAccount P height id balance keys)) ∨
    (∃ market payout affected, event = .marketResolved market payout affected ∧
      affected.foldlM (resolveStep P height market payout) accounts = .ok next) ∨
    (∃ id a a', changedAccount event = some id ∧ accounts.get? id = some a ∧
      Credits (directCredit event) a a' ∧ next = accounts.insert id a') ∨
    (next = accounts ∧ changedAccount event = none ∧ directCredit event = 0 ∧
      ∀ market payout affected, event ≠ .marketResolved market payout affected) := by
  -- A simple event updates its account with an operation that credits a known amount.
  have simple : ∀ {event : SystemEventWitness} {id : ℕ}
      {f : AccountSnapshot → Except String AccountSnapshot}, changedAccount event = some id →
      updateAccount accounts id f = .ok next →
      (∀ {a a'}, f a = .ok a' → Credits (directCredit event) a a') →
      ∃ id a a', changedAccount event = some id ∧ accounts.get? id = some a ∧
        Credits (directCredit event) a a' ∧ next = accounts.insert id a' := by
    intro event id f hid hu hf
    obtain ⟨a, a', ha, ha', rfl⟩ := updateAccount_eq_ok.mp hu
    exact ⟨id, a, a', hid, ha, hf ha', rfl⟩
  cases event with
  | createAccount id balance keys =>
    simp only [applyEvent] at h
    split_ifs at h with hc
    obtain rfl := Except.ok.inj h
    rw [Bool.not_eq_true, OrdMap.contains_eq_false_iff] at hc
    exact Or.inl ⟨id, balance, keys, rfl, hc, rfl⟩
  | marketResolved market payout affected =>
    exact Or.inr (Or.inl ⟨market, payout, affected, rfl, h⟩)
  | deposit | l1Deposit | quarantineClaimed =>
    exact Or.inr (Or.inr (Or.inl (simple rfl h credits_creditDeposit)))
  | withdrawalCreated => exact Or.inr (Or.inr (Or.inl (simple rfl h credits_debitWithdrawal)))
  | withdrawalRefunded => exact Or.inr (Or.inr (Or.inl (simple rfl h credits_creditBalance)))
  | orderCancelled | keyRegistered | keyRevoked =>
    exact Or.inr (Or.inr (Or.inl (simple rfl h credits_logEvent)))
  | clientActionAuthorized => exact Or.inr (Or.inr (Or.inl (simple rfl h credits_advanceNonce)))
  | withdrawalFinalized | l1BlockObserved | marketGroupExtended | depositQuarantined =>
    exact Or.inr (Or.inr (Or.inr ⟨(Except.ok.inj h).symm, rfl, rfl, nofun⟩))

/-! ## Closing positions -/

/-- Signed payout of a position: the 64-bit notional of its size, with its sign. -/
def signedPayout (price : Nanos) (quantity : ℤ) : ℤ :=
  (notionalNanos price quantity.natAbs : ℤ) * quantity.sign

/-- Entries of a market that are not an outcome of a resolution. -/
def withoutMarket (positions : List PositionEntry) (market : MarketId) : List PositionEntry :=
  (positions.filter fun entry => !isPosition market 0 entry).filter fun entry =>
    !isPosition market 1 entry

theorem signedNotional_eq_ok {price : Nanos} {quantity value : ℤ}
    (h : signedNotional price quantity = .ok value) : value = signedPayout price quantity := by
  simp only [signedNotional, bind_eq_ok, okOr_eq_ok, i64OfU64_eq_some_iff,
    checkedI64_eq_some_iff] at h
  obtain ⟨_, ⟨-, rfl⟩, -, rfl⟩ := h
  rfl

theorem positionOf_filter_of_ne {positions : List PositionEntry} {o o' : ℕ} (hne : o' ≠ o) :
    positionOf (positions.filter fun entry => !isPosition market o entry) market o' =
      positionOf positions market o' := by
  rw [positionOf, positionOf, List.filter_filter]
  have hfilter : ∀ entry : PositionEntry,
      (isPosition market o' entry && !isPosition market o entry) = isPosition market o' entry := by
    intro entry
    by_cases h : isPosition market o' entry = true
    · have hnot : isPosition market o entry = false := by
        rw [isPosition, decide_eq_true_eq] at h
        rw [isPosition, decide_eq_false_iff_not]
        rintro ⟨-, ho⟩
        exact hne (h.2.symm.trans ho)
      rw [h, hnot]
      rfl
    · rw [Bool.not_eq_true] at h
      rw [h]
      rfl
  simp only [hfilter]

/-- What closing does to an account: both positions are paid out and removed. -/
theorem resolveAccount_eq_ok {id : ℕ} (h : resolveAccount P height market payout id a = .ok a') :
    a'.id = a.id ∧ a'.positions = withoutMarket a.positions market ∧
      a'.balance = a.balance + signedPayout payout (positionOf a.positions market 0) +
        signedPayout (nanosPerDollar - payout) (positionOf a.positions market 1) := by
  simp only [resolveAccount, removePosition, bind_eq_ok, checkedAdd_eq_ok] at h
  obtain ⟨yes, hyes, no, hno, b, ⟨-, rfl⟩, b', ⟨-, rfl⟩, h⟩ := h
  obtain rfl := Except.ok.inj h
  rw [signedNotional_eq_ok hyes, signedNotional_eq_ok hno,
    positionOf_filter_of_ne (by decide)]
  exact ⟨rfl, rfl, rfl⟩

/-- Closing goes through when the two payouts and the two sums fit. -/
theorem resolveAccount_of_ok {id : ℕ} {yes no balance balance' : ℤ}
    (hyes : signedNotional payout (positionOf a.positions market 0) = .ok yes)
    (hno : signedNotional (nanosPerDollar - payout) (positionOf a.positions market 1) = .ok no)
    (hbalance : checkedAdd a.balance yes id = .ok balance)
    (hbalance' : checkedAdd balance no id = .ok balance') :
    resolveAccount P height market payout id a = .ok
      { a with
        balance := balance'
        positions := withoutMarket a.positions market
        eventsDigest :=
          updateDigest P a.eventsDigest (encodeResolutionEvent market payout height) } := by
  rw [← positionOf_filter_of_ne (o := 0) (by decide)] at hno
  simp only [resolveAccount, removePosition, hyes, hno, hbalance, hbalance', bind, Except.bind]
  rfl

/-- A position that a resolution removed. -/
structure Closure where
  accountId : ℕ
  market : MarketId
  outcome : ℕ
  quantity : ℤ
  credit : ℤ
  deriving DecidableEq

/-- The closure of one outcome; nothing is recorded for a zero position. -/
def closeOutcome (market : MarketId) (price : Nanos) (accountId outcome : ℕ)
    (positions : List PositionEntry) : List Closure :=
  if positionOf positions market outcome = 0 then []
  else
    [{ accountId, market, outcome
       quantity := positionOf positions market outcome
       credit := signedPayout price (positionOf positions market outcome) }]

/-- The closures of one account. -/
def closeAccount (market : MarketId) (payout : Nanos) (accountId : ℕ)
    (positions : List PositionEntry) : List Closure :=
  closeOutcome market payout accountId 0 positions ++
    closeOutcome market (nanosPerDollar - payout) accountId 1 positions

/-- The closures of a resolution, along the accounts that the event lists. -/
def resolutionClosures (P : Primitives) (height : ℕ) (market : MarketId) (payout : Nanos)
    (accounts : Accounts) : List ℕ → List Closure
  | [] => []
  | accountId :: affected =>
    match accounts.get? accountId, resolveStep P height market payout accounts accountId with
    | some a, .ok next =>
      closeAccount market payout accountId a.positions ++
        resolutionClosures P height market payout next affected
    | _, _ => []

/-- The closures of an event. -/
def eventClosures (P : Primitives) (height : ℕ) (accounts : Accounts) :
    SystemEventWitness → List Closure
  | .marketResolved market payout affected =>
    resolutionClosures P height market payout accounts affected
  | _ => []

/-- The closures of a replay. -/
def replayClosures (P : Primitives) (height : ℕ) (accounts : Accounts) :
    List SystemEventWitness → List Closure
  | [] => []
  | event :: events =>
    match applyEvent P height accounts event with
    | .ok next => eventClosures P height accounts event ++ replayClosures P height next events
    | .error _ => []

theorem resolveStep_eq_ok {id : ℕ} :
    resolveStep P height market payout accounts id = .ok next ↔
      ∃ a a', accounts.get? id = some a ∧ resolveAccount P height market payout id a = .ok a' ∧
        next = accounts.insert id a' :=
  updateAccount_eq_ok

theorem resolutionClosures_cons {id : ℕ} {affected : List ℕ} (ha : accounts.get? id = some a)
    (h : resolveStep P height market payout accounts id = .ok next) :
    resolutionClosures P height market payout accounts (id :: affected) =
      closeAccount market payout id a.positions ++
        resolutionClosures P height market payout next affected := by
  rw [resolutionClosures, ha, h]

theorem replayClosures_cons {events : List SystemEventWitness}
    (h : applyEvent P height accounts event = .ok next) :
    replayClosures P height accounts (event :: events) =
      eventClosures P height accounts event ++ replayClosures P height next events := by
  rw [replayClosures, h]

theorem signedPayout_zero (price : Nanos) : signedPayout price 0 = 0 := by
  simp [signedPayout]

theorem sum_closeOutcome (market : MarketId) (price : Nanos) (id outcome : ℕ)
    (positions : List PositionEntry) :
    ((closeOutcome market price id outcome positions).map Closure.credit).sum =
      signedPayout price (positionOf positions market outcome) := by
  unfold closeOutcome
  split_ifs with h
  · rw [h, signedPayout_zero]
    rfl
  · simp

/-- The credits of an account's closures are what closing adds to its balance. -/
theorem sum_closeAccount (market : MarketId) (payout : Nanos) (id : ℕ)
    (positions : List PositionEntry) :
    ((closeAccount market payout id positions).map Closure.credit).sum =
      signedPayout payout (positionOf positions market 0) +
        signedPayout (nanosPerDollar - payout) (positionOf positions market 1) := by
  rw [closeAccount, List.map_append, List.sum_append, sum_closeOutcome, sum_closeOutcome]

/-! ## Positions along a replay -/

/-- Position entries of an account; an absent account has none. -/
def heldPositions (accounts : Accounts) (id : ℕ) : List PositionEntry :=
  ((accounts.get? id).map AccountSnapshot.positions).getD []

/-- What an event leaves of the positions of an account. -/
def positionsAfter (id : ℕ) (positions : List PositionEntry) :
    SystemEventWitness → List PositionEntry
  | .marketResolved market _ affected =>
    if id ∈ affected then withoutMarket positions market else positions
  | _ => positions

theorem heldPositions_of_get? {id : ℕ} (h : accounts.get? id = some a) :
    heldPositions accounts id = a.positions := by
  rw [heldPositions, h]
  rfl

theorem heldPositions_insert {k id : ℕ} :
    heldPositions (accounts.insert k a) id =
      if id = k then a.positions else heldPositions accounts id := by
  rw [heldPositions, OrdMap.get?_insert]
  split_ifs <;> rfl

theorem withoutMarket_idem (positions : List PositionEntry) (market : MarketId) :
    withoutMarket (withoutMarket positions market) market = withoutMarket positions market := by
  simp only [withoutMarket, List.filter_filter]
  congr 1
  ext entry
  cases isPosition market 0 entry <;> cases isPosition market 1 entry <;> rfl

/-- A resolution empties the market in the accounts it lists, however often it lists them. -/
theorem heldPositions_resolve {affected : List ℕ}
    (h : affected.foldlM (resolveStep P height market payout) accounts = .ok next) (id : ℕ) :
    heldPositions next id =
      if id ∈ affected then withoutMarket (heldPositions accounts id) market
      else heldPositions accounts id := by
  induction affected generalizing accounts with
  | nil =>
    obtain rfl := Except.ok.inj h
    rfl
  | cons first affected ih =>
    obtain ⟨middle, hstep, hrest⟩ := foldlM_cons_eq_ok.mp h
    obtain ⟨a, a', ha, ha', rfl⟩ := resolveStep_eq_ok.mp hstep
    obtain ⟨-, hpositions, -⟩ := resolveAccount_eq_ok ha'
    rw [ih hrest, heldPositions_insert, hpositions]
    by_cases hid : id = first
    · rw [if_pos hid, hid, heldPositions_of_get? ha, withoutMarket_idem, ite_self,
        if_pos List.mem_cons_self]
    · simp only [hid, if_false, List.mem_cons, false_or]

theorem heldPositions_applyEvent (h : applyEvent P height accounts event = .ok next) (id : ℕ) :
    heldPositions next id = positionsAfter id (heldPositions accounts id) event := by
  rcases applyEvent_cases h with ⟨k, balance, keys, rfl, hk, rfl⟩ |
    ⟨market, payout, affected, rfl, hresolve⟩ | ⟨k, a, a', hk, ha, hcredits, rfl⟩ |
    ⟨rfl, -, -, hother⟩
  · rw [heldPositions_insert]
    split_ifs with hid
    · rw [hid, heldPositions, hk]
      rfl
    · rfl
  · exact heldPositions_resolve hresolve id
  · have hsimple : positionsAfter id (heldPositions accounts id) event =
        heldPositions accounts id := by
      cases event <;> first | rfl | exact nomatch hk
    rw [heldPositions_insert, hcredits.positions, hsimple]
    split_ifs with hid
    · rw [hid, heldPositions_of_get? ha]
    · rfl
  · cases event with
    | marketResolved market payout affected => exact absurd rfl (hother market payout affected)
    | _ => rfl

/-- **Positions along a replay**, account by account. -/
theorem heldPositions_replay {events : List SystemEventWitness} {final : Accounts}
    (h : replayEvents P height accounts events = .ok final) (id : ℕ) :
    heldPositions final id = events.foldl (positionsAfter id) (heldPositions accounts id) := by
  induction events generalizing accounts with
  | nil =>
    obtain rfl := Except.ok.inj h
    rfl
  | cons event events ih =>
    obtain ⟨middle, hstep, hrest⟩ := replayEvents_cons_eq_ok.mp h
    rw [ih hrest, heldPositions_applyEvent hstep, List.foldl_cons]

end Sybil.Verifier
