import Sybil.Verifier.Completeness
import Sybil.Verifier.SystemEffects

/-!
# Where balances come from

The balances of all accounts together change in the system part of a block by what its
events move, and by nothing else.

## 1.  The total along a replay

`applyEvent_cases` leaves four kinds of step, and each of them changes the total by the
direct credit of the event and the credits of the positions it closes
(`totalBalance_replay`).

## 2.  Deposits

The deposit pass ties the disposition events to the new deposits of the vault's tree,
one by one (`dispositions_matched`).  The amounts of the credited ones are therefore a
thousand nanos for each token unit that the vault received.

## 3.  The balance sheet

`totalBalance_of_accepted` puts the two together.  Besides the vault's deposits, the
quarantine claims, the withdrawals and the payouts, there is one more source: accounts
that the operator funds (`Deposit` and the initial balance of `CreateAccount`).
-/

namespace Sybil.Verifier

open Engine

variable {P : Primitives} {w : BlockWitness} {height : ℕ} {accounts next final : Accounts}

variable {closure : Closure} {market : MarketId} {payout : Nanos}

/-! ## 1.  The total along a replay -/

/-- The balances of all accounts together. -/
def totalBalance (accounts : Accounts) : ℤ := accounts.sumBy fun _ account => account.balance

/-- The credits of closures. -/
def closureCredits (closures : List Closure) : ℤ := (closures.map Closure.credit).sum

theorem totalBalance_insert {id : ℕ} {a a' : AccountSnapshot} (ha : accounts.get? id = some a) :
    totalBalance (accounts.insert id a') = totalBalance accounts + (a'.balance - a.balance) := by
  rw [totalBalance, OrdMap.sumBy_insert, OrdMap.term, ha, totalBalance]
  simp only [Option.elim_some]
  ring

theorem totalBalance_insert_new {id : ℕ} {a : AccountSnapshot} (ha : accounts.get? id = none) :
    totalBalance (accounts.insert id a) = totalBalance accounts + a.balance := by
  rw [totalBalance, OrdMap.sumBy_insert, OrdMap.term, ha, totalBalance]
  simp only [Option.elim_none]
  ring

/-- A resolution adds the credits of the positions that it closes. -/
theorem totalBalance_resolve {affected : List ℕ}
    (h : affected.foldlM (resolveStep P height market payout) accounts = .ok next) :
    totalBalance next = totalBalance accounts +
      closureCredits (resolutionClosures P height market payout accounts affected) := by
  induction affected generalizing accounts with
  | nil =>
    obtain rfl := Except.ok.inj h
    simp [resolutionClosures, closureCredits]
  | cons id affected ih =>
    obtain ⟨mid, hstep, hrest⟩ := foldlM_cons_eq_ok.mp h
    obtain ⟨a, a', ha, hresolve, rfl⟩ := resolveStep_eq_ok.mp hstep
    obtain ⟨-, -, hbalance⟩ := resolveAccount_eq_ok hresolve
    rw [ih hrest, totalBalance_insert ha, hbalance, resolutionClosures_cons ha hstep,
      closureCredits, closureCredits, List.map_append, List.sum_append, sum_closeAccount]
    ring

theorem totalBalance_applyEvent {event : SystemEventWitness}
    (h : applyEvent P height accounts event = .ok next) :
    totalBalance next = totalBalance accounts + directCredit event +
      closureCredits (eventClosures P height accounts event) := by
  rcases applyEvent_cases h with ⟨id, balance, keys, rfl, hnone, rfl⟩ |
    ⟨market, payout, affected, rfl, hfold⟩ | ⟨id, a, a', hchanged, ha, hcredits, rfl⟩ |
    ⟨rfl, hnone, hzero, hother⟩
  · rw [totalBalance_insert_new hnone]
    simp [createdAccount, directCredit, eventClosures, closureCredits]
  · rw [totalBalance_resolve hfold]
    simp [directCredit, eventClosures]
  · have hclosures : eventClosures P height accounts event = [] := by
      cases event <;> first | rfl | exact nomatch hchanged
    rw [totalBalance_insert ha, hcredits.balance, hclosures]
    simp [closureCredits]
  · have hclosures : eventClosures P height next event = [] := by
      cases event <;> first | rfl | exact absurd rfl (hother _ _ _)
    rw [hzero, hclosures]
    simp [closureCredits]

/-- **The total along a replay.** -/
theorem totalBalance_replay {events : List SystemEventWitness}
    (h : replayEvents P height accounts events = .ok final) :
    totalBalance final = totalBalance accounts + (events.map directCredit).sum +
      closureCredits (replayClosures P height accounts events) := by
  induction events generalizing accounts with
  | nil =>
    obtain rfl := Except.ok.inj h
    simp [replayClosures, closureCredits]
  | cons event events ih =>
    obtain ⟨next, hnext, hrest⟩ := replayEvents_cons_eq_ok.mp h
    rw [ih hrest, totalBalance_applyEvent hnext, replayClosures_cons hnext, List.map_cons,
      List.sum_cons, closureCredits, closureCredits, closureCredits, List.map_append,
      List.sum_append]
    ring

/-- The claimed accounts have the total of the replayed ones. -/
theorem totalBalance_postSystemState (h : verifySystemTransition P w = []) :
    ∃ final, replayEvents P w.header.height (accountsOf w.preState) w.systemEvents = .ok final ∧
      totalBalance (accountsOf w.postSystemState) = totalBalance final := by
  obtain ⟨final, hreplay, hsame⟩ := verifySystemTransition_eq_nil_iff.mp h
  refine ⟨final, hreplay, OrdMap.sumBy_eq_of_get? fun id => ?_⟩
  rcases hsame id with ⟨hfinal, hclaimed⟩ | ⟨expected, actual, hfinal, hclaimed, hvalues⟩
  · rw [hfinal, hclaimed]
  · have hbalance : expected.balance = actual.balance := (of_decide_eq_true hvalues).1
    rw [hfinal, hclaimed, Option.map_some, Option.map_some, hbalance]

/-! ## 2.  Deposits -/

/-- A disposition is that of a deposit of the tree: its id, its account key and its nanos. -/
structure Disposes (d : Disposition) (deposit : L1DepositWitness) : Prop where
  depositId : deposit.depositId = d.depositId
  sybilAccountKey : deposit.sybilAccountKey = d.sybilAccountKey
  amount : d.amount = 1000 * deposit.amountTokenUnits

theorem depositAmountNanos_eq_some {deposit : L1DepositWitness} {nanos : ℤ}
    (h : depositAmountNanos deposit = some nanos) : nanos = 1000 * deposit.amountTokenUnits := by
  obtain ⟨units, hunits, hnanos⟩ := Option.bind_eq_some_iff.mp h
  obtain ⟨-, rfl⟩ := checkedU64_eq_some_iff.mp hunits
  obtain ⟨-, rfl⟩ := i64OfU64_eq_some_iff.mp hnanos
  push_cast
  ring

/-- A disposition that is not reported is that of the deposit at its position. -/
theorem disposes_of_verifyDisposition {newDeposits : List L1DepositWitness} {roots : List Digest}
    {d : Disposition} {index : ℕ} {deposit : L1DepositWitness}
    (hdeposit : newDeposits[index]? = some deposit)
    (h : verifyDisposition P newDeposits roots (d, index) = []) : Disposes d deposit := by
  simp only [verifyDisposition, hdeposit, List.append_eq_nil_iff, reportIf_eq_nil, ne_eq,
    not_not] at h
  obtain ⟨⟨⟨⟨hid, -⟩, hkey⟩, -⟩, hamount⟩ := h
  refine ⟨hid, hkey, ?_⟩
  unfold verifyDispositionAmount at hamount
  split at hamount
  · cases hamount
  · next expected hexpected =>
    simp only [reportIf_eq_nil, ne_eq, not_not] at hamount
    rw [hamount, depositAmountNanos_eq_some hexpected]

/-- **The disposition events are those of the new deposits**, one by one. -/
theorem dispositions_matched (h : verifyDepositAccumulator P w = []) :
    List.Forall₂ Disposes (dispositions w.systemEvents) w.depositAccumulator.newDeposits := by
  simp only [verifyDepositAccumulator, List.append_eq_nil_iff] at h
  obtain ⟨-, h⟩ := h
  split at h
  · simp at h
  · rw [List.append_eq_nil_iff] at h
    obtain ⟨-, h⟩ := h
    split at h
    · simp at h
    · next roots _ =>
      simp only [List.append_eq_nil_iff, verifyL1DepositEventsMatchDelta, reportIf_eq_nil, ne_eq,
        not_not, List.flatMap_eq_nil_iff] at h
      obtain ⟨-, hlength, hchecked⟩ := h
      refine List.forall₂_iff_get.mpr ⟨hlength, fun i hi hi' => ?_⟩
      refine disposes_of_verifyDisposition (P := P) (List.getElem?_eq_getElem hi') (hchecked
        ((dispositions w.systemEvents)[i], i) ?_)
      exact List.mem_zipIdx_iff_getElem?.mpr (List.getElem?_eq_getElem hi)

/-- The new deposits that were credited to an account. -/
def creditedDeposits (w : BlockWitness) : List L1DepositWitness :=
  ((dispositions w.systemEvents).zip w.depositAccumulator.newDeposits).filterMap fun p =>
    p.1.accountId.map fun _ => p.2

/-- What deposits of the vault are worth in nanos. -/
def depositNanos (deposits : List L1DepositWitness) : ℤ :=
  (deposits.map fun deposit => (1000 * deposit.amountTokenUnits : ℤ)).sum

/-- The amount of a credited L1 deposit. -/
def l1DepositAmount : SystemEventWitness → ℤ
  | .l1Deposit _ amount _ _ _ => amount
  | _ => 0

/-- What a disposition credits. -/
def dispositionCredit (d : Disposition) : ℤ := if d.accountId.isSome then d.amount else 0

theorem sum_l1DepositAmount (events : List SystemEventWitness) :
    (events.map l1DepositAmount).sum = ((dispositions events).map dispositionCredit).sum := by
  induction events with
  | nil => rfl
  | cons event events ih =>
    rw [List.map_cons, List.sum_cons, ih]
    cases event <;> simp [dispositions, disposition, l1DepositAmount, dispositionCredit,
      List.filterMap_cons]

theorem sum_dispositionCredit {ds : List Disposition} {deposits : List L1DepositWitness}
    (h : List.Forall₂ Disposes ds deposits) :
    (ds.map dispositionCredit).sum =
      depositNanos ((ds.zip deposits).filterMap fun p => p.1.accountId.map fun _ => p.2) := by
  induction h with
  | nil => rfl
  | @cons d deposit ds deposits hd _ ih =>
    rw [List.map_cons, List.sum_cons, ih, List.zip_cons_cons, List.filterMap_cons]
    cases haccount : d.accountId with
    | none => simp [dispositionCredit, haccount]
    | some accountId => simp [dispositionCredit, haccount, depositNanos, hd.amount]

/-! ## 3.  The balance sheet -/

/-- The amount of a quarantine claim. -/
def claimAmount : SystemEventWitness → ℤ
  | .quarantineClaimed _ amount _ => amount
  | _ => 0

/-- The amount of a refunded withdrawal. -/
def refundAmount : SystemEventWitness → ℤ
  | .withdrawalRefunded _ _ amount _ => amount
  | _ => 0

/-- The amount of a created withdrawal. -/
def withdrawnAmount : SystemEventWitness → ℤ
  | .withdrawalCreated created => created.amount
  | _ => 0

/-- What the operator funds. -/
def operatorAmount : SystemEventWitness → ℤ
  | .deposit _ amount => amount
  | .createAccount _ initialBalance _ => initialBalance
  | _ => 0

/-- The events that can change a balance. -/
def movesBalance : SystemEventWitness → Bool
  | .createAccount .. => true
  | .deposit .. => true
  | .l1Deposit .. => true
  | .withdrawalCreated _ => true
  | .withdrawalRefunded .. => true
  | .quarantineClaimed .. => true
  | .marketResolved .. => true
  | _ => false

theorem sum_directCredit (events : List SystemEventWitness) :
    (events.map directCredit).sum =
      (events.map l1DepositAmount).sum + (events.map claimAmount).sum +
        (events.map refundAmount).sum - (events.map withdrawnAmount).sum +
        (events.map operatorAmount).sum := by
  induction events with
  | nil => rfl
  | cons event events ih =>
    have hevent : directCredit event = l1DepositAmount event + claimAmount event +
        refundAmount event - withdrawnAmount event + operatorAmount event := by
      cases event <;> simp [directCredit, l1DepositAmount, claimAmount, refundAmount,
        withdrawnAmount, operatorAmount]
    simp only [List.map_cons, List.sum_cons, ih, hevent]
    ring

/-- Every other event leaves every balance alone. -/
theorem balance_of_not_movesBalance {event : SystemEventWitness}
    (h : applyEvent P height accounts event = .ok next) (hevent : movesBalance event = false)
    (id : ℕ) :
    (next.get? id).map (fun a => a.balance) = (accounts.get? id).map fun a => a.balance := by
  rcases applyEvent_cases h with ⟨_, _, _, rfl, -⟩ | ⟨_, _, _, rfl, -⟩ |
    ⟨id', a, a', hchanged, ha, hcredits, rfl⟩ | ⟨rfl, -⟩
  · cases hevent
  · cases hevent
  · have hzero : directCredit event = 0 := by
      cases event <;> first | rfl | exact nomatch hevent
    rw [OrdMap.get?_insert]
    split_ifs with hid
    · rw [hid, ha, Option.map_some, Option.map_some, hcredits.balance, hzero, add_zero]
    · rfl
  · rfl

/-- The positions that the resolutions of a block close. -/
def blockClosures (P : Primitives) (w : BlockWitness) : List Closure :=
  replayClosures P w.header.height (accountsOf w.preState) w.systemEvents

/-- The price at which an outcome is paid out. -/
def outcomePrice (payout : Nanos) (outcome : ℕ) : Nanos :=
  if outcome = 0 then payout else nanosPerDollar - payout

/-- The exact signed payout of a position: the floor of price times size, with its sign. -/
def floorPayout (price : Nanos) (quantity : ℤ) : ℤ :=
  ((price * quantity.natAbs / shareScale : ℕ) : ℤ) * quantity.sign

/-- The floor fits into the 64 bits of `notional_nanos`. -/
def PayoutFits (price : Nanos) (quantity : ℤ) : Prop :=
  price * quantity.natAbs / shareScale < 2 ^ 64

instance (price : Nanos) (quantity : ℤ) : Decidable (PayoutFits price quantity) :=
  inferInstanceAs (Decidable (_ < _))

theorem signedPayout_eq_floorPayout {price : Nanos} {quantity : ℤ}
    (h : PayoutFits price quantity) : signedPayout price quantity = floorPayout price quantity := by
  rw [signedPayout, notionalNanos, Nat.mod_eq_of_lt h, floorPayout]

/-- A closure that a resolution of the block made, with the credit that its price gives: the
floor, as long as it fits into 64 bits. -/
structure ClosedBy (events : List SystemEventWitness) (closure : Closure) : Prop where
  resolved : ∃ payout affected, .marketResolved closure.market payout affected ∈ events ∧
    closure.accountId ∈ affected ∧
    closure.credit = signedPayout (outcomePrice payout closure.outcome) closure.quantity ∧
    (PayoutFits (outcomePrice payout closure.outcome) closure.quantity →
      closure.credit = floorPayout (outcomePrice payout closure.outcome) closure.quantity)
  quantity : closure.quantity ≠ 0

theorem mem_closeOutcome {price : Nanos} {id outcome : ℕ} {positions : List PositionEntry}
    (h : closure ∈ closeOutcome market price id outcome positions) :
    closure.accountId = id ∧ closure.market = market ∧ closure.outcome = outcome ∧
      closure.quantity ≠ 0 ∧ closure.credit = signedPayout price closure.quantity := by
  unfold closeOutcome at h
  split_ifs at h with hzero
  · exact absurd h List.not_mem_nil
  · rw [List.mem_singleton.mp h]
    exact ⟨rfl, rfl, rfl, hzero, rfl⟩

theorem mem_closeAccount {id : ℕ} {positions : List PositionEntry}
    (h : closure ∈ closeAccount market payout id positions) :
    closure.accountId = id ∧ closure.market = market ∧ closure.quantity ≠ 0 ∧
      closure.credit = signedPayout (outcomePrice payout closure.outcome) closure.quantity := by
  rcases List.mem_append.mp h with hyes | hno
  · obtain ⟨hid, hmarket, houtcome, hquantity, hcredit⟩ := mem_closeOutcome hyes
    exact ⟨hid, hmarket, hquantity, by rw [hcredit, houtcome]; rfl⟩
  · obtain ⟨hid, hmarket, houtcome, hquantity, hcredit⟩ := mem_closeOutcome hno
    exact ⟨hid, hmarket, hquantity, by rw [hcredit, houtcome]; rfl⟩

theorem mem_resolutionClosures {affected : List ℕ}
    (h : closure ∈ resolutionClosures P height market payout accounts affected) :
    closure.accountId ∈ affected ∧ closure.market = market ∧ closure.quantity ≠ 0 ∧
      closure.credit = signedPayout (outcomePrice payout closure.outcome) closure.quantity := by
  induction affected generalizing accounts with
  | nil => exact absurd h List.not_mem_nil
  | cons id affected ih =>
    rw [resolutionClosures] at h
    split at h
    · rcases List.mem_append.mp h with hhere | hlater
      · obtain ⟨rfl, hrest⟩ := mem_closeAccount hhere
        exact ⟨List.mem_cons_self, hrest⟩
      · obtain ⟨hmem, hrest⟩ := ih hlater
        exact ⟨List.mem_cons_of_mem _ hmem, hrest⟩
    · exact absurd h List.not_mem_nil

/-- Every closure of a replay was made by one of its resolutions. -/
theorem closedBy_of_mem_replayClosures {events : List SystemEventWitness}
    (h : closure ∈ replayClosures P height accounts events) : ClosedBy events closure := by
  induction events generalizing accounts with
  | nil => exact absurd h List.not_mem_nil
  | cons event events ih =>
    rw [replayClosures] at h
    split at h
    · rcases List.mem_append.mp h with hhere | hlater
      · cases event with
        | marketResolved market payout affected =>
          obtain ⟨hmem, rfl, hquantity, hcredit⟩ := mem_resolutionClosures hhere
          exact ⟨⟨payout, affected, List.mem_cons_self, hmem, hcredit,
            fun hfits => hcredit.trans (signedPayout_eq_floorPayout hfits)⟩, hquantity⟩
        | _ => exact absurd hhere List.not_mem_nil
      · obtain ⟨⟨payout, affected, hmem, hrest⟩, hquantity⟩ := ih hlater
        exact ⟨⟨payout, affected, List.mem_cons_of_mem _ hmem, hrest⟩, hquantity⟩
    · exact absurd h List.not_mem_nil

/-- **The balance sheet of a block.**  All balances together change by the credited deposits of the
vault, the claims, the refunds, the withdrawals, the payouts of closed positions, and what the
operator funds; no other event changes a balance. -/
theorem totalBalance_of_accepted (h : verifyFull P w = []) :
    totalBalance (accountsOf w.postSystemState) - totalBalance (accountsOf w.preState) =
      depositNanos (creditedDeposits w) + (w.systemEvents.map claimAmount).sum +
        (w.systemEvents.map refundAmount).sum - (w.systemEvents.map withdrawnAmount).sum +
        closureCredits (blockClosures P w) + (w.systemEvents.map operatorAmount).sum ∧
    (∀ closure ∈ blockClosures P w, ClosedBy w.systemEvents closure) ∧
    ∀ before event later accounts next, w.systemEvents = before ++ event :: later →
      replayEvents P w.header.height (accountsOf w.preState) before = .ok accounts →
      applyEvent P w.header.height accounts event = .ok next → movesBalance event = false →
        ∀ id, (next.get? id).map (fun a => a.balance) =
          (accounts.get? id).map fun a => a.balance := by
  have haccepted := verifyFull_eq_nil_iff.mp h
  refine ⟨?_, fun closure hclosure => closedBy_of_mem_replayClosures hclosure,
    fun before event later accounts next _ _ happly hevent id =>
      balance_of_not_movesBalance happly hevent id⟩
  obtain ⟨final, hreplay, htotal⟩ := totalBalance_postSystemState haccepted.system
  have hdeposits := dispositions_matched haccepted.sidecar.deposits
  rw [htotal, totalBalance_replay hreplay, sum_directCredit, sum_l1DepositAmount,
    sum_dispositionCredit hdeposits, creditedDeposits, blockClosures]
  ring

/-! ## Operator funding -/

/-- The block in which the operator funds account 1 with five nanos. -/
def fundedBlock (P : Primitives) : BlockWitness :=
  secondBlock P (idleContent [freshAccount P 1 0 []]
    [{ freshAccount P 1 5 [] with
        eventsDigest := updateDigest P 0 (encodeDepositEvent 5 2) }]
    (oneMarketSidecar P []) (oneMarketSidecar P []) [.deposit 1 5])

theorem verifyFull_fundedBlock (P : Primitives) : verifyFull P (fundedBlock P) = [] := by
  have huntouched : KeysUntouched [.deposit 1 5] :=
    List.forall_mem_singleton.mpr ⟨rfl, nofun⟩
  exact verifyFull_idle rfl ⟨huntouched, List.nodup_singleton 1, rfl,
      List.forall_mem_singleton.mpr rfl, List.forall_mem_singleton.mpr rfl, rfl, rfl, rfl, rfl⟩
    (sidecarAccepted_idle ⟨rfl, rfl⟩ ⟨rfl, rfl⟩ rfl ⟨rfl, rfl, rfl, rfl, rfl, rfl, rfl⟩) rfl

/-- The five nanos are the operator's. -/
theorem totalBalance_of_accepted_funded :
    operatorAmount (.deposit 1 5) = 5 ∧ ∀ P : Primitives, verifyFull P (fundedBlock P) = [] ∧
      totalBalance (accountsOf (fundedBlock P).postSystemState) =
        totalBalance (accountsOf (fundedBlock P).preState) + 5 := by
  refine ⟨rfl, fun P => ⟨verifyFull_fundedBlock P, ?_⟩⟩
  have hsheet := (totalBalance_of_accepted (verifyFull_fundedBlock P)).1
  have hright : depositNanos (creditedDeposits (fundedBlock P)) +
      ((fundedBlock P).systemEvents.map claimAmount).sum +
      ((fundedBlock P).systemEvents.map refundAmount).sum -
      ((fundedBlock P).systemEvents.map withdrawnAmount).sum +
      closureCredits (blockClosures P (fundedBlock P)) +
      ((fundedBlock P).systemEvents.map operatorAmount).sum = 5 := rfl
  rw [hright] at hsheet
  exact sub_eq_iff_eq_add'.mp hsheet

/-- **Operator funding is not backed by the vault.**  Without the operator's term the balance sheet
of an accepted block need not close. -/
theorem unbacked_funding_accepted :
    ¬ ∃ P : Primitives, ∀ w : BlockWitness, w.previousHeader.isSome → verifyFull P w = [] →
      totalBalance (accountsOf w.postSystemState) - totalBalance (accountsOf w.preState) =
        depositNanos (creditedDeposits w) + (w.systemEvents.map claimAmount).sum +
          (w.systemEvents.map refundAmount).sum - (w.systemEvents.map withdrawnAmount).sum +
          closureCredits (blockClosures P w) := by
  rintro ⟨P, hclaim⟩
  have hsheet : (5 : ℤ) = 0 := hclaim (fundedBlock P) rfl (verifyFull_fundedBlock P)
  omega

end Sybil.Verifier
