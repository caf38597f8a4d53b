import Mathlib
import Sybil.Verifier.Types

/-!
# Replay of system events

The verifier recomputes the account values after the system events of a block from
the authenticated pre-state and compares them with the claimed post-system state.

An event that cannot be applied is reported and skipped.  The source leaves the
account of such an event partly updated; the model leaves the state as it was, and
since the report already refuses the witness the verdict is the same.

`verifySystemTransition_eq_nil_iff` turns a silent pass into a successful replay
(`replayEvents`) whose result agrees with the claim account by account.
-/

namespace Sybil.Verifier

open Engine

variable {P : Primitives}

/-! ## Digest bytes -/

/-- Chain an event into a digest. -/
def updateDigest (P : Primitives) (current : Digest) (eventBytes : Bytes) : Digest :=
  P.blake3 (current.toBytes ++ eventBytes)

def encodeCreateAccountEvent (initialBalance : ℤ) (blockHeight : ℕ) : Bytes :=
  0x04 :: (leBytesInt 8 initialBalance ++ leBytes 8 blockHeight)

def encodeDepositEvent (amount : ℤ) (blockHeight : ℕ) : Bytes :=
  0x02 :: (leBytesInt 8 amount ++ leBytes 8 blockHeight)

def encodeL1DepositEvent (depositId : ℕ) (amount : ℤ) (depositRoot : Digest)
    (blockHeight : ℕ) : Bytes :=
  0x06 :: (leBytes 8 depositId ++ leBytesInt 8 amount ++ depositRoot.toBytes ++
    leBytes 8 blockHeight)

def encodeWithdrawalCreatedEvent (withdrawalId : ℕ) (amount : ℤ) (nullifier : Digest)
    (blockHeight : ℕ) : Bytes :=
  0x07 :: (leBytes 8 withdrawalId ++ leBytesInt 8 amount ++ nullifier.toBytes ++
    leBytes 8 blockHeight)

def encodeWithdrawalRefundedEvent (withdrawalId : ℕ) (amount : ℤ)
    (reason : WithdrawalRefundReasonWitness) (blockHeight : ℕ) : Bytes :=
  0x09 :: (leBytes 8 withdrawalId ++ leBytesInt 8 amount ++
    (match reason with
      | .l1Cancelled => [0]
      | .l1Expired observedL1Height => 1 :: leBytes 8 observedL1Height) ++
    leBytes 8 blockHeight)

def encodeResolutionEvent (marketId : MarketId) (payoutNanos : Nanos) (blockHeight : ℕ) : Bytes :=
  0x03 :: (leBytes 4 marketId ++ leBytes 8 payoutNanos ++ leBytes 8 blockHeight)

def encodeOrderCancelledEvent (orderId : ℕ) (marketIds : List MarketId) (side : OrderDirection)
    (remainingQuantity blockHeight : ℕ) : Bytes :=
  0x08 :: (leBytes 8 orderId ++ leBytes 8 marketIds.length ++ marketIds.flatMap (leBytes 4) ++
    leBytes 1 side.toByte ++ leBytes 8 remainingQuantity ++ leBytes 8 blockHeight)

def encodeKeyEvent (tag : UInt8) (key : KeyRecord) (blockHeight : ℕ) : Bytes :=
  tag :: (leBytes 1 key.authScheme ++ key.pubkeySec1.toBytes ++ leBytes 4 key.capabilityMask ++
    leBytes 8 blockHeight)

def encodeQuarantineClaimedEvent (amount : ℤ) (blockHeight : ℕ) : Bytes :=
  0x0c :: (leBytesInt 8 amount ++ leBytes 8 blockHeight)

/-! ## Account keys digest -/

/-- Canonical order of keys: public key, then scheme. -/
def KeyRecord.canonicalSortKey (key : KeyRecord) : FixedBytes 33 ×ₗ ℕ :=
  toLex (key.pubkeySec1, key.authScheme)

/-- Digest of a key set. -/
def accountKeysDigest (P : Primitives) (accountId : ℕ) (keys : List KeyRecord) : Digest :=
  let sorted := keys.mergeSort fun a b => decide (a.canonicalSortKey ≤ b.canonicalSortKey)
  P.sha256 (utf8 "sybil/state/account-keys-digest/v2" ++ leBytes 8 accountId ++
    leBytes 8 sorted.length ++
    sorted.flatMap fun key =>
      leBytes 1 key.authScheme ++ key.pubkeySec1.toBytes ++ leBytes 4 key.capabilityMask)

/-! ## One event -/

/-- Accounts by id. -/
abbrev Accounts := OrdMap ℕ AccountSnapshot

/-- `value + delta` on an `i64`. -/
def checkedAdd (value delta : ℤ) (accountId : ℕ) : Except String ℤ :=
  okOr (checkedI64 (value + delta)) s!"account {accountId} system balance arithmetic overflowed"

/-- Change one account, which must exist. -/
def updateAccount (accounts : Accounts) (accountId : ℕ)
    (f : AccountSnapshot → Except String AccountSnapshot) : Except String Accounts := do
  let account ← okOr (accounts.get? accountId)
    s!"system event references missing account {accountId}"
  let account ← f account
  pure (accounts.insert accountId account)

/-- Credit an amount that counts as a deposit. -/
def creditDeposit (P : Primitives) (accountId : ℕ) (amount : ℤ) (encoded : Bytes)
    (account : AccountSnapshot) : Except String AccountSnapshot := do
  let balance ← checkedAdd account.balance amount accountId
  let totalDeposited ← checkedAdd account.totalDeposited amount accountId
  pure { account with
    balance, totalDeposited, eventsDigest := updateDigest P account.eventsDigest encoded }

/-- Credit an amount to the balance only. -/
def creditBalance (P : Primitives) (accountId : ℕ) (amount : ℤ) (encoded : Bytes)
    (account : AccountSnapshot) : Except String AccountSnapshot := do
  let balance ← checkedAdd account.balance amount accountId
  pure { account with balance, eventsDigest := updateDigest P account.eventsDigest encoded }

/-- Debit a withdrawal. -/
def debitWithdrawal (P : Primitives) (accountId : ℕ) (amount : ℤ) (encoded : Bytes)
    (account : AccountSnapshot) : Except String AccountSnapshot := do
  let balance ← okOr (checkedI64 (account.balance - amount))
    s!"account {accountId} withdrawal debit overflowed"
  pure { account with balance, eventsDigest := updateDigest P account.eventsDigest encoded }

/-- Record an event that changes no value. -/
def logEvent (P : Primitives) (encoded : Bytes) (account : AccountSnapshot) :
    Except String AccountSnapshot :=
  .ok { account with eventsDigest := updateDigest P account.eventsDigest encoded }

/-- Does a position entry belong to an outcome? -/
def isPosition (market : MarketId) (outcome : ℕ) (entry : PositionEntry) : Bool :=
  decide (entry.1 = market ∧ entry.2.1 = outcome)

/-- Quantity of the last entry of an outcome; zero when there is none. -/
def positionOf (positions : List PositionEntry) (market : MarketId) (outcome : ℕ) : ℤ :=
  ((positions.filter (isPosition market outcome)).getLast?.map fun e => e.2.2).getD 0

/-- Remove the entries of an outcome and return the quantity of the last one. -/
def removePosition (positions : List PositionEntry) (market : MarketId) (outcome : ℕ) :
    ℤ × List PositionEntry :=
  (positionOf positions market outcome,
    positions.filter fun entry => !isPosition market outcome entry)

/-- Signed payout of a position; the notional is the unchecked one. -/
def signedNotional (price : Nanos) (quantity : ℤ) : Except String ℤ := do
  let signed ← okOr (i64OfU64 (notionalNanos price quantity.natAbs))
    "resolution notional exceeds i64"
  okOr (checkedI64 (signed * quantity.sign)) "resolution signed notional overflowed"

/-- Close both positions of an account in a resolved market. -/
def resolveAccount (P : Primitives) (height : ℕ) (market : MarketId) (payout : Nanos)
    (accountId : ℕ) (account : AccountSnapshot) : Except String AccountSnapshot := do
  let yes := removePosition account.positions market 0
  let no := removePosition yes.2 market 1
  let yesValue ← signedNotional payout yes.1
  let noValue ← signedNotional (nanosPerDollar - payout) no.1
  let balance ← checkedAdd account.balance yesValue accountId
  let balance ← checkedAdd balance noValue accountId
  pure { account with
    balance
    positions := no.2
    eventsDigest :=
      updateDigest P account.eventsDigest (encodeResolutionEvent market payout height) }

/-- Account and nonce of a client action. -/
def ClientActionWitness.accountNonce : ClientActionWitness → ℕ × ℕ
  | .order accountId _ nonce _ => (accountId, nonce)
  | .cancel accountId _ nonce _ => (accountId, nonce)
  | .mmBundle accountId _ _ _ nonce _ => (accountId, nonce)
  | .mmBundleReplace accountId _ _ _ _ nonce _ => (accountId, nonce)
  | .mmBundleCancel accountId _ _ nonce _ => (accountId, nonce)

/-- Advance the trading nonce. -/
def advanceNonce (accountId nonce : ℕ) (account : AccountSnapshot) :
    Except String AccountSnapshot :=
  if nonce ≤ account.lastTradingNonce then
    .error (s!"account {accountId} client-action nonce {nonce} is not above prior trading " ++
      s!"nonce {account.lastTradingNonce}")
  else .ok { account with lastTradingNonce := nonce }

/-- Apply the account effects of one system event. -/
def applyEvent (P : Primitives) (height : ℕ) (accounts : Accounts) :
    SystemEventWitness → Except String Accounts
  | .createAccount accountId initialBalance initialKeys =>
    if accounts.contains accountId then
      .error s!"CreateAccount duplicated account {accountId}"
    else
      .ok (accounts.insert accountId
        { id := accountId
          balance := initialBalance
          totalDeposited := initialBalance
          positions := []
          eventsDigest := updateDigest P 0 (encodeCreateAccountEvent initialBalance height)
          keysDigest := accountKeysDigest P accountId initialKeys
          lastTradingNonce := 0 })
  | .deposit accountId amount =>
    updateAccount accounts accountId
      (creditDeposit P accountId amount (encodeDepositEvent amount height))
  | .l1Deposit accountId amount depositId depositRoot _ =>
    updateAccount accounts accountId
      (creditDeposit P accountId amount
        (encodeL1DepositEvent depositId amount depositRoot height))
  | .withdrawalCreated w =>
    updateAccount accounts w.accountId
      (debitWithdrawal P w.accountId w.amount
        (encodeWithdrawalCreatedEvent w.withdrawalId w.amount w.nullifier height))
  | .withdrawalRefunded accountId withdrawalId amount reason =>
    updateAccount accounts accountId
      (creditBalance P accountId amount
        (encodeWithdrawalRefundedEvent withdrawalId amount reason height))
  | .marketResolved marketId payoutNanos affectedAccounts =>
    affectedAccounts.foldlM (fun accounts accountId =>
      updateAccount accounts accountId
        (resolveAccount P height marketId payoutNanos accountId)) accounts
  | .orderCancelled accountId orderId marketIds side remainingQuantity =>
    updateAccount accounts accountId
      (logEvent P (encodeOrderCancelledEvent orderId marketIds side remainingQuantity height))
  | .keyRegistered accountId key _ =>
    updateAccount accounts accountId (logEvent P (encodeKeyEvent 0x0a key height))
  | .keyRevoked accountId key _ =>
    updateAccount accounts accountId (logEvent P (encodeKeyEvent 0x0b key height))
  | .quarantineClaimed accountId amount _ =>
    updateAccount accounts accountId
      (creditDeposit P accountId amount (encodeQuarantineClaimedEvent amount height))
  | .clientActionAuthorized action =>
    updateAccount accounts action.accountNonce.1
      (advanceNonce action.accountNonce.1 action.accountNonce.2)
  | .depositQuarantined .. => .ok accounts
  | .withdrawalFinalized .. => .ok accounts
  | .l1BlockObserved _ => .ok accounts
  | .marketGroupExtended .. => .ok accounts

/-! ## The pass -/

/-- Snapshots by account id. -/
def accountsOf (snapshots : List AccountSnapshot) : Accounts :=
  OrdMap.ofList (snapshots.map fun account => (account.id, account))

/-- Apply an event, or report why it cannot be applied. -/
def replayStep (P : Primitives) (height : ℕ) (accounts : Accounts)
    (event : SystemEventWitness) : Accounts × List Violation :=
  match applyEvent P height accounts event with
  | .ok accounts => (accounts, [])
  | .error details => (accounts, [⟨.systemStateMismatch, details⟩])

/-- Quantities by market and outcome. -/
abbrev Positions := OrdMap (MarketId ×ₗ ℕ) ℤ

/-- Non-zero positions by market and outcome. -/
def normalizedPositions (account : AccountSnapshot) : Positions :=
  OrdMap.ofList ((account.positions.filter fun entry => entry.2.2 ≠ 0).map fun entry =>
    (toLex (entry.1, entry.2.1), entry.2.2))

/-- Do two snapshots agree in the values that system events determine? -/
def sameSystemValues (expected actual : AccountSnapshot) : Bool :=
  decide (expected.balance = actual.balance ∧
    expected.totalDeposited = actual.totalDeposited ∧
    normalizedPositions expected = normalizedPositions actual ∧
    expected.eventsDigest = actual.eventsDigest ∧
    expected.lastTradingNonce = actual.lastTradingNonce)

/-- Compare a replayed account with the claimed one. -/
def compareSystemAccount (replayed claimed : Accounts) (accountId : ℕ) : List Violation :=
  match replayed.get? accountId, claimed.get? accountId with
  | some expected, some actual =>
    reportIf (sameSystemValues expected actual = false)
      ⟨.systemStateMismatch,
        s!"account {accountId} post-system value state does not match system-event replay"⟩
  | some _, none =>
    [⟨.systemStateMismatch, s!"account {accountId} missing from post-system state"⟩]
  | none, some _ =>
    [⟨.systemStateMismatch, s!"unexpected account {accountId} in post-system state"⟩]
  | none, none => []

/-- The keys of two maps, in order. -/
def unionKeys {V W : Type} (m : OrdMap ℕ V) (m' : OrdMap ℕ W) : List ℕ :=
  (OrdMap.ofList ((m.keys ++ m'.keys).map fun k => (k, ()))).keys

/-- Replay the system events and compare with the claimed post-system state. -/
def verifySystemTransition (P : Primitives) (w : BlockWitness) : List Violation :=
  let run := reportLoop (replayStep P w.header.height) (accountsOf w.preState) w.systemEvents
  let claimed := accountsOf w.postSystemState
  run.2 ++ (unionKeys run.1 claimed).flatMap (compareSystemAccount run.1 claimed)

/-- The replay of a list of events, without the reports. -/
def replayEvents (P : Primitives) (height : ℕ) (accounts : Accounts)
    (events : List SystemEventWitness) : Except String Accounts :=
  events.foldlM (applyEvent P height) accounts

theorem replayEvents_cons_eq_ok {height : ℕ} {accounts final : Accounts}
    {event : SystemEventWitness} {events : List SystemEventWitness} :
    replayEvents P height accounts (event :: events) = .ok final ↔
      ∃ next, applyEvent P height accounts event = .ok next ∧
        replayEvents P height next events = .ok final :=
  foldlM_cons_eq_ok

theorem replay_silent_iff {height : ℕ} {accounts final : Accounts}
    {events : List SystemEventWitness} :
    reportLoop (replayStep P height) accounts events = (final, []) ↔
      replayEvents P height accounts events = .ok final := by
  induction events generalizing accounts with
  | nil => simp [replayEvents, pure, Except.pure]
  | cons event events ih =>
    rw [replayEvents_cons_eq_ok]
    cases h : applyEvent P height accounts event with
    | error details =>
      simp [reportLoop, replayStep, h]
    | ok next =>
      simp only [reportLoop, replayStep, h, List.nil_append, Except.ok.injEq, exists_eq_left']
      exact ih

theorem mem_unionKeys {V W : Type} {m : OrdMap ℕ V} {m' : OrdMap ℕ W} {k : ℕ} :
    k ∈ unionKeys m m' ↔ (∃ v, m.get? k = some v) ∨ ∃ v, m'.get? k = some v := by
  rw [unionKeys, OrdMap.mem_keys_iff, OrdMap.contains_ofList]
  simp [OrdMap.mem_keys_iff]

/-- **A silent system pass.**  The events replay without error, and the result has the accounts
and the values of the claimed post-system state. -/
theorem verifySystemTransition_eq_nil_iff {w : BlockWitness} :
    verifySystemTransition P w = [] ↔ ∃ final,
      replayEvents P w.header.height (accountsOf w.preState) w.systemEvents = .ok final ∧
      ∀ id, (final.get? id = none ∧ (accountsOf w.postSystemState).get? id = none) ∨
        ∃ expected actual, final.get? id = some expected ∧
          (accountsOf w.postSystemState).get? id = some actual ∧
          sameSystemValues expected actual = true := by
  simp only [verifySystemTransition, List.append_eq_nil_iff, List.flatMap_eq_nil_iff]
  constructor
  · rintro ⟨hrun, hcompare⟩
    refine ⟨_, replay_silent_iff.mp (Prod.ext rfl hrun), fun id => ?_⟩
    by_cases hid : id ∈ unionKeys
        (reportLoop (replayStep P w.header.height) (accountsOf w.preState) w.systemEvents).1
        (accountsOf w.postSystemState)
    · have hc := hcompare id hid
      unfold compareSystemAccount at hc
      split at hc
      · rename_i expected actual he ha
        exact Or.inr ⟨expected, actual, he, ha, by simpa using hc⟩
      · simp at hc
      · simp at hc
      · rename_i he ha
        exact Or.inl ⟨he, ha⟩
    · rw [mem_unionKeys, not_or] at hid
      refine Or.inl ⟨?_, ?_⟩
      · exact Option.eq_none_iff_forall_ne_some.mpr fun v hv => hid.1 ⟨v, hv⟩
      · exact Option.eq_none_iff_forall_ne_some.mpr fun v hv => hid.2 ⟨v, hv⟩
  · rintro ⟨final, hreplay, hagree⟩
    have hrun := replay_silent_iff.mpr hreplay
    rw [hrun]
    refine ⟨rfl, fun id _ => ?_⟩
    rcases hagree id with ⟨he, ha⟩ | ⟨expected, actual, he, ha, hsame⟩
    · simp [compareSystemAccount, he, ha]
    · simp [compareSystemAccount, he, ha, hsame]

end Sybil.Verifier
