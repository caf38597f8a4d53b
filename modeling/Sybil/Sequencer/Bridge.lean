import Sybil.L1Protocol
import Sybil.Sequencer.Settlement

/-!
# Withdrawals in the sequencer

The withdrawal side of the sequencer's bridge: the request that debits an account
and inserts a leaf, the two observations of L1 that move a leaf through its states,
and the pruning of terminal leaves when a block is produced.

The calls change the sequencer in place and may fail half way, so a call returns the
sequencer it leaves behind together with its result.  Deposits and the quarantine
ledger are not used by withdrawals and are left out, as is the pre-block copy of an
account that the witness builder keeps.
-/

namespace Sybil.Sequencer

open L1Protocol

/-! ## Leaves -/

/-- Status of a withdrawal as the sequencer knows it. -/
inductive L1WithdrawalStatus where
  | notRequested
  | queued
  | finalized
  | cancelled
  | refunded
  deriving DecidableEq

inductive WithdrawalRefundReason where
  | l1Cancelled
  | l1Expired (observedL1Height : ℕ)
  deriving DecidableEq

inductive WithdrawalTransition where
  | unchanged
  | queued
  | finalized
  | refunded (reason : WithdrawalRefundReason)
  deriving DecidableEq

/-- A vault event as the indexer submits it. -/
structure BridgeWithdrawalL1Event where
  nullifier : Digest
  status : L1WithdrawalStatus
  eventAtUnix : ℕ
  executableAtUnix : Option ℕ
  txHash : Option Digest
  l1BlockHeight : ℕ
  deriving DecidableEq

variable {event : BridgeWithdrawalL1Event}

structure WithdrawalLeaf where
  withdrawalId : ℕ
  accountId : ℕ
  recipient : EthAddress
  tokenAddress : EthAddress
  amountTokenUnits : ℕ
  amountNanos : ℕ
  expiryHeight : ℕ
  nullifier : Digest
  createdAtHeight : ℕ
  l1Status : L1WithdrawalStatus
  l1RequestedAtUnix : Option ℕ
  l1ExecutableAtUnix : Option ℕ
  l1FinalizedAtUnix : Option ℕ
  l1CancelledAtUnix : Option ℕ
  l1TxHash : Option Digest
  deriving DecidableEq

namespace WithdrawalLeaf

/-- The states that absorb every later observation. -/
def isTerminal (leaf : WithdrawalLeaf) : Bool :=
  leaf.l1Status == .finalized || leaf.l1Status == .refunded

/-- The two fields that every event updates. -/
def noteEvent (leaf : WithdrawalLeaf) (event : BridgeWithdrawalL1Event) : WithdrawalLeaf :=
  { leaf with
    l1ExecutableAtUnix := event.executableAtUnix <|> leaf.l1ExecutableAtUnix
    l1TxHash := event.txHash <|> leaf.l1TxHash }

/-- Apply one source event through the withdrawal state machine. -/
def applyL1Event (leaf : WithdrawalLeaf) (event : BridgeWithdrawalL1Event) :
    WithdrawalLeaf × WithdrawalTransition :=
  if leaf.isTerminal then (leaf, .unchanged)
  else
    match event.status with
    | .notRequested => (leaf.noteEvent event, .unchanged)
    | .queued =>
      if leaf.l1Status = .notRequested then
        ({ leaf.noteEvent event with
            l1Status := .queued, l1RequestedAtUnix := some event.eventAtUnix }, .queued)
      else (leaf.noteEvent event, .unchanged)
    | .finalized =>
      ({ leaf.noteEvent event with
          l1Status := .finalized, l1FinalizedAtUnix := some event.eventAtUnix }, .finalized)
    | .cancelled =>
      ({ leaf.noteEvent event with
          l1Status := .refunded, l1CancelledAtUnix := some event.eventAtUnix },
        .refunded .l1Cancelled)
    -- `refunded` is a local terminal state, never an L1 source event.
    | .refunded => (leaf.noteEvent event, .unchanged)

/-- A height past the expiry refunds a leaf that is not terminal. -/
def observeL1Height (leaf : WithdrawalLeaf) (l1Height : ℕ) :
    WithdrawalLeaf × WithdrawalTransition :=
  if leaf.isTerminal ∨ l1Height ≤ leaf.expiryHeight then (leaf, .unchanged)
  else ({ leaf with l1Status := .refunded }, .refunded (.l1Expired l1Height))

/-- `leaf'` is `leaf` after observations: the claim is the same, and a terminal leaf has
not moved. -/
structure Follows (leaf leaf' : WithdrawalLeaf) : Prop where
  withdrawalId : leaf'.withdrawalId = leaf.withdrawalId
  accountId : leaf'.accountId = leaf.accountId
  recipient : leaf'.recipient = leaf.recipient
  tokenAddress : leaf'.tokenAddress = leaf.tokenAddress
  amountTokenUnits : leaf'.amountTokenUnits = leaf.amountTokenUnits
  amountNanos : leaf'.amountNanos = leaf.amountNanos
  expiryHeight : leaf'.expiryHeight = leaf.expiryHeight
  nullifier : leaf'.nullifier = leaf.nullifier
  terminal : leaf.isTerminal = true → leaf' = leaf

theorem Follows.refl (leaf : WithdrawalLeaf) : Follows leaf leaf :=
  ⟨rfl, rfl, rfl, rfl, rfl, rfl, rfl, rfl, fun _ => rfl⟩

theorem Follows.trans {a b c : WithdrawalLeaf} (hab : Follows a b) (hbc : Follows b c) :
    Follows a c where
  withdrawalId := hbc.withdrawalId.trans hab.withdrawalId
  accountId := hbc.accountId.trans hab.accountId
  recipient := hbc.recipient.trans hab.recipient
  tokenAddress := hbc.tokenAddress.trans hab.tokenAddress
  amountTokenUnits := hbc.amountTokenUnits.trans hab.amountTokenUnits
  amountNanos := hbc.amountNanos.trans hab.amountNanos
  expiryHeight := hbc.expiryHeight.trans hab.expiryHeight
  nullifier := hbc.nullifier.trans hab.nullifier
  terminal h := by
    obtain rfl := hab.terminal h
    exact hbc.terminal h

theorem follows_applyL1Event (leaf : WithdrawalLeaf) (event : BridgeWithdrawalL1Event) :
    Follows leaf (leaf.applyL1Event event).1 := by
  by_cases hterm : leaf.isTerminal
  · simpa [applyL1Event, hterm] using Follows.refl leaf
  · have hnot : leaf.isTerminal = true → False := hterm
    unfold applyL1Event
    rw [if_neg hterm]
    split
    all_goals first
      | exact ⟨rfl, rfl, rfl, rfl, rfl, rfl, rfl, rfl, fun h => (hnot h).elim⟩
      | split <;> exact ⟨rfl, rfl, rfl, rfl, rfl, rfl, rfl, rfl, fun h => (hnot h).elim⟩

theorem follows_observeL1Height (leaf : WithdrawalLeaf) (l1Height : ℕ) :
    Follows leaf (leaf.observeL1Height l1Height).1 := by
  unfold observeL1Height
  split_ifs with h
  · exact Follows.refl leaf
  · exact ⟨rfl, rfl, rfl, rfl, rfl, rfl, rfl, rfl, fun hterm => absurd (Or.inl hterm) h⟩

/-- An event refunds only a leaf that is not terminal, and only when it is a
cancellation. -/
theorem applyL1Event_refunded {leaf : WithdrawalLeaf} {reason : WithdrawalRefundReason}
    (h : (leaf.applyL1Event event).2 = .refunded reason) :
    leaf.isTerminal = false ∧ event.status = .cancelled ∧ reason = .l1Cancelled := by
  by_cases hterm : leaf.isTerminal
  · simp [applyL1Event, hterm] at h
  · unfold applyL1Event at h
    rw [if_neg hterm] at h
    refine ⟨by simpa using hterm, ?_⟩
    split at h
    case h_4 hstatus =>
      cases h
      exact ⟨hstatus, rfl⟩
    case h_2 => split at h <;> cases h
    all_goals cases h

/-- A finalization or a cancellation leaves the leaf terminal. -/
theorem isTerminal_applyL1Event (leaf : WithdrawalLeaf)
    (h : event.status = .finalized ∨ event.status = .cancelled) :
    (leaf.applyL1Event event).1.isTerminal = true := by
  unfold applyL1Event
  by_cases hterm : leaf.isTerminal
  · rw [if_pos hterm]
    exact hterm
  · rw [if_neg hterm]
    rcases h with h | h <;> rw [h] <;> rfl

/-- A height refunds exactly the leaves that are not terminal and whose expiry it
passes. -/
theorem observeL1Height_refunded {leaf : WithdrawalLeaf} {l1Height : ℕ}
    {reason : WithdrawalRefundReason} (h : (leaf.observeL1Height l1Height).2 = .refunded reason) :
    leaf.isTerminal = false ∧ leaf.expiryHeight < l1Height ∧ reason = .l1Expired l1Height := by
  unfold observeL1Height at h
  split_ifs at h with hkeep
  cases h
  push Not at hkeep
  exact ⟨by simpa using hkeep.1, hkeep.2, rfl⟩

end WithdrawalLeaf

/-! ## The sequencer -/

/-- The withdrawal part of the bridge state.  A leaf is stored under its own id. -/
structure BridgeState where
  observedL1Height : ℕ
  nextWithdrawalId : ℕ
  withdrawals : OrdMap ℕ WithdrawalLeaf
  keyed : ∀ id leaf, withdrawals.get? id = some leaf → leaf.withdrawalId = id

/-- The bridge of a new sequencer. -/
def BridgeState.initial : BridgeState := ⟨0, 1, ∅, fun _ _ h => by cases h⟩

/-- Write a leaf under its id. -/
def BridgeState.setLeaf (bridge : BridgeState) (leaf : WithdrawalLeaf) : BridgeState :=
  { bridge with
    withdrawals := bridge.withdrawals.insert leaf.withdrawalId leaf
    keyed := by
      intro id leaf' h
      rw [OrdMap.get?_insert] at h
      split_ifs at h with hid
      · cases h
        exact hid.symm
      · exact bridge.keyed id leaf' h }

/-- Remove leaves. -/
def BridgeState.removeLeaves (bridge : BridgeState) (ids : List ℕ) : BridgeState :=
  { bridge with
    withdrawals := bridge.withdrawals.eraseAll ids
    keyed := by
      intro id leaf h
      rw [OrdMap.get?_eraseAll] at h
      split_ifs at h
      exact bridge.keyed id leaf h }

/-- The system events that withdrawals record. -/
inductive BridgeEvent where
  | withdrawalCreated (accountId : ℕ) (amount : ℤ) (withdrawal : WithdrawalLeaf)
  | withdrawalRefunded (accountId withdrawalId : ℕ) (amount : ℤ) (reason : WithdrawalRefundReason)
  | withdrawalFinalized (accountId withdrawalId : ℕ) (amount : ℤ)
  | l1BlockObserved (height : ℕ)
  deriving DecidableEq

/-- The withdrawal that an event credits back. -/
def BridgeEvent.refundedId? : BridgeEvent → Option ℕ
  | .withdrawalRefunded _ withdrawalId _ _ => some withdrawalId
  | _ => none

/-- The withdrawal that an event ends. -/
def BridgeEvent.terminalId? : BridgeEvent → Option ℕ
  | .withdrawalRefunded _ withdrawalId _ _ => some withdrawalId
  | .withdrawalFinalized _ withdrawalId _ => some withdrawalId
  | _ => none

/-- The state of the sequencer that withdrawals read and write. -/
structure BlockSequencer where
  accounts : AccountStore
  /-- `order_book.reserved_balance`, zero for an account without resting orders. -/
  reserved : OrdMap ℕ ℤ
  bridge : BridgeState
  height : ℕ
  /-- Recorded since the last block. -/
  systemEvents : List BridgeEvent

inductive BridgeError where
  | amountZero
  | amountOverflow
  | insufficientAvailableBalance (required available : ℤ)
  | withdrawalExpired (expiryHeight observedL1Height : ℕ)
  deriving DecidableEq

/-- The text of a bridge error. -/
def BridgeError.message : BridgeError → String
  | .amountZero => "amount must be non-zero"
  | .amountOverflow => "amount overflows nanos"
  | .insufficientAvailableBalance required available =>
    s!"insufficient available balance: required {required}, available {available}"
  | .withdrawalExpired expiryHeight observedL1Height =>
    s!"withdrawal expiry {expiryHeight} is behind observed L1 height {observedL1Height}"

inductive SequencerError where
  /-- `Rejected`, with the reason `AccountNotFound`. -/
  | accountNotFound (orderId accountId : ℕ)
  | bridge (message : String)
  /-- The process stopped on an overflow or a missing entry. -/
  | stopped
  deriving DecidableEq

/-- The scale between a token unit and the nanos of a balance. -/
def nanosPerTokenUnit : ℕ := 1000

def amountTokenUnitsToNanos (amountTokenUnits : ℕ) : Except BridgeError ℕ :=
  if amountTokenUnits = 0 then .error .amountZero
  else
    match checkedU64 (amountTokenUnits * nanosPerTokenUnit) with
    | none => .error .amountOverflow
    | some nanos => .ok nanos

def amountTokenUnitsToI64Nanos (amountTokenUnits : ℕ) : Except BridgeError ℤ :=
  match amountTokenUnitsToNanos amountTokenUnits with
  | .error e => .error e
  | .ok amount =>
    match i64OfU64 amount with
    | none => .error .amountOverflow
    | some amount => .ok amount

/-- A withdrawal that a user asks for. -/
structure BridgeWithdrawalRequest where
  accountId : ℕ
  chainId : ℕ
  vaultAddress : EthAddress
  recipient : EthAddress
  tokenAddress : EthAddress
  amountTokenUnits : ℕ
  expiryHeight : ℕ
  deriving DecidableEq

namespace BlockSequencer

def recordSystemEvent (seq : BlockSequencer) (event : BridgeEvent) : BlockSequencer :=
  { seq with systemEvents := seq.systemEvents ++ [event] }

/-- `account.balance` becomes `balance`. -/
def setBalance (seq : BlockSequencer) (account : Account) (balance : ℤ) (accountId : ℕ) :
    BlockSequencer :=
  { seq with
    accounts :=
      { seq.accounts with
        accounts := seq.accounts.accounts.insert accountId { account with balance } } }

/-- `order_book.reserved_balance`. -/
def reservedBalance (seq : BlockSequencer) (accountId : ℕ) : ℤ :=
  (seq.reserved.get? accountId).getD 0

/-- Whether a withdrawal can be taken, and the nanos it debits. -/
def validateBridgeWithdrawal (seq : BlockSequencer) (request : BridgeWithdrawalRequest) :
    Except SequencerError ℤ :=
  match seq.accounts.accounts.get? request.accountId with
  | none => .error (.accountNotFound 0 request.accountId)
  | some account =>
    match amountTokenUnitsToI64Nanos request.amountTokenUnits with
    | .error e => .error (.bridge e.message)
    | .ok amount =>
      if request.expiryHeight < seq.bridge.observedL1Height then
        .error (.bridge (BridgeError.withdrawalExpired request.expiryHeight
          seq.bridge.observedL1Height).message)
      else
        match checkedI64 (account.balance - seq.reservedBalance request.accountId) with
        | none => .error .stopped
        | some available =>
          if amount > available then
            .error (.bridge (BridgeError.insufficientAvailableBalance amount available).message)
          else .ok amount

/-- The fields that the nullifier of a request commits to. -/
def nullifierFields (request : BridgeWithdrawalRequest) (withdrawalId : ℕ) : NullifierFields where
  chainId := request.chainId
  vaultAddress := request.vaultAddress
  withdrawalId
  accountId := request.accountId
  recipient := request.recipient
  tokenAddress := request.tokenAddress
  amountTokenUnits := request.amountTokenUnits

/-- The leaf that a request inserts. -/
def requestedLeaf (P : Primitives) (seq : BlockSequencer) (request : BridgeWithdrawalRequest)
    (amountNanos : ℕ) : WithdrawalLeaf where
  withdrawalId := seq.bridge.nextWithdrawalId
  accountId := request.accountId
  recipient := request.recipient
  tokenAddress := request.tokenAddress
  amountTokenUnits := request.amountTokenUnits
  amountNanos
  expiryHeight := request.expiryHeight
  nullifier := withdrawalNullifier P (nullifierFields request seq.bridge.nextWithdrawalId)
  createdAtHeight := min (seq.height + 1) (2 ^ 64 - 1)
  l1Status := .notRequested
  l1RequestedAtUnix := none
  l1ExecutableAtUnix := none
  l1FinalizedAtUnix := none
  l1CancelledAtUnix := none
  l1TxHash := none

/-- Count a withdrawal and store its leaf. -/
def openWithdrawal (seq : BlockSequencer) (leaf : WithdrawalLeaf) : BlockSequencer :=
  { seq with
    bridge :=
      { seq.bridge.setLeaf leaf with
        nextWithdrawalId := min (leaf.withdrawalId + 1) (2 ^ 64 - 1) } }

/-- Debit an account and open its withdrawal. -/
def requestBridgeWithdrawal (P : Primitives) (seq : BlockSequencer)
    (request : BridgeWithdrawalRequest) : BlockSequencer × Except SequencerError WithdrawalLeaf :=
  match seq.validateBridgeWithdrawal request with
  | .error e => (seq, .error e)
  | .ok amount =>
    match amountTokenUnitsToNanos request.amountTokenUnits with
    | .error e => (seq, .error (.bridge e.message))
    | .ok amountNanos =>
      match seq.accounts.accounts.get? request.accountId with
      | none => (seq, .error (.accountNotFound 0 request.accountId))
      | some account =>
        match checkedI64 (account.balance - amount) with
        | none => (seq, .error .stopped)
        | some balance =>
          (((seq.setBalance account balance request.accountId).openWithdrawal
              (seq.requestedLeaf P request amountNanos)).recordSystemEvent
                (.withdrawalCreated request.accountId amount
                  (seq.requestedLeaf P request amountNanos)),
            .ok (seq.requestedLeaf P request amountNanos))

/-- Credit or close a withdrawal whose leaf has moved. -/
def applyWithdrawalTransition (seq : BlockSequencer) (withdrawalId : ℕ)
    (transition : WithdrawalTransition) : BlockSequencer × Except SequencerError Unit :=
  match seq.bridge.withdrawals.get? withdrawalId with
  | none => (seq, .error .stopped)
  | some withdrawal =>
    match i64OfU64 withdrawal.amountNanos with
    | none => (seq, .error (.bridge BridgeError.amountOverflow.message))
    | some amount =>
      match transition with
      | .unchanged => (seq, .ok ())
      | .queued => (seq, .ok ())
      | .finalized =>
        (seq.recordSystemEvent (.withdrawalFinalized withdrawal.accountId withdrawalId amount),
          .ok ())
      | .refunded reason =>
        match seq.accounts.accounts.get? withdrawal.accountId with
        | none => (seq, .error (.accountNotFound 0 withdrawal.accountId))
        | some account =>
          match checkedI64 (account.balance + amount) with
          | none => (seq, .error (.bridge BridgeError.amountOverflow.message))
          | some balance =>
            ((seq.setBalance account balance withdrawal.accountId).recordSystemEvent
                (.withdrawalRefunded withdrawal.accountId withdrawalId amount reason),
              .ok ())

/-- Write a leaf that has moved and act on its transition. -/
def moveLeaf (seq : BlockSequencer) (moved : WithdrawalLeaf × WithdrawalTransition) :
    BlockSequencer × Except SequencerError Unit :=
  { seq with bridge := seq.bridge.setLeaf moved.1 }.applyWithdrawalTransition moved.1.withdrawalId
    moved.2

/-- One turn of the expiry loop; the leaf when it was refunded. -/
def observeWithdrawal (l1Height : ℕ) (seq : BlockSequencer) (withdrawalId : ℕ) :
    BlockSequencer × Except SequencerError (List WithdrawalLeaf) :=
  match seq.bridge.withdrawals.get? withdrawalId with
  | none => (seq, .error .stopped)
  | some leaf =>
    match seq.moveLeaf (leaf.observeL1Height l1Height) with
    | (seq, .error e) => (seq, .error e)
    | (seq, .ok ()) =>
      match (leaf.observeL1Height l1Height).2 with
      | .refunded _ => (seq, .ok [(leaf.observeL1Height l1Height).1])
      | _ => (seq, .ok [])

/-- The expiry loop. -/
def observeWithdrawals (l1Height : ℕ) :
    BlockSequencer → List ℕ → BlockSequencer × Except SequencerError (List WithdrawalLeaf)
  | seq, [] => (seq, .ok [])
  | seq, withdrawalId :: ids =>
    match observeWithdrawal l1Height seq withdrawalId with
    | (seq, .error e) => (seq, .error e)
    | (seq, .ok refunded) =>
      match observeWithdrawals l1Height seq ids with
      | (seq, .error e) => (seq, .error e)
      | (seq, .ok rest) => (seq, .ok (refunded ++ rest))

/-- Set the withdrawal clock. -/
def noteL1Height (seq : BlockSequencer) (l1Height : ℕ) : BlockSequencer :=
  { seq with bridge := { seq.bridge with observedL1Height := l1Height } }.recordSystemEvent
    (.l1BlockObserved l1Height)

/-- Advance the withdrawal clock and refund every newly expired active withdrawal in id
order. -/
def observeBridgeL1Height (seq : BlockSequencer) (l1Height : ℕ) :
    BlockSequencer × Except SequencerError (List WithdrawalLeaf) :=
  if l1Height ≤ seq.bridge.observedL1Height then (seq, .ok [])
  else
    observeWithdrawals l1Height (seq.noteL1Height l1Height) seq.bridge.withdrawals.keys

/-- The withdrawal that an event names. -/
def target? (seq : BlockSequencer) (event : BridgeWithdrawalL1Event) : Option WithdrawalLeaf :=
  seq.bridge.withdrawals.values.find? fun withdrawal => withdrawal.nullifier = event.nullifier

/-- Apply a vault event to the withdrawal it names, then observe the height of its block. -/
def applyBridgeWithdrawalL1Event (seq : BlockSequencer) (event : BridgeWithdrawalL1Event) :
    BlockSequencer × Except SequencerError (Option WithdrawalLeaf) :=
  match seq.target? event with
  | none =>
    match seq.observeBridgeL1Height event.l1BlockHeight with
    | (seq, .error e) => (seq, .error e)
    | (seq, .ok _) => (seq, .ok none)
  | some leaf =>
    match seq.moveLeaf (leaf.applyL1Event event) with
    | (seq, .error e) => (seq, .error e)
    | (seq, .ok ()) =>
      match seq.observeBridgeL1Height event.l1BlockHeight with
      | (seq, .error e) => (seq, .error e)
      | (seq, .ok _) => (seq, .ok (seq.bridge.withdrawals.get? leaf.withdrawalId))

/-- Block production takes the recorded events and removes the leaves they end. -/
def produceBlock (seq : BlockSequencer) : BlockSequencer :=
  { seq with
    bridge := seq.bridge.removeLeaves (seq.systemEvents.filterMap BridgeEvent.terminalId?)
    height := seq.height + 1
    systemEvents := [] }

/-! ## What a call can refund

`Advances cause seq seq'` is the one statement about a call that the rest needs: it
only appends events, it only moves leaves forward, and it refunds a withdrawal only
if the leaf before the call meets `cause`. -/

/-- The withdrawals that events credit back. -/
def refundedIds (events : List BridgeEvent) : List ℕ := events.filterMap BridgeEvent.refundedId?

/-- Leaves only move forward, and what is refunded meets `cause`. -/
structure Advances (cause : WithdrawalLeaf → Prop) (seq seq' : BlockSequencer) : Prop where
  events : ∃ new, seq'.systemEvents = seq.systemEvents ++ new ∧
    ∀ id ∈ refundedIds new, ∃ leaf, seq.bridge.withdrawals.get? id = some leaf ∧ cause leaf
  leaves : ∀ id leaf', seq'.bridge.withdrawals.get? id = some leaf' →
    ∃ leaf, seq.bridge.withdrawals.get? id = some leaf ∧ leaf.Follows leaf'
  next : seq'.bridge.nextWithdrawalId = seq.bridge.nextWithdrawalId

section Advances

variable {cause cause' : WithdrawalLeaf → Prop} {seq seq' seq'' : BlockSequencer}

/-- A step that neither refunds nor touches a leaf. -/
theorem Advances.of_same_leaves (hbridge : seq'.bridge.withdrawals = seq.bridge.withdrawals)
    (hnext : seq'.bridge.nextWithdrawalId = seq.bridge.nextWithdrawalId) {new : List BridgeEvent}
      (hevents : seq'.systemEvents = seq.systemEvents ++ new)
    (hnew : refundedIds new = []) : Advances cause seq seq' where
  events := ⟨new, hevents, fun id hid => by rw [hnew] at hid; cases hid⟩
  leaves id leaf' h := ⟨leaf', hbridge ▸ h, .refl leaf'⟩
  next := hnext

theorem Advances.refl (seq : BlockSequencer) : Advances cause seq seq :=
  .of_same_leaves rfl rfl (List.append_nil _).symm rfl

/-- Composition; the cause of the second step is read at the leaf before the first. -/
theorem Advances.trans (h : Advances cause seq seq') (h' : Advances cause' seq' seq'')
    (hback : ∀ id leaf leaf', seq.bridge.withdrawals.get? id = some leaf →
      seq'.bridge.withdrawals.get? id = some leaf' → leaf.Follows leaf' → cause' leaf' →
        cause leaf) : Advances cause seq seq'' where
  events := by
    obtain ⟨new, hnew, hcause⟩ := h.events
    obtain ⟨new', hnew', hcause'⟩ := h'.events
    refine ⟨new ++ new', by rw [hnew', hnew, List.append_assoc], ?_⟩
    intro id hid
    rw [refundedIds, List.filterMap_append, List.mem_append] at hid
    rcases hid with hid | hid
    · exact hcause id hid
    · obtain ⟨leaf', hleaf', hc⟩ := hcause' id hid
      obtain ⟨leaf, hleaf, hfollows⟩ := h.leaves id leaf' hleaf'
      exact ⟨leaf, hleaf, hback id leaf leaf' hleaf hleaf' hfollows hc⟩
  leaves := by
    intro id leaf'' h₂
    obtain ⟨leaf', h₁, hfollows'⟩ := h'.leaves id leaf'' h₂
    obtain ⟨leaf, h₀, hfollows⟩ := h.leaves id leaf' h₁
    exact ⟨leaf, h₀, hfollows.trans hfollows'⟩
  next := h'.next.trans h.next

theorem Advances.mono (h : Advances cause seq seq') (hc : ∀ leaf, cause leaf → cause' leaf) :
    Advances cause' seq seq' where
  events := by
    obtain ⟨new, hnew, hcause⟩ := h.events
    refine ⟨new, hnew, fun id hid => ?_⟩
    obtain ⟨leaf, hleaf, hl⟩ := hcause id hid
    exact ⟨leaf, hleaf, hc leaf hl⟩
  leaves := h.leaves
  next := h.next

/-- The account side of a transition: the leaves stay, and the only refund recorded is
that of a refunding transition. -/
theorem applyWithdrawalTransition_spec (seq : BlockSequencer) (id : ℕ)
    (transition : WithdrawalTransition) :
    (seq.applyWithdrawalTransition id transition).1.bridge = seq.bridge ∧
      ∃ new, (seq.applyWithdrawalTransition id transition).1.systemEvents =
          seq.systemEvents ++ new ∧
        ∀ i ∈ refundedIds new, i = id ∧ ∃ reason, transition = .refunded reason := by
  have hsame : ∃ new, seq.systemEvents = seq.systemEvents ++ new ∧
      ∀ i ∈ refundedIds new, i = id ∧ ∃ reason, transition = .refunded reason :=
    ⟨[], (List.append_nil _).symm, fun _ hi => by cases hi⟩
  unfold applyWithdrawalTransition
  split
  · exact ⟨rfl, hsame⟩
  · split
    · exact ⟨rfl, hsame⟩
    · split
      · exact ⟨rfl, hsame⟩
      · exact ⟨rfl, hsame⟩
      · exact ⟨rfl, _, rfl, fun _ hi => by cases hi⟩
      · next reason =>
        split
        · exact ⟨rfl, hsame⟩
        · split
          · exact ⟨rfl, hsame⟩
          · refine ⟨rfl, _, rfl, fun i hi => ?_⟩
            have hi' : i = id := by simpa [refundedIds, BridgeEvent.refundedId?] using hi
            exact ⟨hi', reason, rfl⟩

theorem advances_moveLeaf {leaf : WithdrawalLeaf}
    {moved : WithdrawalLeaf × WithdrawalTransition}
    (hleaf : seq.bridge.withdrawals.get? leaf.withdrawalId = some leaf)
    (hfollows : leaf.Follows moved.1)
    (hcause : ∀ reason, moved.2 = .refunded reason → cause leaf) :
    Advances cause seq (seq.moveLeaf moved).1 := by
  obtain ⟨hbridge, new, hnew, hrefunds⟩ := applyWithdrawalTransition_spec
    { seq with bridge := seq.bridge.setLeaf moved.1 } moved.1.withdrawalId moved.2
  refine ⟨⟨new, hnew, fun id hid => ?_⟩, fun id leaf' hget => ?_, ?_⟩
  · obtain ⟨rfl, reason, hreason⟩ := hrefunds id hid
    exact ⟨leaf, hfollows.withdrawalId ▸ hleaf, hcause reason hreason⟩
  · have hget' : (seq.bridge.withdrawals.insert moved.1.withdrawalId moved.1).get? id =
        some leaf' := by
      have := hget
      rw [moveLeaf, hbridge] at this
      exact this
    rw [OrdMap.get?_insert] at hget'
    split_ifs at hget' with hid
    · cases hget'
      exact ⟨leaf, by rw [hid, hfollows.withdrawalId]; exact hleaf, hfollows⟩
    · exact ⟨leaf', hget', .refl leaf'⟩
  · rw [moveLeaf, hbridge]
    rfl

/-- What a height refunds: leaves that are not terminal and whose expiry it passes. -/
def Expires (l1Height : ℕ) (leaf : WithdrawalLeaf) : Prop :=
  leaf.isTerminal = false ∧ leaf.expiryHeight < l1Height

theorem Expires.of_follows {l1Height : ℕ} {leaf leaf' : WithdrawalLeaf}
    (h : Expires l1Height leaf') (hfollows : leaf.Follows leaf') : Expires l1Height leaf := by
  refine ⟨?_, hfollows.expiryHeight ▸ h.2⟩
  by_contra hterm
  have hterm' : leaf.isTerminal = true := by simpa using hterm
  have := h.1
  rw [hfollows.terminal hterm', hterm'] at this
  cases this

theorem advances_observeWithdrawal (l1Height : ℕ) (seq : BlockSequencer) (id : ℕ) :
    Advances (Expires l1Height) seq (observeWithdrawal l1Height seq id).1 := by
  cases hget : seq.bridge.withdrawals.get? id with
  | none => simpa [observeWithdrawal, hget] using Advances.refl seq
  | some leaf =>
    have hstate : (observeWithdrawal l1Height seq id).1 =
        (seq.moveLeaf (leaf.observeL1Height l1Height)).1 := by
      simp only [observeWithdrawal, hget]
      rcases seq.moveLeaf (leaf.observeL1Height l1Height) with ⟨seq', _ | ⟨⟩⟩
      · rfl
      · dsimp only
        split <;> rfl
    rw [hstate]
    have hid : leaf.withdrawalId = id := seq.bridge.keyed id leaf hget
    refine advances_moveLeaf (hid ▸ hget) (leaf.follows_observeL1Height l1Height) ?_
    intro reason hreason
    obtain ⟨hterm, hexpiry, -⟩ := WithdrawalLeaf.observeL1Height_refunded hreason
    exact ⟨hterm, hexpiry⟩

/-- The expiry loop refunds only what expires at its height. -/
theorem advances_observeWithdrawals (l1Height : ℕ) (ids : List ℕ) (seq : BlockSequencer) :
    Advances (Expires l1Height) seq (observeWithdrawals l1Height seq ids).1 := by
  induction ids generalizing seq with
  | nil => exact .refl seq
  | cons id ids ih =>
    have hfirst := advances_observeWithdrawal l1Height seq id
    rw [observeWithdrawals]
    rcases hturn : observeWithdrawal l1Height seq id with ⟨seq', _ | refunded⟩
    · rwa [hturn] at hfirst
    · rw [hturn] at hfirst
      have hrest := hfirst.trans (ih seq') fun _ _ _ _ _ hfollows hexp => hexp.of_follows hfollows
      dsimp only
      rcases hloop : observeWithdrawals l1Height seq' ids with ⟨seq'', _ | rest⟩ <;>
        rwa [hloop] at hrest

/-- Observing a height refunds only what expires at it, and nothing when it is not new. -/
theorem advances_observeBridgeL1Height (seq : BlockSequencer) (l1Height : ℕ) :
    Advances (fun leaf => seq.bridge.observedL1Height < l1Height ∧ Expires l1Height leaf) seq
      (seq.observeBridgeL1Height l1Height).1 := by
  unfold observeBridgeL1Height
  split_ifs with hold
  · exact .refl seq
  · have hclock : Advances (fun leaf => seq.bridge.observedL1Height < l1Height ∧
        Expires l1Height leaf) seq (seq.noteL1Height l1Height) :=
      .of_same_leaves rfl rfl rfl rfl
    refine hclock.trans (advances_observeWithdrawals l1Height _ _) ?_
    intro _ _ _ _ _ hfollows hexp
    exact ⟨Nat.lt_of_not_le hold, hexp.of_follows hfollows⟩

/-- What an event can refund: the withdrawal it names when it is a cancellation, and what
the height of its block expires.  The withdrawal that it finalizes or cancels does not
expire with it. -/
def EventRefunds (seq : BlockSequencer) (event : BridgeWithdrawalL1Event)
    (leaf : WithdrawalLeaf) : Prop :=
  (event.status = .cancelled ∧ leaf.nullifier = event.nullifier) ∨
    (seq.bridge.observedL1Height < event.l1BlockHeight ∧ Expires event.l1BlockHeight leaf ∧
      ¬((event.status = .finalized ∨ event.status = .cancelled) ∧ seq.target? event = some leaf))

theorem target?_eq_some {leaf : WithdrawalLeaf} (h : seq.target? event = some leaf) :
    leaf.nullifier = event.nullifier ∧
      seq.bridge.withdrawals.get? leaf.withdrawalId = some leaf := by
  have hmem := List.mem_of_find?_eq_some h
  obtain ⟨id, hid⟩ := OrdMap.mem_values_iff.mp hmem
  refine ⟨by simpa using List.find?_some h, ?_⟩
  rw [seq.bridge.keyed id leaf hid]
  exact hid

/-- The sequencer after an event whose withdrawal could be moved. -/
theorem applyBridgeWithdrawalL1Event_of_target {leaf : WithdrawalLeaf}
    (htarget : seq.target? event = some leaf)
    (hmoved : seq.moveLeaf (leaf.applyL1Event event) = (seq', .ok ())) :
    (seq.applyBridgeWithdrawalL1Event event).1 =
      (seq'.observeBridgeL1Height event.l1BlockHeight).1 := by
  simp only [applyBridgeWithdrawalL1Event, htarget, hmoved]
  rcases seq'.observeBridgeL1Height event.l1BlockHeight with ⟨_, _ | _⟩ <;> rfl

theorem bridge_moveLeaf (seq : BlockSequencer) (moved : WithdrawalLeaf × WithdrawalTransition) :
    (seq.moveLeaf moved).1.bridge = seq.bridge.setLeaf moved.1 :=
  (applyWithdrawalTransition_spec _ _ _).1

/-- An event refunds only the withdrawal it cancels and what its height expires. -/
theorem advances_applyBridgeWithdrawalL1Event (seq : BlockSequencer)
    (event : BridgeWithdrawalL1Event) :
    Advances (EventRefunds seq event) seq (seq.applyBridgeWithdrawalL1Event event).1 := by
  cases htarget : seq.target? event with
  | none =>
    have hclock := advances_observeBridgeL1Height seq event.l1BlockHeight
    have hstate : (seq.applyBridgeWithdrawalL1Event event).1 =
        (seq.observeBridgeL1Height event.l1BlockHeight).1 := by
      simp only [applyBridgeWithdrawalL1Event, htarget]
      rcases seq.observeBridgeL1Height event.l1BlockHeight with ⟨_, _ | _⟩ <;> rfl
    rw [hstate]
    refine hclock.mono fun leaf hleaf => .inr ⟨hleaf.1, hleaf.2, ?_⟩
    rintro ⟨-, hsome⟩
    rw [htarget] at hsome
    cases hsome
  | some leaf =>
    obtain ⟨hnullifier, hget⟩ := target?_eq_some htarget
    have hmove : Advances (EventRefunds seq event) seq
        (seq.moveLeaf (leaf.applyL1Event event)).1 :=
      advances_moveLeaf hget (leaf.follows_applyL1Event event) fun reason hreason =>
        .inl ⟨(WithdrawalLeaf.applyL1Event_refunded hreason).2.1, hnullifier⟩
    have hbridge := seq.bridge_moveLeaf (leaf.applyL1Event event)
    rcases hturn : seq.moveLeaf (leaf.applyL1Event event) with ⟨seq', _ | ⟨⟩⟩
    · rw [hturn] at hmove
      simpa [applyBridgeWithdrawalL1Event, htarget, hturn] using hmove
    · rw [hturn] at hmove hbridge
      rw [applyBridgeWithdrawalL1Event_of_target htarget hturn]
      refine hmove.trans (advances_observeBridgeL1Height seq' event.l1BlockHeight) ?_
      rintro id leaf₀ leaf₁ hget₀ hget₁ hfollows ⟨hnew, hexp⟩
      have hsame : seq'.bridge.observedL1Height = seq.bridge.observedL1Height :=
        (congrArg BridgeState.observedL1Height hbridge).trans rfl
      refine .inr ⟨hsame ▸ hnew, hexp.of_follows hfollows, ?_⟩
      -- The leaf that the event ends is terminal when the height is observed.
      rintro ⟨hends, hsome⟩
      obtain rfl : leaf = leaf₀ := Option.some.inj (htarget.symm.trans hsome)
      have hid : (leaf.applyL1Event event).1.withdrawalId = id :=
        (leaf.follows_applyL1Event event).withdrawalId.trans (seq.bridge.keyed id leaf hget₀)
      have hleaf₁ : leaf₁ = (leaf.applyL1Event event).1 := by
        rw [show seq'.bridge = _ from hbridge, ← hid] at hget₁
        exact (Option.some.inj (OrdMap.get?_insert_self.symm.trans hget₁)).symm
      rw [hleaf₁] at hexp
      rw [Expires, WithdrawalLeaf.isTerminal_applyL1Event leaf hends] at hexp
      cases hexp.1

/-! ## What a request does -/

theorem amountTokenUnitsToNanos_eq_ok {units nanos : ℕ}
    (h : amountTokenUnitsToNanos units = .ok nanos) :
    nanos = nanosPerTokenUnit * units ∧ nanos < 2 ^ 64 := by
  unfold amountTokenUnitsToNanos at h
  split_ifs at h
  split at h
  · cases h
  · next n hn =>
    obtain ⟨hlt, rfl⟩ := checkedU64_eq_some_iff.mp hn
    cases h
    exact ⟨Nat.mul_comm _ _, hlt⟩

theorem validateBridgeWithdrawal_eq_ok {request : BridgeWithdrawalRequest} {amount : ℤ}
    (h : seq.validateBridgeWithdrawal request = .ok amount) :
    ∃ nanos : ℕ, amountTokenUnitsToNanos request.amountTokenUnits = .ok nanos ∧
      nanos < 2 ^ 63 ∧ amount = nanos := by
  unfold validateBridgeWithdrawal at h
  split at h
  · cases h
  · split at h
    · cases h
    · next amount' hamount =>
      split_ifs at h
      split at h
      · cases h
      · split_ifs at h
        cases h
        unfold amountTokenUnitsToI64Nanos at hamount
        split at hamount
        · cases hamount
        · next nanos hnanos =>
          split at hamount
          · cases hamount
          · next value hvalue =>
            cases hamount
            obtain ⟨hlt, hcast⟩ := i64OfU64_eq_some_iff.mp hvalue
            exact ⟨nanos, hnanos, hlt, hcast.symm⟩

/-- A request is refused without effect, or debits the account by the nanos of the leaf that it
opens. -/
theorem requestBridgeWithdrawal_cases (P : Primitives) (seq : BlockSequencer)
    (request : BridgeWithdrawalRequest) :
    (∃ e, seq.requestBridgeWithdrawal P request = (seq, .error e)) ∨
    ∃ account nanos, seq.accounts.accounts.get? request.accountId = some account ∧
      amountTokenUnitsToNanos request.amountTokenUnits = .ok nanos ∧ nanos < 2 ^ 63 ∧
      seq.requestBridgeWithdrawal P request =
        (((seq.setBalance account (account.balance - nanos) request.accountId).openWithdrawal
            (seq.requestedLeaf P request nanos)).recordSystemEvent
              (.withdrawalCreated request.accountId nanos (seq.requestedLeaf P request nanos)),
          .ok (seq.requestedLeaf P request nanos)) := by
  unfold requestBridgeWithdrawal
  split
  · next e _ => exact .inl ⟨e, rfl⟩
  · next amount hamount =>
    obtain ⟨nanos, hnanos, hlt, rfl⟩ := validateBridgeWithdrawal_eq_ok hamount
    rw [hnanos]
    dsimp only
    split
    · exact .inl ⟨_, rfl⟩
    · next account haccount =>
      split
      · exact .inl ⟨_, rfl⟩
      · next balance hbalance =>
        obtain ⟨-, rfl⟩ := checkedI64_eq_some_iff.mp hbalance
        exact .inr ⟨account, nanos, haccount, rfl, hlt, rfl⟩

theorem requestBridgeWithdrawal_events (P : Primitives) (seq : BlockSequencer)
    (request : BridgeWithdrawalRequest) :
    ∃ new, (seq.requestBridgeWithdrawal P request).1.systemEvents = seq.systemEvents ++ new ∧
      refundedIds new = [] := by
  rcases seq.requestBridgeWithdrawal_cases P request with ⟨e, h⟩ | ⟨account, nanos, -, -, -, h⟩
  · exact ⟨[], by rw [h, List.append_nil], rfl⟩
  · exact ⟨_, by rw [h]; rfl, rfl⟩

end Advances

end BlockSequencer

end Sybil.Sequencer
