import Sybil.L1Protocol
import Sybil.Verifier.Quarantine

/-!
# Sidecar: withdrawals and deposits

Withdrawal leaves appear with a `WithdrawalCreated` event and disappear with a
terminal one.  The pass walks over the pre-state leaves, the created events, the
terminal events and the counter.  It has no walk over the leaves after the block,
and it does not compare a created id with the counter or with the leaves before
the block.

New deposits extend the vault's deposit tree, and each of them is either credited
or quarantined.

The source collects created events, terminal events and observed heights in one
loop; their reports are grouped by kind here.
-/

namespace Sybil.Verifier

open L1Protocol

/-! ## Withdrawal events -/

/-- A refund or a finalization; a finalization has no reason. -/
structure TerminalEvent where
  withdrawalId : ℕ
  accountId : ℕ
  amount : ℤ
  refund : Option WithdrawalRefundReasonWitness
  deriving DecidableEq

def createdEvent : SystemEventWitness → Option WithdrawalCreated
  | .withdrawalCreated created => some created
  | _ => none

def terminalEvent : SystemEventWitness → Option TerminalEvent
  | .withdrawalRefunded accountId withdrawalId amount reason =>
    some ⟨withdrawalId, accountId, amount, some reason⟩
  | .withdrawalFinalized accountId withdrawalId amount =>
    some ⟨withdrawalId, accountId, amount, none⟩
  | _ => none

def observedHeight : SystemEventWitness → Option ℕ
  | .l1BlockObserved height => some height
  | _ => none

/-- Withdrawals created in the block. -/
def createdEvents (events : List SystemEventWitness) : List WithdrawalCreated :=
  events.filterMap createdEvent

/-- Withdrawals that end in the block. -/
def terminalEvents (events : List SystemEventWitness) : List TerminalEvent :=
  events.filterMap terminalEvent

/-- L1 heights observed in the block. -/
def observedHeights (events : List SystemEventWitness) : List ℕ := events.filterMap observedHeight

/-- A violation of the withdrawal transition. -/
def withdrawalMismatch (details : String) : Violation := ⟨.sidecarWithdrawalMismatch, details⟩

/-- Leaves by id. -/
def keyedWithdrawals (withdrawals : List WithdrawalSnapshot) :
    OrdMap ℕ WithdrawalSnapshot × List Violation :=
  collectKeyed (fun leaf => leaf.withdrawalId)
    (fun leaf => withdrawalMismatch s!"duplicate withdrawal id {leaf.withdrawalId}") withdrawals

def keyedCreated (events : List SystemEventWitness) :
    OrdMap ℕ WithdrawalCreated × List Violation :=
  collectKeyed (fun created => created.withdrawalId)
    (fun created => withdrawalMismatch s!"duplicate WithdrawalCreated event {created.withdrawalId}")
    (createdEvents events)

def keyedTerminal (events : List SystemEventWitness) :
    OrdMap ℕ TerminalEvent × List Violation :=
  collectKeyed (fun terminal => terminal.withdrawalId)
    (fun terminal =>
      withdrawalMismatch s!"duplicate terminal event for withdrawal {terminal.withdrawalId}")
    (terminalEvents events)

def duplicateHeights (events : List SystemEventWitness) : List Violation :=
  (collectKeyed id (fun height => withdrawalMismatch s!"duplicate L1 height observation {height}")
    (observedHeights events)).2

/-! ## Checks of the withdrawal transition -/

/-- The counter is above every leaf. -/
def verifyNextAboveLeaves (bridge : BridgeStateSnapshot) (post : OrdMap ℕ WithdrawalSnapshot) :
    List Violation :=
  match post.keys.getLast? with
  | some maxWithdrawalId =>
    reportIf (bridge.nextWithdrawalId ≤ maxWithdrawalId)
      (withdrawalMismatch (s!"next_withdrawal_id {bridge.nextWithdrawalId} must be greater than " ++
        s!"committed withdrawal id {maxWithdrawalId}"))
  | none => []

/-- Observed heights advance. -/
def observeHeightStep (expected height : ℕ) : ℕ × List Violation :=
  if height ≤ expected then
    (expected, [withdrawalMismatch s!"L1 height observation {height} did not advance {expected}"])
  else (height, [])

/-- The observed height follows from the events. -/
def verifyObservedHeight (w : BlockWitness) : List Violation :=
  let run := reportLoop observeHeightStep w.preStateSidecar.bridge.observedL1Height
    (observedHeights w.systemEvents)
  run.2 ++ reportIf (w.stateSidecar.bridge.observedL1Height ≠ run.1)
    (withdrawalMismatch (s!"post observed_l1_height {w.stateSidecar.bridge.observedL1Height} != " ++
      s!"event-derived {run.1}"))

/-- What became of a pre-state leaf. -/
def verifyPreLeaf (terminal : OrdMap ℕ TerminalEvent) (post : OrdMap ℕ WithdrawalSnapshot)
    (entry : ℕ × WithdrawalSnapshot) : List Violation :=
  let (withdrawalId, preLeaf) := entry
  match terminal.contains withdrawalId, post.get? withdrawalId with
  | true, none => []
  | true, some _ => [withdrawalMismatch s!"terminal withdrawal {withdrawalId} was not pruned"]
  | false, some postLeaf =>
    reportIf (postLeaf ≠ preLeaf)
      (withdrawalMismatch s!"pre-existing withdrawal {withdrawalId} was silently edited")
  | false, none =>
    [withdrawalMismatch
      s!"pre-existing withdrawal {withdrawalId} was deleted without a terminal event"]

/-- A leaf agrees with the event that created it. -/
def leafMatchesCreated (leaf : WithdrawalSnapshot) (created : WithdrawalCreated)
    (amountNanos : ℕ) : Bool :=
  decide (leaf.accountId = created.accountId ∧ leaf.recipient = created.recipient ∧
    leaf.token = created.token ∧ leaf.amountTokenUnits = created.amountTokenUnits ∧
    leaf.amountNanos = amountNanos ∧ leaf.expiryHeight = created.expiryHeight ∧
    leaf.nullifier = created.nullifier)

/-- A created withdrawal has its leaf, unless it ended in the same block. -/
def verifyCreated (terminal : OrdMap ℕ TerminalEvent) (post : OrdMap ℕ WithdrawalSnapshot)
    (entry : ℕ × WithdrawalCreated) : List Violation :=
  let (withdrawalId, created) := entry
  match u64OfI64 created.amount with
  | none =>
    [withdrawalMismatch s!"withdrawal {withdrawalId} has negative amount {created.amount}"]
  | some amountNanos =>
    if terminal.contains withdrawalId then
      reportIf (post.contains withdrawalId = true)
        (withdrawalMismatch s!"same-block terminal withdrawal {withdrawalId} was not pruned")
    else
      match post.get? withdrawalId with
      | none =>
        [withdrawalMismatch (s!"WithdrawalCreated event {withdrawalId} missing from committed " ++
          "withdrawal leaves")]
      | some leaf =>
        reportIf (leafMatchesCreated leaf created amountNanos = false)
          (withdrawalMismatch
            (s!"WithdrawalCreated event {withdrawalId} does not match committed " ++
            "withdrawal leaf"))

/-- Owner, amount and expiry of a withdrawal that ends: from its leaf, or from its creation. -/
def terminalSource (pre post : OrdMap ℕ WithdrawalSnapshot) (created : OrdMap ℕ WithdrawalCreated)
    (withdrawalId : ℕ) : Option (ℕ × ℕ × ℕ) :=
  match (pre.get? withdrawalId).or (post.get? withdrawalId) with
  | some leaf => some (leaf.accountId, leaf.amountNanos, leaf.expiryHeight)
  | none =>
    (created.get? withdrawalId).map fun c => (c.accountId, c.amount.natAbs, c.expiryHeight)

/-- An expiry refund needs an observation beyond the expiry. -/
def verifyExpiryRefund (heights : List ℕ) (terminal : TerminalEvent) (expiry : ℕ) :
    List Violation :=
  match terminal.refund with
  | some (.l1Expired observedL1Height) =>
    reportIf (observedL1Height ≤ expiry ∨ observedL1Height ∉ heights)
      (withdrawalMismatch (s!"withdrawal {terminal.withdrawalId} expiry refund at L1 height " ++
        s!"{observedL1Height} is not justified by expiry {expiry}"))
  | _ => []

/-- A terminal event belongs to a known withdrawal of that owner and amount. -/
def verifyTerminal (pre post : OrdMap ℕ WithdrawalSnapshot) (created : OrdMap ℕ WithdrawalCreated)
    (heights : List ℕ) (entry : ℕ × TerminalEvent) : List Violation :=
  let (withdrawalId, terminal) := entry
  match terminalSource pre post created withdrawalId with
  | none =>
    [withdrawalMismatch s!"terminal event references unknown withdrawal {withdrawalId}"]
  | some (leafAccount, leafAmount, leafExpiry) =>
    verifyExpiryRefund heights terminal leafExpiry ++
    reportIf (terminal.accountId ≠ leafAccount ∨ u64OfI64 terminal.amount ≠ some leafAmount)
      (withdrawalMismatch
        s!"terminal event {withdrawalId} does not match withdrawal owner/amount")

/-- `a.saturating_add(b)` on unsigned words. -/
def saturatingAddU64 (a b : ℕ) : ℕ := min (a + b) (2 ^ 64 - 1)

/-- The counter advances by the number of created withdrawals. -/
def verifyNextAdvance (pre post : BridgeStateSnapshot) (createdCount : ℕ) : List Violation :=
  reportIf (post.nextWithdrawalId ≠ saturatingAddU64 pre.nextWithdrawalId createdCount)
    (withdrawalMismatch (s!"next_withdrawal_id {post.nextWithdrawalId} != pre " ++
      s!"{pre.nextWithdrawalId} + created {createdCount}"))

/-- Verify the transition of the withdrawal leaves. -/
def verifyWithdrawalTransition (w : BlockWitness) : List Violation :=
  let pre := keyedWithdrawals w.preStateSidecar.bridge.withdrawals
  let post := keyedWithdrawals w.stateSidecar.bridge.withdrawals
  let created := keyedCreated w.systemEvents
  let terminal := keyedTerminal w.systemEvents
  pre.2 ++ post.2 ++ verifyNextAboveLeaves w.stateSidecar.bridge post.1 ++
    created.2 ++ terminal.2 ++ duplicateHeights w.systemEvents ++
    verifyObservedHeight w ++
    pre.1.entries.flatMap (verifyPreLeaf terminal.1 post.1) ++
    created.1.entries.flatMap (verifyCreated terminal.1 post.1) ++
    terminal.1.entries.flatMap
      (verifyTerminal pre.1 post.1 created.1 (observedHeights w.systemEvents)) ++
    verifyNextAdvance w.preStateSidecar.bridge w.stateSidecar.bridge created.1.size

/-! ## Deposits -/

/-- The vault's leaf of a deposit. -/
def depositLeafFromWitness (d : L1DepositWitness) : DepositLeaf where
  chainId := d.chainId
  vaultAddress := d.vaultAddress
  depositId := d.depositId
  tokenAddress := d.tokenAddress
  sender := d.sender
  sybilAccountKey := d.sybilAccountKey
  amountTokenUnits := d.amountTokenUnits

/-- Nanos credited for a deposit: a thousand per token unit. -/
def depositAmountNanos (d : L1DepositWitness) : Option ℤ :=
  (checkedU64 (d.amountTokenUnits * 1000)).bind i64OfU64

/-- How a deposit was disposed of; a quarantined one has no account. -/
structure Disposition where
  accountId : Option ℕ
  amount : ℤ
  depositId : ℕ
  depositRoot : Digest
  sybilAccountKey : Digest
  deriving DecidableEq

def disposition : SystemEventWitness → Option Disposition
  | .l1Deposit accountId amount depositId depositRoot sybilAccountKey =>
    some ⟨some accountId, amount, depositId, depositRoot, sybilAccountKey⟩
  | .depositQuarantined amount depositId depositRoot sybilAccountKey =>
    some ⟨none, amount, depositId, depositRoot, sybilAccountKey⟩
  | _ => none

def dispositions (events : List SystemEventWitness) : List Disposition :=
  events.filterMap disposition

/-- Violations of the deposit cursor and of the deposit root. -/
def cursorMismatch (details : String) : Violation := ⟨.sidecarDepositCursorMismatch, details⟩

def rootMismatch (details : String) : Violation := ⟨.sidecarDepositRootMismatch, details⟩

/-- A credited deposit carries the key of its account. -/
def verifyDispositionKey (P : Primitives) (d : Disposition) : List Violation :=
  match d.accountId with
  | some accountId =>
    reportIf (d.sybilAccountKey ≠ bridgeAccountKey P accountId)
      (rootMismatch s!"L1Deposit event {d.depositId} has wrong account key")
  | none => []

/-- A disposed deposit has the amount of its leaf. -/
def verifyDispositionAmount (deposit : L1DepositWitness) (d : Disposition) : List Violation :=
  match depositAmountNanos deposit with
  | none => [⟨.settlementOverflow, s!"deposit {d.depositId} amount overflows nanos"⟩]
  | some expected =>
    reportIf (d.amount ≠ expected)
      (rootMismatch s!"L1Deposit event {d.depositId} amount {d.amount} != leaf amount {expected}")

/-- Check a disposition against the deposit at its position. -/
def verifyDisposition (P : Primitives) (newDeposits : List L1DepositWitness)
    (roots : List Digest) (entry : Disposition × ℕ) : List Violation :=
  let (d, index) := entry
  match newDeposits[index]? with
  | none => []
  | some deposit =>
    reportIf (deposit.depositId ≠ d.depositId)
      (cursorMismatch
        s!"L1Deposit event id {d.depositId} != delta deposit id {deposit.depositId}") ++
    reportIf (d.depositRoot ≠ (roots[index]?).getD deposit.depositRoot)
      (rootMismatch s!"L1Deposit event {d.depositId} carries wrong frontier root") ++
    reportIf (deposit.sybilAccountKey ≠ d.sybilAccountKey)
      (rootMismatch s!"deposit disposition event {d.depositId} has wrong account key") ++
    verifyDispositionKey P d ++ verifyDispositionAmount deposit d

/-- The disposition events are those of the new deposits, in order. -/
def verifyL1DepositEventsMatchDelta (P : Primitives) (w : BlockWitness) (roots : List Digest) :
    List Violation :=
  let ds := dispositions w.systemEvents
  let newDeposits := w.depositAccumulator.newDeposits
  reportIf (ds.length ≠ newDeposits.length)
    (cursorMismatch (s!"deposit disposition event count {ds.length} != deposit delta length " ++
      s!"{newDeposits.length}")) ++
  ds.zipIdx.flatMap (verifyDisposition P newDeposits roots)

/-- Debug text of bytes. -/
def dbgBytes (digest : Digest) : String :=
  "[" ++ ", ".intercalate (digest.toBytes.map toString) ++ "]"

/-- The frontier before the block has the root of the pre-state. -/
def verifyPreFrontier (P : Primitives) (accumulator : DepositAccumulatorWitness)
    (preRoot : Digest) : List Violation :=
  match depositRootFromFrontier P accumulator.preFrontier.toList accumulator.preCount with
  | some root =>
    reportIf (root ≠ preRoot)
      (rootMismatch
        s!"deposit pre-frontier root {dbgBytes root} != pre bridge root {dbgBytes preRoot}")
  | none =>
    [cursorMismatch s!"deposit pre_count {accumulator.preCount} exceeds tree capacity"]

/-- New deposits are numbered from the cursor on. -/
def verifyDepositId (preCount : ℕ) (entry : L1DepositWitness × ℕ) : List Violation :=
  reportIf (entry.1.depositId ≠ preCount + entry.2 + 1)
    (cursorMismatch (s!"new_deposits[{entry.2}].deposit_id {entry.1.depositId} != expected " ++
      s!"{preCount + entry.2 + 1}"))

/-- A new deposit carries the root after it. -/
def verifyDepositRoot (entry : L1DepositWitness × Digest) : List Violation :=
  reportIf (entry.1.depositRoot ≠ entry.2)
    (rootMismatch
      s!"deposit {entry.1.depositId} root does not match recomputed frontier root")

/-- Verify the deposits of the block against the vault's tree. -/
def verifyDepositAccumulator (P : Primitives) (w : BlockWitness) : List Violation :=
  let accumulator := w.depositAccumulator
  let pre := w.preStateSidecar.bridge
  let post := w.stateSidecar.bridge
  let newDeposits := accumulator.newDeposits
  reportIf (accumulator.preCount ≠ pre.depositCursor)
    (cursorMismatch (s!"deposit accumulator pre_count {accumulator.preCount} != pre bridge " ++
      s!"cursor {pre.depositCursor}")) ++
  verifyPreFrontier P accumulator pre.depositRoot ++
  match checkedU64 (accumulator.preCount + newDeposits.length) with
  | none => [cursorMismatch "deposit post count overflowed"]
  | some expectedPostCount =>
    reportIf (post.depositCursor ≠ expectedPostCount)
      (cursorMismatch (s!"post bridge cursor {post.depositCursor} != pre_count " ++
        s!"{accumulator.preCount} + new deposits {newDeposits.length}")) ++
    newDeposits.zipIdx.flatMap (verifyDepositId accumulator.preCount) ++
    match depositFrontierPrefixRoots P accumulator.preFrontier.toList accumulator.preCount
        (newDeposits.map depositLeafFromWitness) with
    | none => [cursorMismatch "deposit frontier fold exceeds tree capacity"]
    | some roots =>
      (newDeposits.zip roots).flatMap verifyDepositRoot ++
      reportIf (post.depositRoot ≠ roots.getLast?.getD pre.depositRoot)
        (rootMismatch "post bridge deposit_root does not match folded deposit frontier") ++
      verifyL1DepositEventsMatchDelta P w roots

end Sybil.Verifier
