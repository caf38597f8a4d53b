import Sybil.Verifier.Types

/-!
# The deposit quarantine

A deposit whose account does not exist is parked under the account's bridge key.
The pass replays the parked and claimed amounts and compares the result with the
ledger after the block.
-/

namespace Sybil.Verifier

/-- Key under which the deposits of an account arrive. -/
def bridgeAccountKey (P : Primitives) (accountId : ℕ) : Digest :=
  P.blake3 (utf8 "sybil/bridge/account-key/v1" ++ leBytes 8 accountId)

/-- Parked amounts by key. -/
abbrev QuarantineLedger := OrdMap Digest ℤ

/-- Read one ledger entry. -/
def ledgerStep (label : String) (ledger : QuarantineLedger) (entry : QuarantineEntrySnapshot) :
    Except String QuarantineLedger := do
  ensure (0 < entry.amount) s!"{label} quarantine entry has non-positive amount"
  ensure (ledger.contains entry.sybilAccountKey = false)
    s!"{label} quarantine ledger contains a duplicate key"
  pure (ledger.insert entry.sybilAccountKey entry.amount)

/-- A ledger with distinct keys and positive amounts. -/
def ledgerMap (entries : List QuarantineEntrySnapshot) (label : String) :
    Except String QuarantineLedger :=
  entries.foldlM (ledgerStep label) ∅

/-- Park a deposit. -/
def quarantine (ledger : QuarantineLedger) (key : Digest) (amount : ℤ) :
    QuarantineLedger × List String :=
  if amount ≤ 0 then (ledger, ["quarantined deposit amount must be positive"])
  else
    match checkedI64 ((ledger.get? key).getD 0 + amount) with
    | none => (ledger, ["quarantine accumulation overflowed"])
    | some updated => (ledger.insert key updated, [])

/-- Claim everything that is parked for an account. -/
def claim (P : Primitives) (ledger : QuarantineLedger) (accountId : ℕ) (key : Digest)
    (amount : ℤ) : QuarantineLedger × List String :=
  if bridgeAccountKey P accountId ≠ key then
    (ledger, [s!"quarantine claim key does not match committed account {accountId} bridge key"])
  else
    match ledger.get? key with
    | none => (ledger, ["quarantine claim references an absent entry (double claim)"])
    | some parked =>
      (ledger.erase key, reportIf (parked ≠ amount)
        s!"quarantine claim amount {amount} does not equal parked amount {parked}")

/-- Replay one event on the ledger. -/
def quarantineStep (P : Primitives) (ledger : QuarantineLedger) :
    SystemEventWitness → QuarantineLedger × List String
  | .depositQuarantined amount _ _ sybilAccountKey => quarantine ledger sybilAccountKey amount
  | .quarantineClaimed accountId amount sybilAccountKey =>
    claim P ledger accountId sybilAccountKey amount
  | _ => (ledger, [])

/-- The ledger before the block; empty when it is malformed. -/
def preLedger (w : BlockWitness) : QuarantineLedger × List String :=
  match ledgerMap w.preStateSidecar.bridge.quarantine "pre" with
  | .ok ledger => (ledger, [])
  | .error details => (∅, [details])

/-- Compare the claimed ledger with the replayed one. -/
def comparePostLedger (w : BlockWitness) (ledger : QuarantineLedger) : List String :=
  match ledgerMap w.stateSidecar.bridge.quarantine "post" with
  | .ok claimed =>
    reportIf (claimed ≠ ledger)
      "post quarantine ledger does not match witnessed quarantine/claim replay"
  | .error details => [details]

/-- Verify the transition of the quarantine ledger. -/
def verifyQuarantineTransition (P : Primitives) (w : BlockWitness) : List Violation :=
  let pre := preLedger w
  let run := reportLoop (quarantineStep P) pre.1 w.systemEvents
  let details :=
    pre.2 ++
    reportIf (w.previousHeader.isNone = true ∧ pre.1.entries.isEmpty = false)
      "genesis pre-state quarantine ledger must be empty" ++
    run.2 ++ comparePostLedger w run.1
  details.map fun text => ⟨.sidecarDepositCursorMismatch, text⟩

end Sybil.Verifier
