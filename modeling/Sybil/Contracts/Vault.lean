import Sybil.Lib.OrdMap
import Sybil.L1Protocol

/-!
# `SybilVault`: normal withdrawals

The three entry points that queue, pay and cancel a withdrawal of the vault
contract.  A revert is an error and leaves the storage as it was; a call that
succeeds returns the new storage and the event it emits.  A Solidity mapping is an
`OrdMap`, and an absent entry reads as the zero record.

What the contract asks of others is an argument: `isAcceptedRoot` of the settlement
contract, `verify` of the proof verifier, the answer of the token's `transfer`, the
sender's role and the block's timestamp.
-/

namespace Sybil.Contracts

open L1Protocol

variable {nullifier : Digest}

/-- `SybilTypes.WithdrawalPublicInputs`. -/
structure WithdrawalPublicInputs where
  stateRoot : Digest
  height : ℕ
  nullifier : Digest
  recipient : EthAddress
  token : EthAddress
  amount : ℕ
  claimKind : Digest
  deriving DecidableEq

/-- A withdrawal that the vault has queued. -/
structure QueuedWithdrawal where
  recipient : EthAddress
  token : EthAddress
  amount : ℕ
  nullifier : Digest
  stateRoot : Digest
  height : ℕ
  requestedAt : ℕ
  executableAt : ℕ
  finalized : Bool
  canceled : Bool
  deriving DecidableEq

/-- What the mapping `withdrawals` holds for a key never written. -/
def QueuedWithdrawal.unset : QueuedWithdrawal :=
  ⟨0, 0, 0, 0, 0, 0, 0, 0, false, false⟩

/-- The storage of the vault that withdrawals read and write. -/
structure SybilVault where
  token : EthAddress
  withdrawalDelay : ℕ
  paused : Bool
  escapeModeActive : Bool
  nullifierUsed : OrdMap Digest Bool
  withdrawals : OrdMap Digest QueuedWithdrawal
  deriving DecidableEq

/-- Why a call reverted. -/
inductive VaultError where
  | contractPaused
  | withdrawalsDisabledInEscapeMode
  | unsupportedClaimKind (claimKind : Digest)
  | amountZero
  | tokenUnsupported (token : EthAddress)
  | unknownStateRoot (stateRoot : Digest)
  | withdrawalAlreadyUsed (nullifier : Digest)
  | invalidProof
  /-- A checked addition of the compiler. -/
  | arithmeticOverflow
  | unknownWithdrawal (nullifier : Digest)
  | withdrawalCanceled (nullifier : Digest)
  | withdrawalFinalized (nullifier : Digest)
  | withdrawalNotReady (nullifier : Digest) (executableAt : ℕ)
  | withdrawalCancelWindowElapsed (nullifier : Digest) (executableAt : ℕ)
  | transferFailed
  | notAdmin
  deriving DecidableEq

/-- The events of the three calls. -/
inductive VaultEvent where
  | withdrawalQueued (nullifier : Digest) (recipient token : EthAddress) (amount : ℕ)
      (stateRoot : Digest) (height requestedAt executableAt : ℕ)
  | withdrawalFinalized (nullifier : Digest) (recipient : EthAddress)
      (amount finalizedAt executableAt : ℕ)
  | withdrawalCancelled (nullifier : Digest) (recipient : EthAddress)
      (amount cancelledAt executableAt : ℕ) (reason : String)
  deriving DecidableEq

/-- `CLAIM_KIND_NORMAL`. -/
def claimKindNormal (P : Primitives) : Digest :=
  P.keccak256 (utf8 "sybil/claim-kind/normal-withdrawal/v1")

namespace SybilVault

/-- Read `nullifierUsed[nullifier]`. -/
def isUsed (vault : SybilVault) (nullifier : Digest) : Bool :=
  (vault.nullifierUsed.get? nullifier).getD false

/-- Read `withdrawals[nullifier]`. -/
def queued (vault : SybilVault) (nullifier : Digest) : QueuedWithdrawal :=
  (vault.withdrawals.get? nullifier).getD .unset

/-- The record that a request stores. -/
def queueRecord (inputs : WithdrawalPublicInputs) (requestedAt executableAt : ℕ) :
    QueuedWithdrawal where
  recipient := inputs.recipient
  token := inputs.token
  amount := inputs.amount
  nullifier := inputs.nullifier
  stateRoot := inputs.stateRoot
  height := inputs.height
  requestedAt
  executableAt
  finalized := false
  canceled := false

/-- Write `withdrawals[nullifier]`. -/
def store (vault : SybilVault) (nullifier : Digest) (record : QueuedWithdrawal) : SybilVault :=
  { vault with withdrawals := vault.withdrawals.insert nullifier record }

/-- Write `nullifierUsed[nullifier]`. -/
def markUsed (vault : SybilVault) (nullifier : Digest) (used : Bool) : SybilVault :=
  { vault with nullifierUsed := vault.nullifierUsed.insert nullifier used }

/-- Queue a withdrawal whose leaf is proved against an accepted state root. -/
def requestWithdrawal (P : Primitives) (isAcceptedRoot : Digest → Bool)
    (verify : WithdrawalPublicInputs → Bool) (timestamp : ℕ) (vault : SybilVault)
    (inputs : WithdrawalPublicInputs) : Except VaultError (SybilVault × VaultEvent) :=
  if vault.paused then .error .contractPaused
  else if vault.escapeModeActive then .error .withdrawalsDisabledInEscapeMode
  else if inputs.claimKind ≠ claimKindNormal P then
    .error (.unsupportedClaimKind inputs.claimKind)
  else if inputs.amount = 0 then .error .amountZero
  else if inputs.token ≠ vault.token then .error (.tokenUnsupported inputs.token)
  else if ¬isAcceptedRoot inputs.stateRoot then .error (.unknownStateRoot inputs.stateRoot)
  else if vault.isUsed inputs.nullifier then .error (.withdrawalAlreadyUsed inputs.nullifier)
  else if ¬verify inputs then .error .invalidProof
  else
    -- `uint64(block.timestamp)` truncates, the addition of the delay is checked.
    match checkedU64 (timestamp % 2 ^ 64 + vault.withdrawalDelay) with
    | none => .error .arithmeticOverflow
    | some executableAt =>
      .ok ((vault.markUsed inputs.nullifier true).store inputs.nullifier
          (queueRecord inputs (timestamp % 2 ^ 64) executableAt),
        .withdrawalQueued inputs.nullifier inputs.recipient inputs.token inputs.amount
          inputs.stateRoot inputs.height (timestamp % 2 ^ 64) executableAt)

/-- Pay a queued withdrawal once its delay is over. -/
def finalizeWithdrawal (transfers : Bool) (timestamp : ℕ) (vault : SybilVault)
    (nullifier : Digest) : Except VaultError (SybilVault × VaultEvent) :=
  if vault.paused ∧ ¬vault.escapeModeActive then .error .contractPaused
  else if (vault.queued nullifier).nullifier = 0 then .error (.unknownWithdrawal nullifier)
  else if (vault.queued nullifier).canceled then .error (.withdrawalCanceled nullifier)
  else if (vault.queued nullifier).finalized then .error (.withdrawalFinalized nullifier)
  else if timestamp < (vault.queued nullifier).executableAt then
    .error (.withdrawalNotReady nullifier (vault.queued nullifier).executableAt)
  else if ¬transfers then .error .transferFailed
  else
    .ok (vault.store nullifier { vault.queued nullifier with finalized := true },
      .withdrawalFinalized nullifier (vault.queued nullifier).recipient
        (vault.queued nullifier).amount (timestamp % 2 ^ 64)
        (vault.queued nullifier).executableAt)

/-- Cancel a queued withdrawal inside its delay and free its nullifier. -/
def cancelWithdrawal (isAdmin : Bool) (timestamp : ℕ) (vault : SybilVault)
    (nullifier : Digest) (reason : String) : Except VaultError (SybilVault × VaultEvent) :=
  if ¬isAdmin then .error .notAdmin
  else if vault.escapeModeActive then .error .withdrawalsDisabledInEscapeMode
  else if (vault.queued nullifier).nullifier = 0 then .error (.unknownWithdrawal nullifier)
  else if (vault.queued nullifier).finalized then .error (.withdrawalFinalized nullifier)
  else if (vault.queued nullifier).canceled then .error (.withdrawalCanceled nullifier)
  else if timestamp ≥ (vault.queued nullifier).executableAt then
    .error (.withdrawalCancelWindowElapsed nullifier (vault.queued nullifier).executableAt)
  else
    .ok ((vault.store nullifier { vault.queued nullifier with canceled := true }).markUsed
        nullifier false,
      .withdrawalCancelled nullifier (vault.queued nullifier).recipient
        (vault.queued nullifier).amount (timestamp % 2 ^ 64)
        (vault.queued nullifier).executableAt reason)

/-! ## Reading the storage after a write -/

@[simp] theorem queued_store (vault : SybilVault) (nullifier n : Digest)
    (record : QueuedWithdrawal) :
    (vault.store nullifier record).queued n = if n = nullifier then record else vault.queued n := by
  by_cases h : n = nullifier
  · simp [queued, store, h, OrdMap.get?_insert_self]
  · simp [queued, store, h, OrdMap.get?_insert_of_ne]

@[simp] theorem queued_markUsed (vault : SybilVault) (nullifier n : Digest) (used : Bool) :
    (vault.markUsed nullifier used).queued n = vault.queued n := rfl

@[simp] theorem isUsed_markUsed (vault : SybilVault) (nullifier n : Digest) (used : Bool) :
    (vault.markUsed nullifier used).isUsed n = if n = nullifier then used else vault.isUsed n := by
  by_cases h : n = nullifier
  · simp [isUsed, markUsed, h, OrdMap.get?_insert_self]
  · simp [isUsed, markUsed, h, OrdMap.get?_insert_of_ne]

@[simp] theorem isUsed_store (vault : SybilVault) (nullifier n : Digest)
    (record : QueuedWithdrawal) : (vault.store nullifier record).isUsed n = vault.isUsed n := rfl

/-! ## What a successful call has done -/

section Calls

variable {P : Primitives} {isAcceptedRoot : Digest → Bool}
  {verify : WithdrawalPublicInputs → Bool} {timestamp : ℕ} {vault vault' : SybilVault}
  {event : VaultEvent}

/-- A request that succeeds queues the proved leaf under an unused nullifier. -/
theorem requestWithdrawal_eq_ok {inputs : WithdrawalPublicInputs}
    (h : requestWithdrawal P isAcceptedRoot verify timestamp vault inputs =
      .ok (vault', event)) :
    isAcceptedRoot inputs.stateRoot = true ∧ vault.isUsed inputs.nullifier = false ∧
      verify inputs = true ∧ ∃ requestedAt executableAt,
        vault' = (vault.markUsed inputs.nullifier true).store inputs.nullifier
          (queueRecord inputs requestedAt executableAt) ∧
        event = .withdrawalQueued inputs.nullifier inputs.recipient inputs.token inputs.amount
          inputs.stateRoot inputs.height requestedAt executableAt := by
  unfold requestWithdrawal at h
  split_ifs at h with hp he hk ha ht hr hu hv
  split at h
  · exact absurd h (by simp)
  · next executableAt _ =>
    cases h
    exact ⟨by simpa using hr, by simpa using hu, by simpa using hv, _, _, rfl, rfl⟩

/-- A payment that succeeds was of a live entry, which is now finalized. -/
theorem finalizeWithdrawal_eq_ok {transfers : Bool}
    (h : finalizeWithdrawal transfers timestamp vault nullifier = .ok (vault', event)) :
    (vault.queued nullifier).nullifier ≠ 0 ∧ (vault.queued nullifier).canceled = false ∧
      (vault.queued nullifier).finalized = false ∧
      vault' = vault.store nullifier { vault.queued nullifier with finalized := true } ∧
      ∃ finalizedAt, event = .withdrawalFinalized nullifier (vault.queued nullifier).recipient
        (vault.queued nullifier).amount finalizedAt (vault.queued nullifier).executableAt := by
  unfold finalizeWithdrawal at h
  split_ifs at h with hp hn hc hf ht hx
  cases h
  exact ⟨hn, by simpa using hc, by simpa using hf, rfl, _, rfl⟩

/-- A cancellation that succeeds was of a live entry, whose nullifier is now free. -/
theorem cancelWithdrawal_eq_ok {isAdmin : Bool} {reason : String}
    (h : cancelWithdrawal isAdmin timestamp vault nullifier reason = .ok (vault', event)) :
    (vault.queued nullifier).nullifier ≠ 0 ∧ (vault.queued nullifier).finalized = false ∧
      (vault.queued nullifier).canceled = false ∧
      vault' = (vault.store nullifier { vault.queued nullifier with canceled := true }).markUsed
        nullifier false ∧
      ∃ cancelledAt, event = .withdrawalCancelled nullifier (vault.queued nullifier).recipient
        (vault.queued nullifier).amount cancelledAt (vault.queued nullifier).executableAt
        reason := by
  unfold cancelWithdrawal at h
  split_ifs at h with ha he hn hf hc ht
  cases h
  exact ⟨hn, by simpa using hf, by simpa using hc, rfl, _, rfl⟩

end Calls

/-! ## Live entries -/

/-- The vault has paid this nullifier or can still pay it. -/
def Holds (vault : SybilVault) (nullifier : Digest) : Prop :=
  (vault.queued nullifier).nullifier ≠ 0 ∧ (vault.queued nullifier).canceled = false

instance (vault : SybilVault) (nullifier : Digest) : Decidable (vault.Holds nullifier) :=
  inferInstanceAs (Decidable (_ ∧ _))

theorem not_holds_of_empty {vault : SybilVault} (h : vault.withdrawals = ∅) (n : Digest) :
    ¬vault.Holds n := by
  rintro ⟨hset, -⟩
  rw [queued, h, OrdMap.get?_empty] at hset
  exact hset rfl

/-- A write at one nullifier leaves the others alone. -/
theorem holds_store_of_ne {vault : SybilVault} {n : Digest} {record : QueuedWithdrawal}
    (hn : n ≠ nullifier) : (vault.store nullifier record).Holds n ↔ vault.Holds n := by
  rw [Holds, queued_store, if_neg hn, Holds]

end SybilVault

end Sybil.Contracts
