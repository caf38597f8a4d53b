import Sybil.Contracts.VaultContract
import Sybil.Lib.Attempts

/-!
# Histories of the vault

Anybody calls the vault at any time and in any order.  A call that reverts changes nothing,
so a history is the log of the calls that succeeded.  `Effect` says once what such a call
does to the nullifiers and to the escape mode; the rest is induction over the log.

A nullifier is paid by `finalizeWithdrawal` or by `escapeClaim`.  What keeps the two apart is
the map they share: an entry that can still be paid has its nullifier marked as used, and a
nullifier that is not marked has never been paid.
-/

namespace Sybil.Contracts

open L1Protocol

/-- A call and the circumstances it is made in. -/
abbrev Transaction := CallContext × VaultCall

/-- A call that succeeded. -/
abbrev Executed := Transaction × Receipt

variable {P : Primitives} {change : VaultContract → VaultContract} {event : ContractEvent}
  {nullifier : Digest} {operation reason : String} {timestamp : ℕ} {transactions : List Transaction}

/-- The nullifier that a call reads or writes. -/
def VaultCall.nullifier? : VaultCall → Option Digest
  | .requestWithdrawal inputs _ => some inputs.nullifier
  | .finalizeWithdrawal nullifier => some nullifier
  | .cancelWithdrawal nullifier _ => some nullifier
  | .escapeClaim inputs _ => some inputs.nullifier
  | _ => none

def VaultCall.IsRequest : VaultCall → Prop
  | .requestWithdrawal _ _ => True
  | _ => False

def VaultCall.IsCancel : VaultCall → Prop
  | .cancelWithdrawal _ _ => True
  | _ => False

namespace VaultContract

/-- The history of the vault under the given calls. -/
def history (P : Primitives) : VaultContract → List Transaction → VaultContract × List Executed :=
  attempts fun c t => c.call P t.1 t.2

/-- The call sent tokens out on behalf of the nullifier. -/
def Pays (nullifier : Digest) (executed : Executed) : Bool :=
  executed.2.transfer.isSome && decide (executed.1.2.nullifier? = some nullifier)

/-- How often a nullifier was paid. -/
def payments (nullifier : Digest) (log : List Executed) : ℕ :=
  log.countP (Pays nullifier)

/-! ## What one call does -/

/-- Nullifiers and escape mode are as before. -/
structure Untouched (c c' : VaultContract) : Prop where
  isUsed : ∀ n, c'.isUsed n = c.isUsed n
  queued : ∀ n, c'.queued n = c.queued n
  active : c'.escapeModeActive = c.escapeModeActive
  root : c'.escapeStateRoot = c.escapeStateRoot
  height : c'.escapeHeight = c.escapeHeight

/-- What a successful call did to the nullifiers and to the escape mode. -/
inductive Effect (c c' : VaultContract) : VaultCall → Receipt → Prop
  | request {inputs : WithdrawalPublicInputs} {proof : Bytes} {receipt : Receipt}
      (record : QueuedWithdrawal) (inactive : c.escapeModeActive = false)
      (unused : c.isUsed inputs.nullifier = false) (open_ : record.finalized = false)
      (after : c' = { c with
        toSybilVault := (c.markUsed inputs.nullifier true).store inputs.nullifier record })
      (silent : receipt.transfer = none) : Effect c c' (.requestWithdrawal inputs proof) receipt
  | finalize {nullifier : Digest} {receipt : Receipt}
      (known : (c.queued nullifier).nullifier ≠ 0)
      (live : (c.queued nullifier).canceled = false)
      (open_ : (c.queued nullifier).finalized = false)
      (after : c' = { c with
        toSybilVault := c.store nullifier { c.queued nullifier with finalized := true } }) :
      Effect c c' (.finalizeWithdrawal nullifier) receipt
  | cancel {nullifier : Digest} {reason : String} {receipt : Receipt}
      (inactive : c.escapeModeActive = false)
      (known : (c.queued nullifier).nullifier ≠ 0)
      (live : (c.queued nullifier).canceled = false)
      (open_ : (c.queued nullifier).finalized = false)
      (after : c' = { c with
        toSybilVault := (c.store nullifier { c.queued nullifier with canceled := true }).markUsed
          nullifier false })
      (silent : receipt.transfer = none) :
      Effect c c' (.cancelWithdrawal nullifier reason) receipt
  | escape {inputs : EscapeClaimPublicInputs} {proof : Bytes} {receipt : Receipt}
      (active : c.escapeModeActive = true) (root : inputs.stateRoot = c.escapeStateRoot)
      (height : inputs.height = c.escapeHeight) (unused : c.isUsed inputs.nullifier = false)
      (after : c' = { c with toSybilVault := c.markUsed inputs.nullifier true }) :
      Effect c c' (.escapeClaim inputs proof) receipt
  | activate {receipt : Receipt} (activatedAt : ℕ) (inactive : c.escapeModeActive = false)
      (active : c'.escapeModeActive = true) (isUsed : ∀ n, c'.isUsed n = c.isUsed n)
      (queued : ∀ n, c'.queued n = c.queued n)
      (receipt_eq : receipt = ⟨none,
        [.escapeModeActivated c'.escapeHeight c'.escapeStateRoot activatedAt]⟩) :
      Effect c c' .activateEscapeMode receipt
  | other {call : VaultCall} {receipt : Receipt} (untouched : Untouched c c')
      (none_named : call.nullifier? = none) (not_activate : call ≠ .activateEscapeMode)
      (silent : receipt.transfer = none) : Effect c c' call receipt

section Calls

variable {ctx : CallContext} {c c' : VaultContract} {receipt : Receipt}

theorem inactive_of_requestWithdrawal {isAcceptedRoot : Digest → Bool}
    {verify : WithdrawalPublicInputs → Bool} {vault : SybilVault}
    {inputs : WithdrawalPublicInputs} {result : SybilVault × VaultEvent}
    (h : vault.requestWithdrawal P isAcceptedRoot verify timestamp inputs = .ok result) :
    vault.escapeModeActive = false := by
  unfold SybilVault.requestWithdrawal at h
  split_ifs at h with _ hactive
  all_goals simpa using hactive

/-- A cancellation succeeds only outside escape mode. -/
theorem inactive_of_cancelWithdrawal {isAdmin : Bool} {vault : SybilVault}
    {result : SybilVault × VaultEvent}
    (h : vault.cancelWithdrawal isAdmin timestamp nullifier reason = .ok result) :
    vault.escapeModeActive = false := by
  unfold SybilVault.cancelWithdrawal at h
  split_ifs at h with _ hactive
  all_goals simpa using hactive

theorem ofVault_eq_ok {transfer : Option (EthAddress × ℕ)}
    {result : Except VaultError (SybilVault × VaultEvent)}
    (h : c.ofVault transfer result = .ok (c', receipt)) :
    ∃ vault event, result = .ok (vault, event) ∧ c' = { c with toSybilVault := vault } ∧
      receipt.transfer = transfer := by
  obtain ⟨⟨vault, event⟩, hresult, h⟩ := bind_eq_ok.mp h
  cases Except.ok.inj h
  exact ⟨vault, event, mapError_eq_ok.mp hresult, rfl, rfl⟩

theorem effect_requestWithdrawal {inputs : WithdrawalPublicInputs} {proof : Bytes}
    (h : c.requestWithdrawal P ctx inputs proof = .ok (c', receipt)) :
    Effect c c' (.requestWithdrawal inputs proof) receipt := by
  obtain ⟨vault, event, hvault, hc', htransfer⟩ := ofVault_eq_ok h
  obtain ⟨-, hunused, -, requestedAt, executableAt, hafter, -⟩ :=
    SybilVault.requestWithdrawal_eq_ok hvault
  exact .request _ (inactive_of_requestWithdrawal hvault) hunused rfl (hafter ▸ hc') htransfer

theorem effect_finalizeWithdrawal (h : c.finalizeWithdrawal ctx nullifier = .ok (c', receipt)) :
    Effect c c' (.finalizeWithdrawal nullifier) receipt := by
  obtain ⟨vault, event, hvault, hc', -⟩ := ofVault_eq_ok h
  obtain ⟨hknown, hlive, hopen, hafter, -⟩ := SybilVault.finalizeWithdrawal_eq_ok hvault
  exact .finalize hknown hlive hopen (hafter ▸ hc')

theorem effect_cancelWithdrawal (h : c.cancelWithdrawal ctx nullifier reason = .ok (c', receipt)) :
    Effect c c' (.cancelWithdrawal nullifier reason) receipt := by
  obtain ⟨vault, event, hvault, hc', htransfer⟩ := ofVault_eq_ok h
  obtain ⟨hknown, hopen, hlive, hafter, -⟩ := SybilVault.cancelWithdrawal_eq_ok hvault
  exact .cancel (inactive_of_cancelWithdrawal hvault) hknown hlive hopen (hafter ▸ hc') htransfer

theorem effect_escapeClaim {inputs : EscapeClaimPublicInputs} {proof : Bytes}
    (h : c.escapeClaim P ctx inputs proof = .ok (c', receipt)) :
    Effect c c' (.escapeClaim inputs proof) receipt := by
  obtain ⟨_, hactive, h⟩ := bind_eq_ok.mp h
  obtain ⟨_, hroot, h⟩ := bind_eq_ok.mp h
  obtain ⟨_, hheight, h⟩ := bind_eq_ok.mp h
  obtain ⟨_, hexpected, h⟩ := bind_eq_ok.mp h
  obtain ⟨_, hunused, h⟩ := bind_eq_ok.mp h
  replace h := eq_ok_of_bind (eq_ok_of_bind h)
  rw [ensure_eq_ok] at hactive hroot hheight hexpected hunused
  rw [← hexpected] at h hunused
  cases Except.ok.inj h
  exact .escape hactive hroot hheight hunused rfl

theorem effect_activateEscapeMode (h : c.activateEscapeMode ctx = .ok (c', receipt)) :
    Effect c c' .activateEscapeMode receipt := by
  obtain ⟨_, hinactive, h⟩ := bind_eq_ok.mp h
  obtain ⟨deadline, -, h⟩ := bind_eq_ok.mp h
  replace h := eq_ok_of_bind (eq_ok_of_bind h)
  cases Except.ok.inj h
  exact .activate _ (ensure_eq_ok.mp hinactive) rfl (fun _ => rfl) (fun _ => rfl) rfl

/-! ### Deposits, pause and parameters leave nullifiers and escape mode alone -/

theorem untouched_deposit {amount : ℕ} {sybilAccountKey : Digest}
    (h : c.deposit P ctx amount sybilAccountKey = .ok (c', receipt)) :
    Untouched c c' ∧ receipt.transfer = none := by
  replace h := eq_ok_of_bind (eq_ok_of_bind (eq_ok_of_bind (eq_ok_of_bind h)))
  obtain ⟨depositId, -, h⟩ := bind_eq_ok.mp h
  cases Except.ok.inj h
  exact ⟨⟨fun _ => rfl, fun _ => rfl, rfl, rfl, rfl⟩, rfl⟩

theorem untouched_setPaused {paused : Bool} (h : c.setPaused ctx paused = .ok (c', receipt)) :
    Untouched c c' ∧ receipt.transfer = none := by
  obtain ⟨_, -, h⟩ := bind_eq_ok.mp h
  cases Except.ok.inj h
  exact ⟨⟨fun _ => rfl, fun _ => rfl, rfl, rfl, rfl⟩, rfl⟩

theorem untouched_cancelProposal {id : Digest}
    (h : c.cancelProposal ctx id = .ok (c', receipt)) :
    Untouched c c' ∧ receipt.transfer = none := by
  obtain ⟨_, -, h⟩ := bind_eq_ok.mp h
  obtain ⟨proposal, -, h⟩ := bind_eq_ok.mp h
  cases Except.ok.inj h
  exact ⟨⟨fun _ => rfl, fun _ => rfl, rfl, rfl, rfl⟩, rfl⟩

theorem untouched_proposeTimelock {operation : Digest} {data : Bytes}
    (h : c.proposeTimelock P ctx operation data = .ok (c', receipt)) :
    Untouched c c' ∧ receipt.transfer = none := by
  obtain ⟨_, -, h⟩ := bind_eq_ok.mp h
  obtain ⟨executableAt, -, h⟩ := bind_eq_ok.mp h
  cases Except.ok.inj h
  exact ⟨⟨fun _ => rfl, fun _ => rfl, rfl, rfl, rfl⟩, rfl⟩

/-- A timelocked change touches nothing if the change itself does not. -/
theorem untouched_executeTimelock {operation : Digest} {data : Bytes}
    (h : c.executeTimelock P ctx operation data change event = .ok (c', receipt))
    (hchange : ∀ c, Untouched c (change c)) : Untouched c c' ∧ receipt.transfer = none := by
  obtain ⟨proposal, -, h⟩ := bind_eq_ok.mp h
  obtain ⟨_, -, h⟩ := bind_eq_ok.mp h
  cases Except.ok.inj h
  have hafter := hchange { c with
    timelockProposals := c.timelockProposals.erase (c.proposalId P operation data) }
  exact ⟨⟨hafter.isUsed, hafter.queued, hafter.active, hafter.root, hafter.height⟩, rfl⟩

theorem untouched_proposeAddress {address : EthAddress}
    (h : proposeAddress P ctx operation c address = .ok (c', receipt)) :
    Untouched c c' ∧ receipt.transfer = none := by
  replace h := eq_ok_of_bind (eq_ok_of_bind h)
  exact untouched_proposeTimelock h

theorem untouched_executeAddress {address : EthAddress}
    (h : executeAddress P ctx operation c address change event = .ok (c', receipt))
    (hchange : ∀ c, Untouched c (change c)) : Untouched c c' ∧ receipt.transfer = none := by
  replace h := eq_ok_of_bind (eq_ok_of_bind h)
  exact untouched_executeTimelock h hchange

theorem untouched_proposeNumber {value : ℕ}
    (h : proposeNumber P ctx operation c value = .ok (c', receipt)) :
    Untouched c c' ∧ receipt.transfer = none := by
  obtain ⟨_, -, h⟩ := bind_eq_ok.mp h
  exact untouched_proposeTimelock h

theorem untouched_executeNumber {value : ℕ}
    (h : executeNumber P ctx operation c value change event = .ok (c', receipt))
    (hchange : ∀ c, Untouched c (change c)) : Untouched c c' ∧ receipt.transfer = none := by
  obtain ⟨_, -, h⟩ := bind_eq_ok.mp h
  exact untouched_executeTimelock h hchange

/-- Every call that succeeds has one of the effects. -/
theorem effect_of_call {call : VaultCall} (h : c.call P ctx call = .ok (c', receipt)) :
    Effect c c' call receipt := by
  have untouched : ∀ {call : VaultCall}, call.nullifier? = none → call ≠ .activateEscapeMode →
      Untouched c c' ∧ receipt.transfer = none → Effect c c' call receipt :=
    fun hnone hne heffect => .other heffect.1 hnone hne heffect.2
  cases call with
  | requestWithdrawal inputs proof => exact effect_requestWithdrawal h
  | finalizeWithdrawal nullifier => exact effect_finalizeWithdrawal h
  | cancelWithdrawal nullifier reason => exact effect_cancelWithdrawal h
  | escapeClaim inputs proof => exact effect_escapeClaim h
  | activateEscapeMode => exact effect_activateEscapeMode h
  | deposit amount key => exact untouched rfl nofun (untouched_deposit h)
  | pause | unpause => exact untouched rfl nofun (untouched_setPaused h)
  | cancelProposal id => exact untouched rfl nofun (untouched_cancelProposal h)
  | proposeVerifier | proposeEscapeVerifier | proposeAdminTransfer =>
    exact untouched rfl nofun (untouched_proposeAddress h)
  | proposeWithdrawalDelay | proposeEscapeTimeout | proposeAdminActionDelay =>
    exact untouched rfl nofun (untouched_proposeNumber h)
  | setVerifier | setEscapeVerifier | executeAdminTransfer =>
    exact untouched rfl nofun
      (untouched_executeAddress h fun _ => ⟨fun _ => rfl, fun _ => rfl, rfl, rfl, rfl⟩)
  | setWithdrawalDelay | setEscapeTimeout | executeAdminActionDelay =>
    exact untouched rfl nofun
      (untouched_executeNumber h fun _ => ⟨fun _ => rfl, fun _ => rfl, rfl, rfl, rfl⟩)

end Calls

/-! ## A nullifier is paid once -/

@[simp] theorem payments_nil (n : Digest) : payments n [] = 0 := rfl

theorem payments_concat (n : Digest) (log : List Executed) (executed : Executed) :
    payments n (log ++ [executed]) = payments n log + if Pays n executed then 1 else 0 := by
  rw [payments, payments, List.countP_append, List.countP_singleton]

/-- A call that sends nothing, or is for another nullifier, does not pay this one. -/
theorem payments_concat_of_silent {n : Digest} {log : List Executed} {executed : Executed}
    (h : executed.2.transfer = none ∨ executed.1.2.nullifier? ≠ some n) :
    payments n (log ++ [executed]) = payments n log := by
  have hpays : Pays n executed = false := by
    rcases h with h | h
    · rw [Pays, h]; rfl
    · rw [Pays, decide_eq_false h, Bool.and_false]
  rw [payments_concat, hpays]
  rfl

theorem payments_concat_le (n : Digest) (log : List Executed) (executed : Executed) :
    payments n (log ++ [executed]) ≤ payments n log + 1 := by
  rw [payments_concat]
  split_ifs <;> omega

/-- What ties the payments of a nullifier to the storage. -/
structure Accounted (n : Digest) (c : VaultContract) (log : List Executed) : Prop where
  paid_le : payments n log ≤ 1
  /-- A nullifier that is free was never paid. -/
  unused : c.isUsed n = false → payments n log = 0
  /-- An entry that is not canceled holds its nullifier. -/
  held : (c.queued n).nullifier ≠ 0 → (c.queued n).canceled = false → c.isUsed n = true
  /-- An entry that can be paid was not paid. -/
  payable : (c.queued n).nullifier ≠ 0 → (c.queued n).canceled = false →
    (c.queued n).finalized = false → payments n log = 0

variable {n : Digest} {c c' : VaultContract} {log : List Executed} {ctx : CallContext}
  {call : VaultCall} {receipt : Receipt}

/-- A call that reads and writes this nullifier as before and does not pay it. -/
theorem Accounted.of_same (h : Accounted n c log) (hused : c'.isUsed n = c.isUsed n)
    (hqueued : c'.queued n = c.queued n) {log' : List Executed}
    (hlog : payments n log' = payments n log) : Accounted n c' log' where
  paid_le := hlog ▸ h.paid_le
  unused := by rw [hused, hlog]; exact h.unused
  held := by rw [hqueued, hused]; exact h.held
  payable := by rw [hqueued, hlog]; exact h.payable

/-- A call leaves the nullifiers alone that it does not name. -/
theorem Effect.elsewhere (h : Effect c c' call receipt) (hn : call.nullifier? ≠ some n) :
    c'.isUsed n = c.isUsed n ∧ c'.queued n = c.queued n := by
  have other : ∀ {m : Digest}, some m ≠ some n → n ≠ m := fun hm hnm => hm (by rw [hnm])
  cases h with
  | request record _ _ _ hafter _ => simp [hafter, other hn]
  | finalize _ _ _ hafter => simp [hafter, other hn]
  | cancel _ _ _ _ hafter _ => simp [hafter, other hn]
  | escape _ _ _ _ hafter => simp [hafter, other hn]
  | activate _ _ _ hused hqueued _ => exact ⟨hused n, hqueued n⟩
  | other hsame _ _ _ => exact ⟨hsame.isUsed n, hsame.queued n⟩

/-- One call keeps the payments of every nullifier tied to the storage. -/
theorem Accounted.step (h : Accounted n c log) (heffect : Effect c c' call receipt) :
    Accounted n c' (log ++ [((ctx, call), receipt)]) := by
  by_cases hn : call.nullifier? = some n
  swap
  · obtain ⟨hused, hqueued⟩ := heffect.elsewhere hn
    exact h.of_same hused hqueued (payments_concat_of_silent (.inr hn))
  have hle := payments_concat_le n log ((ctx, call), receipt)
  have hsame : receipt.transfer = none →
      payments n (log ++ [((ctx, call), receipt)]) = payments n log :=
    fun hsilent => payments_concat_of_silent (.inl hsilent)
  cases heffect with
  | request record _ hunused _ hafter hsilent =>
    cases hn
    -- The nullifier was free, so nothing was paid on it before it was queued.
    have hzero := (hsame hsilent).trans (h.unused hunused)
    refine ⟨hzero.trans_le (Nat.zero_le 1), fun _ => hzero, fun _ _ => ?_, fun _ _ _ => hzero⟩
    simp [hafter]
  | finalize hknown hlive hopen hafter =>
    cases hn
    have hzero := h.payable hknown hlive hopen
    have hused : c'.isUsed n = true := by simpa [hafter] using h.held hknown hlive
    refine ⟨by omega, fun hfree => ?_, fun _ _ => hused, fun _ _ hunpaid => ?_⟩
    · exact absurd (hused.symm.trans hfree) (by simp)
    · simp [hafter] at hunpaid
  | cancel _ hknown hlive hopen hafter hsilent =>
    cases hn
    have hzero := (hsame hsilent).trans (h.payable hknown hlive hopen)
    refine ⟨hzero.trans_le (Nat.zero_le 1), fun _ => hzero, fun _ hnot => ?_, fun _ _ _ => hzero⟩
    simp [hafter] at hnot
  | @escape inputs _ _ _ _ _ hunused hafter =>
    obtain rfl := Option.some.inj hn
    have hzero := h.unused hunused
    have hused : c'.isUsed inputs.nullifier = true := by
      rw [hafter, SybilVault.isUsed_markUsed, if_pos rfl]
    refine ⟨by omega, fun hfree => ?_, fun _ _ => hused, fun hknown hlive _ => ?_⟩
    · exact absurd (hused.symm.trans hfree) (by simp)
    · -- An entry that is live would have held the nullifier that the claim found free.
      rw [hafter] at hknown hlive
      exact absurd ((h.held hknown hlive).symm.trans hunused) (by simp)
  | activate => cases hn
  | other _ hnone => exact absurd (hnone.symm.trans hn) nofun

/-- A vault that was just deployed. -/
structure Fresh (c : VaultContract) : Prop where
  unused : c.nullifierUsed = ∅
  unqueued : c.withdrawals = ∅
  inactive : c.escapeModeActive = false

theorem fresh_of_deploy {self admin token settlement verifier escapeVerifier : EthAddress}
    {withdrawalDelay escapeTimeout adminActionDelay : ℕ}
    (h : deploy P self admin token settlement verifier escapeVerifier withdrawalDelay escapeTimeout
      adminActionDelay timestamp = .ok c) : Fresh c := by
  replace h := eq_ok_of_bind (eq_ok_of_bind (eq_ok_of_bind (eq_ok_of_bind (eq_ok_of_bind h))))
  cases Except.ok.inj h
  exact ⟨rfl, rfl, rfl⟩

theorem Fresh.accounted (h : Fresh c) (n : Digest) : Accounted n c [] := by
  have hempty : (c.queued n).nullifier = 0 := by
    rw [SybilVault.queued, h.unqueued, OrdMap.get?_empty]
    rfl
  exact ⟨Nat.zero_le 1, fun _ => rfl, fun hknown => absurd hempty hknown, fun _ _ _ => rfl⟩

/-- The payments of a nullifier agree with the storage after every history. -/
theorem accounted_history (h : Fresh c) (transactions : List Transaction) (n : Digest) :
    Accounted n (history P c transactions).1 (history P c transactions).2 :=
  invariant_of_attempts (I := Accounted n)
    (fun _ _ _ _ _ hacc hcall => hacc.step (effect_of_call hcall)) (h.accounted n) transactions

/-! ## Outgoing transfers -/

/-- Tokens leave the vault only for a nullifier. -/
theorem Effect.exists_nullifier (h : Effect c c' call receipt)
    (htransfer : receipt.transfer.isSome = true) :
    (∃ n, call = .finalizeWithdrawal n) ∨ ∃ inputs proof, call = .escapeClaim inputs proof := by
  cases h with
  | finalize => exact .inl ⟨_, rfl⟩
  | escape => exact .inr ⟨_, _, rfl⟩
  | activate _ _ _ _ _ hreceipt => rw [hreceipt] at htransfer; exact absurd htransfer nofun
  | request _ _ _ _ _ hsilent => rw [hsilent] at htransfer; exact absurd htransfer nofun
  | cancel _ _ _ _ _ hsilent => rw [hsilent] at htransfer; exact absurd htransfer nofun
  | other _ _ _ hsilent => rw [hsilent] at htransfer; exact absurd htransfer nofun

/-- Every entry of the log was the effect of its call. -/
theorem exists_effect_of_mem {executed : Executed} (h : executed ∈ (history P c transactions).2) :
    ∃ d d', Effect d d' executed.1.2 executed.2 := by
  obtain ⟨before, after, hlog⟩ := List.append_of_mem h
  obtain ⟨_, _, d', -, -, hcall, -⟩ := exists_of_log_eq hlog
  exact ⟨_, d', effect_of_call hcall⟩

/-! ## A canceled entry is not paid -/

/-- The call requested the nullifier. -/
def RequestsIn (n : Digest) (log : List Executed) : Prop :=
  ∃ executed ∈ log, executed.1.2.IsRequest ∧ executed.1.2.nullifier? = some n

theorem RequestsIn.concat (h : RequestsIn n log) (executed : Executed) :
    RequestsIn n (log ++ [executed]) := by
  obtain ⟨requested, hmem, hrequest⟩ := h
  exact ⟨requested, List.mem_append_left _ hmem, hrequest⟩

/-- A canceled entry stays canceled until its nullifier is requested again. -/
theorem canceled_step (heffect : Effect c c' call receipt)
    (h : (c.queued n).canceled = true ∨ RequestsIn n log) :
    (c'.queued n).canceled = true ∨ RequestsIn n (log ++ [((ctx, call), receipt)]) := by
  rcases h with hcanceled | hrequested
  swap
  · exact .inr (hrequested.concat _)
  by_cases hn : call.nullifier? = some n
  swap
  · exact .inl ((heffect.elsewhere hn).2 ▸ hcanceled)
  cases heffect with
  | request => exact .inr ⟨_, List.mem_append_right _ (List.mem_singleton_self _), trivial, hn⟩
  | finalize _ hlive =>
    cases hn
    exact absurd (hlive.symm.trans hcanceled) (by simp)
  | cancel _ _ hlive =>
    cases hn
    exact absurd (hlive.symm.trans hcanceled) (by simp)
  | escape _ _ _ _ hafter => exact .inl (by rw [hafter]; exact hcanceled)
  | activate => cases hn
  | other _ hnone => exact absurd (hnone.symm.trans hn) nofun

theorem canceled_history (h : (c.queued n).canceled = true) (transactions : List Transaction) :
    ((history P c transactions).1.queued n).canceled = true ∨
      RequestsIn n (history P c transactions).2 := by
  have hstart : (c.queued n).canceled = true ∨ RequestsIn n [] := .inl h
  exact invariant_of_attempts (I := fun c log => (c.queued n).canceled = true ∨ RequestsIn n log)
    (fun _ _ _ _ _ hinv hcall => canceled_step (effect_of_call hcall) hinv) hstart transactions

/-- Between a cancellation and a payment of one nullifier it was requested again. -/
theorem requested_of_canceled {canceled paid : Executed} {before between after : List Executed}
    (hlog : (history P c transactions).2 = before ++ canceled :: (between ++ paid :: after))
    (hcanceled : canceled.1.2 = .cancelWithdrawal n reason)
    (hpaid : paid.1.2 = .finalizeWithdrawal n) : RequestsIn n between := by
  obtain ⟨_, rest, d, -, -, hcancel, hrest⟩ := exists_of_log_eq hlog
  have heffect := effect_of_call hcancel
  rw [hcanceled] at heffect
  have hd : (d.queued n).canceled = true := by
    cases heffect with
    | cancel _ _ _ _ hafter => simp [hafter]
    | other _ hnone => cases hnone
  -- From the cancellation on, the history is one of its own.
  obtain ⟨between', _, e, -, hbetween, hpay, -⟩ := exists_of_log_eq (congrArg Prod.snd hrest)
  rcases canceled_history (P := P) hd between' with hstill | hrequested
  · have hfinal := effect_of_call hpay
    rw [hpaid] at hfinal
    cases hfinal with
    | finalize _ hlive => exact absurd (hlive.symm.trans hstill) (by simp)
    | other _ hnone => cases hnone
  · exact hbetween ▸ hrequested

/-! ## Escape mode is for good -/

/-- Escape mode holds this root and height, and nothing was requested or canceled. -/
structure Escaped (root : Digest) (height : ℕ) (c : VaultContract) (log : List Executed) :
    Prop where
  active : c.escapeModeActive = true
  root_eq : c.escapeStateRoot = root
  height_eq : c.escapeHeight = height
  closed : ∀ executed ∈ log, ¬executed.1.2.IsRequest ∧ ¬executed.1.2.IsCancel

theorem Escaped.step {root : Digest} {height : ℕ} (h : Escaped root height c log)
    (heffect : Effect c c' call receipt) :
    Escaped root height c' (log ++ [((ctx, call), receipt)]) := by
  have closed : ¬call.IsRequest ∧ ¬call.IsCancel → ∀ executed ∈ log ++ [((ctx, call), receipt)],
      ¬executed.1.2.IsRequest ∧ ¬executed.1.2.IsCancel := by
    intro hcall executed hmem
    rcases List.mem_append.mp hmem with hold | hnew
    · exact h.closed executed hold
    · rw [List.mem_singleton.mp hnew]
      exact hcall
  cases heffect with
  | request _ hinactive => exact absurd (h.active.symm.trans hinactive) (by simp)
  | cancel hinactive => exact absurd (h.active.symm.trans hinactive) (by simp)
  | activate _ hinactive => exact absurd (h.active.symm.trans hinactive) (by simp)
  | finalize _ _ _ hafter =>
    subst hafter
    exact ⟨h.active, h.root_eq, h.height_eq, closed ⟨id, id⟩⟩
  | escape _ _ _ _ hafter =>
    subst hafter
    exact ⟨h.active, h.root_eq, h.height_eq, closed ⟨id, id⟩⟩
  | other hsame hnone =>
    refine ⟨hsame.active.trans h.active, hsame.root.trans h.root_eq,
      hsame.height.trans h.height_eq, closed ?_⟩
    cases call <;> first | exact ⟨id, id⟩ | cases hnone

/-- From a state in escape mode every further history keeps the mode, its root and its
height. -/
theorem escaped_history (h : c.escapeModeActive = true) (transactions : List Transaction) :
    Escaped c.escapeStateRoot c.escapeHeight (history P c transactions).1
      (history P c transactions).2 := by
  have hstart : Escaped c.escapeStateRoot c.escapeHeight c [] := ⟨h, rfl, rfl, nofun⟩
  exact invariant_of_attempts (I := Escaped c.escapeStateRoot c.escapeHeight)
    (fun _ _ _ _ _ hinv hcall => hinv.step (effect_of_call hcall)) hstart transactions

/-- What a call of `activateEscapeMode` has announced holds ever after. -/
theorem escaped_of_activated {activation : Executed} {before after : List Executed}
    (hlog : (history P c transactions).2 = before ++ activation :: after)
    (hactivation : activation.1.2 = .activateEscapeMode) :
    ∃ root height activatedAt,
      activation.2.events = [.escapeModeActivated height root activatedAt] ∧
      Escaped root height (history P c transactions).1 after := by
  obtain ⟨_, rest, d, -, -, hactivate, hrest⟩ := exists_of_log_eq hlog
  have heffect := effect_of_call hactivate
  rw [hactivation] at heffect
  cases heffect with
  | activate activatedAt _ hactive _ _ hreceipt =>
    refine ⟨d.escapeStateRoot, d.escapeHeight, activatedAt, by rw [hreceipt], ?_⟩
    have hkept := escaped_history (P := P) hactive rest
    rw [history, hrest] at hkept
    exact hkept
  | other _ _ hne => exact absurd rfl hne

/-- Every nullifier is paid at most once, by `finalizeWithdrawal` or by `escapeClaim`; a
canceled entry is paid only after it was requested again; escape mode, once activated, stays
with the root and height it announced, and neither requests nor cancellations succeed in it. -/
theorem nullifiers_paid_once {P : Primitives}
    {self admin token settlement verifier escapeVerifier : EthAddress}
    {withdrawalDelay escapeTimeout adminActionDelay timestamp : ℕ} {c : VaultContract}
    (hdeploy : deploy P self admin token settlement verifier escapeVerifier withdrawalDelay
      escapeTimeout adminActionDelay timestamp = .ok c) (transactions : List Transaction) :
    (∀ n, payments n (history P c transactions).2 ≤ 1) ∧
    (∀ executed ∈ (history P c transactions).2, executed.2.transfer.isSome = true →
      (∃ n, executed.1.2 = .finalizeWithdrawal n) ∨
        ∃ inputs proof, executed.1.2 = .escapeClaim inputs proof) ∧
    (∀ n reason canceled paid before between after,
      (history P c transactions).2 = before ++ canceled :: (between ++ paid :: after) →
      canceled.1.2 = .cancelWithdrawal n reason → paid.1.2 = .finalizeWithdrawal n →
      RequestsIn n between) ∧
    ∀ activation before after,
      (history P c transactions).2 = before ++ activation :: after →
      activation.1.2 = .activateEscapeMode →
      ∃ root height activatedAt,
        activation.2.events = [.escapeModeActivated height root activatedAt] ∧
        Escaped root height (history P c transactions).1 after := by
  refine ⟨fun n => ?_, fun executed hmem htransfer => ?_, fun n reason canceled paid before between
    after => requested_of_canceled, fun activation before after => escaped_of_activated⟩
  · exact (accounted_history (fresh_of_deploy hdeploy) transactions n).paid_le
  · obtain ⟨_, _, heffect⟩ := exists_effect_of_mem hmem
    exact heffect.exists_nullifier htransfer

/-- The token and the verifiers agree to everything, at the given time. -/
def agreeable (timestamp : ℕ) : CallContext where
  sender := 1
  timestamp
  chainId := 1
  isAcceptedRoot := fun _ => true
  latestRootVerifiedAt := 0
  latestStateRoot := 9
  latestHeight := 4
  verify := fun _ _ _ => true
  transfers := true

/-- A withdrawal of five units under nullifier 3. -/
def fiveUnits : WithdrawalPublicInputs :=
  ⟨9, 4, 3, 2, 1, 5, claimKindNormal (onlyKeccak fun _ => 0)⟩

/-- Request, cancel, request again and pay; then escape mode. -/
def reopened : List Transaction :=
  [(agreeable 1, .requestWithdrawal fiveUnits []), (agreeable 2, .cancelWithdrawal 3 "again"),
    (agreeable 3, .finalizeWithdrawal 3), (agreeable 4, .requestWithdrawal fiveUnits []),
    (agreeable 20, .finalizeWithdrawal 3), (agreeable 21, .finalizeWithdrawal 3),
    (agreeable 90, .activateEscapeMode), (agreeable 91, .requestWithdrawal fiveUnits [])]

/-- The reopened withdrawal is paid once. -/
theorem nullifiers_paid_once_reopened :
    ∃ c, deploy (onlyKeccak fun _ => 0) 1 1 1 1 1 1 10 50 5 0 = .ok c ∧
      (history (onlyKeccak fun _ => 0) c reopened).2.length = 5 ∧
      payments 3 (history (onlyKeccak fun _ => 0) c reopened).2 = 1 ∧
      payments 3 (history (onlyKeccak fun _ => 0) c reopened).2 ≤ 1 := by
  have hdeploy : deploy (onlyKeccak fun _ => 0) 1 1 1 1 1 1 10 50 5 0 = .ok _ := rfl
  exact ⟨_, hdeploy, by decide +kernel, by decide +kernel,
    (nullifiers_paid_once hdeploy reopened).1 3⟩

end VaultContract

end Sybil.Contracts
