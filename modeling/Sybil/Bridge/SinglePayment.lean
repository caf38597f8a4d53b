import Sybil.Contracts.Vault
import Sybil.Lib.Run
import Sybil.Sequencer.Bridge

/-!
# One payment for a withdrawal, across L1 and the sequencer

The vault and the sequencer as one machine.  A withdrawal can be paid on either side:
the vault transfers its tokens when it is finalized, and the sequencer credits its
amount back when the vault cancelled it or when its expiry height has passed.

## The dictionary

* `committed` is every block that the sequencer produced, with its state root and the
  withdrawal leaves under it; `accepted` is what the settlement contract has accepted
  of it.  Acceptance is for good, so `requestWithdrawal` may use any of it at any later
  time.
* `pending` is the queue of vault events that the indexer has yet to submit.  It is
  emptied from the front, and a height is observed only when its block is complete and
  every event up to it has been submitted: this is L1 order.
* `refunded` and `transferred` are the history of the two payments.

Everything else that the sequencer does to balances is the one action `trade`, which
replaces the account store.
-/

namespace Sybil.Bridge

open Contracts Sequencer L1Protocol

variable {txHash : Option Digest}

/-- A block of the sequencer as the settlement contract sees it. -/
structure Commitment where
  root : Digest
  height : ℕ
  leaves : List WithdrawalLeaf

/-- Both layers, the channel between them, and the payments so far. -/
structure System where
  vault : SybilVault
  l1Height : ℕ
  timestamp : ℕ
  pending : List BridgeWithdrawalL1Event
  sequencer : BlockSequencer
  committed : List Commitment
  accepted : List Commitment
  refunded : List WithdrawalLeaf
  transferred : List Digest

/-- `withdrawal_event_request` of the indexer. -/
def withdrawalEventRequest (event : VaultEvent) (txHash : Option Digest) (l1BlockHeight : ℕ) :
    BridgeWithdrawalL1Event :=
  match event with
  | .withdrawalQueued nullifier _ _ _ _ _ requestedAt executableAt =>
    ⟨nullifier, .queued, requestedAt, some executableAt, txHash, l1BlockHeight⟩
  | .withdrawalFinalized nullifier _ _ finalizedAt executableAt =>
    ⟨nullifier, .finalized, finalizedAt, some executableAt, txHash, l1BlockHeight⟩
  | .withdrawalCancelled nullifier _ _ cancelledAt executableAt _ =>
    ⟨nullifier, .cancelled, cancelledAt, some executableAt, txHash, l1BlockHeight⟩

inductive Action where
  | trade (accounts : AccountStore) (reserved : OrdMap ℕ ℤ)
  | requestBridgeWithdrawal (request : BridgeWithdrawalRequest)
  | produceBlock (root : Digest)
  | acceptRoot (index : ℕ)
  | advanceL1 (l1Height timestamp : ℕ)
  | requestWithdrawal (inputs : WithdrawalPublicInputs) (txHash : Option Digest)
  | finalizeWithdrawal (nullifier : Digest) (transfers : Bool) (txHash : Option Digest)
  | cancelWithdrawal (isAdmin : Bool) (nullifier : Digest) (reason : String)
      (txHash : Option Digest)
  | deliverEvent
  | observeHeight (l1Height : ℕ)

namespace System

/-- `settlement.isAcceptedRoot`. -/
def isAcceptedRoot (s : System) (root : Digest) : Bool :=
  s.accepted.any fun block => block.root = root

/-- The statement of a withdrawal proof: the leaf occurs under the state root. -/
def proves (s : System) (inputs : WithdrawalPublicInputs) : Bool :=
  s.committed.any fun block =>
    block.root = inputs.stateRoot && block.height = inputs.height &&
      block.leaves.any fun leaf =>
        leaf.nullifier = inputs.nullifier && leaf.recipient = inputs.recipient &&
          leaf.tokenAddress = inputs.token && leaf.amountTokenUnits = inputs.amount

/-- The leaves whose amounts a call of the sequencer has credited back. -/
def credited (seq seq' : BlockSequencer) : List WithdrawalLeaf :=
  (BlockSequencer.refundedIds (seq'.systemEvents.drop seq.systemEvents.length)).filterMap
    seq'.bridge.withdrawals.get?

/-- A call of the sequencer; the history notes its refunds. -/
def sequencerCall (s : System) (seq' : BlockSequencer) : System :=
  { s with sequencer := seq', refunded := s.refunded ++ credited s.sequencer seq' }

/-- A call of the vault that did not revert; its event is queued for the sequencer. -/
def vaultCall (s : System) (txHash : Option Digest)
    (result : Except VaultError (SybilVault × VaultEvent)) : Option System :=
  match result with
  | .error _ => none
  | .ok (vault, event) =>
    some { s with
      vault, pending := s.pending ++ [withdrawalEventRequest event txHash s.l1Height] }

/-- One step; `none` when the action is not possible. -/
def exec (P : Primitives) (s : System) : Action → Option System
  | .trade accounts reserved =>
    some { s with sequencer := { s.sequencer with accounts, reserved } }
  | .requestBridgeWithdrawal request =>
    some (s.sequencerCall (s.sequencer.requestBridgeWithdrawal P request).1)
  | .produceBlock root =>
    some { s with
      sequencer := s.sequencer.produceBlock
      committed := s.committed ++
        [⟨root, s.sequencer.produceBlock.height,
          s.sequencer.produceBlock.bridge.withdrawals.values⟩] }
  | .acceptRoot index =>
    (s.committed[index]?).map fun block => { s with accepted := s.accepted ++ [block] }
  | .advanceL1 l1Height timestamp =>
    if s.l1Height ≤ l1Height ∧ s.timestamp ≤ timestamp then some { s with l1Height, timestamp }
    else none
  | .requestWithdrawal inputs txHash =>
    s.vaultCall txHash
      (s.vault.requestWithdrawal P s.isAcceptedRoot s.proves s.timestamp inputs)
  | .finalizeWithdrawal nullifier transfers txHash =>
    (s.vaultCall txHash (s.vault.finalizeWithdrawal transfers s.timestamp nullifier)).map
      fun s' => { s' with transferred := s'.transferred ++ [nullifier] }
  | .cancelWithdrawal isAdmin nullifier reason txHash =>
    s.vaultCall txHash (s.vault.cancelWithdrawal isAdmin s.timestamp nullifier reason)
  | .deliverEvent =>
    match s.pending with
    | [] => none
    | event :: rest =>
      some ({ s with pending := rest }.sequencerCall
        (s.sequencer.applyBridgeWithdrawalL1Event event).1)
  | .observeHeight l1Height =>
    if l1Height < s.l1Height ∧ ∀ event ∈ s.pending, l1Height < event.l1BlockHeight then
      some (s.sequencerCall (s.sequencer.observeBridgeL1Height l1Height).1)
    else none

/-- Nothing has been requested on either side yet, and escape mode is off. -/
structure Initial (s : System) : Prop where
  escape : s.vault.escapeModeActive = false
  withdrawals : s.vault.withdrawals = ∅
  nullifierUsed : s.vault.nullifierUsed = ∅
  leaves : s.sequencer.bridge.withdrawals = ∅
  pending : s.pending = []
  committed : s.committed = []
  accepted : s.accepted = []
  refunded : s.refunded = []
  transferred : s.transferred = []

/-- Some withdrawal was both transferred by the vault and credited back. -/
def PaidTwice (s : System) : Prop := ∃ leaf ∈ s.refunded, leaf.nullifier ∈ s.transferred

end System

/-! ## What keeps the two payments apart -/

/-- Raising the observed height to `l1Height` expires only withdrawals that the vault does
not hold; `spared` is the one that the same call ends. -/
def ExpiresOnlyUnheld (s : System) (l1Height : ℕ) (spared : Option WithdrawalLeaf) : Prop :=
  s.sequencer.bridge.observedL1Height < l1Height →
    ∀ leaf ∈ s.sequencer.bridge.withdrawals.values,
      leaf.isTerminal = false → leaf.expiryHeight < l1Height → spared ≠ some leaf →
        ¬s.vault.Holds leaf.nullifier

/-- The withdrawal that an event finalizes or cancels. -/
def endedBy (seq : BlockSequencer) (event : BridgeWithdrawalL1Event) : Option WithdrawalLeaf :=
  if event.status = .finalized ∨ event.status = .cancelled then seq.target? event else none

/-- The condition on a step: a withdrawal is requested on L1 only while it has neither been
refunded nor cancelled, and a height reaches the sequencer only when no withdrawal that it
expires is held by the vault. -/
def Guard (s : System) : Action → Prop
  | .requestWithdrawal inputs _ =>
    (∀ leaf ∈ s.refunded, leaf.nullifier ≠ inputs.nullifier) ∧
      (s.vault.queued inputs.nullifier).canceled = false
  | .deliverEvent =>
    ∀ event ∈ s.pending.head?,
      ExpiresOnlyUnheld s event.l1BlockHeight (endedBy s.sequencer event)
  | .observeHeight l1Height => ExpiresOnlyUnheld s l1Height none
  | _ => True

/-- The invariant: what was refunded the vault does not hold, and what it transferred it
holds. -/
structure Separate (s : System) : Prop where
  used : ∀ n, s.vault.Holds n → s.vault.isUsed n = true
  cancelled : ∀ event ∈ s.pending, event.status = .cancelled →
    (s.vault.queued event.nullifier).canceled = true
  refunded : ∀ leaf ∈ s.refunded, ¬s.vault.Holds leaf.nullifier
  transferred : ∀ n ∈ s.transferred, s.vault.Holds n ∧ (s.vault.queued n).finalized = true

namespace Separate

variable {P : Primitives} {s s' : System}

theorem of_initial (h : s.Initial) : Separate s where
  used n hn := absurd hn (SybilVault.not_holds_of_empty h.withdrawals n)
  cancelled event hevent := by rw [h.pending] at hevent; cases hevent
  refunded leaf hleaf := by rw [h.refunded] at hleaf; cases hleaf
  transferred n hn := by rw [h.transferred] at hn; cases hn

theorem not_paidTwice (h : Separate s) : ¬s.PaidTwice := by
  rintro ⟨leaf, hrefunded, htransferred⟩
  exact h.refunded leaf hrefunded (h.transferred _ htransferred).1

/-! ### Calls of the sequencer -/

/-- A credited leaf is a leaf from before the call that met its cause, moved forward. -/
theorem mem_credited {cause : WithdrawalLeaf → Prop} {seq seq' : BlockSequencer}
    (hcall : BlockSequencer.Advances cause seq seq') {leaf' : WithdrawalLeaf}
    (hmem : leaf' ∈ System.credited seq seq') :
    ∃ leaf ∈ seq.bridge.withdrawals.values, leaf.Follows leaf' ∧ cause leaf := by
  obtain ⟨new, hnew, hcause⟩ := hcall.events
  rw [System.credited, hnew, List.drop_left, List.mem_filterMap] at hmem
  obtain ⟨id, hid, hget'⟩ := hmem
  obtain ⟨leaf, hget, hleaf⟩ := hcause id hid
  obtain ⟨leaf₀, hget₀, hfollows⟩ := hcall.leaves id leaf' hget'
  obtain rfl : leaf = leaf₀ := Option.some.inj (hget.symm.trans hget₀)
  exact ⟨leaf, OrdMap.mem_values_iff.mpr ⟨id, hget⟩, hfollows, hleaf⟩

/-- A call of the sequencer keeps the invariant if the vault holds nothing it refunds. -/
theorem sequencerCall (h : Separate s) {pending : List BridgeWithdrawalL1Event}
    (hpending : ∀ event ∈ pending, event ∈ s.pending) {cause : WithdrawalLeaf → Prop}
    {seq' : BlockSequencer} (hcall : BlockSequencer.Advances cause s.sequencer seq')
    (hcause : ∀ leaf ∈ s.sequencer.bridge.withdrawals.values, cause leaf →
      ¬s.vault.Holds leaf.nullifier) :
    Separate ({ s with pending }.sequencerCall seq') where
  used := h.used
  cancelled event hevent := h.cancelled event (hpending event hevent)
  refunded leaf' hleaf' := by
    rcases List.mem_append.mp hleaf' with hold | hnew
    · exact h.refunded leaf' hold
    · obtain ⟨leaf, hmem, hfollows, hleaf⟩ := mem_credited hcall hnew
      rw [hfollows.nullifier]
      exact hcause leaf hmem hleaf
  transferred := h.transferred

theorem requestBridgeWithdrawal (h : Separate s) (request : BridgeWithdrawalRequest) :
    Separate (s.sequencerCall (s.sequencer.requestBridgeWithdrawal P request).1) where
  used := h.used
  cancelled := h.cancelled
  refunded leaf hleaf := by
    obtain ⟨new, hnew, hnone⟩ := s.sequencer.requestBridgeWithdrawal_events P request
    have hcredited : System.credited s.sequencer
        (s.sequencer.requestBridgeWithdrawal P request).1 = [] := by
      rw [System.credited, hnew, List.drop_left, hnone]
      rfl
    rcases List.mem_append.mp hleaf with hold | hadded
    · exact h.refunded leaf hold
    · rw [hcredited] at hadded
      cases hadded
  transferred := h.transferred

theorem deliverEvent (h : Separate s) {event : BridgeWithdrawalL1Event}
    {rest : List BridgeWithdrawalL1Event} (hpending : s.pending = event :: rest)
    (hguard : ExpiresOnlyUnheld s event.l1BlockHeight (endedBy s.sequencer event)) :
    Separate ({ s with pending := rest }.sequencerCall
      (s.sequencer.applyBridgeWithdrawalL1Event event).1) := by
  refine h.sequencerCall (fun e he => hpending ▸ List.mem_cons_of_mem _ he)
    (s.sequencer.advances_applyBridgeWithdrawalL1Event event) ?_
  rintro leaf hmem (⟨hstatus, hnullifier⟩ | ⟨hnew, ⟨hterm, hexpiry⟩, hspared⟩)
  · -- The cancellation that is delivered has freed the entry.
    intro hholds
    have hcanceled := h.cancelled event (hpending ▸ List.mem_cons_self) hstatus
    rw [← hnullifier, hholds.2] at hcanceled
    cases hcanceled
  · refine hguard hnew leaf hmem hterm hexpiry fun hended => hspared ?_
    unfold endedBy at hended
    split_ifs at hended with hends
    exact ⟨hends, hended⟩

theorem observeHeight (h : Separate s) {l1Height : ℕ}
    (hguard : ExpiresOnlyUnheld s l1Height none) :
    Separate (s.sequencerCall (s.sequencer.observeBridgeL1Height l1Height).1) :=
  h.sequencerCall (fun _ he => he) (s.sequencer.advances_observeBridgeL1Height l1Height)
    fun leaf hmem hleaf => hguard hleaf.1 leaf hmem hleaf.2.1 hleaf.2.2 nofun

/-! ### Calls of the vault -/

theorem vaultCall_eq_some {result : Except VaultError (SybilVault × VaultEvent)}
    (h : s.vaultCall txHash result = some s') :
    ∃ vault event, result = .ok (vault, event) ∧
      s' = { s with
        vault, pending := s.pending ++ [withdrawalEventRequest event txHash s.l1Height] } := by
  unfold System.vaultCall at h
  split at h
  · cases h
  · next vault event => exact ⟨vault, event, rfl, (Option.some.inj h).symm⟩

/-- A request for a withdrawal that was neither refunded nor cancelled. -/
theorem requestWithdrawal (h : Separate s) {inputs : WithdrawalPublicInputs}
    {isAcceptedRoot : Digest → Bool} {verify : WithdrawalPublicInputs → Bool}
    (hfresh : ∀ leaf ∈ s.refunded, leaf.nullifier ≠ inputs.nullifier)
    (hlive : (s.vault.queued inputs.nullifier).canceled = false)
    (hcall : s.vaultCall txHash
      (s.vault.requestWithdrawal P isAcceptedRoot verify s.timestamp inputs) = some s') :
    Separate s' := by
  obtain ⟨vault, event, hok, rfl⟩ := vaultCall_eq_some hcall
  obtain ⟨-, hunused, -, requestedAt, executableAt, rfl, rfl⟩ :=
    SybilVault.requestWithdrawal_eq_ok hok
  refine ⟨fun n hn => ?_, fun event hevent hstatus => ?_, fun leaf hleaf => ?_, fun n hn => ?_⟩
  · rw [SybilVault.isUsed_store, SybilVault.isUsed_markUsed]
    split_ifs with hself
    · rfl
    · exact h.used n ((SybilVault.holds_store_of_ne hself).mp hn)
  · rcases List.mem_append.mp hevent with hold | hnew
    · have hcanceled := h.cancelled event hold hstatus
      have hother : event.nullifier ≠ inputs.nullifier := by
        intro heq
        rw [heq, hlive] at hcanceled
        cases hcanceled
      rw [SybilVault.queued_store, if_neg hother]
      exact hcanceled
    · rw [List.mem_singleton.mp hnew] at hstatus
      cases hstatus
  · exact fun hholds => h.refunded leaf hleaf
      ((SybilVault.holds_store_of_ne (hfresh leaf hleaf)).mp hholds)
  · obtain ⟨hholds, hfinal⟩ := h.transferred n hn
    have hother : n ≠ inputs.nullifier := by
      rintro rfl
      rw [h.used _ hholds] at hunused
      cases hunused
    refine ⟨(SybilVault.holds_store_of_ne hother).mpr hholds, ?_⟩
    rw [SybilVault.queued_store, if_neg hother]
    exact hfinal

theorem finalizeWithdrawal (h : Separate s) {nullifier : Digest} {transfers : Bool}
    (hcall : s.vaultCall txHash
      (s.vault.finalizeWithdrawal transfers s.timestamp nullifier) = some s') :
    Separate { s' with transferred := s'.transferred ++ [nullifier] } := by
  obtain ⟨vault, event, hok, rfl⟩ := vaultCall_eq_some hcall
  obtain ⟨hset, hcanceled, -, rfl, finalizedAt, rfl⟩ := SybilVault.finalizeWithdrawal_eq_ok hok
  have hqueued (n : Digest) :
      (s.vault.store nullifier { s.vault.queued nullifier with finalized := true }).queued n =
        if n = nullifier then { s.vault.queued nullifier with finalized := true }
        else s.vault.queued n := SybilVault.queued_store _ _ _ _
  have hholds (n : Digest) :
      (s.vault.store nullifier { s.vault.queued nullifier with finalized := true }).Holds n ↔
        s.vault.Holds n := by
    rw [SybilVault.Holds, hqueued, SybilVault.Holds]
    split_ifs with hself
    · rw [hself]
    · rfl
  refine ⟨fun n hn => h.used n ((hholds n).mp hn), fun event hevent hstatus => ?_,
    fun leaf hleaf => (hholds _).not.mpr (h.refunded leaf hleaf), fun n hn => ?_⟩
  · rcases List.mem_append.mp hevent with hold | hnew
    · have hold' := h.cancelled event hold hstatus
      rw [hqueued]
      split_ifs with hself
      · rw [← hself]
        exact hold'
      · exact hold'
    · rw [List.mem_singleton.mp hnew] at hstatus
      cases hstatus
  · rw [hholds, hqueued]
    rcases List.mem_append.mp hn with hold | hnew
    · obtain ⟨hn', hfinal⟩ := h.transferred n hold
      refine ⟨hn', ?_⟩
      split_ifs
      · rfl
      · exact hfinal
    · obtain rfl := List.mem_singleton.mp hnew
      rw [if_pos rfl]
      exact ⟨⟨hset, hcanceled⟩, rfl⟩

/-- A cancellation is never of a withdrawal that was transferred. -/
theorem cancelWithdrawal (h : Separate s) {isAdmin : Bool} {nullifier : Digest} {reason : String}
    (hcall : s.vaultCall txHash
      (s.vault.cancelWithdrawal isAdmin s.timestamp nullifier reason) = some s') : Separate s' := by
  obtain ⟨vault, event, hok, rfl⟩ := vaultCall_eq_some hcall
  obtain ⟨-, hunpaid, -, rfl, cancelledAt, rfl⟩ := SybilVault.cancelWithdrawal_eq_ok hok
  have hqueued (n : Digest) :
      ((s.vault.store nullifier { s.vault.queued nullifier with canceled := true }).markUsed
          nullifier false).queued n =
        if n = nullifier then { s.vault.queued nullifier with canceled := true }
        else s.vault.queued n := by
    rw [SybilVault.queued_markUsed, SybilVault.queued_store]
  have hfreed : ¬((s.vault.store nullifier
      { s.vault.queued nullifier with canceled := true }).markUsed nullifier false).Holds
        nullifier := by
    rintro ⟨-, hcanceled⟩
    rw [hqueued, if_pos rfl] at hcanceled
    cases hcanceled
  have hothers {n : Digest} (hn : n ≠ nullifier) :
      ((s.vault.store nullifier { s.vault.queued nullifier with canceled := true }).markUsed
        nullifier false).Holds n ↔ s.vault.Holds n := SybilVault.holds_store_of_ne hn
  refine ⟨fun n hn => ?_, fun event hevent hstatus => ?_, fun leaf hleaf => ?_, fun n hn => ?_⟩
  · have hother : n ≠ nullifier := by
      rintro rfl
      exact hfreed hn
    rw [SybilVault.isUsed_markUsed, if_neg hother]
    exact h.used n ((hothers hother).mp hn)
  · rw [hqueued]
    split_ifs with hself
    · rfl
    · rcases List.mem_append.mp hevent with hold | hnew
      · exact h.cancelled event hold hstatus
      · exact absurd (congrArg BridgeWithdrawalL1Event.nullifier (List.mem_singleton.mp hnew))
          hself
  · by_cases hself : leaf.nullifier = nullifier
    · rw [hself]
      exact hfreed
    · exact (hothers hself).not.mpr (h.refunded leaf hleaf)
  · obtain ⟨hholds, hfinal⟩ := h.transferred n hn
    have hother : n ≠ nullifier := by
      rintro rfl
      rw [hfinal] at hunpaid
      cases hunpaid
    refine ⟨(hothers hother).mpr hholds, ?_⟩
    rw [hqueued, if_neg hother]
    exact hfinal

/-! ### Runs -/

theorem step (h : Separate s) {action : Action} (hguard : Guard s action)
    (hexec : s.exec P action = some s') : Separate s' := by
  cases action with
  | trade accounts reserved =>
    cases hexec
    exact ⟨h.used, h.cancelled, h.refunded, h.transferred⟩
  | requestBridgeWithdrawal request =>
    cases hexec
    exact h.requestBridgeWithdrawal request
  | produceBlock root =>
    cases hexec
    exact ⟨h.used, h.cancelled, h.refunded, h.transferred⟩
  | acceptRoot index =>
    obtain ⟨block, -, rfl⟩ := Option.map_eq_some_iff.mp hexec
    exact ⟨h.used, h.cancelled, h.refunded, h.transferred⟩
  | advanceL1 l1Height timestamp =>
    obtain ⟨-, hnext⟩ := Option.ite_none_right_eq_some.mp hexec
    cases hnext
    exact ⟨h.used, h.cancelled, h.refunded, h.transferred⟩
  | requestWithdrawal inputs txHash => exact h.requestWithdrawal hguard.1 hguard.2 hexec
  | finalizeWithdrawal nullifier transfers txHash =>
    obtain ⟨paid, hcall, rfl⟩ := Option.map_eq_some_iff.mp hexec
    exact h.finalizeWithdrawal hcall
  | cancelWithdrawal isAdmin nullifier reason txHash => exact h.cancelWithdrawal hexec
  | deliverEvent =>
    rw [System.exec] at hexec
    split at hexec
    · cases hexec
    · next event rest hpending =>
      cases hexec
      exact h.deliverEvent hpending (hguard event (by rw [hpending]; rfl))
  | observeHeight l1Height =>
    obtain ⟨-, hnext⟩ := Option.ite_none_right_eq_some.mp hexec
    cases hnext
    exact h.observeHeight hguard

end Separate

instance (s : System) : Decidable s.PaidTwice := inferInstanceAs (Decidable (∃ _ ∈ _, _))

instance (s : System) (l1Height : ℕ) (spared : Option WithdrawalLeaf) :
    Decidable (ExpiresOnlyUnheld s l1Height spared) := by
  unfold ExpiresOnlyUnheld
  infer_instance

instance (s : System) (action : Action) : Decidable (Guard s action) := by
  cases action <;> unfold Guard <;> infer_instance

/-- **A withdrawal is paid once.**  In a run that starts before the first withdrawal and
whose steps all meet `Guard`, no withdrawal is both transferred by the vault and credited
back by the sequencer. -/
theorem paidOnce_of_guarded (P : Primitives) {s t : System} {actions : List Action}
    (hs : s.Initial) (hguard : Run.Along (System.exec P) Guard s actions)
    (hrun : Run.run (System.exec P) s actions = some t) : ¬t.PaidTwice :=
  (Run.invariant_of_run (fun _ _ _ h hg he => Separate.step h hg he)
    (Separate.of_initial hs) hguard hrun).not_paidTwice

/-! ## Runs that pay twice -/

/-- Keccak-256 on the two strings that the runs below hash, the claim kind of the vault and
the nullifier of the withdrawal; nothing else is called. -/
def runPrimitives : Primitives where
  blake3 _ := 0
  sha256 _ := 0
  keccak256 bytes :=
    if bytes = utf8 "sybil/claim-kind/normal-withdrawal/v1" then
      0x1d535bbe78368dcc860bca0f6082f7d9e18da4f8e010430914f9617132a4b848
    else 0x6c83e936acf4eee99b0488631fd11c4458dbb38fa462a0b25e40a679fda23c6e
  stateRootFromLeaves _ := 0
  eventsRootFromEventBytes _ := 0
  verifyP256Prehash _ _ _ := .ok ()
  verifyWebauthnEnvelope _ _ _ := .ok ()

/-- A withdrawal of five token units by account 1, with expiry height 10. -/
def smallRequest : BridgeWithdrawalRequest where
  accountId := 1
  chainId := 1
  vaultAddress := 2
  recipient := 3
  tokenAddress := 4
  amountTokenUnits := 5
  expiryHeight := 10

/-- Its nullifier when it is the first withdrawal. -/
def smallNullifier : Digest :=
  withdrawalNullifier runPrimitives (BlockSequencer.nullifierFields smallRequest 1)

/-- The public inputs of its proof against the first block. -/
def smallInputs : WithdrawalPublicInputs where
  stateRoot := 7
  height := 1
  nullifier := smallNullifier
  recipient := 3
  token := 4
  amount := 5
  claimKind := claimKindNormal runPrimitives

/-- A vault with a delay of 100 seconds and a sequencer with one funded account. -/
def smallSystem : System where
  vault := ⟨4, 100, false, false, ∅, ∅⟩
  l1Height := 1
  timestamp := 1000
  pending := []
  sequencer := ⟨⟨OrdMap.ofList [(1, ⟨1, 1000000, ∅, 0, 0⟩)], 2⟩, ∅, .initial, 0, []⟩
  committed := []
  accepted := []
  refunded := []
  transferred := []

theorem initial_smallSystem : smallSystem.Initial :=
  ⟨rfl, rfl, rfl, rfl, rfl, rfl, rfl, rfl, rfl⟩

/-- The leaf is committed in the first block, and its root is accepted. -/
def committedFirst : List Action :=
  [.requestBridgeWithdrawal smallRequest, .produceBlock 7, .acceptRoot 0]

/-- Expired and refunded, then requested with the root of the block before the refund. -/
def expiredThenRequested : List Action :=
  committedFirst ++ [.advanceL1 12 1000, .observeHeight 11, .produceBlock 8, .acceptRoot 1,
    .requestWithdrawal smallInputs none, .advanceL1 13 1100,
    .finalizeWithdrawal smallNullifier true none]

/-- Queued in time, expired while the delay runs. -/
def requestedThenExpired : List Action :=
  committedFirst ++ [.advanceL1 10 1000, .requestWithdrawal smallInputs none, .deliverEvent,
    .advanceL1 12 1100, .observeHeight 11, .finalizeWithdrawal smallNullifier true none]

/-- Cancelled, which frees the nullifier, and requested again. -/
def cancelledThenRequested : List Action :=
  committedFirst ++ [.requestWithdrawal smallInputs none,
    .cancelWithdrawal true smallNullifier "" none, .requestWithdrawal smallInputs none,
    .deliverEvent, .deliverEvent, .deliverEvent, .advanceL1 2 1100,
    .finalizeWithdrawal smallNullifier true none]

/-- The state that a run of the scenarios reaches. -/
def reached (actions : List Action) : Option System :=
  Run.run (System.exec runPrimitives) smallSystem actions

/-- Each half of `Guard` is needed: the same withdrawal is paid on both sides when it is
requested after its refund, when it expires while the vault holds it, and when it is
requested again after a cancellation. -/
theorem withdrawal_paid_twice :
    smallSystem.Initial ∧ (∃ t, reached expiredThenRequested = some t ∧ t.PaidTwice) ∧
      (∃ t, reached requestedThenExpired = some t ∧ t.PaidTwice) ∧
      ∃ t, reached cancelledThenRequested = some t ∧ t.PaidTwice := by
  have hpaid {actions : List Action}
      (h : (reached actions).map (fun t => decide t.PaidTwice) = some true) :
      ∃ t, reached actions = some t ∧ t.PaidTwice := by
    obtain ⟨t, ht, hp⟩ := Option.map_eq_some_iff.mp h
    exact ⟨t, ht, of_decide_eq_true hp⟩
  exact ⟨initial_smallSystem, hpaid (by decide +kernel), hpaid (by decide +kernel),
    hpaid (by decide +kernel)⟩

/-- Requested, finalized, reported; the height passes the expiry afterwards. -/
def finalizedInTime : List Action :=
  committedFirst ++ [.requestWithdrawal smallInputs none, .deliverEvent, .advanceL1 2 1100,
    .finalizeWithdrawal smallNullifier true none, .deliverEvent, .advanceL1 12 1200,
    .observeHeight 11, .produceBlock 8]

theorem paidOnce_of_guarded_finalized :
    (reached finalizedInTime).map System.transferred = some [smallNullifier] ∧
      ∀ t, reached finalizedInTime = some t → ¬t.PaidTwice :=
  ⟨by decide +kernel, fun _ ht =>
    paidOnce_of_guarded runPrimitives initial_smallSystem (by decide +kernel) ht⟩

end Sybil.Bridge
