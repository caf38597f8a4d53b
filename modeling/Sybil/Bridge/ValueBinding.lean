import Sybil.Bridge.SinglePayment
import Sybil.Verifier.WithdrawalLedger

/-!
# What a withdrawal is worth

The vault pays the token units of a leaf, the account is debited in nanos, and the
nullifier is what keeps one leaf from being paid as another.  Two places bind them:

* an accepted block debits the account of a created withdrawal by exactly the nanos of
  its leaf (`created_debits_leaf`).  It checks neither the scale between nanos and
  token units nor the nullifier;
* the sequencer fixes both when it admits the withdrawal
  (`BlockSequencer.requestBridgeWithdrawal_cases`), and they hold for every live
  withdrawal of every run (`AllAdmitted`).

A nullifier is shared by two live withdrawals only if keccak-256 collides on two
different preimages.  This is stated as such: no hash is injective.
-/

namespace Sybil.Bridge

open Contracts Sequencer L1Protocol Verifier

variable {P : Primitives}

/-! ## In an accepted block -/

/-- The replay of the block debits the account of the event by `nanos` and changes nothing
else but its digest. -/
def DebitsExactly (P : Primitives) (w : BlockWitness) (before : List SystemEventWitness)
    (created : WithdrawalCreated) (nanos : ℕ) : Prop :=
  ∃ accounts a a',
    replayEvents P w.header.height (accountsOf w.preState) before = .ok accounts ∧
    accounts.get? created.accountId = some a ∧
    applyEvent P w.header.height accounts (.withdrawalCreated created) =
      .ok (accounts.insert created.accountId a') ∧
    a'.balance = a.balance - nanos ∧ a'.positions = a.positions

/-- A leaf that an event of an accepted block created is the leaf of that event, and its nanos
are what the account was debited. -/
theorem created_debits_leaf {w : BlockWitness} (h : verifyFull P w = [])
    {leaf : WithdrawalSnapshot} (hleaf : leaf ∈ postLeaves w)
    {before later : List SystemEventWitness} {created : WithdrawalCreated}
    (hevents : w.systemEvents = before ++ .withdrawalCreated created :: later)
    (hid : created.withdrawalId = leaf.withdrawalId) :
    leaf = created.leaf ∧ DebitsExactly P w before created leaf.amountNanos := by
  have haccepted := verifyFull_eq_nil_iff.mp h
  have hchecked := ledgerChecked_of_verifyWithdrawalTransition haccepted.sidecar.withdrawals
  have hmem : created ∈ createdEvents w.systemEvents := by
    rw [hevents]
    simp [createdEvents, createdEvent]
  have hlive : created.withdrawalId ∉ endedIds w := fun hdead =>
    hchecked.createdPruned created hmem hdead leaf hleaf hid.symm
  obtain rfl : leaf = created.leaf :=
    hchecked.post_unique hleaf (hchecked.created created hmem hlive) hid.symm
  refine ⟨rfl, ?_⟩
  obtain ⟨final, hreplay, -⟩ := verifySystemTransition_eq_nil_iff.mp haccepted.system
  rw [hevents, replayEvents, foldlM_append_eq_ok] at hreplay
  obtain ⟨accounts, hbefore, hrest⟩ := hreplay
  obtain ⟨next, hnext, -⟩ := foldlM_cons_eq_ok.mp hrest
  obtain ⟨a, a', ha, hdebit, rfl⟩ := updateAccount_eq_ok.mp hnext
  have hcredits := credits_debitWithdrawal hdebit
  refine ⟨accounts, a, a', hbefore, ha, hnext, ?_, hcredits.positions⟩
  have hnanos : (created.leaf.amountNanos : ℤ) = created.amount :=
    Int.toNat_of_nonneg (hchecked.amounts created hmem)
  rw [hcredits.balance, hnanos, sub_eq_add_neg]

/-! ## At admission -/

/-- The fields that the nullifier of a leaf commits to, in a deployment. -/
def leafFields (chainId : ℕ) (vaultAddress : EthAddress) (leaf : WithdrawalLeaf) :
    NullifierFields where
  chainId
  vaultAddress
  withdrawalId := leaf.withdrawalId
  accountId := leaf.accountId
  recipient := leaf.recipient
  tokenAddress := leaf.tokenAddress
  amountTokenUnits := leaf.amountTokenUnits

/-- The scale of a leaf, and its nullifier in some deployment. -/
structure Admitted (P : Primitives) (leaf : WithdrawalLeaf) : Prop where
  scale : leaf.amountNanos = nanosPerTokenUnit * leaf.amountTokenUnits
  nullifier : ∃ chainId vaultAddress,
    leaf.nullifier = withdrawalNullifier P (leafFields chainId vaultAddress leaf) ∧
      (leafFields chainId vaultAddress leaf).InRange

theorem Admitted.of_follows {leaf leaf' : WithdrawalLeaf} (h : Admitted P leaf)
    (hfollows : leaf.Follows leaf') : Admitted P leaf' := by
  obtain ⟨chainId, vaultAddress, hnullifier, hrange⟩ := h.nullifier
  have hfields : leafFields chainId vaultAddress leaf' = leafFields chainId vaultAddress leaf := by
    simp only [leafFields, hfollows.withdrawalId, hfollows.accountId, hfollows.recipient,
      hfollows.tokenAddress, hfollows.amountTokenUnits]
  refine ⟨?_, chainId, vaultAddress, ?_, hfields ▸ hrange⟩
  · rw [hfollows.amountNanos, hfollows.amountTokenUnits]
    exact h.scale
  · rw [hfollows.nullifier, hfields]
    exact hnullifier

/-- The integer fields of a request are 64-bit words. -/
def WellTyped (request : BridgeWithdrawalRequest) : Prop :=
  request.chainId < 2 ^ 64 ∧ request.accountId < 2 ^ 64

theorem admitted_requestedLeaf (P : Primitives) {seq : BlockSequencer}
    (hnext : seq.bridge.nextWithdrawalId < 2 ^ 64) {request : BridgeWithdrawalRequest}
    (htyped : WellTyped request) {nanos : ℕ}
    (hnanos : amountTokenUnitsToNanos request.amountTokenUnits = .ok nanos) :
    Admitted P (seq.requestedLeaf P request nanos) := by
  obtain ⟨hscale, hlt⟩ := BlockSequencer.amountTokenUnitsToNanos_eq_ok hnanos
  have hunits : request.amountTokenUnits < 2 ^ 64 := by
    rw [hscale, nanosPerTokenUnit] at hlt
    omega
  exact ⟨hscale, request.chainId, request.vaultAddress, rfl, htyped.1, hnext, htyped.2, hunits⟩

/-- Every live withdrawal is admitted, and the counter is a 64-bit word. -/
structure AllAdmitted (P : Primitives) (seq : BlockSequencer) : Prop where
  counter : seq.bridge.nextWithdrawalId < 2 ^ 64
  leaves : ∀ id leaf, seq.bridge.withdrawals.get? id = some leaf → Admitted P leaf

namespace AllAdmitted

variable {seq seq' : BlockSequencer}

theorem of_advances {cause : WithdrawalLeaf → Prop} (h : AllAdmitted P seq)
    (hcall : BlockSequencer.Advances cause seq seq') : AllAdmitted P seq' where
  counter := hcall.next ▸ h.counter
  leaves id leaf' hget := by
    obtain ⟨leaf, hleaf, hfollows⟩ := hcall.leaves id leaf' hget
    exact (h.leaves id leaf hleaf).of_follows hfollows

theorem request (h : AllAdmitted P seq) {request : BridgeWithdrawalRequest}
    (htyped : WellTyped request) : AllAdmitted P (seq.requestBridgeWithdrawal P request).1 := by
  rcases seq.requestBridgeWithdrawal_cases P request with ⟨e, hcall⟩ | ⟨account, nanos, -, hnanos,
    -, hcall⟩
  · rw [hcall]
    exact h
  · rw [hcall]
    refine ⟨lt_of_le_of_lt (min_le_right _ _) (by decide), fun id leaf hget => ?_⟩
    have hget' : (seq.bridge.withdrawals.insert seq.bridge.nextWithdrawalId
        (seq.requestedLeaf P request nanos)).get? id = some leaf := hget
    rw [OrdMap.get?_insert] at hget'
    split_ifs at hget'
    · cases hget'
      exact admitted_requestedLeaf P h.counter htyped hnanos
    · exact h.leaves id leaf hget'

theorem produceBlock (h : AllAdmitted P seq) : AllAdmitted P seq.produceBlock where
  counter := h.counter
  leaves id leaf hget := by
    have hget' : (seq.bridge.withdrawals.eraseAll
        (seq.systemEvents.filterMap BridgeEvent.terminalId?)).get? id = some leaf := hget
    rw [OrdMap.get?_eraseAll] at hget'
    split_ifs at hget'
    exact h.leaves id leaf hget'

end AllAdmitted

/-- Requests of a run are well typed. -/
def TypedRequest (_ : System) : Action → Prop
  | .requestBridgeWithdrawal request => WellTyped request
  | _ => True

/-- One step of the two layers keeps every live withdrawal admitted. -/
theorem allAdmitted_step {s s' : System} {action : Action} (h : AllAdmitted P s.sequencer)
    (htyped : TypedRequest s action) (hexec : s.exec P action = some s') :
    AllAdmitted P s'.sequencer := by
  cases action with
  | trade accounts reserved =>
    cases hexec
    exact ⟨h.counter, h.leaves⟩
  | requestBridgeWithdrawal request =>
    cases hexec
    exact h.request htyped
  | produceBlock root =>
    cases hexec
    exact h.produceBlock
  | acceptRoot index =>
    obtain ⟨block, -, rfl⟩ := Option.map_eq_some_iff.mp hexec
    exact h
  | advanceL1 l1Height timestamp =>
    obtain ⟨-, hnext⟩ := Option.ite_none_right_eq_some.mp hexec
    cases hnext
    exact h
  | requestWithdrawal inputs txHash =>
    obtain ⟨vault, event, -, rfl⟩ := Separate.vaultCall_eq_some hexec
    exact h
  | finalizeWithdrawal nullifier transfers txHash =>
    obtain ⟨paid, hcall, rfl⟩ := Option.map_eq_some_iff.mp hexec
    obtain ⟨vault, event, -, rfl⟩ := Separate.vaultCall_eq_some hcall
    exact h
  | cancelWithdrawal isAdmin nullifier reason txHash =>
    obtain ⟨vault, event, -, rfl⟩ := Separate.vaultCall_eq_some hexec
    exact h
  | deliverEvent =>
    rw [System.exec] at hexec
    split at hexec
    · cases hexec
    · next event rest hpending =>
      cases hexec
      exact h.of_advances (s.sequencer.advances_applyBridgeWithdrawalL1Event event)
  | observeHeight l1Height =>
    obtain ⟨-, hnext⟩ := Option.ite_none_right_eq_some.mp hexec
    cases hnext
    exact h.of_advances (s.sequencer.advances_observeBridgeL1Height l1Height)

/-! ## Shared nullifiers -/

/-- Keccak-256 takes one value on the preimages of two different nullifiers. -/
def NullifierCollision (P : Primitives) : Prop :=
  ∃ f g : NullifierFields,
    withdrawalNullifierPreimage f ≠ withdrawalNullifierPreimage g ∧
      P.keccak256 (withdrawalNullifierPreimage f) = P.keccak256 (withdrawalNullifierPreimage g)

/-- Two admitted leaves with one nullifier have one id, or the hash collides. -/
theorem Admitted.withdrawalId_eq {leaf leaf' : WithdrawalLeaf} (h : Admitted P leaf)
    (h' : Admitted P leaf') (heq : leaf.nullifier = leaf'.nullifier) :
    leaf.withdrawalId = leaf'.withdrawalId ∨ NullifierCollision P := by
  obtain ⟨chainId, vaultAddress, hnullifier, hrange⟩ := h.nullifier
  obtain ⟨chainId', vaultAddress', hnullifier', hrange'⟩ := h'.nullifier
  by_cases hpre : withdrawalNullifierPreimage (leafFields chainId vaultAddress leaf) =
      withdrawalNullifierPreimage (leafFields chainId' vaultAddress' leaf')
  · have hfields := withdrawalNullifierPreimage_inj hrange hrange' hpre
    exact .inl (congrArg NullifierFields.withdrawalId hfields)
  · refine .inr ⟨_, _, hpre, ?_⟩
    rw [hnullifier, hnullifier'] at heq
    exact heq

/-- **Value binding.**  An accepted block debits a created withdrawal by the nanos of its leaf.  A
request that the sequencer admits debits the account by the nanos of the leaf, a thousand for each
token unit, under the nullifier of the request's deployment and the leaf's own fields.  In every
run, every live withdrawal has that scale and such a nullifier, and two of them share a nullifier
only with a collision. -/
theorem withdrawal_value_bound (P : Primitives) :
    (∀ w, verifyFull P w = [] → ∀ leaf ∈ postLeaves w, ∀ before created later,
      w.systemEvents = before ++ .withdrawalCreated created :: later →
      created.withdrawalId = leaf.withdrawalId →
        leaf = created.leaf ∧ DebitsExactly P w before created leaf.amountNanos) ∧
    (∀ (seq seq' : BlockSequencer) request leaf,
      seq.requestBridgeWithdrawal P request = (seq', .ok leaf) →
        leaf.amountNanos = nanosPerTokenUnit * leaf.amountTokenUnits ∧
        leaf.nullifier =
          withdrawalNullifier P (leafFields request.chainId request.vaultAddress leaf) ∧
        ∃ account, seq.accounts.accounts.get? leaf.accountId = some account ∧
          seq'.accounts.accounts = seq.accounts.accounts.insert leaf.accountId
            { account with balance := account.balance - leaf.amountNanos }) ∧
    ∀ (s t : System) actions, s.Initial → s.sequencer.bridge = .initial →
      Run.Along (System.exec P) TypedRequest s actions →
      Run.run (System.exec P) s actions = some t →
        ∀ leaf ∈ t.sequencer.bridge.withdrawals.values, Admitted P leaf ∧
          ∀ leaf' ∈ t.sequencer.bridge.withdrawals.values,
            leaf.nullifier = leaf'.nullifier → leaf = leaf' ∨ NullifierCollision P := by
  refine ⟨fun w h leaf hleaf before created later hevents hid =>
      created_debits_leaf h hleaf hevents hid, ?_, ?_⟩
  · intro seq seq' request leaf hcall
    rcases seq.requestBridgeWithdrawal_cases P request with ⟨e, herror⟩ | ⟨account, nanos,
      haccount, hnanos, -, hok⟩
    · rw [herror] at hcall
      cases hcall
    · rw [hok] at hcall
      cases hcall
      exact ⟨(BlockSequencer.amountTokenUnitsToNanos_eq_ok hnanos).1, rfl, account, haccount, rfl⟩
  · intro s t actions hinitial hbridge htyped hrun
    have hstart : AllAdmitted P s.sequencer := by
      refine ⟨by rw [hbridge]; decide, fun id leaf hget => ?_⟩
      rw [hinitial.leaves] at hget
      cases hget
    have hall : AllAdmitted P t.sequencer :=
      Run.invariant_of_run (fun _ _ _ h ht he => allAdmitted_step h ht he) hstart htyped hrun
    intro leaf hleaf
    obtain ⟨id, hget⟩ := OrdMap.mem_values_iff.mp hleaf
    refine ⟨hall.leaves id leaf hget, fun leaf' hleaf' heq => ?_⟩
    obtain ⟨id', hget'⟩ := OrdMap.mem_values_iff.mp hleaf'
    rcases (hall.leaves id leaf hget).withdrawalId_eq (hall.leaves id' leaf' hget') heq with
      hid | hcollision
    · rw [t.sequencer.bridge.keyed id leaf hget, t.sequencer.bridge.keyed id' leaf' hget'] at hid
      rw [hid] at hget
      exact .inl (Option.some.inj (hget.symm.trans hget'))
    · exact .inr hcollision

/-! ## A debit, and values that no pass compares -/

/-- Account 1 after withdrawals, with the events folded into its digest. -/
def debitedAccount (P : Primitives) (balance deposited : ℤ) (events : List WithdrawalCreated) :
    AccountSnapshot :=
  { freshAccount P 1 deposited [] with
    balance
    eventsDigest := events.foldl (fun digest created => Verifier.updateDigest P digest
      (encodeWithdrawalCreatedEvent created.withdrawalId created.amount created.nullifier 2)) 0 }

/-- The block in which account 1 withdraws two token units. -/
def debitBlock (P : Primitives) : BlockWitness :=
  secondBlock P (idleContent [freshAccount P 1 2000 []]
    [debitedAccount P 0 2000 [smallCreated 5]] (withdrawalSidecar P 5 [])
    (withdrawalSidecar P 6 [(smallCreated 5).leaf]) [.withdrawalCreated (smallCreated 5)])

/-- A withdrawal of a million token units that costs one nano, under a nullifier of choice. -/
def cheapCreated (withdrawalId : ℕ) : WithdrawalCreated where
  accountId := 1
  amount := 1
  withdrawalId
  recipient := 3
  token := 4
  amountTokenUnits := 1000000
  expiryHeight := 10
  nullifier := 9

/-- The block that creates two of them. -/
def cheapBlock (P : Primitives) : BlockWitness :=
  secondBlock P (idleContent [freshAccount P 1 2 []]
    [debitedAccount P 0 2 [cheapCreated 5, cheapCreated 6]] (withdrawalSidecar P 5 [])
    (withdrawalSidecar P 7 [(cheapCreated 5).leaf, (cheapCreated 6).leaf])
    [.withdrawalCreated (cheapCreated 5), .withdrawalCreated (cheapCreated 6)])

theorem keysUntouched_created (events : List WithdrawalCreated) :
    KeysUntouched (events.map .withdrawalCreated) := by
  intro event hevent
  obtain ⟨created, -, rfl⟩ := List.mem_map.mp hevent
  exact ⟨rfl, nofun⟩

theorem verifyFull_debitBlock (P : Primitives) : verifyFull P (debitBlock P) = [] :=
  verifyFull_idle rfl ⟨keysUntouched_created [smallCreated 5], List.nodup_singleton 1, rfl,
      List.forall_mem_singleton.mpr rfl, List.forall_mem_singleton.mpr rfl, rfl, rfl, rfl, rfl⟩
    (sidecarAccepted_idle (noDeposits_withdrawalSidecar P _ _)
      (noDeposits_withdrawalSidecar P _ _) rfl ⟨rfl, rfl, rfl, rfl, rfl, rfl, rfl⟩) rfl

theorem verifyFull_cheapBlock (P : Primitives) : verifyFull P (cheapBlock P) = [] :=
  verifyFull_idle rfl
    ⟨keysUntouched_created [cheapCreated 5, cheapCreated 6], List.nodup_singleton 1, rfl,
      List.forall_mem_singleton.mpr rfl, List.forall_mem_singleton.mpr rfl, rfl, rfl, rfl, rfl⟩
    (sidecarAccepted_idle (noDeposits_withdrawalSidecar P _ _)
      (noDeposits_withdrawalSidecar P _ _) rfl ⟨rfl, rfl, rfl, rfl, rfl, rfl, rfl⟩) rfl

/-- Two token units debit two thousand nanos, and the withdrawal of a run is admitted. -/
theorem withdrawal_value_bound_small :
    (¬ ∃ P, verifyFull P (debitBlock P) ≠ [] ∨
      ¬DebitsExactly P (debitBlock P) [] (smallCreated 5) 2000) ∧
    ∃ t, reached committedFirst = some t ∧
      ∃ leaf ∈ t.sequencer.bridge.withdrawals.values, Admitted runPrimitives leaf := by
  constructor
  · rintro ⟨P, hfail | hfail⟩
    · exact hfail (verifyFull_debitBlock P)
    · exact hfail ((withdrawal_value_bound P).1 (debitBlock P) (verifyFull_debitBlock P) _
        List.mem_cons_self [] (smallCreated 5) [] rfl rfl).2
  · have hsome : (reached committedFirst).map
        (fun t => t.sequencer.bridge.withdrawals.values.length) = some 1 := by decide +kernel
    obtain ⟨t, ht, hlength⟩ := Option.map_eq_some_iff.mp hsome
    obtain ⟨leaf, hleaf⟩ := List.exists_mem_of_length_pos (hlength ▸ Nat.one_pos)
    have htyped : Run.Along (System.exec runPrimitives) TypedRequest smallSystem committedFirst :=
      ⟨⟨by decide, by decide⟩, trivial, trivial, trivial⟩
    exact ⟨t, ht, leaf, hleaf, ((withdrawal_value_bound runPrimitives).2.2 smallSystem t
      committedFirst initial_smallSystem rfl htyped ht leaf hleaf).1⟩

/-- **Scale and nullifier are not checked.**  An accepted block may create a withdrawal whose token
units are worth more than its debit, and two withdrawals with one nullifier. -/
theorem unbound_value_accepted :
    (¬ ∃ P : Primitives, ∀ w, verifyFull P w = [] → ∀ leaf ∈ postLeaves w,
      (∃ created ∈ createdEvents w.systemEvents, created.leaf = leaf) →
        leaf.amountNanos = 1000 * leaf.amountTokenUnits) ∧
    ¬ ∃ P : Primitives, ∀ w, verifyFull P w = [] → ∀ leaf ∈ postLeaves w,
      ∀ leaf' ∈ postLeaves w, leaf.nullifier = leaf'.nullifier → leaf = leaf' := by
  constructor
  · rintro ⟨P, hclaim⟩
    have hscale : 1 = 1000 * 1000000 := hclaim (cheapBlock P) (verifyFull_cheapBlock P)
      (cheapCreated 5).leaf List.mem_cons_self ⟨cheapCreated 5, List.mem_cons_self, rfl⟩
    omega
  · rintro ⟨P, hclaim⟩
    have hsame : (cheapCreated 5).leaf = (cheapCreated 6).leaf :=
      hclaim (cheapBlock P) (verifyFull_cheapBlock P) _ List.mem_cons_self _
        (List.mem_cons_of_mem _ List.mem_cons_self) rfl
    exact absurd (congrArg WithdrawalSnapshot.withdrawalId hsame) (by decide)

end Sybil.Bridge
