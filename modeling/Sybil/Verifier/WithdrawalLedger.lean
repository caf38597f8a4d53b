import Sybil.Verifier.Completeness
import Sybil.Verifier.SystemEffects

/-!
# The ledger of withdrawals

What the withdrawal pass forces on the leaves of a block, and what it leaves open.
A leaf of the pre-state is kept or ended, and a created withdrawal has its leaf; but
no check asks where the other leaves of the post-state come from, or whether a
created id was free.

* `LedgerChecked`: what a silent pass gives;
* `ledgerSound_iff_balanced`: where ids are counted up, the leaves are the old ones plus
  the created ones minus the ended ones exactly when their number is right.
-/

namespace Sybil.Verifier

open L1Protocol

variable {P : Primitives} {w : BlockWitness}

/-- The withdrawal leaves before the block. -/
abbrev preLeaves (w : BlockWitness) : List WithdrawalSnapshot :=
  w.preStateSidecar.bridge.withdrawals

/-- The withdrawal leaves after the block. -/
abbrev postLeaves (w : BlockWitness) : List WithdrawalSnapshot := w.stateSidecar.bridge.withdrawals

/-- The ids that a refund or a finalization of the block names. -/
def endedIds (w : BlockWitness) : List ℕ :=
  (terminalEvents w.systemEvents).map fun terminal => terminal.withdrawalId

/-- The ids of the leaves before the block. -/
abbrev preLeafIds (w : BlockWitness) : List ℕ := (preLeaves w).map fun leaf => leaf.withdrawalId

/-- The ids of the leaves after the block. -/
abbrev postLeafIds (w : BlockWitness) : List ℕ := (postLeaves w).map fun leaf => leaf.withdrawalId

/-- The ids of the withdrawals that the block creates, in the order of the events. -/
abbrev createdLeafIds (w : BlockWitness) : List ℕ :=
  (createdEvents w.systemEvents).map fun created => created.withdrawalId

/-- The leaf that a created withdrawal commits to. -/
def WithdrawalCreated.leaf (created : WithdrawalCreated) : WithdrawalSnapshot where
  withdrawalId := created.withdrawalId
  accountId := created.accountId
  recipient := created.recipient
  token := created.token
  amountTokenUnits := created.amountTokenUnits
  amountNanos := created.amount.toNat
  expiryHeight := created.expiryHeight
  nullifier := created.nullifier

/-! ## What a silent pass gives -/

/-- The facts about leaves and events that the pass checks. -/
structure LedgerChecked (w : BlockWitness) : Prop where
  preOnce : (preLeafIds w).Nodup
  postOnce : (postLeafIds w).Nodup
  createdOnce : (createdLeafIds w).Nodup
  kept : ∀ leaf ∈ preLeaves w, leaf.withdrawalId ∉ endedIds w → leaf ∈ postLeaves w
  pruned : ∀ leaf ∈ preLeaves w, leaf.withdrawalId ∈ endedIds w →
    ∀ leaf' ∈ postLeaves w, leaf'.withdrawalId ≠ leaf.withdrawalId
  amounts : ∀ created ∈ createdEvents w.systemEvents, 0 ≤ created.amount
  created : ∀ created ∈ createdEvents w.systemEvents, created.withdrawalId ∉ endedIds w →
    created.leaf ∈ postLeaves w
  createdPruned : ∀ created ∈ createdEvents w.systemEvents, created.withdrawalId ∈ endedIds w →
    ∀ leaf' ∈ postLeaves w, leaf'.withdrawalId ≠ created.withdrawalId
  endedOnce : (endedIds w).Nodup
  endedKnown : ∀ id ∈ endedIds w, id ∈ preLeafIds w ∨ id ∈ postLeafIds w ∨ id ∈ createdLeafIds w

section Pass

variable {terminal : OrdMap ℕ TerminalEvent} {post : OrdMap ℕ WithdrawalSnapshot}

/-- A pre-state leaf that is not reported was kept as it was, or ended and removed. -/
theorem verifyPreLeaf_eq_nil {id : ℕ} {leaf : WithdrawalSnapshot} :
    verifyPreLeaf terminal post (id, leaf) = [] ↔
      if terminal.contains id = true then post.get? id = none else post.get? id = some leaf := by
  simp only [verifyPreLeaf]
  cases terminal.contains id <;> cases post.get? id <;> simp

theorem leafMatchesCreated_eq_true {leaf : WithdrawalSnapshot} {created : WithdrawalCreated}
    {amountNanos : ℕ} (hid : leaf.withdrawalId = created.withdrawalId)
    (hamount : created.amount.toNat = amountNanos)
    (h : leafMatchesCreated leaf created amountNanos = true) : leaf = created.leaf := by
  simp only [leafMatchesCreated, decide_eq_true_eq] at h
  obtain ⟨h₁, h₂, h₃, h₄, h₅, h₆, h₇⟩ := h
  cases leaf
  simp_all [WithdrawalCreated.leaf]

/-- A created withdrawal that is not reported has a non-negative amount, and its leaf unless
it ended. -/
theorem verifyCreated_eq_nil {id : ℕ} {created : WithdrawalCreated}
    (h : verifyCreated terminal post (id, created) = []) :
    0 ≤ created.amount ∧
      if terminal.contains id = true then post.get? id = none
      else ∃ leaf, post.get? id = some leaf ∧
        leafMatchesCreated leaf created created.amount.toNat = true := by
  simp only [verifyCreated] at h
  split at h
  · simp at h
  · next amountNanos hamount =>
    obtain ⟨hnonneg, rfl⟩ := u64OfI64_eq_some_iff.mp hamount
    refine ⟨hnonneg, ?_⟩
    split_ifs at h ⊢ with hended
    · simpa [OrdMap.contains_eq_false_iff] using h
    · split at h
      · simp at h
      · next leaf hleaf => exact ⟨leaf, hleaf, by simpa using h⟩

/-- A terminal event that is not reported names a leaf or a created withdrawal. -/
theorem known_of_verifyTerminal {pre : OrdMap ℕ WithdrawalSnapshot}
    {created : OrdMap ℕ WithdrawalCreated} {heights : List ℕ} {id : ℕ} {event : TerminalEvent}
    (h : verifyTerminal pre post created heights (id, event) = []) :
    pre.contains id = true ∨ post.contains id = true ∨ created.contains id = true := by
  simp only [verifyTerminal, terminalSource] at h
  simp only [OrdMap.contains_iff]
  cases hpre : pre.get? id with
  | some leaf => exact .inl ⟨leaf, rfl⟩
  | none =>
    cases hpost : post.get? id with
    | some leaf => exact .inr (.inl ⟨leaf, rfl⟩)
    | none =>
      cases hcreated : created.get? id with
      | some event => exact .inr (.inr ⟨event, rfl⟩)
      | none => simp [hpre, hpost, hcreated] at h

end Pass

/-- **What the withdrawal pass checks.** -/
theorem ledgerChecked_of_verifyWithdrawalTransition (h : verifyWithdrawalTransition w = []) :
    LedgerChecked w := by
  simp only [verifyWithdrawalTransition, List.append_eq_nil_iff, List.flatMap_eq_nil_iff] at h
  obtain ⟨⟨⟨⟨⟨⟨⟨⟨⟨⟨hpre, hpost⟩, -⟩, hcreated⟩, hterminal⟩, -⟩, -⟩, hpreLeaf⟩, hcreatedLeaf⟩,
    hend⟩, -⟩ := h
  have hended (id : ℕ) : (keyedTerminal w.systemEvents).1.contains id = true ↔ id ∈ endedIds w :=
    collectKeyed_contains hterminal
  have hold {leaf : WithdrawalSnapshot} (hleaf : leaf ∈ preLeaves w) :=
    verifyPreLeaf_eq_nil.mp (hpreLeaf (leaf.withdrawalId, leaf)
      (OrdMap.mem_entries_iff.mpr ((collectKeyed_get? hpre).mpr ⟨hleaf, rfl⟩)))
  have hnew {created : WithdrawalCreated} (hmem : created ∈ createdEvents w.systemEvents) :=
    verifyCreated_eq_nil (hcreatedLeaf (created.withdrawalId, created)
      (OrdMap.mem_entries_iff.mpr ((collectKeyed_get? hcreated).mpr ⟨hmem, rfl⟩)))
  refine
    { preOnce := collectKeyed_silent.mp hpre
      postOnce := collectKeyed_silent.mp hpost
      createdOnce := collectKeyed_silent.mp hcreated
      kept := fun leaf hleaf hlive => ?_
      pruned := fun leaf hleaf hdead => ?_
      amounts := fun created hmem => (hnew hmem).1
      created := fun created hmem hlive => ?_
      createdPruned := fun created hmem hdead => ?_
      endedOnce := collectKeyed_silent.mp hterminal
      endedKnown := fun id hid => ?_ }
  · have hget := hold hleaf
    rw [if_neg ((hended _).not.mpr hlive)] at hget
    exact ((collectKeyed_get? hpost).mp hget).1
  · have hget := hold hleaf
    rw [if_pos ((hended _).mpr hdead)] at hget
    exact (collectKeyed_get?_eq_none hpost).mp hget
  · obtain ⟨-, hget⟩ := hnew hmem
    rw [if_neg ((hended _).not.mpr hlive)] at hget
    obtain ⟨leaf, hleaf, hmatches⟩ := hget
    obtain ⟨hleafMem, hid⟩ := (collectKeyed_get? hpost).mp hleaf
    rw [← leafMatchesCreated_eq_true hid rfl hmatches]
    exact hleafMem
  · obtain ⟨-, hget⟩ := hnew hmem
    rw [if_pos ((hended _).mpr hdead)] at hget
    exact (collectKeyed_get?_eq_none hpost).mp hget
  · obtain ⟨terminal, hterminalMem, rfl⟩ := List.mem_map.mp hid
    rcases known_of_verifyTerminal (hend (terminal.withdrawalId, terminal)
        (OrdMap.mem_entries_iff.mpr ((collectKeyed_get? hterminal).mpr ⟨hterminalMem, rfl⟩)))
      with hknown | hknown | hknown
    · exact .inl ((collectKeyed_contains hpre).mp hknown)
    · exact .inr (.inl ((collectKeyed_contains hpost).mp hknown))
    · exact .inr (.inr ((collectKeyed_contains hcreated).mp hknown))

/-! ## Soundness of the ledger -/

/-- The leaves after the block are those before it, plus one for each created withdrawal,
minus those that ended, and every created id is new. -/
structure LedgerSound (w : BlockWitness) : Prop where
  distinct : ((postLeaves w).map fun leaf => leaf.withdrawalId).Nodup
  onePerEvent : ((createdEvents w.systemEvents).map fun created => created.withdrawalId).Nodup
  amounts : ∀ created ∈ createdEvents w.systemEvents, 0 ≤ created.amount
  leaves : ∀ leaf, leaf ∈ postLeaves w ↔ leaf.withdrawalId ∉ endedIds w ∧
    (leaf ∈ preLeaves w ∨ ∃ created ∈ createdEvents w.systemEvents, leaf = created.leaf)
  fresh : ∀ created ∈ createdEvents w.systemEvents,
    w.preStateSidecar.bridge.nextWithdrawalId ≤ created.withdrawalId ∧
      ∀ leaf ∈ preLeaves w, leaf.withdrawalId ≠ created.withdrawalId

/-- Leaves of the post-state with the same id are the same. -/
theorem LedgerChecked.post_unique (h : LedgerChecked w) {a b : WithdrawalSnapshot}
    (ha : a ∈ postLeaves w) (hb : b ∈ postLeaves w) (hid : a.withdrawalId = b.withdrawalId) :
    a = b := List.inj_on_of_nodup_map h.postOnce ha hb hid

/-- A leaf whose id is known is the leaf that the id stands for. -/
theorem LedgerChecked.leaf_of_known (h : LedgerChecked w) {leaf : WithdrawalSnapshot}
    (hknown : leaf.withdrawalId ∈ preLeafIds w ++ createdLeafIds w) (hleaf : leaf ∈ postLeaves w) :
    leaf.withdrawalId ∉ endedIds w ∧
      (leaf ∈ preLeaves w ∨ ∃ created ∈ createdEvents w.systemEvents, leaf = created.leaf) := by
  rcases List.mem_append.mp hknown with hknown | hknown
  · obtain ⟨old, hold, hid⟩ := List.mem_map.mp hknown
    have hlive : old.withdrawalId ∉ endedIds w := fun hdead =>
      h.pruned old hold hdead leaf hleaf hid.symm
    refine ⟨hid ▸ hlive, .inl ?_⟩
    rw [h.post_unique hleaf (h.kept old hold hlive) hid.symm]
    exact hold
  · obtain ⟨created, hcreated, hid⟩ := List.mem_map.mp hknown
    have hlive : created.withdrawalId ∉ endedIds w := fun hdead =>
      h.createdPruned created hcreated hdead leaf hleaf hid.symm
    exact ⟨hid ▸ hlive, .inr ⟨created, hcreated,
      h.post_unique hleaf (h.created created hcreated hlive) hid.symm⟩⟩

/-- Every old and every created id has a leaf after the block, or ended. -/
theorem LedgerChecked.accounted (h : LedgerChecked w) {id : ℕ}
    (hid : id ∈ preLeafIds w ++ createdLeafIds w) : id ∈ postLeafIds w ++ endedIds w := by
  refine List.mem_append.mpr (or_iff_not_imp_right.mpr fun hlive => ?_)
  rcases List.mem_append.mp hid with hid | hid
  · obtain ⟨leaf, hleaf, rfl⟩ := List.mem_map.mp hid
    exact List.mem_map.mpr ⟨leaf, h.kept leaf hleaf hlive, rfl⟩
  · obtain ⟨created, hcreated, rfl⟩ := List.mem_map.mp hid
    exact List.mem_map.mpr ⟨created.leaf, h.created created hcreated hlive, rfl⟩

/-! ## Ids counted up, and the number of leaves -/

/-- Ids are given out by the counter: the old ones are below `next_withdrawal_id`, and the
created ones count up from it in the order of the events. -/
structure CountedUp (w : BlockWitness) : Prop where
  below : ∀ id ∈ preLeafIds w, id < w.preStateSidecar.bridge.nextWithdrawalId
  created : createdLeafIds w =
    List.range' w.preStateSidecar.bridge.nextWithdrawalId (createdEvents w.systemEvents).length

/-- As many leaves after the block as there were before it and were created, less those that
ended. -/
def LeavesBalanced (w : BlockWitness) : Prop :=
  (postLeaves w).length + (endedIds w).length =
    (preLeaves w).length + (createdEvents w.systemEvents).length

theorem CountedUp.next_le (h : CountedUp w) {id : ℕ} (hid : id ∈ createdLeafIds w) :
    w.preStateSidecar.bridge.nextWithdrawalId ≤ id := by
  rw [h.created, List.mem_range'_1] at hid
  exact hid.1

theorem CountedUp.nodup (h : CountedUp w) (hchecked : LedgerChecked w) :
    (preLeafIds w ++ createdLeafIds w).Nodup :=
  List.nodup_append'.mpr ⟨hchecked.preOnce, hchecked.createdOnce, fun id hold hnew =>
    absurd (h.below id hold) (h.next_le hnew).not_gt⟩

/-- In a sound ledger the ids after the block and the ended ones are the old and the created
ones. -/
theorem LedgerSound.perm (hsound : LedgerSound w) (hchecked : LedgerChecked w)
    (hcounted : CountedUp w) :
      (postLeafIds w ++ endedIds w).Perm (preLeafIds w ++ createdLeafIds w) := by
  have hpost {id : ℕ} (hid : id ∈ postLeafIds w) :
      id ∉ endedIds w ∧ id ∈ preLeafIds w ++ createdLeafIds w := by
    obtain ⟨leaf, hleaf, rfl⟩ := List.mem_map.mp hid
    obtain ⟨hlive, hold | ⟨created, hcreated, rfl⟩⟩ := (hsound.leaves leaf).mp hleaf
    · exact ⟨hlive, List.mem_append_left _ (List.mem_map_of_mem hold)⟩
    · exact ⟨hlive, List.mem_append_right _ (List.mem_map.mpr ⟨created, hcreated, rfl⟩)⟩
  refine (List.perm_ext_iff_of_nodup ?_ (hcounted.nodup hchecked)).mpr fun id =>
    ⟨fun hid => ?_, hchecked.accounted⟩
  · exact List.nodup_append'.mpr ⟨hchecked.postOnce, hchecked.endedOnce, fun id hid hdead =>
      (hpost hid).1 hdead⟩
  · rcases List.mem_append.mp hid with hid | hid
    · exact (hpost hid).2
    · rcases hchecked.endedKnown id hid with hold | hleaf | hnew
      · exact List.mem_append_left _ hold
      · exact (hpost hleaf).2
      · exact List.mem_append_right _ hnew

/-- **Over ids counted up, the ledger of withdrawals is sound exactly when the number of leaves
is right.**  The pass makes every old and created id a leaf or an ended one; the count leaves no
room for another leaf. -/
theorem ledgerSound_iff_balanced (h : verifySidecar P w = []) (hcounted : CountedUp w) :
    LedgerSound w ↔ LeavesBalanced w := by
  have hchecked :=
    ledgerChecked_of_verifyWithdrawalTransition (verifySidecar_eq_nil_iff.mp h).withdrawals
  constructor
  · intro hsound
    simpa [LeavesBalanced] using (hsound.perm hchecked hcounted).length_eq
  · intro hbalanced
    have hperm : (preLeafIds w ++ createdLeafIds w).Perm (postLeafIds w ++ endedIds w) :=
      ((hcounted.nodup hchecked).subperm fun _ => hchecked.accounted).perm_of_length_le
        (by simpa using hbalanced.le)
    refine
      { distinct := hchecked.postOnce
        onePerEvent := hchecked.createdOnce
        amounts := hchecked.amounts
        leaves := fun leaf => ⟨fun hleaf => ?_, ?_⟩
        fresh := fun created hcreated => ?_ }
    · exact hchecked.leaf_of_known
        (hperm.mem_iff.mpr (List.mem_append_left _ (List.mem_map_of_mem hleaf))) hleaf
    · rintro ⟨hlive, hold | ⟨created, hcreated, rfl⟩⟩
      · exact hchecked.kept leaf hold hlive
      · exact hchecked.created created hcreated hlive
    · have hnext := hcounted.next_le (List.mem_map_of_mem hcreated)
      exact ⟨hnext, fun leaf hleaf heq =>
        absurd (heq ▸ hcounted.below _ (List.mem_map_of_mem hleaf)) hnext.not_gt⟩

/-! ## A created withdrawal, and leaves from nowhere -/

/-- A sidecar with the given withdrawal counter and leaves. -/
def withdrawalSidecar (P : Primitives) (nextWithdrawalId : ℕ)
    (withdrawals : List WithdrawalSnapshot) : StateSidecarSnapshot :=
  { oneMarketSidecar P [] with bridge := { freshBridge P with nextWithdrawalId, withdrawals } }

theorem noDeposits_withdrawalSidecar (P : Primitives) (nextWithdrawalId : ℕ)
    (withdrawals : List WithdrawalSnapshot) :
    NoDeposits P (withdrawalSidecar P nextWithdrawalId withdrawals) := ⟨rfl, rfl⟩

/-- A withdrawal of two token units by account 1. -/
def smallCreated (withdrawalId : ℕ) : WithdrawalCreated where
  accountId := 1
  amount := 2000
  withdrawalId
  recipient := 3
  token := 4
  amountTokenUnits := 2
  expiryHeight := 10
  nullifier := 9

/-- The block that creates it over a counter at 5. -/
def createdBlock (P : Primitives) (withdrawalId : ℕ) : BlockWitness :=
  secondBlock P (idleContent [] [] (withdrawalSidecar P 5 [])
    (withdrawalSidecar P 6 [(smallCreated withdrawalId).leaf])
    [.withdrawalCreated (smallCreated withdrawalId)])

/-- The block in which the leaf appears without an event. -/
def conjuredBlock (P : Primitives) : BlockWitness :=
  secondBlock P (idleContent [] [] (withdrawalSidecar P 5 [])
    (withdrawalSidecar P 5 [(smallCreated 1).leaf]) [])

/-- Leaves 2 and 3 before the block; 3 is finalized, 5 and 6 are created, and 6 is cancelled
again. -/
def busyLedgerBlock (P : Primitives) : BlockWitness :=
  secondBlock P (idleContent [] []
    (withdrawalSidecar P 5 [(smallCreated 2).leaf, (smallCreated 3).leaf])
    (withdrawalSidecar P 7 [(smallCreated 2).leaf, (smallCreated 5).leaf])
    [.withdrawalFinalized 1 3 2000, .withdrawalCreated (smallCreated 5),
      .withdrawalCreated (smallCreated 6), .withdrawalRefunded 1 6 2000 .l1Cancelled])

/-- A kept leaf, two ended ones and two created ones are in balance. -/
theorem ledgerSound_iff_balanced_busy :
    (smallCreated 5).leaf.amountNanos = 2000 ∧ ∀ P : Primitives,
      verifySidecar P (busyLedgerBlock P) = [] ∧ CountedUp (busyLedgerBlock P) ∧
        LedgerSound (busyLedgerBlock P) := by
  refine ⟨rfl, fun P => ?_⟩
  have hsidecar : verifySidecar P (busyLedgerBlock P) = [] :=
    verifySidecar_eq_nil_iff.mpr (sidecarAccepted_idle (noDeposits_withdrawalSidecar P _ _)
      (noDeposits_withdrawalSidecar P _ _) rfl ⟨rfl, rfl, rfl, rfl, rfl, rfl, rfl⟩)
  have hcounted : CountedUp (busyLedgerBlock P) := by
    refine ⟨fun id hid => ?_, rfl⟩
    change id ∈ [2, 3] at hid
    change id < 5
    revert id
    decide
  exact ⟨hsidecar, hcounted, (ledgerSound_iff_balanced hsidecar hcounted).mpr rfl⟩

/-- **Leaves from nowhere and old ids are accepted.**  A leaf may appear without an event, and a
withdrawal may be created under an id below the counter. -/
theorem unexplained_leaf_accepted :
    (¬ ∃ P : Primitives, ∀ w, verifySidecar P w = [] → ∀ leaf ∈ postLeaves w,
      (∀ old ∈ preLeaves w, old.withdrawalId ≠ leaf.withdrawalId) →
        ∃ created ∈ createdEvents w.systemEvents, created.withdrawalId = leaf.withdrawalId) ∧
    ¬ ∃ P : Primitives, ∀ w, verifySidecar P w = [] →
      ∀ created ∈ createdEvents w.systemEvents,
        w.preStateSidecar.bridge.nextWithdrawalId ≤ created.withdrawalId := by
  constructor
  · rintro ⟨P, hclaim⟩
    obtain ⟨created, hcreated, -⟩ := hclaim (conjuredBlock P)
      (verifySidecar_eq_nil_iff.mpr (sidecarAccepted_idle (noDeposits_withdrawalSidecar P _ _)
        (noDeposits_withdrawalSidecar P _ _) rfl ⟨rfl, rfl, rfl, rfl, rfl, rfl, rfl⟩)) _
      List.mem_cons_self fun _ hold => absurd hold List.not_mem_nil
    exact absurd hcreated List.not_mem_nil
  · rintro ⟨P, hclaim⟩
    have hlow : 5 ≤ 1 := hclaim (createdBlock P 1)
      (verifySidecar_eq_nil_iff.mpr (sidecarAccepted_idle (noDeposits_withdrawalSidecar P _ _)
        (noDeposits_withdrawalSidecar P _ _) rfl ⟨rfl, rfl, rfl, rfl, rfl, rfl, rfl⟩)) _
      List.mem_cons_self
    omega

end Sybil.Verifier
