import Sybil.Verifier.QuarantineLedger
import Sybil.Verifier.SystemEffects
import Sybil.Zk.DepositBlocks

/-!
# Deposits along a chain

Within one accepted block the events and the deposits are in step: every deposit after the
cursor of the state before the block is credited or parked once, in order, and the public
checkpoint is the frontier with these deposits appended (`SoundDeposits`).

Along a chain this gives each deposit exactly once if every block starts from the cursor that
the block before it left (`consumedIds_of_chain`).  Nothing in the guest says so by itself: the
state before a block is proven under the previous root, and a root can prove several states
(`exists_root_proving`).  `exists_double_deposit` takes a root that proves the bridge before
*and* after the first deposit; under it, block after block parks the same deposit.
-/

namespace Sybil.Zk

open Verifier

open L1Protocol (appendDeposits depositRootFromFrontier depositTreeCapacity prefixRoots
  depositFrontierPrefixRoots_eq_some exists_appendDeposits)

variable {w : BlockWitness}

/-- **The deposits of an accepted block.** -/
structure SoundDeposits (P : Primitives) (input : StateTransitionGuestInput) : Prop where
  /-- The events dispose of the new deposits one by one. -/
  disposed : List.Forall₂ (Disposes P) (dispositions input.witness.systemEvents)
    input.witness.depositAccumulator.newDeposits
  /-- These are the ones after the cursor, up to the public count. -/
  ids : (input.witness.depositAccumulator.newDeposits.map fun deposit => deposit.depositId) =
    List.range' (input.witness.preStateSidecar.bridge.depositCursor + 1)
      input.witness.depositAccumulator.newDeposits.length
  count : input.publicInputs.depositCount = input.witness.preStateSidecar.bridge.depositCursor +
    input.witness.depositAccumulator.newDeposits.length
  cursor : input.publicInputs.depositCount = input.witness.stateSidecar.bridge.depositCursor
  /-- The public root is the one that the last append returned, and the previous one in a block
  without deposits. -/
  root : ∃ roots, prefixRoots P input.witness.depositAccumulator.preFrontier.toList
      input.witness.preStateSidecar.bridge.depositCursor
      (input.witness.depositAccumulator.newDeposits.map depositLeafFromWitness) = some roots ∧
    input.publicInputs.depositRoot =
      roots.getLast?.getD input.witness.preStateSidecar.bridge.depositRoot
  /-- The frontier of the state before the block has its root, and with the new deposits appended
  it has the public one, as long as the tree is not full. -/
  frontier : depositRootFromFrontier P input.witness.depositAccumulator.preFrontier.toList
      input.witness.preStateSidecar.bridge.depositCursor =
        some input.witness.preStateSidecar.bridge.depositRoot ∧
    ∃ after, appendDeposits P input.witness.depositAccumulator.preFrontier.toList
        input.witness.preStateSidecar.bridge.depositCursor
        (input.witness.depositAccumulator.newDeposits.map depositLeafFromWitness) = some after ∧
      (input.publicInputs.depositCount < depositTreeCapacity →
        depositRootFromFrontier P after input.publicInputs.depositCount =
          some input.publicInputs.depositRoot)
  /-- A credited deposit is added to the balance of its account. -/
  credited : ∀ before after accountId amount depositId root key,
    input.witness.systemEvents =
      before ++ SystemEventWitness.l1Deposit accountId amount depositId root key :: after →
    ∃ accounts a a', replayEvents P input.witness.header.height
        (accountsOf input.witness.preState) before = .ok accounts ∧
      accounts.get? accountId = some a ∧ Credits amount a a' ∧
      applyEvent P input.witness.header.height accounts
        (.l1Deposit accountId amount depositId root key) = .ok (accounts.insert accountId a')
  /-- A parked one is added to the ledger under its key. -/
  parked : ∀ before after amount depositId root key,
    input.witness.systemEvents =
      before ++ SystemEventWitness.depositQuarantined amount depositId root key :: after →
    ∀ ledger, ledger = (reportLoop (quarantineStep P) (preLedger input.witness).1 before).1 →
      quarantineStep P ledger (.depositQuarantined amount depositId root key) =
        (ledger.insert key ((ledger.get? key).getD 0 + amount), [])

variable {P : Primitives} {canonicalWitnessBytes : BlockWitness → Bytes}
  {input previous : StateTransitionGuestInput} {blocks : List StateTransitionGuestInput}

/-! ## One block -/

theorem DepositsConsumed.map_ids {count : ℕ} {root : Digest} (h : DepositsConsumed P w count root) :
    (w.depositAccumulator.newDeposits.map fun deposit => deposit.depositId) =
      List.range' (w.preStateSidecar.bridge.depositCursor + 1)
        w.depositAccumulator.newDeposits.length := by
  refine List.ext_getElem (by simp) fun i hi _ => ?_
  have hlt : i < w.depositAccumulator.newDeposits.length := by simpa using hi
  rw [List.getElem_map, List.getElem_range', h.ids i _ (List.getElem?_eq_getElem hlt), h.preCount]
  omega

theorem credited_of_verifySystem (h : verifySystem P w = [])
    {before after : List SystemEventWitness} {accountId depositId : ℕ} {amount : ℤ}
    {root key : Digest}
    (hevents : w.systemEvents = before ++ .l1Deposit accountId amount depositId root key :: after) :
    ∃ accounts a a', replayEvents P w.header.height (accountsOf w.preState) before = .ok accounts ∧
      accounts.get? accountId = some a ∧ Credits amount a a' ∧
      applyEvent P w.header.height accounts (.l1Deposit accountId amount depositId root key) =
        .ok (accounts.insert accountId a') := by
  rw [verifySystem, List.append_eq_nil_iff, List.append_eq_nil_iff] at h
  obtain ⟨final, hreplay, -⟩ := verifySystemTransition_eq_nil_iff.mp h.1.1
  rw [hevents, replayEvents, foldlM_append_eq_ok] at hreplay
  obtain ⟨accounts, hbefore, hreplay⟩ := hreplay
  obtain ⟨next, hevent, -⟩ := foldlM_cons_eq_ok.mp hreplay
  obtain ⟨a, a', ha, ha', rfl⟩ := updateAccount_eq_ok.mp hevent
  exact ⟨accounts, a, a', hbefore, ha, credits_creditDeposit ha', hevent⟩

theorem parked_of_verifyQuarantineTransition (h : verifyQuarantineTransition P w = [])
    {before after : List SystemEventWitness} {amount : ℤ} {depositId : ℕ} {root key : Digest}
    (hevents : w.systemEvents = before ++ .depositQuarantined amount depositId root key :: after)
    {ledger : QuarantineLedger}
    (hledger : ledger = (reportLoop (quarantineStep P) (preLedger w).1 before).1) :
    quarantineStep P ledger (.depositQuarantined amount depositId root key) =
      (ledger.insert key ((ledger.get? key).getD 0 + amount), []) := by
  obtain ⟨-, hrun, -⟩ := verifyQuarantineTransition_eq_nil h
  rw [hevents] at hrun
  have hsilent := (silent_cons.mp (silent_append.mp hrun).2).1
  rw [← hledger] at hsilent
  refine Prod.ext ?_ hsilent
  generalize hnext :
    (quarantineStep P ledger (.depositQuarantined amount depositId root key)).1 = next
  have hedit := ledgerEdit_of_silent hsilent
  rw [hnext] at hedit
  cases hedit with
  | parked positive => rfl
  | kept hkey => cases hkey

/-- **One accepted block.** -/
theorem GuestAccepted.soundDeposits (h : GuestAccepted P canonicalWitnessBytes input) :
    SoundDeposits P input := by
  have hconsumed := verifyL1DepositCheckpoint_eq_ok.mp h.checkpoint
  have hsidecar := verifySidecar_eq_nil_iff.mp h.sidecar
  obtain ⟨-, hroots⟩ := depositFrontierPrefixRoots_eq_some.mp hconsumed.roots
  obtain ⟨after, hafter, hroot⟩ := exists_appendDeposits Vector.length_toList
    (fun _ => hconsumed.preRoot) hroots
  have hcount := hconsumed.count
  rw [List.length_map, ← hcount, ← hconsumed.root] at hroot
  rw [hconsumed.preCount] at hafter hcount hroots
  exact
    { disposed := hconsumed.disposed
      ids := hconsumed.map_ids
      count := hcount
      cursor := h.depositCount
      root := ⟨_, hroots, hconsumed.root⟩
      frontier := ⟨hconsumed.preCount ▸ hconsumed.preRoot, after, hafter, hroot⟩
      credited := fun _ _ _ _ _ _ _ => credited_of_verifySystem h.system
      parked := fun _ _ _ _ _ _ hevents _ =>
        parked_of_verifyQuarantineTransition hsidecar.quarantine hevents }

/-! ## Along a chain -/

/-- Ids of the deposits that a block credits or parks. -/
def consumedIds (input : StateTransitionGuestInput) : List ℕ :=
  (dispositions input.witness.systemEvents).map fun event => event.depositId

/-- Blocks that the guest accepts and that link to each other. -/
structure AcceptedChain (P : Primitives) (canonicalWitnessBytes : BlockWitness → Bytes)
    (blocks : List StateTransitionGuestInput) : Prop where
  accepted : ∀ block ∈ blocks, ∃ hash,
    verifyStateTransitionInput P canonicalWitnessBytes block = .ok hash
  linked : blocks.IsChain fun previous block =>
    block.witness.previousHeader = some previous.witness.header

/-- The block starts from the deposit cursor that the previous one left. -/
def KeepsCursor (previous block : StateTransitionGuestInput) : Prop :=
  block.witness.preStateSidecar.bridge.depositCursor =
    previous.witness.stateSidecar.bridge.depositCursor

theorem SoundDeposits.consumedIds_eq (h : SoundDeposits P input) :
    consumedIds input =
      List.range' (input.witness.preStateSidecar.bridge.depositCursor + 1)
        (input.publicInputs.depositCount - input.witness.preStateSidecar.bridge.depositCursor) := by
  have hsame : consumedIds input =
      input.witness.depositAccumulator.newDeposits.map fun deposit => deposit.depositId := by
    rw [consumedIds, ← List.forall₂_eq_eq_eq, List.forall₂_map_left_iff, List.forall₂_map_right_iff]
    exact h.disposed.imp fun _ _ hdisposes => hdisposes.depositId
  rw [hsame, h.ids, h.count, Nat.add_sub_cancel_left]

theorem range'_append_of_le {a b c : ℕ} (hab : a ≤ b) (hbc : b ≤ c) :
    List.range' (a + 1) (b - a) ++ List.range' (b + 1) (c - b) = List.range' (a + 1) (c - a) := by
  obtain ⟨m, rfl⟩ := Nat.exists_eq_add_of_le hab
  obtain ⟨n, rfl⟩ := Nat.exists_eq_add_of_le hbc
  rw [Nat.add_sub_cancel_left, Nat.add_sub_cancel_left, Nat.add_assoc a m n,
    Nat.add_sub_cancel_left, Nat.add_right_comm, List.range'_append_1]

/-- The blocks of a chain that keeps the cursor consume consecutive ids: each block continues where
the one before it stopped. -/
theorem consumedIds_of_chain {first last : StateTransitionGuestInput}
    (hsound : ∀ block ∈ first :: blocks, SoundDeposits P block)
    (hcursor : (first :: blocks).IsChain KeepsCursor)
    (hlast : (first :: blocks).getLast? = some last) :
    (first :: blocks).flatMap consumedIds =
        List.range' (first.witness.preStateSidecar.bridge.depositCursor + 1)
          (last.publicInputs.depositCount -
            first.witness.preStateSidecar.bridge.depositCursor) ∧
      first.publicInputs.depositCount ≤ last.publicInputs.depositCount := by
  induction blocks generalizing first with
  | nil =>
    obtain rfl : first = last := by simpa using hlast
    rw [List.flatMap_singleton]
    exact ⟨(hsound first List.mem_cons_self).consumedIds_eq, le_refl _⟩
  | cons next blocks ih =>
    obtain ⟨hfirst, hrest⟩ := List.forall_mem_cons.mp hsound
    obtain ⟨hkeeps, hcursor⟩ := List.isChain_cons_cons.mp hcursor
    obtain ⟨hids, hle⟩ := ih hrest hcursor (by rwa [List.getLast?_cons_cons] at hlast)
    have hstart : next.witness.preStateSidecar.bridge.depositCursor =
        first.publicInputs.depositCount := hkeeps.trans hfirst.cursor.symm
    have hnext := (hrest next List.mem_cons_self).count
    have hcount := hfirst.count
    refine ⟨?_, by omega⟩
    rw [List.flatMap_cons, hids, hfirst.consumedIds_eq, hstart]
    exact range'_append_of_le (by omega) (by omega)

/-- **Deposit soundness.**  Every block of a chain of accepted blocks consumes exactly its own
deposits.  If each of them starts from the cursor that the block before it left, the chain consumes
the deposits between its first and its last cursor, each exactly once and in order. -/
theorem soundDeposits_of_acceptedChain
    (h : AcceptedChain P canonicalWitnessBytes blocks) :
    (∀ block ∈ blocks, SoundDeposits P block) ∧
      (blocks.IsChain KeepsCursor → ∀ first last, blocks.head? = some first →
        blocks.getLast? = some last →
        blocks.flatMap consumedIds =
          List.range' (first.witness.preStateSidecar.bridge.depositCursor + 1)
            (last.publicInputs.depositCount -
              first.witness.preStateSidecar.bridge.depositCursor)) := by
  have hsound : ∀ block ∈ blocks, SoundDeposits P block := by
    intro block hblock
    obtain ⟨hash, hverified⟩ := h.accepted block hblock
    exact (verifyStateTransitionInput_eq_ok.mp hverified).1.soundDeposits
  refine ⟨hsound, fun hcursor first last hfirst hlast => ?_⟩
  cases blocks with
  | nil => exact nomatch hfirst
  | cons head blocks =>
    obtain rfl : head = first := Option.some.inj hfirst
    exact (consumedIds_of_chain hsound hcursor hlast).1

/-- A header of block 1 with a given root. -/
def rootHeader (root : Digest) : WitnessBlockHeader := ⟨1, 0, root, 0, 0, 0, 0⟩

theorem AcceptedChain.pair {first second : StateTransitionGuestInput}
    (hfirst : GuestAccepted P canonicalWitnessBytes first)
    (hsecond : GuestAccepted P canonicalWitnessBytes second)
    (hlinked : second.witness.previousHeader = some first.witness.header) :
    AcceptedChain P canonicalWitnessBytes [first, second] := by
  refine ⟨?_, List.isChain_pair.mpr hlinked⟩
  rw [List.forall_mem_cons, List.forall_mem_singleton]
  exact ⟨⟨_, verifyStateTransitionInput_eq_ok.mpr ⟨hfirst, rfl⟩⟩,
    ⟨_, verifyStateTransitionInput_eq_ok.mpr ⟨hsecond, rfl⟩⟩⟩

/-- **A deposit consumed twice**, for every hash function: two accepted blocks in a row park the
first deposit. -/
theorem exists_double_deposit :
    ¬ ∃ (P : Primitives) (canonicalWitnessBytes : BlockWitness → Bytes), ∀ first second,
      AcceptedChain P canonicalWitnessBytes [first, second] →
      first.witness.previousHeader.isSome = true →
      second.witness.header.height = first.witness.header.height + 1 →
      ¬ (consumedIds first = [1] ∧ consumedIds second = [1]) := by
  rintro ⟨P, canonicalWitnessBytes, hclaim⟩
  obtain ⟨root, proof, preProof, hproof, hpreProof⟩ := exists_parkingRoot P 0 1
  -- The same root stands before and after each of the two blocks.
  have haccepted : ∀ previous : WitnessBlockHeader, previous.stateRoot = root →
      GuestAccepted P canonicalWitnessBytes (parkingInput P canonicalWitnessBytes 0 1 root
        (some previous) (previous.height + 1) proof preProof) := by
    intro previous hroot
    refine guestAccepted_parkingInput (Nat.lt_succ_self _) ?_ nofun Nat.one_pos (by decide) hproof
    intro found hfound
    rw [← Option.some.inj hfound, hroot]
    exact hpreProof
  let first := parkingInput P canonicalWitnessBytes 0 1 root (some (rootHeader root)) 2 proof
    preProof
  exact hclaim first _
    (.pair (haccepted (rootHeader root) rfl) (haccepted first.witness.header rfl) rfl)
    rfl rfl ⟨rfl, rfl⟩

/-- A quiet block and then the deposit, on top of block 1: the chain keeps the cursor and consumes
deposit 1. -/
theorem consumedIds_quiet_parking : (∀ root, (rootHeader root).height = 1) ∧
    ∀ (P : Primitives) (canonicalWitnessBytes : BlockWitness → Bytes), ∃ first second,
      AcceptedChain P canonicalWitnessBytes [first, second] ∧
      [first, second].IsChain KeepsCursor ∧ SoundDeposits P second ∧
      [first, second].flatMap consumedIds = [1] := by
  refine ⟨fun root => rfl, fun P canonicalWitnessBytes => ?_⟩
  obtain ⟨root, proof, preProof, hproof, hpreProof⟩ := exists_parkingRoot P 0 1
  let first := quietInput P canonicalWitnessBytes root (some (rootHeader root)) 2 preProof preProof
  let second := parkingInput P canonicalWitnessBytes 0 1 root (some first.witness.header) 3 proof
    preProof
  have hroot : ∀ previous found : WitnessBlockHeader, previous.stateRoot = root →
      some previous = some found → verifyQmdbStateRootFor P found.stateRoot
        (stateRootLeaves P [] (bridgeSidecar (freshBridge P))) preProof = .ok () := by
    intro previous found hprevious hfound
    rw [← Option.some.inj hfound, hprevious]
    exact hpreProof
  have hfirst : GuestAccepted P canonicalWitnessBytes first :=
    guestAccepted_quietInput (Nat.lt_succ_self 1) (fun found => hroot _ found rfl) nofun hpreProof
  have hsecond : GuestAccepted P canonicalWitnessBytes second :=
    guestAccepted_parkingInput (Nat.lt_succ_self 2) (fun found => hroot _ found rfl) nofun
      Nat.one_pos (by decide) hproof
  have hchain := AcceptedChain.pair hfirst hsecond rfl
  have hcursor : [first, second].IsChain KeepsCursor := List.isChain_pair.mpr rfl
  obtain ⟨hsound, honce⟩ := soundDeposits_of_acceptedChain hchain
  exact ⟨first, second, hchain, hcursor, hsound second (by simp),
    honce hcursor first second rfl rfl⟩

end Sybil.Zk
