import Sybil.Verifier.Completeness
import Sybil.Zk.Deposits
import Sybil.Zk.RootBinding

/-!
# Blocks that park a deposit

The smallest block that consumes a deposit: the first deposit of the vault arrives for an
account that does not exist, and is parked.  The states before and after it hold nothing but
the bridge, so five leaves each, and all layers of the verifier accept the block whatever the
hash functions are (`sidecarAccepted_parkingBlock`, `verifySystem_parkingBlock`).

The header is open.  A guest input over the block needs a root that proves the state after
it, and the state before it if it continues another block; `exists_parkingRoot` has one root
for both.
-/

namespace Sybil.Zk

open Verifier

open L1Protocol (DepositLeaf appendLevels depositTreeLeaf prefixRoots appendDepositFrontier)

/-! ## The block -/

/-- A sidecar that holds nothing but a bridge. -/
def bridgeSidecar (bridge : BridgeStateSnapshot) : StateSidecarSnapshot := ⟨bridge, [], [], [], []⟩

section Block

variable (P : Primitives) (key : Digest) (units : ℕ)

/-- The root after the first deposit. -/
@[irreducible] def firstDepositRoot : Digest :=
  (appendLevels P 0 0 (depositTreeLeaf P ⟨1, 0, 1, 0, 0, key, units⟩)
    (Vector.replicate 32 0).toList).2

/-- The first deposit of the vault. -/
def firstDeposit : L1DepositWitness where
  depositId := 1
  chainId := 1
  vaultAddress := 0
  tokenAddress := 0
  sender := 0
  sybilAccountKey := key
  amountTokenUnits := units
  depositRoot := firstDepositRoot P key units

/-- The bridge with that deposit parked. -/
def parkedBridge : BridgeStateSnapshot :=
  { freshBridge P with
    depositCursor := 1
    depositRoot := firstDepositRoot P key units
    quarantine := [⟨key, 1000 * units⟩] }

/-- The block that parks it. -/
def parkingBlock (header : WitnessBlockHeader) (previousHeader : Option WitnessBlockHeader) :
    BlockWitness :=
  { idleContent [] [] (bridgeSidecar (freshBridge P)) (bridgeSidecar (parkedBridge P key units))
      [.depositQuarantined (1000 * units) 1 (firstDepositRoot P key units) key] with
    header
    previousHeader
    depositAccumulator := ⟨Vector.replicate 32 0, 0, [firstDeposit P key units]⟩ }

/-- A block on the fresh bridge in which nothing happens. -/
def quietBlock (header : WitnessBlockHeader) (previousHeader : Option WitnessBlockHeader) :
    BlockWitness :=
  { idleContent [] [] (bridgeSidecar (freshBridge P)) (bridgeSidecar (freshBridge P)) [] with
    header
    previousHeader }

end Block

variable {P : Primitives} {key : Digest} {units : ℕ} {header : WitnessBlockHeader}
  {previousHeader : Option WitnessBlockHeader}

/-! ## The layers -/

theorem prefixRoots_first (P : Primitives) (key : Digest) (units : ℕ) :
    prefixRoots P (Vector.replicate 32 0).toList 0 [⟨1, 0, 1, 0, 0, key, units⟩] =
      some [firstDepositRoot P key units] := by
  have hroom : ¬ L1Protocol.depositTreeCapacity ≤ 0 := by decide
  simp only [prefixRoots, appendDepositFrontier, if_neg hroom, firstDepositRoot,
    Option.bind_eq_bind, Option.bind_some, Option.pure_def]

section Layers

variable (hpos : 0 < units) (hfits : units * 1000 < 2 ^ 63)
include hfits

theorem depositsConsumed_parkingBlock :
    DepositsConsumed P (parkingBlock P key units header previousHeader) 1
      (firstDepositRoot P key units) where
  preCount := rfl
  preRoot := depositRootFromFrontier_fresh P
  count := rfl
  ids := by
    intro i deposit hdeposit
    obtain ⟨rfl, rfl⟩ : i = 0 ∧ firstDeposit P key units = deposit := by
      simpa [parkingBlock, List.getElem?_singleton] using hdeposit
    rfl
  roots := L1Protocol.depositFrontierPrefixRoots_eq_some.mpr
    ⟨Nat.one_le_two_pow, prefixRoots_first P key units⟩
  root := by simp only [parkingBlock, firstDeposit, List.map_cons, List.map_nil,
    List.getLast?_singleton, Option.getD_some]
  disposed := .cons ⟨rfl, rfl, rfl, nofun, rfl, hfits⟩ .nil

include hpos

omit hfits in
theorem ledgerMap_parked (label : String) :
    ledgerMap [⟨key, 1000 * units⟩] label =
      .ok ((∅ : QuarantineLedger).insert key (1000 * units)) := by
  have hamount : (0 : ℤ) < 1000 * units := by omega
  refine foldlM_cons_eq_ok.mpr ⟨_, ?_, rfl⟩
  exact bind_eq_ok.mpr ⟨(), ensure_eq_ok.mpr hamount, bind_eq_ok.mpr ⟨(), rfl, rfl⟩⟩

theorem quarantine_parked : quarantine ∅ key (1000 * units) =
    ((∅ : QuarantineLedger).insert key (1000 * units), []) := by
  have hamount : (0 : ℤ) < 1000 * units := by omega
  have hbounds : (-2 ^ 63 : ℤ) ≤ 1000 * units ∧ (1000 * units : ℤ) < 2 ^ 63 := by omega
  simp only [quarantine, if_neg (not_le.mpr hamount), OrdMap.get?_empty, Option.getD_none, zero_add,
    checkedI64_eq_some_iff.mpr ⟨hbounds, rfl⟩]

theorem verifyQuarantineTransition_parkingBlock :
    verifyQuarantineTransition P (parkingBlock P key units header previousHeader) = [] := by
  have hpre : preLedger (parkingBlock P key units header previousHeader) = (∅, []) := rfl
  have hpost : ledgerMap (parkingBlock P key units header
      previousHeader).stateSidecar.bridge.quarantine "post" = _ := ledgerMap_parked hpos "post"
  have hrun : reportLoop (quarantineStep P) ∅
      (parkingBlock P key units header previousHeader).systemEvents =
        ((∅ : QuarantineLedger).insert key (1000 * units), []) := by
    show ((quarantine ∅ key (1000 * units)).1, (quarantine ∅ key (1000 * units)).2 ++ []) = _
    rw [quarantine_parked hpos hfits, List.append_nil]
  have hempty : (∅ : QuarantineLedger).entries = [] := rfl
  simp [verifyQuarantineTransition, hpre, hrun, comparePostLedger, hpost, hempty]

theorem sidecarAccepted_parkingBlock :
    SidecarAccepted P (parkingBlock P key units header previousHeader) where
  preReservations := rfl
  postReservations := rfl
  restingOrders := by cases previousHeader <;> rfl
  withdrawals := rfl
  deposits := verifyDepositAccumulator_eq_nil_iff.mpr (depositsConsumed_parkingBlock hfits)
  quarantine := verifyQuarantineTransition_parkingBlock hpos hfits
  markets := by cases previousHeader <;> rfl
  marketGroups := by cases previousHeader <;> rfl

end Layers

theorem sidecarAccepted_quietBlock : SidecarAccepted P (quietBlock P header previousHeader) where
  preReservations := rfl
  postReservations := rfl
  restingOrders := by cases previousHeader <;> rfl
  withdrawals := rfl
  deposits := verifyDepositAccumulator_of_idle rfl rfl rfl rfl (depositRootFromFrontier_fresh P) rfl
  quarantine := by cases previousHeader <;> rfl
  markets := by cases previousHeader <;> rfl
  marketGroups := by cases previousHeader <;> rfl

/-- Without accounts there is nothing to replay but the events themselves. -/
theorem verifySystem_of_no_accounts {w : BlockWitness} (hpre : w.preState = [])
    (hsystem : w.postSystemState = []) (hpost : w.postState = []) (hkeys : w.accountKeys = [])
    (hreplay : replayEvents P w.header.height ∅ w.systemEvents = .ok ∅)
    (huntouched : KeysUntouched w.systemEvents) (hbindings : verifyBindings w = .ok ()) :
    verifySystem P w = [] := by
  have hempty : accountsOf [] = ∅ := rfl
  rw [verifySystem, List.append_eq_nil_iff, List.append_eq_nil_iff]
  refine ⟨⟨verifySystemTransition_of_replay ?_, verifyKeyTransitions_eq_nil.mpr ?_⟩,
    verifyClientActionBindings_eq_nil.mpr hbindings⟩
  · rw [hpre, hsystem, hempty, hreplay]
  · refine verifyKeys_of_untouched huntouched hkeys ?_ ?_ ?_ ?_ ?_ ?_ ?_ ?_ <;>
      simp [hpre, hsystem, hpost, Keyless]

theorem verifySystem_parkingBlock :
    verifySystem P (parkingBlock P key units header previousHeader) = [] :=
  verifySystem_of_no_accounts rfl rfl rfl rfl rfl (List.forall_mem_singleton.mpr ⟨rfl, nofun⟩) rfl

theorem verifySystem_quietBlock : verifySystem P (quietBlock P header previousHeader) = [] :=
  verifySystem_of_no_accounts rfl rfl rfl rfl rfl nofun rfl

/-! ## The roots -/

/-- The leaves that every state has. -/
def systemLeaves (P : Primitives) (bridge : BridgeStateSnapshot) : List (Bytes × Bytes) :=
  [(utf8 "sys/deposit_cursor", sysU64LeafValue "deposit_cursor" bridge.depositCursor),
    (utf8 "sys/deposit_root", sysBytes32LeafValue "deposit_root" bridge.depositRoot),
    (utf8 "sys/quarantine_digest", sysBytes32LeafValue "quarantine_digest"
      (quarantineLedgerDigest P bridge.quarantine)),
    (utf8 "sys/observed_l1_height", sysU64LeafValue "observed_l1_height" bridge.observedL1Height),
    (utf8 "sys/next_withdrawal_id", sysU64LeafValue "next_withdrawal_id" bridge.nextWithdrawalId)]

section Roots

variable {bridge : BridgeStateSnapshot} (h : bridge.withdrawals = [])
include h

theorem stateRootLeaves_bridgeSidecar (P : Primitives) :
    (stateRootLeaves P [] (bridgeSidecar bridge)).Perm (systemLeaves P bridge) := by
  refine (List.mergeSort_perm _ _).trans (List.Perm.of_eq ?_)
  simp only [bridgeSidecar, sortByKey, h, List.mergeSort_nil, List.map_nil, List.nil_append,
    List.append_nil, systemLeaves]

theorem ring_bridgeSidecar (P : Primitives) :
    Ring (stateRootLeaves P [] (bridgeSidecar bridge)) where
  distinct := by
    refine (((stateRootLeaves_bridgeSidecar h P).map Prod.fst).nodup_iff).mpr ?_
    show [utf8 "sys/deposit_cursor", utf8 "sys/deposit_root", utf8 "sys/quarantine_digest",
      utf8 "sys/observed_l1_height", utf8 "sys/next_withdrawal_id"].Nodup
    decide +kernel
  small := by
    intro leaf hleaf
    have hleaf := (stateRootLeaves_bridgeSidecar h P).mem_iff.mp hleaf
    simp only [systemLeaves, List.mem_cons, List.not_mem_nil, or_false] at hleaf
    rcases hleaf with rfl | rfl | rfl | rfl | rfl <;>
    · simp only [sysU64LeafValue, sysBytes32LeafValue, FixedBytes.toBytes, List.length_append,
        length_leBytes, length_beBytes]
      decide +kernel

end Roots

/-- One root for the states before and after the deposit. -/
theorem exists_parkingRoot (P : Primitives) (key : Digest) (units : ℕ) :
    ∃ root proof preProof,
      verifyQmdbStateRootFor P root
        (stateRootLeaves P [] (bridgeSidecar (parkedBridge P key units))) proof = .ok () ∧
      verifyQmdbStateRootFor P root
        (stateRootLeaves P [] (bridgeSidecar (freshBridge P))) preProof = .ok () := by
  let rings := [stateRootLeaves P [] (bridgeSidecar (parkedBridge P key units)),
    stateRootLeaves P [] (bridgeSidecar (freshBridge P))]
  have hrings : ∀ ring ∈ rings, Ring ring := by
    intro ring hring
    obtain rfl | rfl : ring = _ ∨ ring = _ := by simpa [rings] using hring
    · exact ring_bridgeSidecar rfl P
    · exact ring_bridgeSidecar rfl P
  have hcount : (rings.map List.length).sum ≤ 128 := by
    have hparked := (stateRootLeaves_bridgeSidecar
      (show (parkedBridge P key units).withdrawals = [] from rfl) P).length_eq
    have hfresh := (stateRootLeaves_bridgeSidecar
      (show (freshBridge P).withdrawals = [] from rfl) P).length_eq
    simp [rings, hparked, hfresh, systemLeaves]
  obtain ⟨root, hroot⟩ := exists_root_proving P hrings hcount
  obtain ⟨proof, hproof⟩ := hroot _ List.mem_cons_self
  obtain ⟨preProof, hpreProof⟩ := hroot _ (List.mem_cons_of_mem _ List.mem_cons_self)
  exact ⟨root, proof, preProof, hproof, hpreProof⟩

theorem exists_eventsRoot_singleton (P : Primitives) {event : Bytes} (h : event.length < 2 ^ 32) :
    ∃ root, eventsRootFromEventBytes P [event] = some root := by
  have hmmr : ∀ a b c : Bytes, ∃ root, computeMmrRootFromElements P [a, b, c] = some root := by
    intro a b c
    have hsize : mmrLocationToPosition [a, b, c].length = some 4 := by
      show mmrLocationToPosition 3 = some 4
      decide
    have hpeaks : mmrPeaks 4 = [(2, 1), (3, 0)] := by decide +kernel
    rw [computeMmrRootFromElements, hsize, Option.bind_eq_bind, Option.bind_some, hpeaks]
    exact ⟨_, rfl⟩
  have hcommit : (leBytes 8 [event].length).length < 2 ^ 32 := by
    rw [length_leBytes]
    decide
  simp only [eventsRootFromEventBytes, encodeKeylessCommitOperation, encodeKeylessAppendOperation,
    List.mapM_cons, List.mapM_nil, lenPrefixedBytes_of_lt h, lenPrefixedBytes_of_lt hcommit,
    Option.bind_eq_bind, Option.bind_some, Option.pure_def]
  exact hmmr _ _ _

theorem exists_eventsRoot_nil (P : Primitives) :
    ∃ root, eventsRootFromEventBytes P [] = some root := by
  have hmmr : ∀ a b : Bytes, ∃ root, computeMmrRootFromElements P [a, b] = some root := by
    intro a b
    have hsize : mmrLocationToPosition [a, b].length = some 3 := by
      show mmrLocationToPosition 2 = some 3
      decide
    have hpeaks : mmrPeaks 3 = [(2, 1)] := by decide +kernel
    rw [computeMmrRootFromElements, hsize, Option.bind_eq_bind, Option.bind_some, hpeaks]
    exact ⟨_, rfl⟩
  have hcommit : (leBytes 8 0).length < 2 ^ 32 := by
    rw [length_leBytes]
    decide
  simp only [eventsRootFromEventBytes, encodeKeylessCommitOperation, List.mapM_nil, List.length_nil,
    lenPrefixedBytes_of_lt hcommit, Option.bind_eq_bind, Option.bind_some, Option.pure_def]
  exact hmmr _ _

/-! ## The guest input -/

section Input

variable (P : Primitives) (canonicalWitnessBytes : BlockWitness → Bytes)

/-- A block with its proofs, as the guest takes it. -/
def witnessInput (w : BlockWitness) (proof preProof : QmdbStateRootProof) :
    StateTransitionGuestInput where
  publicInputs := publicInputsFromWitnessAndProviderRefs P canonicalWitnessBytes w []
  witness := w
  daProviderRefs := []
  stateRootProof := proof
  preStateRootProof := preProof

/-- The header over the given roots. -/
def linkedHeader (root : Digest) (eventsRoot : Option Digest)
    (previousHeader : Option WitnessBlockHeader) (height : ℕ) : WitnessBlockHeader where
  height
  parentHash := (previousHeader.map (hashHeader P)).getD 0
  stateRoot := root
  eventsRoot := eventsRoot.getD 0
  orderCount := 0
  fillCount := 0
  timestampMs := 0

/-- The parking block with its proofs. -/
def parkingInput (key : Digest) (units : ℕ) (root : Digest)
    (previousHeader : Option WitnessBlockHeader) (height : ℕ)
    (proof preProof : QmdbStateRootProof) : StateTransitionGuestInput :=
  let eventsRoot := eventsRootFromEventBytes P [systemEventLeafValue
    (.depositQuarantined (1000 * units) 1 (firstDepositRoot P key units) key)]
  witnessInput P canonicalWitnessBytes (parkingBlock P key units
    (linkedHeader P root eventsRoot previousHeader height) previousHeader) proof preProof

/-- The quiet block with its proofs. -/
def quietInput (root : Digest) (previousHeader : Option WitnessBlockHeader) (height : ℕ)
    (proof preProof : QmdbStateRootProof) : StateTransitionGuestInput :=
  witnessInput P canonicalWitnessBytes (quietBlock P
    (linkedHeader P root (eventsRootFromEventBytes P []) previousHeader height) previousHeader)
    proof preProof

end Input

section Accepted

variable {canonicalWitnessBytes : BlockWitness → Bytes} {root : Digest} {height : ℕ}
  {proof preProof : QmdbStateRootProof}

/-- An input made from a witness is accepted when the header is linked, the roots are proven and
the layers are silent: the sidecar layer has checked the deposits already. -/
theorem guestAccepted_witnessInput {w : BlockWitness} {eventsRoot : Option Digest}
    (hheader : w.header = linkedHeader P root eventsRoot w.previousHeader height)
    (heventsRoot : eventsRoot.isSome = true) (hevents : computeEventsRoot P w = eventsRoot)
    (hheight : (w.previousHeader.map fun previous => previous.height).getD 0 < height)
    (horders : (w.orders.length + w.rejections.length) % 2 ^ 32 = 0)
    (hfills : w.fills.length % 2 ^ 32 = 0)
    (hproof : verifyQmdbStateRootFor P root (stateRootLeaves P w.postState w.stateSidecar) proof =
      .ok ())
    (hpreProof : ∀ previous, w.previousHeader = some previous →
      verifyQmdbStateRootFor P previous.stateRoot
        (stateRootLeaves P w.preState w.preStateSidecar) preProof = .ok ())
    (hgenesis : w.previousHeader = none → preProof.leafProofs = [])
    (hmatch : verifyMatch w = []) (hsystem : verifySystem P w = [])
    (hsettlement : verifySettlement P w = []) (horderPass : verifyOrders w = [])
    (hsidecar : SidecarAccepted P w) :
    GuestAccepted P canonicalWitnessBytes
      (witnessInput P canonicalWitnessBytes w proof preProof) := by
  obtain ⟨eventsRoot, rfl⟩ := Option.isSome_iff_exists.mp heventsRoot
  constructor
  case newHeight => rfl
  case newStateRoot => rfl
  case publicEventsRoot => rfl
  case eventsRoot =>
    show computeEventsRoot P w = some w.header.eventsRoot
    rw [hevents, hheader]
    rfl
  case blockHash => rfl
  case witnessRoot => rfl
  case daCommitment => rfl
  case previousHeight => rfl
  case previousStateRoot => rfl
  case parentHash =>
    show w.header.parentHash = (previousOf P w).2.2
    rw [hheader, previousOf]
    cases w.previousHeader <;> rfl
  case grows =>
    show (previousOf P w).1 < w.header.height
    rw [hheader, previousOf]
    generalize w.previousHeader = previousHeader at hheight ⊢
    cases previousHeader <;> exact hheight
  case orderCount =>
    show w.header.orderCount = _
    rw [hheader]
    exact horders.symm
  case fillCount =>
    show w.header.fillCount = _
    rw [hheader]
    exact hfills.symm
  case depositRoot => rfl
  case depositCount => rfl
  case checkpoint =>
    exact verifyL1DepositCheckpoint_eq_ok.mpr
      (verifyDepositAccumulator_eq_nil_iff.mp hsidecar.deposits)
  case postRoot =>
    show verifyQmdbStateRootFor P w.header.stateRoot _ proof = .ok ()
    rw [hheader]
    exact hproof
  case preRoot =>
    cases hprevious : w.previousHeader with
    | none =>
      simp only [verifyPreStateRoot, witnessInput, hprevious, Option.isSome_none,
        Bool.false_eq_true, if_false]
      exact ensure_eq_ok.mpr (hgenesis hprevious)
    | some previous =>
      simp only [verifyPreStateRoot, witnessInput, publicInputsFromWitnessAndProviderRefs,
        previousOf, hprevious, Option.isSome_some, if_true]
      exact mapError_eq_ok.mpr (hpreProof previous hprevious)
  case match_ => exact hmatch
  case system => exact hsystem
  case settlement => exact hsettlement
  case orders => exact horderPass
  case sidecar => exact verifySidecar_eq_nil_iff.mpr hsidecar

variable (hheight : (previousHeader.map fun previous => previous.height).getD 0 < height)
  (hpreProof : ∀ previous, previousHeader = some previous →
    verifyQmdbStateRootFor P previous.stateRoot
      (stateRootLeaves P [] (bridgeSidecar (freshBridge P))) preProof = .ok ())
  (hgenesis : previousHeader = none → preProof.leafProofs = [])
include hheight hpreProof hgenesis

/-- **The guest accepts the parking block** at every height above the one before it. -/
theorem guestAccepted_parkingInput (hpos : 0 < units) (hfits : units * 1000 < 2 ^ 63)
    (hproof : verifyQmdbStateRootFor P root
      (stateRootLeaves P [] (bridgeSidecar (parkedBridge P key units))) proof = .ok ()) :
    GuestAccepted P canonicalWitnessBytes
      (parkingInput P canonicalWitnessBytes key units root previousHeader height proof
        preProof) := by
  have hlength : (systemEventLeafValue
      (.depositQuarantined (1000 * units) 1 (firstDepositRoot P key units) key)).length <
        2 ^ 32 := by
    simp only [systemEventLeafValue, appendSystemEvent, leBytesInt, FixedBytes.toBytes,
      List.length_append, List.length_cons, length_leBytes, length_beBytes]
    decide +kernel
  exact guestAccepted_witnessInput rfl
    (Option.isSome_iff_exists.mpr (exists_eventsRoot_singleton P hlength)) rfl hheight
      rfl rfl hproof
    hpreProof hgenesis rfl verifySystem_parkingBlock
    (verifySettlement_of_no_fills rfl rfl rfl rfl rfl rfl rfl) rfl
    (sidecarAccepted_parkingBlock hpos hfits)

/-- So does it the quiet one. -/
theorem guestAccepted_quietInput
    (hproof : verifyQmdbStateRootFor P root
      (stateRootLeaves P [] (bridgeSidecar (freshBridge P))) proof = .ok ()) :
    GuestAccepted P canonicalWitnessBytes
      (quietInput P canonicalWitnessBytes root previousHeader height proof preProof) :=
  guestAccepted_witnessInput rfl
    (Option.isSome_iff_exists.mpr (exists_eventsRoot_nil P)) rfl hheight rfl rfl hproof
    hpreProof hgenesis rfl verifySystem_quietBlock
    (verifySettlement_of_no_fills rfl rfl rfl rfl rfl rfl rfl) rfl sidecarAccepted_quietBlock

end Accepted

end Sybil.Zk
