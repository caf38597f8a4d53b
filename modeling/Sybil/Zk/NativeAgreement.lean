import Sybil.Zk.DepositBlocks

/-!
# The guest and the native verifier

The guest runs the same layers as `verifyFull`, except for the block header, which it checks
on its own: against the public inputs, and by proofs of the two state roots where the native
pass computes them.  Provided that the native roots are the ones proven, every native check
is then matched by one of the guest, with one exception.  The native pass asks for the height
after the previous one; the guest asks for a greater one.

`verifyFull_iff_of_guestAccepted` is the comparison: an accepted block passes natively exactly
when its height is the next one.  `exists_skipping` has a block that skips a height, for every
hash function.
-/

namespace Sybil.Zk

open Verifier

/-- The native database agrees with the guest on a block: it computes the roots that the input
proves, and the events root. -/
structure NativeRoots (P : Primitives) (input : StateTransitionGuestInput) : Prop where
  post : computeStateRootWithSidecar P input.witness.postState input.witness.stateSidecar =
    input.publicInputs.newStateRoot
  pre : input.witness.previousHeader.isSome = true →
    computeStateRootWithSidecar P input.witness.preState input.witness.preStateSidecar =
      input.publicInputs.previousStateRoot
  events : ∀ root, computeEventsRoot P input.witness = some root →
    Verifier.computeEventsRoot P input.witness = root

/-- The height that comes next. -/
def nextHeight (w : BlockWitness) : ℕ :=
  (w.previousHeader.map fun previous => previous.height).getD 0 + 1

variable {P : Primitives} {canonicalWitnessBytes : BlockWitness → Bytes}
  {input : StateTransitionGuestInput} {hash : Digest}

/-- An accepted block is linked to the previous one, except that its height may be greater. -/
theorem linksTo_iff_of_guestAccepted (h : GuestAccepted P canonicalWitnessBytes input)
    (hroots : NativeRoots P input) :
    LinksTo P input.witness input.witness.previousHeader ↔
      input.witness.header.height = nextHeight input.witness := by
  have hparent := h.parentHash
  have hprevious := h.previousStateRoot
  have hpre := hroots.pre
  rw [previousOf] at hparent hprevious
  rw [nextHeight]
  cases hheader : input.witness.previousHeader with
  | none =>
    simp only [hheader] at hparent
    simp only [LinksTo, hparent, true_and, Option.map_none, Option.getD_none, zero_add]
  | some previous =>
    simp only [hheader] at hparent hprevious hpre
    simp only [LinksTo, hpre rfl, hprevious, hparent, true_and, Option.map_some, Option.getD_some]

/-- **Native acceptance of an accepted block** is a matter of its height. -/
theorem verifyFull_iff_of_guestAccepted (h : GuestAccepted P canonicalWitnessBytes input)
    (hroots : NativeRoots P input) :
    verifyFull P input.witness = [] ↔
      input.witness.header.height = nextHeight input.witness := by
  have hblock : verifyBlock P input.witness = [] ↔
      input.witness.header.height = nextHeight input.witness := by
    rw [verifyBlock_eq_nil_iff, linksTo_iff_of_guestAccepted h hroots, hroots.post, h.newStateRoot,
      hroots.events _ h.eventsRoot]
    simp only [h.orderCount, h.fillCount, true_and, and_true]
  simp only [verifyFull, h.match_, h.system, h.settlement, h.orders, h.sidecar, List.nil_append,
    List.append_nil, hblock]

/-- **What the guest leaves to the native verifier.**  When the guest accepts an input and the
native roots are the proven ones, `verifyFull` reports nothing exactly when the height of the block
is the one after the previous header's, and 1 without a previous header. -/
theorem verifyFull_iff_of_verifyStateTransitionInput
    (h : verifyStateTransitionInput P canonicalWitnessBytes input = .ok hash)
    (hroots : NativeRoots P input) :
    verifyFull P input.witness = [] ↔
      input.witness.header.height = nextHeight input.witness :=
  verifyFull_iff_of_guestAccepted (verifyStateTransitionInput_eq_ok.mp h).1 hroots

/-! ## A block that skips a height -/

/-- Primitives with the roots of a native database that holds the operations of one ring. -/
def withNativeRoots (P : Primitives) : Primitives :=
  { P with
    stateRootFromLeaves := ringRoot P
    eventsRootFromEventBytes := fun events => (eventsRootFromEventBytes P events).getD 0 }

section SameHash

variable {Q : Primitives} (h : Q.sha256 = P.sha256)
include h

theorem computeMmrPeakFromElements_congr (height pos : ℕ) (elements : List Bytes) :
    computeMmrPeakFromElements Q height pos elements =
      computeMmrPeakFromElements P height pos elements := by
  induction height generalizing pos elements with
  | zero => simp only [computeMmrPeakFromElements, mmrLeafDigest, h]
  | succ height ih => simp only [computeMmrPeakFromElements, mmrNodeDigest, ih, h]

theorem peakDigestsFromElements_congr (peaks : List (ℕ × ℕ)) (elements : List Bytes) :
    peakDigestsFromElements Q peaks elements = peakDigestsFromElements P peaks elements := by
  induction peaks generalizing elements with
  | nil => rfl
  | cons peak peaks ih =>
    simp only [peakDigestsFromElements, computeMmrPeakFromElements_congr h, ih]

/-- The guest computes an events root with sha256 alone. -/
theorem eventsRootFromEventBytes_congr (events : List Bytes) :
    eventsRootFromEventBytes Q events = eventsRootFromEventBytes P events := by
  have hroot : ∀ (leaves : ℕ) (digests : List Digest),
      mmrRoot Q leaves 0 0 digests = mmrRoot P leaves 0 0 digests := by
    intro leaves digests
    cases digests with
    | nil => simp only [mmrRoot, h]
    | cons first rest => simp only [mmrRoot, Nat.zero_sub, foldInactive, h]
  simp only [eventsRootFromEventBytes, computeMmrRootFromElements, peakDigestsFromElements_congr h,
    hroot]

end SameHash

/-- The header of block 1, which left the state before the deposit. -/
def freshHeader (P : Primitives) : WitnessBlockHeader :=
  ⟨1, 0, ringRoot P (stateRootLeaves P [] (bridgeSidecar (freshBridge P))), 0, 0, 0, 0⟩

/-- On top of block 1 the guest accepts the parking block at every greater height. -/
theorem exists_parking_at (P : Primitives) (canonicalWitnessBytes : BlockWitness → Bytes)
    {height : ℕ} (hheight : 1 < height) :
    ∃ input, GuestAccepted (withNativeRoots P) canonicalWitnessBytes input ∧
      NativeRoots (withNativeRoots P) input ∧
      input.witness.previousHeader = some (freshHeader (withNativeRoots P)) ∧
      input.witness.header.height = height := by
  let Q := withNativeRoots P
  have hlength : ∀ {bridge : BridgeStateSnapshot}, bridge.withdrawals = [] →
      (stateRootLeaves Q [] (bridgeSidecar bridge)).length ≤ 128 := by
    intro bridge h
    rw [(stateRootLeaves_bridgeSidecar h Q).length_eq]
    exact (by decide : 5 ≤ 128)
  obtain ⟨proof, hproof⟩ := (ring_bridgeSidecar (show (parkedBridge Q 0 1).withdrawals = []
    from rfl) Q).exists_proof (P := Q) (hlength rfl)
  obtain ⟨preProof, hpreProof⟩ := (ring_bridgeSidecar (show (freshBridge Q).withdrawals = []
    from rfl) Q).exists_proof (P := Q) (hlength rfl)
  refine ⟨parkingInput Q canonicalWitnessBytes 0 1 _ (some (freshHeader Q)) height proof preProof,
    guestAccepted_parkingInput hheight ?_ nofun Nat.one_pos (by decide) hproof, ⟨rfl, fun _ => rfl,
      ?_⟩, rfl, rfl⟩
  · intro previous hprevious
    rw [← Option.some.inj hprevious]
    exact hpreProof
  · intro root hroot
    rw [computeEventsRoot, eventsRootFromEventBytes_congr
      (show (withNativeRoots P).sha256 = P.sha256 from rfl)] at hroot
    show (eventsRootFromEventBytes P _).getD 0 = root
    rw [hroot, Option.getD_some]

/-- The guest accepts block 3 on top of block 1; the native verifier does not. -/
theorem exists_skipping :
    ¬ ∃ (P : Primitives) (canonicalWitnessBytes : BlockWitness → Bytes), ∀ input hash,
      verifyStateTransitionInput (withNativeRoots P) canonicalWitnessBytes input = .ok hash →
      NativeRoots (withNativeRoots P) input →
      input.witness.previousHeader = some (freshHeader (withNativeRoots P)) →
      input.witness.header.height = 3 →
      verifyFull (withNativeRoots P) input.witness = [] := by
  rintro ⟨P, canonicalWitnessBytes, hclaim⟩
  obtain ⟨input, haccepted, hroots, hprevious, hheight⟩ :=
    exists_parking_at P canonicalWitnessBytes (show 1 < 3 by decide)
  have hfull := hclaim input _ (verifyStateTransitionInput_eq_ok.mpr ⟨haccepted, rfl⟩) hroots
    hprevious hheight
  have hnext := (verifyFull_iff_of_guestAccepted haccepted hroots).mp hfull
  rw [hheight, nextHeight, hprevious] at hnext
  exact absurd hnext (by decide : 3 ≠ 1 + 1)

/-- At height 2 both accept. -/
theorem exists_consecutive : (∀ P, (freshHeader P).height = 1) ∧
    ∀ (P : Primitives) (canonicalWitnessBytes : BlockWitness → Bytes), ∃ input hash,
      verifyStateTransitionInput (withNativeRoots P) canonicalWitnessBytes input = .ok hash ∧
      NativeRoots (withNativeRoots P) input ∧
      input.witness.header.height = nextHeight input.witness ∧
      verifyFull (withNativeRoots P) input.witness = [] := by
  refine ⟨fun P => rfl, fun P canonicalWitnessBytes => ?_⟩
  obtain ⟨input, haccepted, hroots, hprevious, hheight⟩ :=
    exists_parking_at P canonicalWitnessBytes (show 1 < 2 by decide)
  have hverified := verifyStateTransitionInput_eq_ok.mpr ⟨haccepted, rfl⟩
  have hnext : input.witness.header.height = nextHeight input.witness := by
    rw [hheight, nextHeight, hprevious]
    rfl
  exact ⟨input, _, hverified, hroots, hnext,
    (verifyFull_iff_of_verifyStateTransitionInput hverified hroots).mpr hnext⟩

end Sybil.Zk
