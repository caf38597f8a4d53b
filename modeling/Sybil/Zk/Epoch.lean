import Sybil.Zk.DepositBlocks

/-!
# Epochs

An epoch is a sequence of blocks behind one proof.  The accumulator verifies a block and
compares it with the block before it: the same genesis, the next height, the state root
and the header that the block before left.  The first block is compared with nothing, and
the guest accepts any height above that of its previous header.  What closes the gap is
the claimed range: it has to hold exactly one height per block, so a first block that
skips heights ends above the range (`epochChained_of_verify`).
-/

namespace Sybil.Zk

open Verifier

open L1Protocol (abiEncodeDomainAndWords)

def epochTransitionInputVersion : ℕ := 1

/-- Protocol ceiling of the blocks of an epoch. -/
def maxEpochBlocks : ℕ := 4096

/-- The statement that a proof of an epoch makes. -/
structure EpochTransitionPublicInputs where
  startHeight : ℕ
  endHeight : ℕ
  startStateRoot : Digest
  endStateRoot : Digest
  blockCount : ℕ
  blocksCommitment : Digest
  epochDaCommitment : Digest
  depositRoot : Digest
  depositCount : ℕ
  deriving DecidableEq

structure EpochTransitionHeader where
  formatVersion : ℕ
  publicInputs : EpochTransitionPublicInputs

/-- Why an epoch is refused. -/
inductive EpochTransitionError where
  | unsupportedInputVersion (expected actual : ℕ)
  | emptyEpoch
  | tooManyBlocks (max : ℕ)
  | claimedHeightRangeMismatch (start count endHeight : ℕ)
  | blockVerification (index : ℕ) (source : ZkTransitionError)
  | genesisHashMismatch (index : ℕ)
  | heightOverflow (previous : ℕ)
  | nonConsecutiveHeight (index expected actual : ℕ)
  | stateChainMismatch (index : ℕ)
  | previousHeaderMismatch (index : ℕ)
  | publicInputsMismatch
  /-- A failed expectation of the source. -/
  | stopped
  deriving DecidableEq

/-- The header of an epoch in the current format. -/
def EpochTransitionHeader.new (publicInputs : EpochTransitionPublicInputs) :
    EpochTransitionHeader where
  formatVersion := epochTransitionInputVersion
  publicInputs

/-- The claimed range has between one and `maxEpochBlocks` heights, one per block. -/
def EpochTransitionHeader.validate (header : EpochTransitionHeader) :
    Except EpochTransitionError Unit := do
  let inputs := header.publicInputs
  ensure (header.formatVersion = epochTransitionInputVersion)
    (.unsupportedInputVersion epochTransitionInputVersion header.formatVersion)
  ensure (inputs.blockCount ≠ 0) .emptyEpoch
  ensure (inputs.blockCount ≤ maxEpochBlocks) (.tooManyBlocks maxEpochBlocks)
  let expectedEnd ← okOr (checkedU64 (inputs.startHeight + inputs.blockCount))
    (.heightOverflow inputs.startHeight)
  ensure (inputs.endHeight = expectedEnd)
    (.claimedHeightRangeMismatch inputs.startHeight inputs.blockCount inputs.endHeight)

/-- The incremental verifier: the last header and the folds so far. -/
structure EpochTransitionAccumulator where
  blockCount : ℕ
  startHeight : Option ℕ
  startStateRoot : Option Digest
  endHeight : ℕ
  endStateRoot : Digest
  blocksCommitment : Digest
  epochDaCommitment : Digest
  depositRoot : Digest
  depositCount : ℕ
  genesisHash : Option Digest
  previousHeader : Option WitnessBlockHeader

/-- Equality of headers, field by field. -/
def headersEqual (left right : WitnessBlockHeader) : Bool :=
  decide (left.height = right.height ∧ left.parentHash = right.parentHash ∧
    left.stateRoot = right.stateRoot ∧ left.eventsRoot = right.eventsRoot ∧
    left.orderCount = right.orderCount ∧ left.fillCount = right.fillCount ∧
    left.timestampMs = right.timestampMs)

section Epoch

variable (P : Primitives) (canonicalWitnessBytes : BlockWitness → Bytes)

def epochTransitionPublicInputHash (inputs : EpochTransitionPublicInputs) : Digest :=
  P.keccak256 (abiEncodeDomainAndWords "sybil/openvm/epoch-transition/v1"
    [.uint inputs.startHeight, .uint inputs.endHeight, .bytes32 inputs.startStateRoot,
      .bytes32 inputs.endStateRoot, .uint inputs.blockCount, .bytes32 inputs.blocksCommitment,
      .bytes32 inputs.epochDaCommitment, .bytes32 inputs.depositRoot, .uint inputs.depositCount])

def epochCommitmentSeed (domain : String) : Digest := P.blake3 (utf8 domain)

def epochCommitmentFold (domain : String) (previous value : Digest) : Digest :=
  P.blake3 (utf8 domain ++ previous.toBytes ++ value.toBytes)

namespace EpochTransitionAccumulator

def new : EpochTransitionAccumulator where
  blockCount := 0
  startHeight := none
  startStateRoot := none
  endHeight := 0
  endStateRoot := 0
  blocksCommitment := epochCommitmentSeed P "sybil/epoch/blocks/v1"
  epochDaCommitment := epochCommitmentSeed P "sybil/epoch/da/v1"
  depositRoot := 0
  depositCount := 0
  genesisHash := none
  previousHeader := none

/-- A later block continues the one before it. -/
def checkContinues (acc : EpochTransitionAccumulator) (genesisHash : Digest)
    (input : StateTransitionGuestInput) : Except EpochTransitionError Unit := do
  let index := acc.blockCount
  ensure (input.witness.genesisHash = genesisHash) (.genesisHashMismatch index)
  let previous ← okOr acc.previousHeader .stopped
  let expectedHeight ← okOr (checkedU64 (previous.height + 1)) (.heightOverflow previous.height)
  ensure (input.publicInputs.newHeight = expectedHeight)
    (.nonConsecutiveHeight index expectedHeight input.publicInputs.newHeight)
  ensure (input.publicInputs.previousStateRoot = previous.stateRoot) (.stateChainMismatch index)
  match input.witness.previousHeader with
  | some actual => ensure (headersEqual previous actual = true) (.previousHeaderMismatch index)
  | none => .error (.previousHeaderMismatch index)

/-- The first block sets the start of the epoch, a later one is compared with the one before. -/
def start (acc : EpochTransitionAccumulator) (input : StateTransitionGuestInput) :
    Except EpochTransitionError EpochTransitionAccumulator :=
  match acc.genesisHash with
  | some genesisHash => (acc.checkContinues genesisHash input).map fun _ => acc
  | none =>
    .ok { acc with
      startHeight := some input.publicInputs.previousHeight
      startStateRoot := some input.publicInputs.previousStateRoot
      genesisHash := some input.witness.genesisHash }

/-- Verify a block and add it to the epoch. -/
def push (acc : EpochTransitionAccumulator) (input : StateTransitionGuestInput) :
    Except EpochTransitionError EpochTransitionAccumulator := do
  ensure (acc.blockCount < maxEpochBlocks) (.tooManyBlocks maxEpochBlocks)
  let blockHash ← (verifyStateTransitionInput P canonicalWitnessBytes input).mapError
    (.blockVerification acc.blockCount)
  let started ← acc.start input
  pure { started with
    blocksCommitment :=
      epochCommitmentFold P "sybil/epoch/blocks/fold/v1" acc.blocksCommitment blockHash
    epochDaCommitment := epochCommitmentFold P "sybil/epoch/da/fold/v1" acc.epochDaCommitment
      input.publicInputs.daCommitment
    blockCount := acc.blockCount + 1
    endHeight := input.publicInputs.newHeight
    endStateRoot := input.publicInputs.newStateRoot
    depositRoot := input.publicInputs.depositRoot
    depositCount := input.publicInputs.depositCount
    previousHeader := some input.witness.header }

/-- The statement about the blocks so far. -/
def finish (acc : EpochTransitionAccumulator) :
    Except EpochTransitionError EpochTransitionPublicInputs := do
  let startHeight ← okOr acc.startHeight .emptyEpoch
  let startStateRoot ← okOr acc.startStateRoot .emptyEpoch
  pure
    { startHeight
      endHeight := acc.endHeight
      startStateRoot
      endStateRoot := acc.endStateRoot
      blockCount := acc.blockCount
      blocksCommitment := acc.blocksCommitment
      epochDaCommitment := acc.epochDaCommitment
      depositRoot := acc.depositRoot
      depositCount := acc.depositCount }

def finishAndVerify (acc : EpochTransitionAccumulator) (header : EpochTransitionHeader) :
    Except EpochTransitionError Digest := do
  header.validate
  let computed ← acc.finish
  ensure (computed = header.publicInputs) .publicInputsMismatch
  pure (epochTransitionPublicInputHash P header.publicInputs)

end EpochTransitionAccumulator

/-- Verify the blocks of an epoch against a claimed statement. -/
def verifyEpochTransitionInputs (claimed : EpochTransitionPublicInputs)
    (blocks : List StateTransitionGuestInput) : Except EpochTransitionError Digest := do
  let acc ← blocks.foldlM (EpochTransitionAccumulator.push P canonicalWitnessBytes) (.new P)
  acc.finishAndVerify P (.new claimed)

end Epoch

/-! ## What an epoch says -/

/-- The block continues another one. -/
structure Follows (previous block : StateTransitionGuestInput) : Prop where
  height : block.witness.header.height = previous.witness.header.height + 1
  stateRoot : block.publicInputs.previousStateRoot = previous.publicInputs.newStateRoot
  header : block.witness.previousHeader = some previous.witness.header

/-- **A verified epoch.**  Its blocks are accepted one by one and form a chain from the claimed
start to the claimed end, one height per block. -/
structure EpochChained (P : Primitives) (canonicalWitnessBytes : BlockWitness → Bytes)
    (claimed : EpochTransitionPublicInputs) (blocks : List StateTransitionGuestInput) : Prop where
  nonempty : blocks ≠ []
  length_le : blocks.length ≤ maxEpochBlocks
  accepted : ∀ block ∈ blocks, GuestAccepted P canonicalWitnessBytes block
  height : ∀ i block, blocks[i]? = some block →
    block.witness.header.height = claimed.startHeight + i + 1
  chained : ∀ i previous block, blocks[i]? = some previous → blocks[i + 1]? = some block →
    block.publicInputs.previousStateRoot = previous.publicInputs.newStateRoot
  first : ∀ block, blocks.head? = some block →
    block.publicInputs.previousStateRoot = claimed.startStateRoot
  last : ∀ block, blocks.getLast? = some block →
    block.publicInputs.newStateRoot = claimed.endStateRoot ∧
      block.publicInputs.depositCount = claimed.depositCount ∧
      block.publicInputs.depositRoot = claimed.depositRoot
  genesis : ∃ genesisHash, ∀ block ∈ blocks, block.witness.genesisHash = genesisHash
  previousHeader : ∀ i block, blocks[i]? = some block → block.witness.previousHeader = none → i = 0

section Chained

variable {P : Primitives} {canonicalWitnessBytes : BlockWitness → Bytes}
  {acc acc' : EpochTransitionAccumulator} {first previous block : StateTransitionGuestInput}
  {blocks : List StateTransitionGuestInput} {n : ℕ}

theorem headersEqual_iff {left right : WitnessBlockHeader} :
    headersEqual left right = true ↔ left = right := by
  simp only [headersEqual, decide_eq_true_eq]
  constructor
  · rintro ⟨h₁, h₂, h₃, h₄, h₅, h₆, h₇⟩
    cases left
    cases right
    simp_all
  · rintro rfl
    exact ⟨rfl, rfl, rfl, rfl, rfl, rfl, rfl⟩

/-- What the accumulator holds after `n` blocks of which `first` was the first and `last` is the
last one. -/
structure EpochTransitionAccumulator.After (acc : EpochTransitionAccumulator) (n : ℕ)
    (first last : StateTransitionGuestInput) : Prop where
  blockCount : acc.blockCount = n
  bounded : n ≤ maxEpochBlocks
  startHeight : acc.startHeight = some first.publicInputs.previousHeight
  startStateRoot : acc.startStateRoot = some first.publicInputs.previousStateRoot
  genesisHash : acc.genesisHash = some first.witness.genesisHash
  endHeight : acc.endHeight = last.publicInputs.newHeight
  endStateRoot : acc.endStateRoot = last.publicInputs.newStateRoot
  depositRoot : acc.depositRoot = last.publicInputs.depositRoot
  depositCount : acc.depositCount = last.publicInputs.depositCount
  previousHeader : acc.previousHeader = some last.witness.header

/-- The first block is accepted and sets the start. -/
theorem after_push_new (hpush : (EpochTransitionAccumulator.new P).push P canonicalWitnessBytes
    block = .ok acc) :
    GuestAccepted P canonicalWitnessBytes block ∧ acc.After 1 block block := by
  obtain ⟨_, -, hpush⟩ := bind_eq_ok.mp hpush
  obtain ⟨hash, haccepted, hpush⟩ := bind_eq_ok.mp hpush
  obtain ⟨started, hstarted, hpush⟩ := bind_eq_ok.mp hpush
  cases hstarted
  cases hpush
  exact ⟨(verifyStateTransitionInput_eq_ok.mp (mapError_eq_ok.mp haccepted)).1,
    ⟨rfl, by decide, rfl, rfl, rfl, rfl, rfl, rfl, rfl, rfl⟩⟩

/-- What the comparison with the block before it says. -/
theorem checkContinues_eq_ok {genesisHash : Digest} {header : WitnessBlockHeader}
    (hheader : acc.previousHeader = some header)
    (h : acc.checkContinues genesisHash block = .ok ()) :
    block.witness.genesisHash = genesisHash ∧
      block.publicInputs.newHeight = header.height + 1 ∧
      block.publicInputs.previousStateRoot = header.stateRoot ∧
      block.witness.previousHeader = some header := by
  obtain ⟨_, hgenesis, h⟩ := bind_eq_ok.mp h
  obtain ⟨found, hfound, h⟩ := bind_eq_ok.mp h
  obtain rfl : header = found := Option.some.inj (hheader.symm.trans (okOr_eq_ok.mp hfound))
  obtain ⟨expected, hexpected, h⟩ := bind_eq_ok.mp h
  obtain ⟨_, hheight, h⟩ := bind_eq_ok.mp h
  obtain ⟨_, hroot, h⟩ := bind_eq_ok.mp h
  refine ⟨ensure_eq_ok.mp hgenesis, ?_, ensure_eq_ok.mp hroot, ?_⟩
  · rw [ensure_eq_ok.mp hheight]
    exact (checkedU64_eq_some_iff.mp (okOr_eq_ok.mp hexpected)).2.symm
  · cases hprevious : block.witness.previousHeader with
    | none =>
      rw [hprevious] at h
      exact nomatch h
    | some actual =>
      rw [hprevious] at h
      rw [headersEqual_iff.mp (ensure_eq_ok.mp h)]

/-- A later block is accepted and follows the one before it. -/
theorem EpochTransitionAccumulator.After.push (h : acc.After n first previous)
    (hprevious : GuestAccepted P canonicalWitnessBytes previous)
    (hpush : acc.push P canonicalWitnessBytes block = .ok acc') :
    GuestAccepted P canonicalWitnessBytes block ∧ Follows previous block ∧
      block.witness.genesisHash = first.witness.genesisHash ∧ acc'.After (n + 1) first block := by
  obtain ⟨_, hroom, hpush⟩ := bind_eq_ok.mp hpush
  obtain ⟨hash, haccepted, hpush⟩ := bind_eq_ok.mp hpush
  obtain ⟨started, hstarted, hpush⟩ := bind_eq_ok.mp hpush
  simp only [start, h.genesisHash] at hstarted
  cases hcontinues : acc.checkContinues first.witness.genesisHash block with
  | error error =>
    rw [hcontinues] at hstarted
    exact nomatch hstarted
  | ok _ =>
  rw [hcontinues] at hstarted
  cases hstarted
  cases hpush
  obtain ⟨hgenesis, hheight, hroot, hheader⟩ := checkContinues_eq_ok h.previousHeader hcontinues
  have hblock := (verifyStateTransitionInput_eq_ok.mp (mapError_eq_ok.mp haccepted)).1
  have hbounded : n + 1 ≤ maxEpochBlocks := h.blockCount ▸ ensure_eq_ok.mp hroom
  refine ⟨hblock, ⟨hblock.newHeight.symm.trans hheight, ?_, hheader⟩, hgenesis, ?_⟩
  · rw [hroot, hprevious.newStateRoot]
  · exact ⟨congrArg (· + 1) h.blockCount, hbounded, h.startHeight, h.startStateRoot, h.genesisHash,
      rfl, rfl, rfl, rfl, rfl⟩

/-- The blocks that are pushed after another one form a chain with it. -/
theorem EpochTransitionAccumulator.After.pushAll (h : acc.After n first previous)
    (hprevious : GuestAccepted P canonicalWitnessBytes previous)
    (hpush : blocks.foldlM (EpochTransitionAccumulator.push P canonicalWitnessBytes) acc =
      .ok acc') :
    (∀ block ∈ blocks, GuestAccepted P canonicalWitnessBytes block ∧
        block.witness.genesisHash = first.witness.genesisHash) ∧
      (previous :: blocks).IsChain Follows ∧
      ∃ last, (previous :: blocks).getLast? = some last ∧
        acc'.After (n + blocks.length) first last := by
  induction blocks generalizing acc n previous with
  | nil =>
    cases hpush
    exact ⟨by simp, List.isChain_singleton previous, previous, rfl, h⟩
  | cons block blocks ih =>
    obtain ⟨mid, hmid, hrest⟩ := foldlM_cons_eq_ok.mp hpush
    obtain ⟨haccepted, hfollows, hgenesis, hafter⟩ := h.push hprevious hmid
    obtain ⟨hall, hchain, last, hlast, hend⟩ := ih hafter haccepted hrest
    refine ⟨List.forall_mem_cons.mpr ⟨⟨haccepted, hgenesis⟩, hall⟩,
      List.isChain_cons_cons.mpr ⟨hfollows, hchain⟩, last, ?_, ?_⟩
    · rwa [List.getLast?_cons_cons]
    · rwa [List.length_cons, Nat.add_comm blocks.length 1, ← Nat.add_assoc]

/-- Heights in a chain count up from the first one. -/
theorem height_of_chain (hchain : (first :: blocks).IsChain Follows) {i : ℕ}
    (hblock : (first :: blocks)[i]? = some block) :
    block.witness.header.height = first.witness.header.height + i := by
  induction blocks generalizing first i with
  | nil =>
    cases i with
    | zero =>
      cases hblock
      rfl
    | succ i => exact nomatch hblock
  | cons next blocks ih =>
    obtain ⟨hfollows, hrest⟩ := List.isChain_cons_cons.mp hchain
    cases i with
    | zero =>
      cases hblock
      rfl
    | succ i =>
      rw [ih hrest hblock, hfollows.height]
      omega

theorem follows_of_chain (hchain : blocks.IsChain Follows) {i : ℕ}
    (hprevious : blocks[i]? = some previous) (hblock : blocks[i + 1]? = some block) :
    Follows previous block := by
  obtain ⟨hi, rfl⟩ := List.getElem?_eq_some_iff.mp hprevious
  obtain ⟨hi', rfl⟩ := List.getElem?_eq_some_iff.mp hblock
  exact List.isChain_iff_getElem.mp hchain i hi'

theorem endHeight_of_validate {inputs : EpochTransitionPublicInputs}
    (h : (EpochTransitionHeader.new inputs).validate = .ok ()) :
    inputs.endHeight = inputs.startHeight + inputs.blockCount := by
  replace h := eq_ok_of_bind (eq_ok_of_bind (eq_ok_of_bind h))
  obtain ⟨expected, hexpected, h⟩ := bind_eq_ok.mp h
  exact (ensure_eq_ok.mp h).trans (checkedU64_eq_some_iff.mp (okOr_eq_ok.mp hexpected)).2.symm

/-- **Epochs are chains.**  When the blocks of an epoch are verified against a claimed statement,
they are accepted one by one, at the heights after the claimed start without a gap, and their state
roots lead from the claimed start to the claimed end. -/
theorem epochChained_of_verify {claimed : EpochTransitionPublicInputs} {hash : Digest}
    (h : verifyEpochTransitionInputs P canonicalWitnessBytes claimed blocks = .ok hash) :
    EpochChained P canonicalWitnessBytes claimed blocks := by
  obtain ⟨acc, hpush, h⟩ := bind_eq_ok.mp h
  obtain ⟨_, hvalid, h⟩ := bind_eq_ok.mp h
  obtain ⟨computed, hcomputed, h⟩ := bind_eq_ok.mp h
  obtain ⟨_, hclaimed, -⟩ := bind_eq_ok.mp h
  obtain rfl : computed = claimed := ensure_eq_ok.mp hclaimed
  obtain ⟨startHeight, hstart, hcomputed⟩ := bind_eq_ok.mp hcomputed
  obtain ⟨startStateRoot, hstartRoot, hcomputed⟩ := bind_eq_ok.mp hcomputed
  cases hcomputed
  cases blocks with
  | nil =>
    cases hpush
    exact nomatch hstart
  | cons first blocks =>
    obtain ⟨mid, hmid, hrest⟩ := foldlM_cons_eq_ok.mp hpush
    obtain ⟨hfirst, hafter⟩ := after_push_new hmid
    obtain ⟨hall, hchain, last, hlast, hend⟩ := hafter.pushAll hfirst hrest
    have haccepted : ∀ block ∈ first :: blocks, GuestAccepted P canonicalWitnessBytes block :=
      List.forall_mem_cons.mpr ⟨hfirst, fun block hblock => (hall block hblock).1⟩
    obtain rfl := Option.some.inj ((okOr_eq_ok.mp hstart).symm.trans hend.startHeight)
    obtain rfl := Option.some.inj ((okOr_eq_ok.mp hstartRoot).symm.trans hend.startStateRoot)
    -- The range holds one height per block, so the first block is at its first height.
    have hrange := endHeight_of_validate hvalid
    have hlastHeight : last.witness.header.height =
        first.witness.header.height + blocks.length :=
      height_of_chain hchain (by rw [← hlast, List.getLast?_eq_getElem?]; rfl)
    have hlastAccepted := haccepted last (List.mem_of_getLast? hlast)
    have hfirstHeight : first.witness.header.height =
        first.publicInputs.previousHeight + 1 := by
      simp only [hend.endHeight, hend.blockCount, hlastAccepted.newHeight, hlastHeight] at hrange
      omega
    constructor
    case nonempty => exact List.cons_ne_nil _ _
    case length_le => simpa [Nat.add_comm] using hend.bounded
    case accepted => exact haccepted
    case height =>
      intro i block hblock
      rw [height_of_chain hchain hblock, hfirstHeight]
      exact Nat.add_right_comm _ 1 i
    case chained =>
      intro i previous block hprevious hblock
      exact (follows_of_chain hchain hprevious hblock).stateRoot
    case first =>
      intro block hblock
      cases hblock
      rfl
    case last =>
      intro block hblock
      obtain rfl := Option.some.inj (hlast.symm.trans hblock)
      exact ⟨hend.endStateRoot.symm, hend.depositCount.symm, hend.depositRoot.symm⟩
    case genesis =>
      exact ⟨first.witness.genesisHash, List.forall_mem_cons.mpr
        ⟨rfl, fun block hblock => (hall block hblock).2⟩⟩
    case previousHeader =>
      intro i block hblock hnone
      cases i with
      | zero => rfl
      | succ i =>
        have hi := (List.getElem?_eq_some_iff.mp hblock).1
        have hfollows := follows_of_chain hchain
          (List.getElem?_eq_getElem (Nat.lt_of_succ_lt hi)) hblock
        exact nomatch hnone.symm.trans hfollows.header

/-! ### The converse -/

/-- An accepted block that follows the last one is taken. -/
theorem EpochTransitionAccumulator.After.exists_push (h : acc.After n first previous)
    (hroom : n < maxEpochBlocks) (haccepted : GuestAccepted P canonicalWitnessBytes block)
    (hprevious : GuestAccepted P canonicalWitnessBytes previous) (hfollows : Follows previous block)
    (hgenesis : block.witness.genesisHash = first.witness.genesisHash)
    (hwidth : block.witness.header.height < 2 ^ 64) :
    ∃ acc', acc.push P canonicalWitnessBytes block = .ok acc' := by
  have hverified := verifyStateTransitionInput_eq_ok.mpr ⟨haccepted, rfl⟩
  have hnext : checkedU64 (previous.witness.header.height + 1) =
      some (previous.witness.header.height + 1) :=
    checkedU64_eq_some_iff.mpr ⟨hfollows.height ▸ hwidth, rfl⟩
  have hcontinues : acc.checkContinues first.witness.genesisHash block = .ok () := by
    rw [checkContinues, hfollows.header]
    refine bind_eq_ok.mpr ⟨(), ensure_eq_ok.mpr hgenesis, bind_eq_ok.mpr
      ⟨_, okOr_eq_ok.mpr h.previousHeader, bind_eq_ok.mpr ⟨_, okOr_eq_ok.mpr hnext, bind_eq_ok.mpr
        ⟨(), ensure_eq_ok.mpr (haccepted.newHeight.trans hfollows.height), bind_eq_ok.mpr
          ⟨(), ensure_eq_ok.mpr ?_, ensure_eq_ok.mpr (headersEqual_iff.mpr rfl)⟩⟩⟩⟩⟩
    rw [hfollows.stateRoot, hprevious.newStateRoot]
  have hstart : acc.start block = .ok acc := by
    rw [start, h.genesisHash]
    simp only [hcontinues]
    rfl
  exact ⟨_, bind_eq_ok.mpr ⟨(), ensure_eq_ok.mpr (h.blockCount ▸ hroom), bind_eq_ok.mpr
    ⟨_, mapError_eq_ok.mpr hverified, bind_eq_ok.mpr ⟨acc, hstart, rfl⟩⟩⟩⟩

theorem EpochTransitionAccumulator.After.exists_pushAll (h : acc.After n first previous)
    (hroom : n + blocks.length ≤ maxEpochBlocks)
    (hprevious : GuestAccepted P canonicalWitnessBytes previous)
    (haccepted : ∀ block ∈ blocks, GuestAccepted P canonicalWitnessBytes block ∧
      block.witness.genesisHash = first.witness.genesisHash ∧
      block.witness.header.height < 2 ^ 64)
    (hchain : (previous :: blocks).IsChain Follows) :
    ∃ acc', blocks.foldlM (EpochTransitionAccumulator.push P canonicalWitnessBytes) acc =
      .ok acc' := by
  induction blocks generalizing acc n previous with
  | nil => exact ⟨acc, rfl⟩
  | cons block blocks ih =>
    obtain ⟨⟨hblock, hgenesis, hwidth⟩, hrest⟩ := List.forall_mem_cons.mp haccepted
    obtain ⟨hfollows, hchain⟩ := List.isChain_cons_cons.mp hchain
    rw [List.length_cons] at hroom
    obtain ⟨mid, hmid⟩ := h.exists_push (by omega) hblock hprevious hfollows hgenesis hwidth
    obtain ⟨-, -, -, hafter⟩ := h.push hprevious hmid
    obtain ⟨acc', hacc'⟩ := ih hafter (by omega) hblock hrest hchain
    exact ⟨acc', foldlM_cons_eq_ok.mpr ⟨mid, hmid, hacc'⟩⟩

/-- **Chains are epochs.**  Accepted blocks that follow each other without a gap, of one genesis
and not too many, are verified against the statement that the accumulator makes about them. -/
theorem exists_epoch_of_chain
    (hfirst : GuestAccepted P canonicalWitnessBytes first)
    (hstart : first.witness.header.height = first.publicInputs.previousHeight + 1)
    (hlength : blocks.length < maxEpochBlocks)
    (haccepted : ∀ block ∈ blocks, GuestAccepted P canonicalWitnessBytes block ∧
      block.witness.genesisHash = first.witness.genesisHash)
    (hwidth : first.witness.header.height + blocks.length < 2 ^ 64)
    (hchain : (first :: blocks).IsChain Follows) :
    ∃ claimed hash,
      verifyEpochTransitionInputs P canonicalWitnessBytes claimed (first :: blocks) = .ok hash := by
  have hverified := verifyStateTransitionInput_eq_ok.mpr ⟨hfirst, rfl⟩
  obtain ⟨mid, hmid⟩ : ∃ mid, (EpochTransitionAccumulator.new P).push P canonicalWitnessBytes
      first = .ok mid :=
    ⟨_, bind_eq_ok.mpr ⟨(), ensure_eq_ok.mpr (show 0 < maxEpochBlocks by decide), bind_eq_ok.mpr
      ⟨_, mapError_eq_ok.mpr hverified, bind_eq_ok.mpr ⟨_, rfl, rfl⟩⟩⟩⟩
  obtain ⟨-, hafter⟩ := after_push_new hmid
  have hblocks : ∀ block ∈ blocks, GuestAccepted P canonicalWitnessBytes block ∧
      block.witness.genesisHash = first.witness.genesisHash ∧
      block.witness.header.height < 2 ^ 64 := by
    intro block hblock
    obtain ⟨i, hi⟩ := List.mem_iff_getElem?.mp hblock
    have hheight := height_of_chain (i := i + 1) hchain hi
    have hlt := (List.getElem?_eq_some_iff.mp hi).1
    exact ⟨(haccepted block hblock).1, (haccepted block hblock).2, by omega⟩
  obtain ⟨acc, hacc⟩ := hafter.exists_pushAll (by omega) hfirst hblocks hchain
  obtain ⟨-, -, last, hlast, hend⟩ := hafter.pushAll hfirst hacc
  have hlastHeight : last.witness.header.height = first.witness.header.height + blocks.length :=
    height_of_chain hchain (by rw [← hlast, List.getLast?_eq_getElem?]; rfl)
  have hlastAccepted : GuestAccepted P canonicalWitnessBytes last :=
    (List.forall_mem_cons.mpr ⟨hfirst, fun block hblock => (haccepted block hblock).1⟩ :
      ∀ block ∈ first :: blocks, _) last (List.mem_of_getLast? hlast)
  have hcomputed : acc.finish = .ok _ :=
    bind_eq_ok.mpr ⟨_, okOr_eq_ok.mpr hend.startHeight,
      bind_eq_ok.mpr ⟨_, okOr_eq_ok.mpr hend.startStateRoot, rfl⟩⟩
  refine ⟨_, _, bind_eq_ok.mpr ⟨acc, foldlM_cons_eq_ok.mpr ⟨mid, hmid, hacc⟩, bind_eq_ok.mpr
    ⟨(), ?_, bind_eq_ok.mpr ⟨_, hcomputed, bind_eq_ok.mpr ⟨(), ensure_eq_ok.mpr rfl, rfl⟩⟩⟩⟩⟩
  -- The range that the accumulator computes has one height per block.
  have hcount : acc.blockCount = 1 + blocks.length := hend.blockCount
  have hrange : acc.endHeight = first.publicInputs.previousHeight + acc.blockCount := by
    rw [hend.endHeight, hlastAccepted.newHeight, hlastHeight, hstart, hcount, Nat.add_assoc]
  refine bind_eq_ok.mpr ⟨(), ensure_eq_ok.mpr rfl, bind_eq_ok.mpr
    ⟨(), ensure_eq_ok.mpr ?_, bind_eq_ok.mpr ⟨(), ensure_eq_ok.mpr ?_, bind_eq_ok.mpr
      ⟨_, okOr_eq_ok.mpr (checkedU64_eq_some_iff.mpr ⟨?_, rfl⟩), ensure_eq_ok.mpr hrange⟩⟩⟩⟩
  · show acc.blockCount ≠ 0
    omega
  · show acc.blockCount ≤ maxEpochBlocks
    omega
  · show first.publicInputs.previousHeight + acc.blockCount < 2 ^ 64
    omega

end Chained

/-- An epoch of two blocks, each of which parks the first deposit. -/
theorem exists_parkingEpoch (P : Primitives) (canonicalWitnessBytes : BlockWitness → Bytes) :
    ∃ claimed blocks hash, blocks.length = 2 ∧
      verifyEpochTransitionInputs P canonicalWitnessBytes claimed blocks = .ok hash := by
  obtain ⟨root, proof, preProof, hproof, hpreProof⟩ := exists_parkingRoot P 0 1
  let first := parkingInput P canonicalWitnessBytes 0 1 root none 1 proof ⟨[]⟩
  let second := parkingInput P canonicalWitnessBytes 0 1 root (some first.witness.header) 2 proof
    preProof
  have hfirst : GuestAccepted P canonicalWitnessBytes first :=
    guestAccepted_parkingInput Nat.one_pos nofun (fun _ => rfl) Nat.one_pos (by decide) hproof
  have hsecond : GuestAccepted P canonicalWitnessBytes second := by
    refine guestAccepted_parkingInput Nat.one_lt_two ?_ nofun Nat.one_pos (by decide) hproof
    intro previous hprevious
    rw [← Option.some.inj hprevious]
    exact hpreProof
  have hlength : [second].length < maxEpochBlocks := (by decide : 1 < maxEpochBlocks)
  have hwidth : first.witness.header.height + [second].length < 2 ^ 64 :=
    (by decide : 1 + 1 < 2 ^ 64)
  obtain ⟨claimed, hash, hepoch⟩ := exists_epoch_of_chain hfirst rfl hlength
    (List.forall_mem_singleton.mpr ⟨hsecond, rfl⟩) hwidth (List.isChain_pair.mpr ⟨rfl, rfl, rfl⟩)
  exact ⟨claimed, [first, second], hash, rfl, hepoch⟩

theorem epochChained_parking : 1 < maxEpochBlocks ∧
    ∀ (P : Primitives) (canonicalWitnessBytes : BlockWitness → Bytes), ∃ claimed blocks hash,
      blocks.length = 2 ∧
      verifyEpochTransitionInputs P canonicalWitnessBytes claimed blocks = .ok hash ∧
      EpochChained P canonicalWitnessBytes claimed blocks := by
  refine ⟨by decide, fun P canonicalWitnessBytes => ?_⟩
  obtain ⟨claimed, blocks, hash, hlength, h⟩ := exists_parkingEpoch P canonicalWitnessBytes
  exact ⟨claimed, blocks, hash, hlength, h, epochChained_of_verify h⟩

end Sybil.Zk
