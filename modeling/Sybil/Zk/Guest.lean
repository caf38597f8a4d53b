import Sybil.Verifier.Full
import Sybil.Zk.Qmdb

/-!
# The state transition guest

The program that a proof of a block runs.  It binds the public inputs to the witness,
checks the roots of the state before and after the block by qMDB proofs, and runs the
layers of the verifier, except for the block header, which it checks on its own.

The canonical bytes of a witness are a parameter: only their hash is used, and every
result holds for any encoder.  The helpers that the guest has in common with the verifier
(header hash, account keys, deposit leaves and amounts) are the verifier's.
-/

namespace Sybil.Zk

open Verifier

open L1Protocol (AbiWord abiEncodeDomainAndWords depositRootFromFrontier
  depositFrontierPrefixRoots depositTreeCapacity)

/-- The statement that a proof of a block makes. -/
structure StateTransitionPublicInputs where
  previousHeight : ℕ
  newHeight : ℕ
  previousStateRoot : Digest
  newStateRoot : Digest
  blockHash : Digest
  eventsRoot : Digest
  witnessRoot : Digest
  daCommitment : Digest
  depositRoot : Digest
  depositCount : ℕ
  deriving DecidableEq

structure StateTransitionGuestInput where
  publicInputs : StateTransitionPublicInputs
  witness : BlockWitness
  daProviderRefs : List Bytes
  stateRootProof : QmdbStateRootProof
  preStateRootProof : QmdbStateRootProof

/-- Why the guest stops. -/
inductive ZkTransitionError where
  | headerHeightMismatch (expected actual : ℕ)
  | stateRootMismatch
  | eventsRootMismatch
  | eventsRootComputationFailed
  | blockHashMismatch
  | previousHeightMismatch (expected actual : ℕ)
  | previousStateRootMismatch
  | parentHashMismatch
  | nonMonotonicHeight (previous new : ℕ)
  | orderCountMismatch (expected actual : ℕ)
  | fillCountMismatch (expected actual : ℕ)
  | depositRootMismatch
  | depositCountMismatch (expected actual : ℕ)
  | depositDeltaLengthMismatch (expected actual : ℕ)
  | depositDeltaIdMismatch (index expected actual : ℕ)
  | depositFrontierRootMismatch (expected actual : Digest)
  | depositEventIdMismatch (expected actual : ℕ)
  | depositEventMissingFromLog (depositId : ℕ)
  | depositEventRootMismatch (depositId : ℕ) (expected actual : Digest)
  | depositEventAccountKeyMismatch (accountId : ℕ) (expected actual : Digest)
  | depositEventAmountMismatch (depositId : ℕ) (expected actual : ℤ)
  | qmdb (error : QmdbError)
  | witnessRootMismatch
  | daCommitmentMismatch (expected actual : Digest)
  | verificationLayerFailed (layer : String) (violations : ℕ)
  deriving DecidableEq

section Guest

variable (P : Primitives) (canonicalWitnessBytes : BlockWitness → Bytes)

/-! ## Commitments -/

/-- The hash of the public inputs, which the proof reveals. -/
def stateTransitionPublicInputHash (inputs : StateTransitionPublicInputs) : Digest :=
  P.keccak256 (abiEncodeDomainAndWords "sybil/openvm/state-transition/v1"
    [.uint inputs.previousHeight, .uint inputs.newHeight, .bytes32 inputs.previousStateRoot,
      .bytes32 inputs.newStateRoot, .bytes32 inputs.blockHash, .bytes32 inputs.eventsRoot,
      .bytes32 inputs.witnessRoot, .bytes32 inputs.daCommitment, .bytes32 inputs.depositRoot,
      .uint inputs.depositCount])

def witnessRoot (w : BlockWitness) : Digest :=
  P.blake3 (utf8 "sybil/witness" ++ canonicalWitnessBytes w)

def daWitnessPayloadRoot (witnessBytes : Bytes) : Digest :=
  P.blake3 (utf8 "sybil/da/witness-payload/v1" ++ leBytes 8 witnessBytes.length ++ witnessBytes)

def daProviderRefsHash (providerRefs : List Bytes) : Digest :=
  if providerRefs = [] then P.blake3 (utf8 "sybil/da/provider-refs/empty/v1")
  else
    P.blake3 (utf8 "sybil/da/provider-refs/v1" ++ leBytes 8 providerRefs.length ++
      providerRefs.flatMap fun ref => leBytes 8 ref.length ++ ref)

/-- Commitment to the published data of a block. -/
def daCommitmentWithProviderRefs (w : BlockWitness) (providerRefs : List Bytes) : Digest :=
  let witnessBytes := canonicalWitnessBytes w
  P.blake3 (utf8 "sybil/da-commitment/v1" ++ leBytes 8 w.header.height ++
    w.header.stateRoot.toBytes ++ (witnessRoot P canonicalWitnessBytes w).toBytes ++
    (daWitnessPayloadRoot P witnessBytes).toBytes ++ leBytes 8 witnessBytes.length ++
    (daProviderRefsHash P providerRefs).toBytes)

/-- Events root of a block as the guest computes it. -/
def computeEventsRoot (w : BlockWitness) : Option Digest :=
  eventsRootFromEventBytes P (eventLeafValues w)

/-! ## Deposits -/

/-- A credited deposit carries the key of its account. -/
def checkDispositionKey (event : Disposition) : Except ZkTransitionError Unit :=
  match event.accountId with
  | none => .ok ()
  | some accountId =>
    ensure (event.sybilAccountKey = bridgeAccountKey P accountId)
      (.depositEventAccountKeyMismatch accountId (bridgeAccountKey P accountId)
        event.sybilAccountKey)

/-- A deposit of the block is disposed of by the event at its position. -/
def checkDisposition (preCount : ℕ) (newDeposits : List L1DepositWitness)
    (prefixRoots : List Digest) (entry : Disposition × ℕ) : Except ZkTransitionError Unit := do
  let (event, index) := entry
  ensure (event.depositId = preCount + index + 1)
    (.depositEventIdMismatch (preCount + index + 1) event.depositId)
  let deposit ← okOr (newDeposits[index]?) (.depositEventMissingFromLog event.depositId)
  let expectedRoot := prefixRoots[index]?.getD 0
  ensure (event.depositRoot = expectedRoot)
    (.depositEventRootMismatch event.depositId expectedRoot event.depositRoot)
  ensure (deposit.sybilAccountKey = event.sybilAccountKey)
    (.depositEventAccountKeyMismatch (event.accountId.getD 0) event.sybilAccountKey
      deposit.sybilAccountKey)
  checkDispositionKey P event
  let expectedAmount ← okOr (depositAmountNanos deposit)
    (.depositEventAmountMismatch event.depositId (2 ^ 63 - 1) event.amount)
  ensure (event.amount = expectedAmount)
    (.depositEventAmountMismatch event.depositId expectedAmount event.amount)

/-- The public deposit checkpoint is the frontier before the block with its deposits appended, and
the events of the block dispose of exactly these deposits. -/
def verifyL1DepositCheckpoint (inputs : StateTransitionPublicInputs) (w : BlockWitness) :
    Except ZkTransitionError Unit := do
  let accumulator := w.depositAccumulator
  let frontier := accumulator.preFrontier.toList
  let newDeposits := accumulator.newDeposits
  ensure (accumulator.preCount = w.preStateSidecar.bridge.depositCursor)
    (.depositCountMismatch w.preStateSidecar.bridge.depositCursor accumulator.preCount)
  let preRoot ← okOr (depositRootFromFrontier P frontier accumulator.preCount)
    (.depositCountMismatch depositTreeCapacity accumulator.preCount)
  ensure (preRoot = w.preStateSidecar.bridge.depositRoot)
    (.depositFrontierRootMismatch w.preStateSidecar.bridge.depositRoot preRoot)
  let expectedPostCount ← okOr (checkedU64 (accumulator.preCount + newDeposits.length))
    (.depositCountMismatch inputs.depositCount (2 ^ 64 - 1))
  ensure (expectedPostCount = inputs.depositCount)
    (.depositCountMismatch expectedPostCount inputs.depositCount)
  checkAll (fun entry : L1DepositWitness × ℕ =>
    ensure (entry.1.depositId = accumulator.preCount + entry.2 + 1)
      (.depositDeltaIdMismatch entry.2 (accumulator.preCount + entry.2 + 1) entry.1.depositId))
    newDeposits.zipIdx
  let prefixRoots ← okOr (depositFrontierPrefixRoots P frontier accumulator.preCount
      (newDeposits.map depositLeafFromWitness))
    (.depositCountMismatch depositTreeCapacity inputs.depositCount)
  let computedRoot := prefixRoots.getLast?.getD preRoot
  ensure (computedRoot = inputs.depositRoot)
    (.depositFrontierRootMismatch inputs.depositRoot computedRoot)
  checkAll (fun entry : L1DepositWitness × Digest =>
    ensure (entry.1.depositRoot = entry.2)
      (.depositEventRootMismatch entry.1.depositId entry.2 entry.1.depositRoot))
    (newDeposits.zip prefixRoots)
  let events := dispositions w.systemEvents
  ensure (events.length = newDeposits.length)
    (.depositDeltaLengthMismatch newDeposits.length events.length)
  checkAll (checkDisposition P accumulator.preCount newDeposits prefixRoots) events.zipIdx

/-! ## The transition -/

/-- What the guest takes from the header before the block. -/
def previousOf (w : BlockWitness) : ℕ × Digest × Digest :=
  match w.previousHeader with
  | some previous => (previous.height, previous.stateRoot, hashHeader P previous)
  | none => (0, 0, 0)

/-- The public inputs of a block. -/
def publicInputsFromWitnessAndProviderRefs (w : BlockWitness) (providerRefs : List Bytes) :
    StateTransitionPublicInputs where
  previousHeight := (previousOf P w).1
  newHeight := w.header.height
  previousStateRoot := (previousOf P w).2.1
  newStateRoot := w.header.stateRoot
  blockHash := hashHeader P w.header
  eventsRoot := w.header.eventsRoot
  witnessRoot := witnessRoot P canonicalWitnessBytes w
  daCommitment := daCommitmentWithProviderRefs P canonicalWitnessBytes w providerRefs
  depositRoot := w.stateSidecar.bridge.depositRoot
  depositCount := w.stateSidecar.bridge.depositCursor

/-- The public inputs are those of the witness.  The height has to grow. -/
def verifyPublicInputBinding (inputs : StateTransitionPublicInputs) (w : BlockWitness)
    (providerRefs : List Bytes) : Except ZkTransitionError Unit := do
  ensure (inputs.newHeight = w.header.height)
    (.headerHeightMismatch inputs.newHeight w.header.height)
  ensure (inputs.newStateRoot = w.header.stateRoot) .stateRootMismatch
  ensure (inputs.eventsRoot = w.header.eventsRoot) .eventsRootMismatch
  let expectedEventsRoot ← okOr (computeEventsRoot P w) .eventsRootComputationFailed
  ensure (w.header.eventsRoot = expectedEventsRoot) .eventsRootMismatch
  ensure (inputs.blockHash = hashHeader P w.header) .blockHashMismatch
  ensure (inputs.witnessRoot = witnessRoot P canonicalWitnessBytes w) .witnessRootMismatch
  let expectedDaCommitment := daCommitmentWithProviderRefs P canonicalWitnessBytes w providerRefs
  ensure (inputs.daCommitment = expectedDaCommitment)
    (.daCommitmentMismatch expectedDaCommitment inputs.daCommitment)
  let previous := previousOf P w
  ensure (inputs.previousHeight = previous.1)
    (.previousHeightMismatch inputs.previousHeight previous.1)
  ensure (inputs.previousStateRoot = previous.2.1) .previousStateRootMismatch
  ensure (w.header.parentHash = previous.2.2) .parentHashMismatch
  ensure (previous.1 < inputs.newHeight) (.nonMonotonicHeight previous.1 inputs.newHeight)
  let expectedOrderCount := (w.orders.length + w.rejections.length) % 2 ^ 32
  ensure (w.header.orderCount = expectedOrderCount)
    (.orderCountMismatch expectedOrderCount w.header.orderCount)
  let expectedFillCount := w.fills.length % 2 ^ 32
  ensure (w.header.fillCount = expectedFillCount)
    (.fillCountMismatch expectedFillCount w.header.fillCount)
  ensure (inputs.depositRoot = w.stateSidecar.bridge.depositRoot) .depositRootMismatch
  ensure (inputs.depositCount = w.stateSidecar.bridge.depositCursor)
    (.depositCountMismatch w.stateSidecar.bridge.depositCursor inputs.depositCount)
  verifyL1DepositCheckpoint P inputs w

/-- A layer of the verifier that has to be silent. -/
def ensureValid (layer : String) (violations : List Violation) : Except ZkTransitionError Unit :=
  ensure (violations = []) (.verificationLayerFailed layer violations.length)

/-- The state before the block has the previous root; a block without previous header proves
nothing about it. -/
def verifyPreStateRoot (input : StateTransitionGuestInput) : Except ZkTransitionError Unit :=
  if input.witness.previousHeader.isSome then
    (verifyQmdbStateRootFor P input.publicInputs.previousStateRoot
      (stateRootLeaves P input.witness.preState input.witness.preStateSidecar)
      input.preStateRootProof).mapError .qmdb
  else
    ensure (input.preStateRootProof.leafProofs = [])
      (.qmdb (.stateRootProofCountMismatch 0 input.preStateRootProof.leafProofs.length))

/-- Verify a block; the result is the hash of its public inputs. -/
def verifyStateTransitionInput (input : StateTransitionGuestInput) :
    Except ZkTransitionError Digest := do
  let w := input.witness
  verifyPublicInputBinding P canonicalWitnessBytes input.publicInputs w input.daProviderRefs
  (verifyQmdbStateRootFor P input.publicInputs.newStateRoot
    (stateRootLeaves P w.postState w.stateSidecar) input.stateRootProof).mapError .qmdb
  verifyPreStateRoot P input
  ensureValid "match" (verifyMatch w)
  ensureValid "system" (verifySystem P w)
  ensureValid "settlement" (verifySettlement P w)
  ensureValid "orders" (verifyOrders w)
  ensureValid "sidecar" (verifySidecar P w)
  pure (stateTransitionPublicInputHash P input.publicInputs)

end Guest

/-! ## What the guest accepts -/

/-- The conditions of an accepted input. -/
structure GuestAccepted (P : Primitives) (canonicalWitnessBytes : BlockWitness → Bytes)
    (input : StateTransitionGuestInput) : Prop where
  newHeight : input.publicInputs.newHeight = input.witness.header.height
  newStateRoot : input.publicInputs.newStateRoot = input.witness.header.stateRoot
  publicEventsRoot : input.publicInputs.eventsRoot = input.witness.header.eventsRoot
  eventsRoot : computeEventsRoot P input.witness = some input.witness.header.eventsRoot
  blockHash : input.publicInputs.blockHash = hashHeader P input.witness.header
  witnessRoot : input.publicInputs.witnessRoot = witnessRoot P canonicalWitnessBytes input.witness
  daCommitment : input.publicInputs.daCommitment =
    daCommitmentWithProviderRefs P canonicalWitnessBytes input.witness input.daProviderRefs
  previousHeight : input.publicInputs.previousHeight = (previousOf P input.witness).1
  previousStateRoot : input.publicInputs.previousStateRoot = (previousOf P input.witness).2.1
  parentHash : input.witness.header.parentHash = (previousOf P input.witness).2.2
  grows : (previousOf P input.witness).1 < input.publicInputs.newHeight
  orderCount : input.witness.header.orderCount =
    (input.witness.orders.length + input.witness.rejections.length) % 2 ^ 32
  fillCount : input.witness.header.fillCount = input.witness.fills.length % 2 ^ 32
  depositRoot : input.publicInputs.depositRoot = input.witness.stateSidecar.bridge.depositRoot
  depositCount : input.publicInputs.depositCount = input.witness.stateSidecar.bridge.depositCursor
  checkpoint : verifyL1DepositCheckpoint P input.publicInputs input.witness = .ok ()
  postRoot : verifyQmdbStateRootFor P input.publicInputs.newStateRoot
    (stateRootLeaves P input.witness.postState input.witness.stateSidecar) input.stateRootProof =
      .ok ()
  preRoot : verifyPreStateRoot P input = .ok ()
  match_ : verifyMatch input.witness = []
  system : verifySystem P input.witness = []
  settlement : verifySettlement P input.witness = []
  orders : verifyOrders input.witness = []
  sidecar : verifySidecar P input.witness = []

section Accepted

variable {P : Primitives} {canonicalWitnessBytes : BlockWitness → Bytes}
  {input : StateTransitionGuestInput} {hash : Digest}

/-- **Acceptance by the guest, check by check.** -/
theorem verifyStateTransitionInput_eq_ok :
    verifyStateTransitionInput P canonicalWitnessBytes input = .ok hash ↔
      GuestAccepted P canonicalWitnessBytes input ∧
        hash = stateTransitionPublicInputHash P input.publicInputs := by
  simp only [verifyStateTransitionInput, verifyPublicInputBinding, ensureValid, bind_eq_ok,
    ensure_eq_ok, okOr_eq_ok, mapError_eq_ok, Unique.exists_iff,
    PUnit.default_eq_unit]
  constructor
  · rintro ⟨⟨h₁, h₂, h₃, root, h₄, rfl, h₅, h₆, h₇, h₈, h₉, h₁₀, h₁₁, h₁₂, h₁₃, h₁₄, h₁₅, h₁₆⟩, h₁₇,
      h₁₈, h₁₉, h₂₀, h₂₁, h₂₂, h₂₃, h₂₄⟩
    exact ⟨⟨h₁, h₂, h₃, h₄, h₅, h₆, h₇, h₈, h₉, h₁₀, h₁₁, h₁₂, h₁₃, h₁₄, h₁₅, h₁₆, h₁₇,
      h₁₈, h₁₉, h₂₀,
      h₂₁, h₂₂, h₂₃⟩, (Except.ok.inj h₂₄).symm⟩
  · rintro ⟨⟨h₁, h₂, h₃, h₄, h₅, h₆, h₇, h₈, h₉, h₁₀, h₁₁, h₁₂, h₁₃, h₁₄, h₁₅, h₁₆, h₁₇,
      h₁₈, h₁₉, h₂₀,
      h₂₁, h₂₂, h₂₃⟩, rfl⟩
    exact ⟨⟨h₁, h₂, h₃, _, h₄, rfl, h₅, h₆, h₇, h₈, h₉, h₁₀, h₁₁, h₁₂, h₁₃, h₁₄, h₁₅, h₁₆⟩, h₁₇,
      h₁₈, h₁₉, h₂₀, h₂₁, h₂₂, h₂₃, rfl⟩

end Accepted

end Sybil.Zk
