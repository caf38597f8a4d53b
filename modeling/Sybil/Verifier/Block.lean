import Sybil.Verifier.Schema

/-!
# Layer 3: the block header

State root, events root, link to the parent, height and counts.  For a block with a
parent the pre-state is bound to the parent's state root; a genesis block binds
nothing about its pre-state.
-/

namespace Sybil.Verifier

/-- State root of accounts and sidecar. -/
def computeStateRootWithSidecar (P : Primitives) (accounts : List AccountSnapshot)
    (sidecar : StateSidecarSnapshot) : Digest :=
  P.stateRootFromLeaves (stateRootLeaves P accounts sidecar)

/-- Events root of a block. -/
def computeEventsRoot (P : Primitives) (w : BlockWitness) : Digest :=
  P.eventsRootFromEventBytes (eventLeafValues w)

/-- Hash of a header. -/
def hashHeader (P : Primitives) (header : WitnessBlockHeader) : Digest :=
  P.blake3 (leBytes 8 header.height ++ header.parentHash.toBytes ++ header.stateRoot.toBytes ++
    header.eventsRoot.toBytes ++ leBytes 4 header.orderCount ++ leBytes 4 header.fillCount ++
    leBytes 8 header.timestampMs)

/-- The first eight bytes of a digest, quoted. -/
def hexPrefix (digest : Digest) : String :=
  "\"" ++ String.ofList ((hex digest).toList.take 16) ++ "...\""

/-- Link to the parent, or the form of a genesis block. -/
def verifyParent (P : Primitives) (w : BlockWitness) : List Violation :=
  match w.previousHeader with
  | some prev =>
    let preRoot := computeStateRootWithSidecar P w.preState w.preStateSidecar
    reportIf (preRoot ≠ prev.stateRoot)
      ⟨.preStateRootMismatch, s!"Computed pre-state root {hexPrefix preRoot} != previous " ++
        s!"header state root {hexPrefix prev.stateRoot}"⟩ ++
    reportIf (hashHeader P prev ≠ w.header.parentHash)
      ⟨.parentHashMismatch, s!"Computed parent hash {hexPrefix (hashHeader P prev)} != " ++
        s!"header parent hash {hexPrefix w.header.parentHash}"⟩ ++
    reportIf (w.header.height ≠ prev.height + 1)
      ⟨.heightNotConsecutive, s!"Height {w.header.height} != previous {prev.height} + 1"⟩
  | none =>
    reportIf (w.header.parentHash ≠ 0)
      ⟨.genesisParentHashNonZero,
        s!"Genesis block has non-zero parent hash: {hexPrefix w.header.parentHash}"⟩ ++
    reportIf (w.header.height ≠ 1)
      ⟨.heightNotConsecutive, s!"Genesis block height {w.header.height} != 1"⟩

/-- Verify the block header. -/
def verifyBlock (P : Primitives) (w : BlockWitness) : List Violation :=
  let stateRoot := computeStateRootWithSidecar P w.postState w.stateSidecar
  let eventsRoot := computeEventsRoot P w
  reportIf (stateRoot ≠ w.header.stateRoot)
    ⟨.stateRootMismatch, s!"Computed state root {hexPrefix stateRoot} != header state root " ++
      s!"{hexPrefix w.header.stateRoot}"⟩ ++
  reportIf (eventsRoot ≠ w.header.eventsRoot)
    ⟨.eventRootMismatch, s!"Computed events root {hexPrefix eventsRoot} != header events root " ++
      s!"{hexPrefix w.header.eventsRoot}"⟩ ++
  verifyParent P w ++
  reportIf (w.header.orderCount ≠ (w.orders.length + w.rejections.length) % 2 ^ 32)
    ⟨.orderCountMismatch, s!"header.order_count {w.header.orderCount} != orders " ++
      s!"({w.orders.length}) + rejections ({w.rejections.length})"⟩ ++
  reportIf (w.header.fillCount ≠ w.fills.length % 2 ^ 32)
    ⟨.fillCountMismatch, s!"header.fill_count {w.header.fillCount} != fills.len() " ++
      s!"{w.fills.length}"⟩

/-- The parent link of a block that is accepted. -/
def LinksTo (P : Primitives) (w : BlockWitness) : Option WitnessBlockHeader → Prop
  | some prev =>
    computeStateRootWithSidecar P w.preState w.preStateSidecar = prev.stateRoot ∧
      hashHeader P prev = w.header.parentHash ∧ w.header.height = prev.height + 1
  | none => w.header.parentHash = 0 ∧ w.header.height = 1

/-- **A silent header pass.** -/
theorem verifyBlock_eq_nil_iff {P : Primitives} {w : BlockWitness} :
    verifyBlock P w = [] ↔
      computeStateRootWithSidecar P w.postState w.stateSidecar = w.header.stateRoot ∧
      computeEventsRoot P w = w.header.eventsRoot ∧
      LinksTo P w w.previousHeader ∧
      w.header.orderCount = (w.orders.length + w.rejections.length) % 2 ^ 32 ∧
      w.header.fillCount = w.fills.length % 2 ^ 32 := by
  have hparent : verifyParent P w = [] ↔ LinksTo P w w.previousHeader := by
    unfold verifyParent LinksTo
    cases w.previousHeader <;>
      simp only [List.append_eq_nil_iff, reportIf_eq_nil, not_not, ne_eq, and_assoc]
  simp only [verifyBlock, List.append_eq_nil_iff, reportIf_eq_nil, not_not, ne_eq, hparent,
    and_assoc]

end Sybil.Verifier
