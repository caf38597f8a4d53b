import Sybil.Verifier.Schema

/-!
# qMDB proofs in the guest

The guest does not rebuild the database of the state.  It is given, for every leaf of
the state, a proof that an *active* operation of the database under the root sets the
key of the leaf to its value and names the next key.  The check accepts a list of
leaves when each is proven and the next keys form a ring through the list.

The operations are the elements of a Merkle mountain range.  A node of height 8 stands
over 256 operations and is grafted with the chunk of the activity bitmap that covers
them; an incomplete last chunk is hashed into the root.

What the ring does not say is that the proven operations are *all* the active ones.
-/

namespace Sybil.Zk

/-! ## Proofs -/

structure QmdbStateRangeProof where
  leaves : ℕ
  inactivePeaks : ℕ
  digests : List Digest
  partialChunkDigest : Option Digest
  opsRoot : Digest
  deriving DecidableEq, Inhabited

structure QmdbStateOperationProof where
  location : ℕ
  activityChunk : FixedBytes 32
  range : QmdbStateRangeProof
  deriving DecidableEq, Inhabited

structure QmdbStateKeyValueProof where
  operation : QmdbStateOperationProof
  nextKey : Bytes
  deriving DecidableEq

structure QmdbStateRootProof where
  leafProofs : List QmdbStateKeyValueProof
  deriving DecidableEq

/-- Proof that a key is not active: the span of an active operation around it, or an active commit
of an empty database. -/
inductive QmdbStateExclusionProof where
  | keyValue (operation : QmdbStateOperationProof) (spanKey spanValue spanNextKey : Bytes)
  | commit (operation : QmdbStateOperationProof) (metadata : Option Bytes)
  deriving DecidableEq

/-- Errors of the root check. -/
inductive QmdbError where
  | stateRootProofCountMismatch (expected actual : ℕ)
  | duplicateStateLeafKey (index : ℕ)
  | stateRootProofVerificationFailed (index : ℕ)
  | stateRootNextKeyMismatch (index : ℕ)
  deriving DecidableEq

/-! ## Operations -/

/-- Little-endian base-128 digits with continuation bits. -/
def varint : ℕ → ℕ → Bytes
  | 0, value => [UInt8.ofNat value]
  | fuel + 1, value =>
    if 0x80 ≤ value then UInt8.ofNat (value % 0x80 + 0x80) :: varint fuel (value / 0x80)
    else [UInt8.ofNat value]

/-- `append_u32_varint`; a `u32` has at most five digits. -/
def u32Varint (value : ℕ) : Bytes := varint 4 value

/-- `append_u64_varint`; a `u64` has at most ten digits. -/
def u64Varint (value : ℕ) : Bytes := varint 9 value

/-- Bytes behind their length, which is a `u32`. -/
def lenPrefixedBytes (bytes : Bytes) : Option Bytes :=
  if bytes.length < 2 ^ 32 then some (u32Varint bytes.length ++ bytes) else none

theorem lenPrefixedBytes_of_lt {bytes : Bytes} (h : bytes.length < 2 ^ 32) :
    lenPrefixedBytes bytes = some (u32Varint bytes.length ++ bytes) := if_pos h

/-- The operation that sets a key to a value and names the next key. -/
def encodeQmdbUpdateOperation (key value nextKey : Bytes) : Option Bytes := do
  let key ← lenPrefixedBytes key
  let value ← lenPrefixedBytes value
  let nextKey ← lenPrefixedBytes nextKey
  pure (0xD2 :: (key ++ value ++ nextKey))

def encodeKeylessAppendOperation (value : Bytes) : Option Bytes := do
  let value ← lenPrefixedBytes value
  pure (1 :: value)

def encodeKeylessCommitOperation (metadata : Option Bytes) : Option Bytes :=
  match metadata with
  | none => some ([0, 0] ++ u64Varint 0)
  | some bytes => do
    let bytes ← lenPrefixedBytes bytes
    pure ([0, 1] ++ bytes ++ u64Varint 0)

/-- The commit operation of the state database, with its inactivity floor. -/
def encodeQmdbCommitFloorOperation (metadata : Option Bytes) (floor : ℕ) : Option Bytes :=
  match metadata with
  | none => some ([0xD3, 0] ++ u64Varint floor)
  | some bytes => do
    let bytes ← lenPrefixedBytes bytes
    pure ([0xD3, 1] ++ bytes ++ u64Varint floor)

/-! ## The mountain range -/

def maxMmrLeaves : ℕ := 0x4000000000000000

def maxMmrNodes : ℕ := 0x7fffffffffffffff

/-- Number of set bits of a word. -/
def countOnes (n : ℕ) : ℕ := ((List.range 64).filter fun i => n.testBit i).length

/-- Position of the node that the next leaf takes. -/
def mmrLocationToPosition (loc : ℕ) : Option ℕ :=
  if maxMmrLeaves < loc then none else checkedSubU64 (2 * loc) (countOnes loc)

/-- Number of bits of a word. -/
def bitLength (n : ℕ) : ℕ := if n = 0 then 0 else n.log2 + 1

/-- The loop of `mmr_peaks`; `two_h` is `2 ^ h`.  Every pass finds a peak or lowers the height. -/
def mmrPeaksLoop (size : ℕ) : ℕ → ℕ → ℕ → Option (List (ℕ × ℕ))
  | 0, _, _ => some []
  | _, _, 0 => some []
  | fuel + 1, nodePos, h + 1 =>
    if nodePos < size then
      (mmrPeaksLoop size fuel (nodePos + (2 ^ (h + 1) - 1)) (h + 1)).map ((nodePos, h) :: ·)
    else (checkedSubU64 nodePos (2 ^ h)).bind fun nodePos => mmrPeaksLoop size fuel nodePos h

/-- Positions and heights of the peaks, from the left. -/
def mmrPeaks (size : ℕ) : List (ℕ × ℕ) :=
  if size = 0 then []
  else
    let bits := bitLength size
    if bits = 64 then [] else (mmrPeaksLoop size 192 (2 ^ bits - 1 - 1) bits).getD []

/-- The descent of `mmr_position_to_location`. -/
def leafLocation (pos : ℕ) : ℕ → ℕ → ℕ → Option ℕ
  | 0, _, floor => some floor
  | h + 1, curNode, floor =>
    if curNode = pos then none
    else
      match checkedSubU64 curNode (2 ^ (h + 1)) with
      | none => none
      | some leftPos =>
        if leftPos < pos then leafLocation pos h (curNode - 1) (floor + 2 ^ h)
        else leafLocation pos h leftPos floor

/-- Leaf number of a position; `none` when the position is not a leaf. -/
def mmrPositionToLocation (pos : ℕ) : Option ℕ :=
  if maxMmrNodes < pos then none
  else if pos = 0 then some 0
  else
    let height := bitLength (pos + 1)
    leafLocation pos (height - 1) (2 ^ height - 1 - 1) 0

/-- First leaf under the node of a position and height; shifts are below 64. -/
def mmrLeftmostLeaf (pos height : ℕ) : Option ℕ :=
  if 64 ≤ height + 1 then none
  else do
    let pos ← checkedU64 (pos + 2)
    let leftmostPos ← checkedSubU64 pos (2 ^ (height + 1))
    mmrPositionToLocation leftmostPos

section Digests

variable (P : Primitives)

def mmrLeafDigest (pos : ℕ) (element : Bytes) : Digest := P.sha256 (beBytes 8 pos ++ element)

def mmrNodeDigest (pos : ℕ) (left right : Digest) : Digest :=
  P.sha256 (beBytes 8 pos ++ left.toBytes ++ right.toBytes)

/-- Fold the first peaks from the left; `none` when there are too few. -/
def foldInactive (acc : Digest) : ℕ → List Digest → Option (Digest × List Digest)
  | 0, rest => some (acc, rest)
  | _ + 1, [] => none
  | n + 1, peak :: rest => foldInactive (P.sha256 (acc.toBytes ++ peak.toBytes)) n rest

/-- Bag the peaks: the inactive ones from the left, the others from the right. -/
def mmrRoot (leaves inactivePeaksToFold committedInactivePeaks : ℕ) (peakDigests : List Digest) :
    Option Digest :=
  match peakDigests with
  | [] =>
    if inactivePeaksToFold = 0 ∧ committedInactivePeaks = 0 then some (P.sha256 (beBytes 8 leaves))
    else none
  | first :: rest =>
    if peakDigests.length < inactivePeaksToFold then none
    else do
      let (acc, active) ← foldInactive P first (inactivePeaksToFold - 1) rest
      let folded ← match (acc :: active).reverse with
        | [] => none
        | last :: peaks =>
          some (peaks.foldl (fun folded peak => P.sha256 (peak.toBytes ++ folded.toBytes)) last)
      if committedInactivePeaks = 0 then pure (P.sha256 (beBytes 8 leaves ++ folded.toBytes))
      else
        pure (P.sha256 (beBytes 8 leaves ++ beBytes 8 committedInactivePeaks ++ folded.toBytes))

/-- A complete tree over elements. -/
def computeMmrPeakFromElements : ℕ → ℕ → List Bytes → Option Digest
  | 0, pos, elements =>
    match elements with
    | [element] => some (mmrLeafDigest P pos element)
    | _ => none
  | height + 1, pos, elements => do
    let leftPos ← checkedSubU64 pos (2 ^ (height + 1))
    let rightPos ← checkedSubU64 pos 1
    let left ← computeMmrPeakFromElements height leftPos (elements.take (2 ^ height))
    let right ← computeMmrPeakFromElements height rightPos (elements.drop (2 ^ height))
    pure (mmrNodeDigest P pos left right)

/-- The digests of the peaks over elements, and the elements behind them. -/
def peakDigestsFromElements : List (ℕ × ℕ) → List Bytes → Option (List Digest × List Bytes)
  | [], elements => some ([], elements)
  | (pos, height) :: peaks, elements =>
    if elements.length < 2 ^ height then none
    else do
      let digest ← computeMmrPeakFromElements P height pos (elements.take (2 ^ height))
      let (digests, rest) ← peakDigestsFromElements peaks (elements.drop (2 ^ height))
      pure (digest :: digests, rest)

def computeMmrRootFromElements (elements : List Bytes) : Option Digest := do
  let size ← mmrLocationToPosition elements.length
  let (digests, rest) ← peakDigestsFromElements P (mmrPeaks size) elements
  if rest ≠ [] then none else mmrRoot P elements.length 0 0 digests

/-- Root of the keyless qMDB over event byte strings, as the guest computes it. -/
def eventsRootFromEventBytes (events : List Bytes) : Option Digest := do
  let first ← encodeKeylessCommitOperation none
  let appends ← events.mapM encodeKeylessAppendOperation
  let last ← encodeKeylessCommitOperation (some (leBytes 8 events.length))
  computeMmrRootFromElements P ([first] ++ appends ++ [last])

end Digests

/-! ## Reconstruction of a root -/

def qmdbChunkBits : ℕ := 256

def graftingHeight : ℕ := 8

/-- The activity bit of a location. -/
def getBitFromChunk (chunk : FixedBytes 32) (bit : ℕ) : Bool :=
  ((chunk.toBytes.map UInt8.toNat)[bit / 8 % 32]?.getD 0).testBit (bit % 8)

/-- What the reconstruction of a peak consumes. -/
structure PeakState where
  element : Option Bytes
  leafConsumed : Bool
  siblings : List Digest
  deriving DecidableEq

section Proofs

variable (P : Primitives)

/-- A node over the chunk of the proven location is grafted with the chunk. -/
def graftedNodeDigest (pos height : ℕ) (left right : Digest) (startChunk : ℕ)
    (chunk : FixedBytes 32) : Digest :=
  let opsSubtreeRoot := mmrNodeDigest P pos left right
  if height ≠ graftingHeight then opsSubtreeRoot
  else
    match mmrLeftmostLeaf pos height with
    | none => opsSubtreeRoot
    | some loc =>
      if loc / 2 ^ height ≠ startChunk ∨ chunk = 0 then opsSubtreeRoot
      else P.sha256 (chunk.toBytes ++ opsSubtreeRoot.toBytes)

/-- Digest of a subtree: a sibling of the proof when the location is outside. -/
def reconstructPeak (startLoc startChunk : ℕ) (chunk : FixedBytes 32) :
    ℕ → ℕ → ℕ → PeakState → Option (Digest × PeakState)
  | height, pos, leafStart, st =>
    if leafStart + 2 ^ height ≤ startLoc ∨ startLoc + 1 ≤ leafStart then
      match st.siblings with
      | [] => none
      | digest :: siblings => some (digest, { st with siblings })
    else
      match height with
      | 0 => st.element.map fun operation =>
        (mmrLeafDigest P pos operation, { st with element := none, leafConsumed := true })
      | height + 1 => do
        let leftPos ← checkedSubU64 pos (2 ^ (height + 1))
        let rightPos ← checkedSubU64 pos 1
        let (left, st) ← reconstructPeak startLoc startChunk chunk height leftPos leafStart st
        let (right, st) ←
          reconstructPeak startLoc startChunk chunk height rightPos (leafStart + 2 ^ height) st
        pure (graftedNodeDigest P pos (height + 1) left right startChunk chunk, st)

/-- Peaks left of the location, over it and right of it. -/
structure PeakLayout where
  foldPrefix : ℕ
  prefixActive : ℕ
  afterInactive : ℕ
  suffixActive : ℕ
  rangePeaks : List (ℕ × ℕ × ℕ)
  leafCursor : ℕ
  peakCount : ℕ
  deriving DecidableEq

/-- Sort one peak. -/
def layoutStep (inactivePeaks startLoc : ℕ) (layout : PeakLayout) (peak : ℕ × ℕ) : PeakLayout :=
  let leafStart := layout.leafCursor
  let leafEnd := leafStart + 2 ^ peak.2
  let sorted :=
    if leafEnd ≤ startLoc then
      if layout.peakCount < inactivePeaks then { layout with foldPrefix := layout.foldPrefix + 1 }
      else { layout with prefixActive := layout.prefixActive + 1 }
    else if startLoc + 1 ≤ leafStart then
      if inactivePeaks ≤ layout.peakCount then
        { layout with suffixActive := layout.suffixActive + 1 }
      else { layout with afterInactive := layout.afterInactive + 1 }
    else { layout with rangePeaks := layout.rangePeaks ++ [(peak.1, peak.2, leafStart)] }
  { sorted with leafCursor := leafEnd, peakCount := layout.peakCount + 1 }

/-- Root of the range with the operation at its location. -/
def reconstructQmdbMmrRoot (leaves inactivePeaks : ℕ) (proofDigests : List Digest)
    (startLoc : ℕ) (operation : Bytes) (chunk : FixedBytes 32) : Option Digest :=
  if maxMmrLeaves < leaves ∨ leaves ≤ startLoc then none
  else do
    let size ← mmrLocationToPosition leaves
    let layout := (mmrPeaks size).foldl (layoutStep inactivePeaks startLoc) ⟨0, 0, 0, 0, [], 0, 0⟩
    if layout.rangePeaks = [] ∨ layout.leafCursor ≠ leaves ∨ layout.peakCount < inactivePeaks then
      none
    else
      let foldCount := if layout.foldPrefix = 0 then 0 else 1
      let afterStart := foldCount + layout.prefixActive
      let suffixStart := afterStart + layout.afterInactive
      let suffixCount := if layout.suffixActive = 0 then 0 else 1
      let siblingsStart := suffixStart + suffixCount
      if proofDigests.length < siblingsStart then none
      else do
        let (peaks, st) ← layout.rangePeaks.foldlM
          (fun (acc : List Digest × PeakState) (peak : ℕ × ℕ × ℕ) => do
            let (digest, st) ← reconstructPeak P startLoc (startLoc / qmdbChunkBits) chunk peak.2.1
              peak.1 peak.2.2 acc.2
            pure (acc.1 ++ [digest], st))
          ([], ⟨some operation, false, proofDigests.drop siblingsStart⟩)
        if st.leafConsumed = false ∨ st.element.isSome ∨ st.siblings ≠ [] then none
        else do
          let inactivePeaksToFold ←
            if layout.foldPrefix = 0 then some inactivePeaks
            else (checkedSubU64 inactivePeaks layout.foldPrefix).map (· + 1)
          mmrRoot P leaves inactivePeaksToFold inactivePeaks
            (proofDigests.take afterStart ++ peaks ++
              (proofDigests.drop afterStart).take (layout.afterInactive + suffixCount))

/-- The operation stands at its location under the root, with the chunk of the bitmap. -/
def verifyQmdbRangeProof (root : Digest) (proof : QmdbStateRangeProof) (startLoc : ℕ)
    (operation : Bytes) (chunk : FixedBytes 32) : Bool :=
  if proof.leaves < startLoc + 1 then false
  else
    let completeChunks := proof.leaves / qmdbChunkBits
    let nextBit := proof.leaves % qmdbChunkBits
    let chunkOk := match proof.partialChunkDigest with
      | some lastChunkDigest => decide (nextBit ≠ 0 ∧
        (startLoc / qmdbChunkBits = completeChunks → lastChunkDigest = P.sha256 chunk.toBytes))
      | none => decide (nextBit = 0)
    let partialChunk := match proof.partialChunkDigest with
      | some lastChunkDigest => beBytes 8 nextBit ++ lastChunkDigest.toBytes
      | none => []
    match reconstructQmdbMmrRoot P proof.leaves proof.inactivePeaks proof.digests startLoc operation
        chunk with
    | none => false
    | some merkleRoot =>
      chunkOk &&
        decide (P.sha256 (proof.opsRoot.toBytes ++ merkleRoot.toBytes ++ partialChunk) = root)

/-- The operation is active under the root. -/
def verifyQmdbOperationProof (root : Digest) (operation : Bytes) (proof : QmdbStateOperationProof) :
    Bool :=
  getBitFromChunk proof.activityChunk proof.location &&
    verifyQmdbRangeProof P root proof.range proof.location operation proof.activityChunk

def verifyQmdbKeyValueProof (root : Digest) (key value : Bytes) (proof : QmdbStateKeyValueProof) :
    Bool :=
  match encodeQmdbUpdateOperation key value proof.nextKey with
  | none => false
  | some operation => verifyQmdbOperationProof P root operation proof.operation

/-- The span from a key to the next one, around the ring when it has to. -/
def qmdbSpanContains (spanStart spanEnd key : Bytes) : Bool :=
  if spanEnd ≤ spanStart then decide (spanStart ≤ key ∨ key < spanEnd)
  else decide (spanStart ≤ key ∧ key < spanEnd)

/-- The key is absent under the root. -/
def verifyQmdbExclusionProof (root : Digest) (key : Bytes) : QmdbStateExclusionProof → Bool
  | .keyValue operation spanKey spanValue spanNextKey =>
    if spanKey = key ∨ qmdbSpanContains spanKey spanNextKey key = false then false
    else
      match encodeQmdbUpdateOperation spanKey spanValue spanNextKey with
      | none => false
      | some encoded => verifyQmdbOperationProof P root encoded operation
  | .commit operation metadata =>
    match encodeQmdbCommitFloorOperation metadata operation.location with
    | none => false
    | some encoded => verifyQmdbOperationProof P root encoded operation

/-- Check a leaf of a list against its proof and its successor. -/
def verifyLeafProof (root : Digest) (leaves : List (Bytes × Bytes))
    (entry : ((Bytes × Bytes) × QmdbStateKeyValueProof) × ℕ) : Except QmdbError Unit := do
  ensure (verifyQmdbKeyValueProof P root entry.1.1.1 entry.1.1.2 entry.1.2 = true)
    (.stateRootProofVerificationFailed entry.2)
  ensure ((leaves[(entry.2 + 1) % leaves.length]?.map Prod.fst) = some entry.1.2.nextKey)
    (.stateRootNextKeyMismatch entry.2)

/-- Every leaf is proven under the root, and the next keys form a ring through the leaves. -/
def verifyQmdbStateRootFor (root : Digest) (leaves : List (Bytes × Bytes))
    (proof : QmdbStateRootProof) : Except QmdbError Unit := do
  ensure (proof.leafProofs.length = leaves.length)
    (.stateRootProofCountMismatch leaves.length proof.leafProofs.length)
  checkAll (fun window : ((Bytes × Bytes) × (Bytes × Bytes)) × ℕ =>
    ensure (window.1.1.1 ≠ window.1.2.1) (.duplicateStateLeafKey window.2))
    (leaves.zip leaves.tail).zipIdx
  checkAll (verifyLeafProof P root leaves) (leaves.zip proof.leafProofs).zipIdx

end Proofs

end Sybil.Zk
