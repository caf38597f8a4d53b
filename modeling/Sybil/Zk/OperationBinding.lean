import Sybil.L1Protocol
import Sybil.Lib.FromBytes
import Sybil.Lib.HashBinding
import Sybil.Zk.Positions

/-!
# A root binds the operation at a location

An accepted operation proof shows an operation and the chunk of the activity bitmap over it.
Nothing in the proof is signed, so what ties both to the root is the hash alone: two accepted
proofs for one root and one location show the same operation and the same chunk, unless two
different strings that the two checks hash have the same digest.

The strings of the root fix the number of leaves and with it every position; from there the two
checks go down the same path.  The operation is in the string of the leaf.  The chunk is in the
string that is grafted over its 256 leaves, which takes that the guest finds the leftmost leaf of
the node correctly, or, for the incomplete last chunk, in the string of the root.
-/

namespace Sybil.Zk

open HashBinding MountainRange

variable {P : Primitives}

variable {chunk chunk' : FixedBytes 32}
  {committed height leafStart leaves leaves' n pos toFold toFold' : ℕ} {digest left right : Digest}
  {digests peaks' : List Digest} {out out' st st' : PeakState} {peak : ℕ × ℕ} {s t : Bytes}

/-! ## Strings of the hash function -/

theorem toBytes_append_inj {a b : FixedBytes n} (h : a.toBytes ++ s = b.toBytes ++ t) :
    a = b ∧ s = t := by
  obtain ⟨hhead, htail⟩ := List.append_inj h (by simp)
  exact ⟨L1Protocol.toBytes_injective hhead, htail⟩

theorem beBytes_append_inj {m : ℕ} (hn : n < 2 ^ 64) (hm : m < 2 ^ 64)
    (h : beBytes 8 n ++ s = beBytes 8 m ++ t) : n = m ∧ s = t := by
  obtain ⟨hhead, htail⟩ := List.append_inj h (by simp)
  exact ⟨beBytes_inj (by norm_num; exact hn) (by norm_num; exact hm) hhead, htail⟩

section Inputs

variable (P)

/-- The node of a position is grafted with the chunk. -/
def Grafted (pos height startChunk : ℕ) : Prop :=
  height = graftingHeight ∧ (mmrLeftmostLeaf pos height).map (· / 2 ^ height) = some startChunk

instance {pos height startChunk : ℕ} : Decidable (Grafted pos height startChunk) :=
  inferInstanceAs (Decidable (_ ∧ _))

/-- String of an inner node. -/
def mmrNodeInput (pos : ℕ) (left right : Digest) : Bytes :=
  beBytes 8 pos ++ left.toBytes ++ right.toBytes

/-- What `graftedNodeDigest` hashes. -/
def graftedNodeInputs (pos height : ℕ) (left right : Digest) (startChunk : ℕ)
    (chunk : FixedBytes 32) : List Bytes :=
  mmrNodeInput pos left right ::
    if Grafted pos height startChunk ∧ chunk ≠ 0 then
      [chunk.toBytes ++ (P.sha256 (mmrNodeInput pos left right)).toBytes]
    else []

/-- What `reconstructPeak` hashes. -/
def reconstructPeakInputs (startLoc startChunk : ℕ) (chunk : FixedBytes 32) :
    ℕ → ℕ → ℕ → PeakState → List Bytes
  | height, pos, leafStart, st =>
    if leafStart + 2 ^ height ≤ startLoc ∨ startLoc + 1 ≤ leafStart then []
    else
      match height with
      | 0 => st.element.toList.map (beBytes 8 pos ++ ·)
      | height + 1 =>
        let leftPos := pos - 2 ^ (height + 1)
        let rightStart := leafStart + 2 ^ height
        reconstructPeakInputs startLoc startChunk chunk height leftPos leafStart st ++
          match reconstructPeak P startLoc startChunk chunk height leftPos leafStart st with
          | none => []
          | some (left, st) =>
            reconstructPeakInputs startLoc startChunk chunk height (pos - 1) rightStart st ++
              match reconstructPeak P startLoc startChunk chunk height (pos - 1) rightStart st with
              | none => []
              | some (right, _) => graftedNodeInputs P pos (height + 1) left right startChunk chunk

/-- The peaks over the location, one after the other. -/
def reconstructPeaks (startLoc : ℕ) (chunk : FixedBytes 32) :
    List (ℕ × ℕ × ℕ) → PeakState → Option (List Digest × PeakState)
  | [], st => some ([], st)
  | peak :: peaks, st => do
    let (digest, st) ←
      reconstructPeak P startLoc (startLoc / qmdbChunkBits) chunk peak.2.1 peak.1 peak.2.2 st
    let (digests, st) ← reconstructPeaks startLoc chunk peaks st
    pure (digest :: digests, st)

/-- What the reconstruction of the peaks over the location hashes. -/
def reconstructPeaksInputs (startLoc : ℕ) (chunk : FixedBytes 32) :
    List (ℕ × ℕ × ℕ) → PeakState → List Bytes
  | [], _ => []
  | peak :: peaks, st =>
    reconstructPeakInputs P startLoc (startLoc / qmdbChunkBits) chunk peak.2.1 peak.1 peak.2.2 st ++
      match reconstructPeak P startLoc (startLoc / qmdbChunkBits) chunk peak.2.1 peak.1
        peak.2.2 st with
      | none => []
      | some (_, st) => reconstructPeaksInputs startLoc chunk peaks st

/-- A peak behind what has been folded. -/
def foldString (acc peak : Digest) : Bytes := acc.toBytes ++ peak.toBytes

/-- A peak in front of what has been bagged. -/
def bagString (folded peak : Digest) : Bytes := peak.toBytes ++ folded.toBytes

/-- String of the root of the range. -/
def rangeRootInput (leaves committedInactivePeaks : ℕ) (folded : Digest) : Bytes :=
  if committedInactivePeaks = 0 then beBytes 8 leaves ++ folded.toBytes
  else beBytes 8 leaves ++ beBytes 8 committedInactivePeaks ++ folded.toBytes

/-- What `mmrRoot` hashes. -/
def mmrRootInputs (leaves inactivePeaksToFold committedInactivePeaks : ℕ)
    (peakDigests : List Digest) : List Bytes :=
  match peakDigests with
  | [] => [beBytes 8 leaves]
  | first :: rest =>
    let inactive := rest.take (inactivePeaksToFold - 1)
    let acc := chain P.sha256 foldString first inactive
    chainInputs P.sha256 foldString first inactive ++
      match (acc :: rest.drop (inactivePeaksToFold - 1)).reverse with
      | [] => []
      | last :: peaks =>
        chainInputs P.sha256 bagString last peaks ++
          [rangeRootInput leaves committedInactivePeaks (chain P.sha256 bagString last peaks)]

/-! ### The layout of a proof -/

/-- The layout of a proof for a location. -/
def peakLayout (leaves inactivePeaks startLoc : ℕ) : PeakLayout :=
  (mmrPeaks ((mmrLocationToPosition leaves).getD 0)).foldl (layoutStep inactivePeaks startLoc)
    ⟨0, 0, 0, 0, [], 0, 0⟩

namespace PeakLayout

variable (layout : PeakLayout)

/-- Digests of the proof in front of the peaks over the location. -/
def afterStart : ℕ := (if layout.foldPrefix = 0 then 0 else 1) + layout.prefixActive

/-- The active peaks behind the location come as one digest. -/
def suffixCount : ℕ := if layout.suffixActive = 0 then 0 else 1

/-- Digests of the proof in front of the siblings. -/
def siblingsStart : ℕ := layout.afterStart + layout.afterInactive + layout.suffixCount

/-- Digests to fold from the left: the prefix counts once. -/
def inactiveToFold (inactivePeaks : ℕ) : Option ℕ :=
  if layout.foldPrefix = 0 then some inactivePeaks
  else (checkedSubU64 inactivePeaks layout.foldPrefix).map (· + 1)

/-- The peaks over the location between the digests of the proof. -/
def bagged (digests peaks : List Digest) : List Digest :=
  digests.take layout.afterStart ++ peaks ++
    (digests.drop layout.afterStart).take (layout.afterInactive + layout.suffixCount)

/-- State in front of the peaks over the location. -/
def start (digests : List Digest) (operation : Bytes) : PeakState :=
  ⟨some operation, false, digests.drop layout.siblingsStart⟩

end PeakLayout

/-- What `reconstructQmdbMmrRoot` hashes. -/
def reconstructQmdbMmrRootInputs (leaves inactivePeaks : ℕ) (digests : List Digest) (startLoc : ℕ)
    (operation : Bytes) (chunk : FixedBytes 32) : List Bytes :=
  let layout := peakLayout leaves inactivePeaks startLoc
  let st := layout.start digests operation
  reconstructPeaksInputs P startLoc chunk layout.rangePeaks st ++
    match reconstructPeaks P startLoc chunk layout.rangePeaks st,
      layout.inactiveToFold inactivePeaks with
    | some (peaks, _), some toFold =>
      mmrRootInputs P leaves toFold inactivePeaks (layout.bagged digests peaks)
    | _, _ => []

/-- String of the root: the incomplete last chunk comes behind the range. -/
def rootInput (proof : QmdbStateRangeProof) (merkleRoot : Digest) : Bytes :=
  proof.opsRoot.toBytes ++ merkleRoot.toBytes ++
    match proof.partialChunkDigest with
    | some lastChunkDigest =>
      beBytes 8 (proof.leaves % qmdbChunkBits) ++ lastChunkDigest.toBytes
    | none => []

/-- What `verifyQmdbRangeProof` hashes. -/
def verifyQmdbRangeProofInputs (proof : QmdbStateRangeProof) (startLoc : ℕ) (operation : Bytes)
    (chunk : FixedBytes 32) : List Bytes :=
  (if startLoc / qmdbChunkBits = proof.leaves / qmdbChunkBits then [chunk.toBytes] else []) ++
    (reconstructQmdbMmrRootInputs P proof.leaves proof.inactivePeaks proof.digests
      startLoc operation
        chunk ++
      match reconstructQmdbMmrRoot P proof.leaves proof.inactivePeaks proof.digests startLoc
        operation chunk with
      | none => []
      | some merkleRoot => [rootInput proof merkleRoot])

/-- What `verifyQmdbOperationProof` hashes. -/
def verifyQmdbOperationProofInputs (operation : Bytes) (proof : QmdbStateOperationProof) :
    List Bytes :=
  verifyQmdbRangeProofInputs P proof.range proof.location operation proof.activityChunk

end Inputs

/-! ## Nodes -/

theorem graftedNodeDigest_eq {startChunk : ℕ} :
    graftedNodeDigest P pos height left right startChunk chunk =
      if Grafted pos height startChunk ∧ chunk ≠ 0 then
        P.sha256 (chunk.toBytes ++ (P.sha256 (mmrNodeInput pos left right)).toBytes)
      else P.sha256 (mmrNodeInput pos left right) := by
  obtain ⟨leaf, hleaf⟩ : ∃ leaf, mmrLeftmostLeaf pos height = leaf := ⟨_, rfl⟩
  by_cases hheight : height = graftingHeight
  · cases leaf with
    | none => simp [graftedNodeDigest, Grafted, mmrNodeDigest, mmrNodeInput,
        hheight ▸ hleaf, hheight]
    | some loc =>
      have hgraft : Grafted pos height startChunk ↔ loc / 2 ^ height = startChunk := by
        rw [Grafted, hleaf, Option.map_some, Option.some.injEq]
        exact and_iff_right hheight
      simp only [graftedNodeDigest, mmrNodeDigest, hgraft, hleaf, not_not.mpr hheight, if_false]
      by_cases hchunk : loc / 2 ^ height = startChunk
      · by_cases hzero : chunk = 0
        · rw [if_pos (.inr hzero), if_neg (·.2 hzero)]
          rfl
        · rw [if_neg (by simp [hchunk, hzero]), if_pos ⟨hchunk, hzero⟩]
          rfl
      · rw [if_pos (.inl hchunk), if_neg (hchunk ·.1)]
        rfl
  · simp [graftedNodeDigest, Grafted, mmrNodeDigest, mmrNodeInput, hheight]

/-- A location in the middle of a chunk that is zero is not active. -/
theorem chunk_ne_zero {bit : ℕ} (h : getBitFromChunk chunk bit = true) : chunk ≠ 0 := by
  rintro rfl
  have hzero : ((0 : FixedBytes 32).toBytes.map UInt8.toNat) = List.replicate 32 0 := by decide
  rw [getBitFromChunk, hzero, List.getElem?_replicate] at h
  split_ifs at h <;> simp at h

theorem mmrNodeInput_inj {left' right' : Digest}
    (h : mmrNodeInput pos left right = mmrNodeInput pos left' right') :
    left = left' ∧ right = right' := by
  rw [mmrNodeInput, mmrNodeInput, List.append_assoc, List.append_assoc] at h
  obtain ⟨hleft, hright⟩ := toBytes_append_inj (List.append_cancel_left h)
  exact ⟨hleft, L1Protocol.toBytes_injective hright⟩

/-- Two nodes with one digest have the same children; when they are grafted, with the same chunk. -/
theorem graftedNodeDigest_inj {startChunk : ℕ} {left' right' : Digest} (hchunk : chunk ≠ 0)
    (hchunk' : chunk' ≠ 0)
    (hsep : Separates P.sha256 (graftedNodeInputs P pos height left right startChunk chunk)
      (graftedNodeInputs P pos height left' right' startChunk chunk'))
    (h : graftedNodeDigest P pos height left right startChunk chunk =
      graftedNodeDigest P pos height left' right' startChunk chunk') :
    left = left' ∧ right = right' ∧ (Grafted pos height startChunk → chunk = chunk') := by
  rw [graftedNodeDigest_eq, graftedNodeDigest_eq] at h
  by_cases hgraft : Grafted pos height startChunk
  · rw [if_pos ⟨hgraft, hchunk⟩, if_pos ⟨hgraft, hchunk'⟩] at h
    rw [graftedNodeInputs, graftedNodeInputs, if_pos ⟨hgraft, hchunk⟩, if_pos ⟨hgraft, hchunk'⟩]
      at hsep
    obtain ⟨heq, hroot⟩ := toBytes_append_inj (hsep.tail.head h)
    obtain ⟨hleft, hright⟩ :=
      mmrNodeInput_inj (hsep.head (L1Protocol.toBytes_injective hroot))
    exact ⟨hleft, hright, fun _ => heq⟩
  · rw [if_neg (hgraft ·.1), if_neg (hgraft ·.1)] at h
    obtain ⟨hleft, hright⟩ := mmrNodeInput_inj (hsep.head h)
    exact ⟨hleft, hright, fun hgrafted => absurd hgrafted hgraft⟩

/-! ## Subtrees -/

section Subtrees

variable {startLoc startChunk : ℕ}

/-- The location is under a subtree. -/
def Under (startLoc height leafStart : ℕ) : Prop :=
  leafStart ≤ startLoc ∧ startLoc < leafStart + 2 ^ height

instance {startLoc height leafStart : ℕ} : Decidable (Under startLoc height leafStart) :=
  inferInstanceAs (Decidable (_ ∧ _))

theorem not_under_iff :
    ¬ Under startLoc height leafStart ↔
      leafStart + 2 ^ height ≤ startLoc ∨ startLoc + 1 ≤ leafStart := by
  rw [Under]
  omega

theorem reconstructPeak_aside (haside : ¬ Under startLoc height leafStart)
    (h : reconstructPeak P startLoc startChunk chunk height pos leafStart st = some (digest, out)) :
    out.element = st.element := by
  unfold reconstructPeak at h
  rw [if_pos (not_under_iff.mp haside)] at h
  split at h
  · cases h
  · cases h
    rfl

theorem reconstructPeak_leaf (hunder : Under startLoc 0 leafStart)
    (h : reconstructPeak P startLoc startChunk chunk 0 pos leafStart st = some (digest, out)) :
    ∃ operation, st.element = some operation ∧ out.element = none ∧
      digest = P.sha256 (beBytes 8 pos ++ operation) ∧
      reconstructPeakInputs P startLoc startChunk chunk 0 pos leafStart st =
        [beBytes 8 pos ++ operation] := by
  have hin := mt not_under_iff.mpr (not_not.mpr hunder)
  rw [reconstructPeak, if_neg hin] at h
  obtain ⟨operation, hoperation, heq⟩ := Option.map_eq_some_iff.mp h
  cases heq
  refine ⟨operation, hoperation, rfl, rfl, ?_⟩
  rw [reconstructPeakInputs, if_neg hin]
  simp only [hoperation, Option.toList_some, List.map_cons, List.map_nil]

/-- A subtree over the location is its two halves and the node over them. -/
theorem reconstructPeak_node (hunder : Under startLoc (height + 1) leafStart)
    (h : reconstructPeak P startLoc startChunk chunk (height + 1) pos leafStart st =
      some (digest, out)) :
    ∃ left mid right,
      reconstructPeak P startLoc startChunk chunk height (pos - 2 ^ (height + 1)) leafStart st =
        some (left, mid) ∧
      reconstructPeak P startLoc startChunk chunk height (pos - 1) (leafStart + 2 ^ height) mid =
        some (right, out) ∧
      digest = graftedNodeDigest P pos (height + 1) left right startChunk chunk ∧
      reconstructPeakInputs P startLoc startChunk chunk (height + 1) pos leafStart st =
        reconstructPeakInputs P startLoc startChunk chunk height (pos - 2 ^ (height + 1)) leafStart
          st ++
        (reconstructPeakInputs P startLoc startChunk chunk height (pos - 1) (leafStart + 2 ^ height)
          mid ++
          graftedNodeInputs P pos (height + 1) left right startChunk chunk) := by
  have hin := mt not_under_iff.mpr (not_not.mpr hunder)
  rw [reconstructPeak, if_neg hin] at h
  simp only [bind, Option.bind_eq_some_iff, checkedSubU64_eq_some_iff, Prod.exists] at h
  obtain ⟨leftPos, ⟨-, rfl⟩, rightPos, ⟨-, rfl⟩, left, mid, hleft, right, last, hright, heq⟩ := h
  cases heq
  refine ⟨left, mid, right, hleft, hright, rfl, ?_⟩
  rw [reconstructPeakInputs, if_neg hin]
  simp only [hleft, hright]

/-- What two checks of one subtree do with their operations: both pass it by, or both consume the
same operation. -/
def Agree (st st' out out' : PeakState) : Prop :=
  (out.element = st.element ∧ out'.element = st'.element) ∨
    ∃ operation, st.element = some operation ∧ st'.element = some operation ∧
      out.element = none ∧ out'.element = none

theorem Agree.trans {mid mid' : PeakState} (h : Agree st st' mid mid')
    (hnext : Agree mid mid' out out') : Agree st st' out out' := by
  obtain ⟨hmid, hmid'⟩ | ⟨operation, hst, hst', hmid, hmid'⟩ := h
  · rwa [Agree, hmid, hmid'] at hnext
  · obtain ⟨hout, hout'⟩ | ⟨operation', hsome, -⟩ := hnext
    · exact .inr ⟨operation, hst, hst', hout.trans hmid, hout'.trans hmid'⟩
    · rw [hmid] at hsome
      cases hsome

/-- **The digest of a subtree binds the operation under it.** -/
theorem reconstructPeak_agree (hchunk : chunk ≠ 0) (hchunk' : chunk' ≠ 0)
    (h : reconstructPeak P startLoc startChunk chunk height pos leafStart st = some (digest, out))
    (h' : reconstructPeak P startLoc startChunk chunk' height pos leafStart st' =
      some (digest, out'))
    (hsep : Separates P.sha256
      (reconstructPeakInputs P startLoc startChunk chunk height pos leafStart st)
      (reconstructPeakInputs P startLoc startChunk chunk' height pos leafStart st')) :
    Agree st st' out out' := by
  induction height generalizing pos leafStart st st' out out' digest with
  | zero =>
    by_cases hunder : Under startLoc 0 leafStart
    · obtain ⟨operation, hst, hout, hdigest, hinputs⟩ := reconstructPeak_leaf hunder h
      obtain ⟨operation', hst', hout', hdigest', hinputs'⟩ := reconstructPeak_leaf hunder h'
      rw [hinputs, hinputs'] at hsep
      obtain rfl := List.append_cancel_left (hsep.head (hdigest.symm.trans hdigest'))
      exact .inr ⟨operation, hst, hst', hout, hout'⟩
    · exact .inl ⟨reconstructPeak_aside hunder h, reconstructPeak_aside hunder h'⟩
  | succ height ih =>
    by_cases hunder : Under startLoc (height + 1) leafStart
    · obtain ⟨left, mid, right, hleft, hright, rfl, hinputs⟩ := reconstructPeak_node hunder h
      obtain ⟨left', mid', right', hleft', hright', hdigest, hinputs'⟩ :=
        reconstructPeak_node hunder h'
      rw [hinputs, hinputs'] at hsep
      obtain ⟨rfl, rfl, -⟩ :=
        graftedNodeDigest_inj hchunk hchunk' hsep.append_right.append_right hdigest
      exact (ih hleft hleft' hsep.append_left).trans
        (ih hright hright' hsep.append_right.append_left)
    · exact .inl ⟨reconstructPeak_aside hunder h, reconstructPeak_aside hunder h'⟩

/-- **The digest of a subtree over a whole chunk binds the chunk.** -/
theorem reconstructPeak_chunk (hchunk : chunk ≠ 0) (hchunk' : chunk' ≠ 0)
    (hloc : startLoc ≤ maxMmrLeaves) (hheight : graftingHeight ≤ height)
    (haligned : 2 ^ height ∣ leafStart) (hunder : Under startLoc height leafStart)
    (h : reconstructPeak P startLoc (startLoc / qmdbChunkBits) chunk height
      (summit height leafStart)
      leafStart st = some (digest, out))
    (h' : reconstructPeak P startLoc (startLoc / qmdbChunkBits) chunk' height
      (summit height leafStart) leafStart st' = some (digest, out'))
    (hsep : Separates P.sha256
      (reconstructPeakInputs P startLoc (startLoc / qmdbChunkBits) chunk height
        (summit height leafStart) leafStart st)
      (reconstructPeakInputs P startLoc (startLoc / qmdbChunkBits) chunk' height
        (summit height leafStart) leafStart st')) : chunk = chunk' := by
  induction height generalizing leafStart st st' out out' digest with
  | zero => exact absurd hheight (by decide)
  | succ height ih =>
    obtain ⟨left, mid, right, hleft, hright, rfl, hinputs⟩ := reconstructPeak_node hunder h
    obtain ⟨left', mid', right', hleft', hright', hdigest, hinputs'⟩ :=
      reconstructPeak_node hunder h'
    rw [hinputs, hinputs'] at hsep
    have hnode := hsep.append_right.append_right
    obtain ⟨rfl, rfl, hgraft⟩ := graftedNodeDigest_inj hchunk hchunk' hnode hdigest
    rcases hheight.eq_or_lt with hat | habove
    · -- The node over the chunk: its leftmost leaf is the first of the chunk.
      refine hgraft ⟨hat.symm, ?_⟩
      obtain ⟨hle, hlt⟩ := hunder
      have hfirst : mmrLeftmostLeaf (summit (height + 1) leafStart) (height + 1) = some leafStart :=
        mmrLeftmostLeaf_summit (hle.trans hloc) (by rw [← hat]; decide)
      rw [hfirst, Option.map_some, Option.some.injEq]
      obtain ⟨a, rfl⟩ := haligned
      have hbits : 2 ^ (height + 1) = qmdbChunkBits := by rw [← hat]; rfl
      have hpos : 0 < qmdbChunkBits := by decide
      rw [hbits] at hle hlt ⊢
      rw [Nat.mul_div_cancel_left _ hpos]
      exact (Nat.div_eq_of_lt_le (by rwa [Nat.mul_comm]) (by rwa [Nat.succ_mul, Nat.mul_comm])).symm
    · have hdown : graftingHeight ≤ height := Nat.le_of_lt_succ habove
      have hpow : 2 ^ (height + 1) = 2 ^ height + 2 ^ height := by ring
      have hleftPos : summit (height + 1) leafStart - 2 ^ (height + 1) =
        summit height leafStart := by
        have := summit_left height leafStart
        omega
      have hrightPos : summit (height + 1) leafStart - 1 =
        summit height (leafStart + 2 ^ height) := by
        have := summit_right haligned
        omega
      rw [hleftPos] at hleft hleft' hsep
      rw [hrightPos] at hright hright' hsep
      obtain ⟨hle, hlt⟩ := hunder
      by_cases hside : startLoc < leafStart + 2 ^ height
      · exact ih hdown (dvd_of_dvd_succ haligned) ⟨hle, hside⟩ hleft hleft' hsep.append_left
      · exact ih hdown (dvd_add_two_pow haligned) ⟨not_lt.mp hside, by omega⟩ hright hright'
          hsep.append_right.append_left

/-! ## Peaks over the location -/

theorem foldlM_reconstructPeak {peaks : List (ℕ × ℕ × ℕ)} {acc : List Digest} :
    peaks.foldlM (fun (acc : List Digest × PeakState) (peak : ℕ × ℕ × ℕ) => do
        let (digest, st) ← reconstructPeak P startLoc (startLoc / qmdbChunkBits) chunk peak.2.1
          peak.1 peak.2.2 acc.2
        pure (acc.1 ++ [digest], st)) (acc, st) =
      (reconstructPeaks P startLoc chunk peaks st).map fun result =>
        (acc ++ result.1, result.2) := by
  induction peaks generalizing acc st with
  | nil => simp [reconstructPeaks]
  | cons peak peaks ih =>
    rw [List.foldlM_cons, reconstructPeaks]
    cases reconstructPeak P startLoc (startLoc / qmdbChunkBits) chunk peak.2.1 peak.1
      peak.2.2 st with
    | none => rfl
    | some result =>
      refine ih.trans ?_
      simp only [bind, Option.bind_some]
      cases reconstructPeaks P startLoc chunk peaks result.2 <;> simp

theorem reconstructPeaks_cons {peak : ℕ × ℕ × ℕ} {peaks : List (ℕ × ℕ × ℕ)}
    (h : reconstructPeaks P startLoc chunk (peak :: peaks) st = some (digests, out)) :
    ∃ digest mid rest, digests = digest :: rest ∧
      reconstructPeak P startLoc (startLoc / qmdbChunkBits) chunk peak.2.1 peak.1 peak.2.2 st =
        some (digest, mid) ∧
      reconstructPeaks P startLoc chunk peaks mid = some (rest, out) ∧
      reconstructPeaksInputs P startLoc chunk (peak :: peaks) st =
        reconstructPeakInputs P startLoc (startLoc / qmdbChunkBits) chunk peak.2.1 peak.1 peak.2.2
          st ++ reconstructPeaksInputs P startLoc chunk peaks mid := by
  simp only [reconstructPeaks, bind, Option.bind_eq_some_iff, Prod.exists] at h
  obtain ⟨digest, mid, hpeak, rest, last, hrest, heq⟩ := h
  cases heq
  refine ⟨digest, mid, rest, rfl, hpeak, hrest, ?_⟩
  simp only [reconstructPeaksInputs, hpeak]

theorem length_reconstructPeaks {peaks : List (ℕ × ℕ × ℕ)}
    (h : reconstructPeaks P startLoc chunk peaks st = some (digests, out)) :
    digests.length = peaks.length := by
  induction peaks generalizing st digests with
  | nil =>
    cases h
    rfl
  | cons peak peaks ih =>
    obtain ⟨digest, mid, rest, rfl, -, hrest, -⟩ := reconstructPeaks_cons h
    exact congrArg Nat.succ (ih hrest)

theorem reconstructPeaks_agree (hchunk : chunk ≠ 0) (hchunk' : chunk' ≠ 0)
    {peaks : List (ℕ × ℕ × ℕ)}
    (h : reconstructPeaks P startLoc chunk peaks st = some (digests, out))
    (h' : reconstructPeaks P startLoc chunk' peaks st' = some (digests, out'))
    (hsep : Separates P.sha256 (reconstructPeaksInputs P startLoc chunk peaks st)
      (reconstructPeaksInputs P startLoc chunk' peaks st')) : Agree st st' out out' := by
  induction peaks generalizing st st' digests with
  | nil =>
    cases h
    cases h'
    exact .inl ⟨rfl, rfl⟩
  | cons peak peaks ih =>
    obtain ⟨digest, mid, rest, rfl, hpeak, hrest, hinputs⟩ := reconstructPeaks_cons h
    obtain ⟨digest', mid', rest', hdigests, hpeak', hrest', hinputs'⟩ := reconstructPeaks_cons h'
    cases hdigests
    rw [hinputs, hinputs'] at hsep
    exact (reconstructPeak_agree hchunk hchunk' hpeak hpeak' hsep.append_left).trans
      (ih hrest hrest' hsep.append_right)

theorem reconstructPeaks_chunk (hchunk : chunk ≠ 0) (hchunk' : chunk' ≠ 0)
    (hloc : startLoc ≤ maxMmrLeaves) (hheight : graftingHeight ≤ height)
    (haligned : 2 ^ height ∣ leafStart) (hunder : Under startLoc height leafStart)
    {peaks : List (ℕ × ℕ × ℕ)} (hmem : (summit height leafStart, height, leafStart) ∈ peaks)
    (h : reconstructPeaks P startLoc chunk peaks st = some (digests, out))
    (h' : reconstructPeaks P startLoc chunk' peaks st' = some (digests, out'))
    (hsep : Separates P.sha256 (reconstructPeaksInputs P startLoc chunk peaks st)
      (reconstructPeaksInputs P startLoc chunk' peaks st')) : chunk = chunk' := by
  induction peaks generalizing st st' digests with
  | nil => cases hmem
  | cons peak peaks ih =>
    obtain ⟨digest, mid, rest, rfl, hpeak, hrest, hinputs⟩ := reconstructPeaks_cons h
    obtain ⟨digest', mid', rest', hdigests, hpeak', hrest', hinputs'⟩ := reconstructPeaks_cons h'
    cases hdigests
    rw [hinputs, hinputs'] at hsep
    rcases List.mem_cons.mp hmem with rfl | hmem
    · exact reconstructPeak_chunk hchunk hchunk' hloc hheight haligned hunder hpeak hpeak'
        hsep.append_left
    · exact ih hmem hrest hrest' hsep.append_right

end Subtrees

/-! ## Bagging -/

theorem foldInactive_eq {acc : Digest} {rest : List Digest} (hn : n ≤ rest.length) :
    foldInactive P acc n rest =
      some (chain P.sha256 foldString acc (rest.take n), rest.drop n) := by
  induction n generalizing acc rest with
  | zero => rfl
  | succ n ih =>
    cases rest with
    | nil => simp at hn
    | cons peak rest => exact ih (Nat.le_of_succ_le_succ hn)

/-- The root of a range is the hash of its string over the bagged peaks. -/
theorem mmrRoot_eq_some {first : Digest} {rest : List Digest} {root : Digest}
    (h : mmrRoot P leaves toFold committed (first :: rest) = some root) :
    ∃ last peaks,
      (chain P.sha256 foldString first (rest.take (toFold - 1)) :: rest.drop (toFold - 1)).reverse =
        last :: peaks ∧
      root = P.sha256 (rangeRootInput leaves committed (chain P.sha256 bagString last peaks)) ∧
      mmrRootInputs P leaves toFold committed (first :: rest) =
        chainInputs P.sha256 foldString first (rest.take (toFold - 1)) ++
          (chainInputs P.sha256 bagString last peaks ++
            [rangeRootInput leaves committed (chain P.sha256 bagString last peaks)]) := by
  rw [mmrRoot] at h
  by_cases hfew : (first :: rest).length < toFold
  · rw [if_pos hfew] at h
    cases h
  rw [if_neg hfew, foldInactive_eq (by rw [List.length_cons] at hfew; omega)] at h
  simp only [bind, Option.bind_some] at h
  obtain ⟨bagged, hbagged⟩ : ∃ bagged, (chain P.sha256 foldString first (rest.take (toFold - 1)) ::
    rest.drop (toFold - 1)).reverse = bagged := ⟨_, rfl⟩
  rw [hbagged] at h
  cases bagged with
  | nil => simp at hbagged
  | cons last peaks =>
    refine ⟨last, peaks, hbagged, ?_, ?_⟩
    · rw [rangeRootInput]
      split_ifs at h ⊢ <;> exact (Option.some.inj h).symm
    · simp only [mmrRootInputs, hbagged]

theorem rangeRootInput_inj {committed' : ℕ} {folded folded' : Digest} (hleaves : leaves < 2 ^ 64)
    (hleaves' : leaves' < 2 ^ 64) (hcommitted : committed < 2 ^ 64)
    (hcommitted' : committed' < 2 ^ 64)
    (h : rangeRootInput leaves committed folded = rangeRootInput leaves' committed' folded') :
    leaves = leaves' ∧ committed = committed' ∧ folded = folded' := by
  have hlength := congrArg List.length h
  rw [rangeRootInput, rangeRootInput] at h hlength
  split_ifs at h hlength with hzero hzero' hzero'
  · obtain ⟨heq, hfolded⟩ := beBytes_append_inj hleaves hleaves' h
    exact ⟨heq, hzero.trans hzero'.symm, L1Protocol.toBytes_injective hfolded⟩
  · simp at hlength
  · simp at hlength
  · rw [List.append_assoc, List.append_assoc] at h
    obtain ⟨heq, hrest⟩ := beBytes_append_inj hleaves hleaves' h
    obtain ⟨heq', hfolded⟩ := beBytes_append_inj hcommitted hcommitted' hrest
    exact ⟨heq, heq', L1Protocol.toBytes_injective hfolded⟩

/-- **The root of a range binds its size**, whatever peaks it is bagged from. -/
theorem mmrRoot_size {committed' : ℕ} {peaks : List Digest} {root : Digest} (hpeaks : peaks ≠ [])
    (hpeaks' : peaks' ≠ []) (hleaves : leaves < 2 ^ 64) (hleaves' : leaves' < 2 ^ 64)
    (hcommitted : committed < 2 ^ 64) (hcommitted' : committed' < 2 ^ 64)
    (h : mmrRoot P leaves toFold committed peaks = some root)
    (h' : mmrRoot P leaves' toFold' committed' peaks' = some root)
    (hsep : Separates P.sha256 (mmrRootInputs P leaves toFold committed peaks)
      (mmrRootInputs P leaves' toFold' committed' peaks')) :
    leaves = leaves' ∧ committed = committed' := by
  obtain ⟨first, rest, rfl⟩ := List.exists_cons_of_ne_nil hpeaks
  obtain ⟨first', rest', rfl⟩ := List.exists_cons_of_ne_nil hpeaks'
  obtain ⟨last, bagged, -, rfl, hinputs⟩ := mmrRoot_eq_some h
  obtain ⟨last', bagged', -, hroot, hinputs'⟩ := mmrRoot_eq_some h'
  rw [hinputs, hinputs'] at hsep
  obtain ⟨heq, heq', -⟩ := rangeRootInput_inj hleaves hleaves' hcommitted hcommitted'
    (hsep.append_right.append_right.head hroot)
  exact ⟨heq, heq'⟩

/-- **The root of a range binds its peaks**, once their number is known. -/
theorem mmrRoot_inj {peaks : List Digest} {root : Digest} (hlength : peaks.length = peaks'.length)
    (hleaves : leaves < 2 ^ 64) (hcommitted : committed < 2 ^ 64)
    (h : mmrRoot P leaves toFold committed peaks = some root)
    (h' : mmrRoot P leaves toFold committed peaks' = some root)
    (hsep : Separates P.sha256 (mmrRootInputs P leaves toFold committed peaks)
      (mmrRootInputs P leaves toFold committed peaks')) : peaks = peaks' := by
  cases peaks with
  | nil => exact (List.eq_nil_of_length_eq_zero hlength.symm).symm
  | cons first rest =>
    cases peaks' with
    | nil => simp at hlength
    | cons first' rest' =>
      have hrest : rest.length = rest'.length := Nat.succ.inj hlength
      obtain ⟨last, bagged, hbagged, rfl, hinputs⟩ := mmrRoot_eq_some h
      obtain ⟨last', bagged', hbagged', hroot, hinputs'⟩ := mmrRoot_eq_some h'
      rw [hinputs, hinputs'] at hsep
      obtain ⟨-, -, hfolded⟩ := rangeRootInput_inj hleaves hleaves hcommitted hcommitted
        (hsep.append_right.append_right.head hroot)
      have hcount : bagged.length = bagged'.length := by
        have hlen := congrArg List.length hbagged
        have hlen' := congrArg List.length hbagged'
        simp only [List.length_reverse, List.length_cons, List.length_drop] at hlen hlen'
        omega
      -- First the peaks that are bagged from the right, then those folded into the first of them.
      obtain ⟨rfl, rfl⟩ := chain_inj (fun heq => (toBytes_append_inj heq).symm.imp_left
        (L1Protocol.toBytes_injective ·)) hcount hsep.append_right.append_left hfolded
      have hactive := List.reverse_injective (hbagged.trans hbagged'.symm)
      obtain ⟨hacc, hdrop⟩ := List.cons.inj hactive
      obtain ⟨rfl, htake⟩ := chain_inj (fun heq => (toBytes_append_inj heq).imp_right
        (L1Protocol.toBytes_injective ·)) (by simp [hrest]) hsep.append_left hacc
      rw [← List.take_append_drop (toFold - 1) rest, htake, hdrop, List.take_append_drop]

/-! ## Layouts -/

section Layouts

variable {inactivePeaks startLoc : ℕ}

theorem layoutStep_rangePeaks {layout : PeakLayout} :
    (layoutStep inactivePeaks startLoc layout peak).rangePeaks =
      layout.rangePeaks ++
        if Under startLoc peak.2 layout.leafCursor then [(peak.1, peak.2, layout.leafCursor)]
        else [] := by
  by_cases hunder : Under startLoc peak.2 layout.leafCursor
  · obtain ⟨hle, hlt⟩ := id hunder
    rw [if_pos hunder, layoutStep]
    simp only [if_neg (show ¬ layout.leafCursor + 2 ^ peak.2 ≤ startLoc by omega),
      if_neg (show ¬ startLoc + 1 ≤ layout.leafCursor by omega)]
  · have haside := not_under_iff.mp hunder
    rw [if_neg hunder, List.append_nil, layoutStep]
    split_ifs <;> first | rfl | omega

theorem layoutStep_leafCursor {layout : PeakLayout} :
    (layoutStep inactivePeaks startLoc layout peak).leafCursor = layout.leafCursor + 2 ^ peak.2 :=
  rfl

theorem layoutStep_peakCount {layout : PeakLayout} :
    (layoutStep inactivePeaks startLoc layout peak).peakCount = layout.peakCount + 1 := rfl

theorem foldl_layoutStep_peakCount {peaks : List (ℕ × ℕ)} {layout : PeakLayout} :
    (peaks.foldl (layoutStep inactivePeaks startLoc) layout).peakCount =
      layout.peakCount + peaks.length := by
  induction peaks generalizing layout with
  | nil => rfl
  | cons peak peaks ih =>
    rw [List.foldl_cons, ih, layoutStep_peakCount, List.length_cons]
    omega

theorem foldl_layoutStep_rangePeaks {peaks : List (ℕ × ℕ)} {layout : PeakLayout} :
    (peaks.foldl (layoutStep inactivePeaks startLoc) layout).rangePeaks =
      layout.rangePeaks ++ (placed layout.leafCursor peaks).filter fun peak =>
        Under startLoc peak.2.1 peak.2.2 := by
  induction peaks generalizing layout with
  | nil => simp [placed]
  | cons peak peaks ih =>
    rw [List.foldl_cons, ih, layoutStep_rangePeaks, layoutStep_leafCursor, placed, List.filter_cons,
      List.append_assoc]
    by_cases hunder : Under startLoc peak.2 layout.leafCursor
    · rw [if_pos hunder, if_pos (decide_eq_true hunder)]
      rfl
    · rw [if_neg hunder, if_neg (by simpa using hunder)]
      rfl

theorem peakLayout_eq (hleaves : leaves ≤ maxMmrLeaves) :
    peakLayout leaves inactivePeaks startLoc =
      (mmrPeaks (nodes leaves)).foldl (layoutStep inactivePeaks startLoc)
        ⟨0, 0, 0, 0, [], 0, 0⟩ := by
  rw [peakLayout, mmrLocationToPosition_eq hleaves, Option.getD_some]

theorem peakCount_lt (hleaves : leaves ≤ maxMmrLeaves) (hpos : 0 < leaves) :
    (peakLayout leaves inactivePeaks startLoc).peakCount < 2 ^ 64 := by
  obtain ⟨h, hh, -, hpeaks⟩ := exists_mmrPeaks_eq hleaves hpos
  rw [peakLayout_eq hleaves, foldl_layoutStep_peakCount, hpeaks, List.length_map]
  have hcount := length_peaks_le h 0 leaves
  show 0 + _ < _
  omega

/-- A location in a complete chunk is under a tree over the whole chunk. -/
theorem exists_rangePeak (hleaves : leaves ≤ maxMmrLeaves)
    (hcomplete : startLoc / qmdbChunkBits < leaves / qmdbChunkBits) :
    ∃ height leafStart, graftingHeight ≤ height ∧ 2 ^ height ∣ leafStart ∧
      Under startLoc height leafStart ∧ (summit height leafStart, height, leafStart) ∈
        (peakLayout leaves inactivePeaks startLoc).rangePeaks := by
  have hpos : 0 < leaves := Nat.pos_of_ne_zero fun hzero => by
    simp [hzero] at hcomplete
  obtain ⟨h, -, hlt, hpeaks⟩ := exists_mmrPeaks_eq hleaves hpos
  have hbits : qmdbChunkBits = 2 ^ graftingHeight := rfl
  have hbefore : startLoc < 0 + leaves / 2 ^ graftingHeight * 2 ^ graftingHeight := by
    rw [Nat.zero_add, ← hbits]
    exact (Nat.div_lt_iff_lt_mul (by decide)).mp hcomplete
  obtain ⟨⟨height, leafStart⟩, hmem, hheight, haligned, hunder⟩ :=
    exists_peak (dvd_zero (2 ^ h)) hlt (Nat.zero_le startLoc) hbefore
  refine ⟨height, leafStart, hheight, haligned, hunder, ?_⟩
  rw [peakLayout_eq hleaves, foldl_layoutStep_rangePeaks, hpeaks, placed_peaks]
  refine List.mem_append_right _ (List.mem_filter.mpr ⟨List.mem_map.mpr ⟨_, hmem, rfl⟩, ?_⟩)
  exact decide_eq_true hunder

end Layouts

/-! ## Ranges -/

section Ranges

variable {inactivePeaks startLoc : ℕ} {operation : Bytes} {root : Digest}

/-- What a reconstructed range says. -/
structure Reconstructed (P : Primitives) (leaves inactivePeaks : ℕ) (digests : List Digest)
    (startLoc : ℕ) (operation : Bytes) (chunk : FixedBytes 32) (root : Digest)
    (peaks : List Digest) (out : PeakState) (toFold : ℕ) : Prop where
  leaves_le : leaves ≤ maxMmrLeaves
  loc_lt : startLoc < leaves
  inactive_le : inactivePeaks ≤ (peakLayout leaves inactivePeaks startLoc).peakCount
  siblings_le : (peakLayout leaves inactivePeaks startLoc).siblingsStart ≤ digests.length
  range_ne_nil : (peakLayout leaves inactivePeaks startLoc).rangePeaks ≠ []
  peaks_eq : reconstructPeaks P startLoc chunk
    (peakLayout leaves inactivePeaks startLoc).rangePeaks
    ((peakLayout leaves inactivePeaks startLoc).start digests operation) = some (peaks, out)
  consumed : out.element = none
  toFold_eq : (peakLayout leaves inactivePeaks startLoc).inactiveToFold inactivePeaks = some toFold
  root_eq : mmrRoot P leaves toFold inactivePeaks
    ((peakLayout leaves inactivePeaks startLoc).bagged digests peaks) = some root

theorem reconstructQmdbMmrRoot_eq (hleaves : leaves ≤ maxMmrLeaves) (hloc : startLoc < leaves) :
    reconstructQmdbMmrRoot P leaves inactivePeaks digests startLoc operation chunk =
      let layout := peakLayout leaves inactivePeaks startLoc
      if layout.rangePeaks = [] ∨ layout.leafCursor ≠ leaves ∨ layout.peakCount < inactivePeaks then
        none
      else if digests.length < layout.siblingsStart then none
      else (reconstructPeaks P startLoc chunk layout.rangePeaks
          (layout.start digests operation)).bind fun result =>
        if result.2.leafConsumed = false ∨ result.2.element.isSome ∨
            result.2.siblings ≠ [] then none
        else (layout.inactiveToFold inactivePeaks).bind fun toFold =>
          mmrRoot P leaves toFold inactivePeaks (layout.bagged digests result.1) := by
  have hpeaks : ∀ layout : PeakLayout, _ := fun layout =>
    @foldlM_reconstructPeak P chunk (layout.start digests operation) startLoc layout.rangePeaks []
  simp only [List.nil_append, Option.map_id'] at hpeaks
  rw [reconstructQmdbMmrRoot, if_neg (by omega), mmrLocationToPosition_eq hleaves]
  simp only [bind, Option.bind_some, ← hpeaks]
  rw [← peakLayout_eq hleaves]
  generalize peakLayout leaves inactivePeaks startLoc = layout
  by_cases hfold : layout.foldPrefix = 0
  · simp only [PeakLayout.inactiveToFold, if_pos hfold, Option.bind_some, PeakLayout.siblingsStart,
      PeakLayout.start, PeakLayout.bagged, PeakLayout.afterStart, PeakLayout.suffixCount]
  · simp only [PeakLayout.inactiveToFold, if_neg hfold, PeakLayout.siblingsStart,
      PeakLayout.start, PeakLayout.bagged, PeakLayout.afterStart, PeakLayout.suffixCount]

theorem exists_reconstructed
    (h : reconstructQmdbMmrRoot P leaves inactivePeaks digests startLoc operation chunk =
      some root) :
    ∃ peaks out toFold, Reconstructed P leaves inactivePeaks digests startLoc operation chunk root
      peaks out toFold := by
  have hrange : ¬ (maxMmrLeaves < leaves ∨ leaves ≤ startLoc) := fun hrange => by
    rw [reconstructQmdbMmrRoot, if_pos hrange] at h
    cases h
  rw [not_or, not_lt, not_le] at hrange
  rw [reconstructQmdbMmrRoot_eq hrange.1 hrange.2] at h
  simp only at h
  split_ifs at h with hshape hfew
  rw [not_or, not_or] at hshape
  obtain ⟨⟨peaks, out⟩, hpeaks, h⟩ := Option.bind_eq_some_iff.mp h
  split_ifs at h with hrest
  rw [not_or, not_or] at hrest
  obtain ⟨toFold, htoFold, hroot⟩ := Option.bind_eq_some_iff.mp h
  exact ⟨peaks, out, toFold,
    { leaves_le := hrange.1
      loc_lt := hrange.2
      inactive_le := not_lt.mp hshape.2.2
      siblings_le := not_lt.mp hfew
      range_ne_nil := hshape.1
      peaks_eq := hpeaks
      consumed := by simpa using hrest.2.1
      toFold_eq := htoFold
      root_eq := hroot }⟩

namespace Reconstructed

variable {peaks : List Digest}

theorem inputs_eq (h : Reconstructed P leaves inactivePeaks digests startLoc operation chunk root
    peaks out toFold) :
    reconstructQmdbMmrRootInputs P leaves inactivePeaks digests startLoc operation chunk =
      reconstructPeaksInputs P startLoc chunk (peakLayout leaves inactivePeaks startLoc).rangePeaks
        ((peakLayout leaves inactivePeaks startLoc).start digests operation) ++
      mmrRootInputs P leaves toFold inactivePeaks
        ((peakLayout leaves inactivePeaks startLoc).bagged digests peaks) := by
  rw [reconstructQmdbMmrRootInputs]
  simp only [h.peaks_eq, h.toFold_eq]

theorem leaves_lt (h : Reconstructed P leaves inactivePeaks digests startLoc operation chunk root
    peaks out toFold) : leaves < 2 ^ 64 :=
  h.leaves_le.trans_lt (by norm_num [maxMmrLeaves])

theorem inactive_lt (h : Reconstructed P leaves inactivePeaks digests startLoc operation chunk root
    peaks out toFold) : inactivePeaks < 2 ^ 64 :=
  h.inactive_le.trans_lt (peakCount_lt h.leaves_le (Nat.zero_lt_of_lt h.loc_lt))

theorem length_bagged (h : Reconstructed P leaves inactivePeaks digests startLoc operation chunk
    root peaks out toFold) :
    ((peakLayout leaves inactivePeaks startLoc).bagged digests peaks).length =
      (peakLayout leaves inactivePeaks startLoc).siblingsStart +
        (peakLayout leaves inactivePeaks startLoc).rangePeaks.length := by
  have hpeaks := length_reconstructPeaks h.peaks_eq
  have hsiblings := h.siblings_le
  rw [PeakLayout.siblingsStart] at hsiblings ⊢
  simp only [PeakLayout.bagged, List.length_append, List.length_take, List.length_drop]
  omega

theorem bagged_ne_nil (h : Reconstructed P leaves inactivePeaks digests startLoc operation chunk
    root peaks out toFold) :
    (peakLayout leaves inactivePeaks startLoc).bagged digests peaks ≠ [] := by
  have hrange := List.length_pos_of_ne_nil h.range_ne_nil
  refine List.ne_nil_of_length_pos ?_
  rw [h.length_bagged]
  omega

/-- The root of a range binds its size, at whatever locations it is opened. -/
theorem size {inactivePeaks' startLoc' : ℕ} {digests' : List Digest} {operation' : Bytes}
    (h : Reconstructed P leaves inactivePeaks digests startLoc operation chunk root
      peaks out toFold)
    (h' : Reconstructed P leaves' inactivePeaks' digests' startLoc' operation' chunk' root peaks'
      out' toFold')
    (hsep : Separates P.sha256
      (reconstructQmdbMmrRootInputs P leaves inactivePeaks digests startLoc operation chunk)
      (reconstructQmdbMmrRootInputs P leaves' inactivePeaks' digests' startLoc'
        operation' chunk')) :
    leaves = leaves' ∧ inactivePeaks = inactivePeaks' := by
  rw [h.inputs_eq, h'.inputs_eq] at hsep
  exact mmrRoot_size h.bagged_ne_nil h'.bagged_ne_nil h.leaves_lt h'.leaves_lt h.inactive_lt
    h'.inactive_lt h.root_eq h'.root_eq hsep.append_right

/-- **The root of a range binds its size, the operation at a location and, for a complete chunk,
the chunk.** -/
theorem binding {inactivePeaks' : ℕ} {digests' : List Digest} {operation' : Bytes}
    (h : Reconstructed P leaves inactivePeaks digests startLoc operation chunk root
      peaks out toFold)
    (h' : Reconstructed P leaves' inactivePeaks' digests' startLoc operation' chunk'
      root peaks' out'
      toFold') (hchunk : chunk ≠ 0) (hchunk' : chunk' ≠ 0)
    (hsep : Separates P.sha256
      (reconstructQmdbMmrRootInputs P leaves inactivePeaks digests startLoc operation chunk)
      (reconstructQmdbMmrRootInputs P leaves' inactivePeaks' digests' startLoc operation' chunk')) :
    leaves = leaves' ∧ operation = operation' ∧
      (startLoc / qmdbChunkBits < leaves / qmdbChunkBits → chunk = chunk') := by
  obtain ⟨rfl, rfl⟩ := h.size h' hsep
  rw [h.inputs_eq, h'.inputs_eq] at hsep
  -- The same size and the same location: the same layout.
  obtain rfl : toFold = toFold' := Option.some.inj (h.toFold_eq.symm.trans h'.toFold_eq)
  have hbagged :=
    mmrRoot_inj (h.length_bagged.trans h'.length_bagged.symm) h.leaves_lt h.inactive_lt
    h.root_eq h'.root_eq hsep.append_right
  obtain rfl : peaks = peaks' := by
    have hlength := (length_reconstructPeaks h.peaks_eq).trans
      (length_reconstructPeaks h'.peaks_eq).symm
    have hfront : (digests.take (peakLayout leaves inactivePeaks startLoc).afterStart).length =
        (digests'.take (peakLayout leaves inactivePeaks startLoc).afterStart).length := by
      have hsiblings := h.siblings_le
      have hsiblings' := h'.siblings_le
      rw [PeakLayout.siblingsStart] at hsiblings hsiblings'
      simp only [List.length_take]
      omega
    rw [PeakLayout.bagged, PeakLayout.bagged, List.append_assoc, List.append_assoc] at hbagged
    exact (List.append_inj (List.append_inj hbagged hfront).2 hlength).1
  refine ⟨rfl, ?_, fun hcomplete => ?_⟩
  · obtain ⟨hout, -⟩ | ⟨consumed, hst, hst', -⟩ :=
      reconstructPeaks_agree hchunk hchunk' h.peaks_eq h'.peaks_eq hsep.append_left
    · rw [h.consumed] at hout
      cases hout
    · exact Option.some.inj (hst.trans hst'.symm)
  · obtain ⟨height, leafStart, hheight, haligned, hunder, hmem⟩ :=
      exists_rangePeak h.leaves_le hcomplete
    exact reconstructPeaks_chunk hchunk hchunk' (h.loc_lt.le.trans h.leaves_le) hheight haligned
      hunder hmem h.peaks_eq h'.peaks_eq hsep.append_left

end Reconstructed

end Ranges

/-! ## Proofs -/

section Proofs

variable {root : Digest} {operation operation' : Bytes}

/-- An accepted range: the root of the range is in the string of the root, and the chunk of an
incomplete last chunk too. -/
theorem verifyQmdbRangeProof_eq_true {proof : QmdbStateRangeProof} {startLoc : ℕ}
    (h : verifyQmdbRangeProof P root proof startLoc operation chunk = true) :
    ∃ merkleRoot,
      reconstructQmdbMmrRoot P proof.leaves proof.inactivePeaks proof.digests startLoc operation
        chunk = some merkleRoot ∧
      root = P.sha256 (rootInput proof merkleRoot) ∧
      (startLoc / qmdbChunkBits = proof.leaves / qmdbChunkBits →
        proof.partialChunkDigest = some (P.sha256 chunk.toBytes)) ∧
      verifyQmdbRangeProofInputs P proof startLoc operation chunk =
        (if startLoc / qmdbChunkBits = proof.leaves / qmdbChunkBits then [chunk.toBytes] else []) ++
          (reconstructQmdbMmrRootInputs P proof.leaves proof.inactivePeaks proof.digests startLoc
            operation chunk ++ [rootInput proof merkleRoot]) := by
  rw [verifyQmdbRangeProof] at h
  split_ifs at h with hend
  cases hroot : reconstructQmdbMmrRoot P proof.leaves proof.inactivePeaks proof.digests startLoc
      operation chunk with
  | none => simp [hroot] at h
  | some merkleRoot =>
    simp only [hroot, Bool.and_eq_true, decide_eq_true_eq] at h
    refine ⟨merkleRoot, rfl, h.2.symm, fun hlast => ?_, ?_⟩
    · -- The location is behind the complete chunks, so the last chunk is incomplete.
      have hpartial : proof.leaves % qmdbChunkBits ≠ 0 := fun hzero => by
        have hchunks := Nat.div_add_mod proof.leaves qmdbChunkBits
        have hle := Nat.div_mul_le_self startLoc qmdbChunkBits
        rw [hlast, Nat.mul_comm] at hle
        omega
      cases hdigest : proof.partialChunkDigest with
      | none => simp [hdigest, hpartial] at h
      | some digest =>
        rw [hdigest] at h
        rw [(of_decide_eq_true h.1).2 hlast]
    · rw [verifyQmdbRangeProofInputs]
      simp only [hroot]

theorem rootInput_inj {proof proof' : QmdbStateRangeProof} {merkleRoot merkleRoot' : Digest}
    (h : rootInput proof merkleRoot = rootInput proof' merkleRoot') :
    merkleRoot = merkleRoot' ∧ proof.partialChunkDigest = proof'.partialChunkDigest := by
  rw [rootInput, rootInput, List.append_assoc, List.append_assoc] at h
  obtain ⟨-, h⟩ := toBytes_append_inj h
  obtain ⟨hroot, h⟩ := toBytes_append_inj h
  refine ⟨hroot, ?_⟩
  cases hdigest : proof.partialChunkDigest with
  | none =>
    cases hdigest' : proof'.partialChunkDigest with
    | none => rfl
    | some digest' => simpa [hdigest, hdigest'] using congrArg List.length h
  | some digest =>
    cases hdigest' : proof'.partialChunkDigest with
    | none => simpa [hdigest, hdigest'] using congrArg List.length h
    | some digest' =>
      simp only [hdigest, hdigest'] at h
      have hbytes := (List.append_inj h (by simp)).2
      rw [L1Protocol.toBytes_injective hbytes]

/-- An accepted proof is for a location of its range, and a root binds the size of the range. -/
theorem verifyQmdbOperationProof_leaves {proof proof' : QmdbStateOperationProof}
    (h : verifyQmdbOperationProof P root operation proof = true)
    (h' : verifyQmdbOperationProof P root operation' proof' = true)
    (hsep : Separates P.sha256 (verifyQmdbOperationProofInputs P operation proof)
      (verifyQmdbOperationProofInputs P operation' proof')) :
    proof.location < proof'.range.leaves := by
  rw [verifyQmdbOperationProof, Bool.and_eq_true] at h h'
  obtain ⟨merkleRoot, hmerkle, hroot, -, hinputs⟩ := verifyQmdbRangeProof_eq_true h.2
  obtain ⟨merkleRoot', hmerkle', hroot', -, hinputs'⟩ := verifyQmdbRangeProof_eq_true h'.2
  rw [verifyQmdbOperationProofInputs, verifyQmdbOperationProofInputs, hinputs, hinputs'] at hsep
  obtain ⟨rfl, -⟩ := rootInput_inj (hsep.append_right.append_right.head (hroot.symm.trans hroot'))
  obtain ⟨peaks, out, toFold, hreconstructed⟩ := exists_reconstructed hmerkle
  obtain ⟨peaks', out', toFold', hreconstructed'⟩ := exists_reconstructed hmerkle'
  obtain ⟨hleaves, -⟩ := hreconstructed.size hreconstructed' hsep.append_right.append_left
  exact hleaves ▸ hreconstructed.loc_lt

/-- **A root binds the operation and the chunk at a location**, and the size of its range. -/
theorem verifyQmdbOperationProof_binding {proof proof' : QmdbStateOperationProof}
    (h : verifyQmdbOperationProof P root operation proof = true)
    (h' : verifyQmdbOperationProof P root operation' proof' = true)
    (hloc : proof.location = proof'.location)
    (hsep : Separates P.sha256 (verifyQmdbOperationProofInputs P operation proof)
      (verifyQmdbOperationProofInputs P operation' proof')) :
    operation = operation' ∧ proof.activityChunk = proof'.activityChunk ∧
      proof.range.leaves = proof'.range.leaves := by
  rw [verifyQmdbOperationProof, Bool.and_eq_true] at h h'
  obtain ⟨hbit, hrange⟩ := h
  obtain ⟨hbit', hrange'⟩ := h'
  rw [verifyQmdbOperationProofInputs, verifyQmdbOperationProofInputs, ← hloc] at hsep
  rw [← hloc] at hrange' hbit'
  obtain ⟨merkleRoot, hmerkle, hroot, hlast, hinputs⟩ := verifyQmdbRangeProof_eq_true hrange
  obtain ⟨merkleRoot', hmerkle', hroot', hlast', hinputs'⟩ := verifyQmdbRangeProof_eq_true hrange'
  rw [hinputs, hinputs'] at hsep
  obtain ⟨rfl, hdigest⟩ :=
    rootInput_inj (hsep.append_right.append_right.head (hroot.symm.trans hroot'))
  obtain ⟨peaks, out, toFold, hreconstructed⟩ := exists_reconstructed hmerkle
  obtain ⟨peaks', out', toFold', hreconstructed'⟩ := exists_reconstructed hmerkle'
  obtain ⟨hleaves, hoperation, hcomplete⟩ := hreconstructed.binding hreconstructed'
    (chunk_ne_zero hbit) (chunk_ne_zero hbit') hsep.append_right.append_left
  refine ⟨hoperation, ?_, hleaves⟩
  rcases (Nat.div_le_div_right hreconstructed.loc_lt.le :
    proof.location / qmdbChunkBits ≤ proof.range.leaves / qmdbChunkBits).lt_or_eq with hlt | heq
  · exact hcomplete hlt
  · -- The incomplete last chunk is hashed into the root.
    have hpartial := hlast heq
    rw [hdigest, hlast' (heq.trans (by rw [hleaves]))] at hpartial
    rw [if_pos heq, if_pos (heq.trans (by rw [hleaves]))] at hsep
    exact L1Protocol.toBytes_injective (hsep.append_left.head (Option.some.inj hpartial).symm)

end Proofs

/-! ## Operations -/

section Operations

theorem varint_append_inj {fuel m : ℕ} (hn : n < 128 ^ (fuel + 1)) (hm : m < 128 ^ (fuel + 1))
    (h : varint fuel n ++ s = varint fuel m ++ t) : n = m ∧ s = t := by
  induction fuel generalizing n m with
  | zero =>
    rw [varint, varint, List.cons_append, List.cons_append] at h
    obtain ⟨hbyte, htail⟩ := List.cons.inj h
    have hvalue := congrArg UInt8.toNat hbyte
    simp only [UInt8.toNat_ofNat'] at hvalue
    exact ⟨by omega, htail⟩
  | succ fuel ih =>
    have hpow : 128 ^ (fuel + 1 + 1) = 128 * 128 ^ (fuel + 1) := by ring
    rw [varint, varint] at h
    -- The first byte tells whether more follow.
    split_ifs at h with hlong hlong' hlong'
    · obtain ⟨hbyte, htail⟩ := List.cons.inj h
      obtain ⟨hhigh, hrest⟩ := ih (by omega) (by omega) htail
      have hvalue := congrArg UInt8.toNat hbyte
      simp only [UInt8.toNat_ofNat'] at hvalue
      exact ⟨by omega, hrest⟩
    · have hvalue := congrArg UInt8.toNat (List.cons.inj h).1
      simp only [UInt8.toNat_ofNat'] at hvalue
      omega
    · have hvalue := congrArg UInt8.toNat (List.cons.inj h).1
      simp only [UInt8.toNat_ofNat'] at hvalue
      omega
    · obtain ⟨hbyte, htail⟩ := List.cons.inj h
      have hvalue := congrArg UInt8.toNat hbyte
      simp only [UInt8.toNat_ofNat'] at hvalue
      exact ⟨by omega, htail⟩

theorem lenPrefixedBytes_append_inj {bytes bytes' out out' : Bytes}
    (hout : lenPrefixedBytes bytes = some out) (hout' : lenPrefixedBytes bytes' = some out')
    (h : out ++ s = out' ++ t) : bytes = bytes' ∧ s = t := by
  rw [lenPrefixedBytes] at hout hout'
  split_ifs at hout hout' with hlength hlength'
  obtain rfl := Option.some.inj hout
  obtain rfl := Option.some.inj hout'
  rw [List.append_assoc, List.append_assoc] at h
  obtain ⟨heq, hrest⟩ := varint_append_inj (by norm_num; omega) (by norm_num; omega) h
  exact List.append_inj hrest heq

/-- An update operation determines its key, its value and the next key. -/
theorem encodeQmdbUpdateOperation_inj {key value nextKey key' value' nextKey' operation : Bytes}
    (h : encodeQmdbUpdateOperation key value nextKey = some operation)
    (h' : encodeQmdbUpdateOperation key' value' nextKey' = some operation) :
    key = key' ∧ value = value' ∧ nextKey = nextKey' := by
  simp only [encodeQmdbUpdateOperation, bind, Option.bind_eq_some_iff, pure, Option.some.injEq]
    at h h'
  obtain ⟨k, hk, v, hv, n, hn, rfl⟩ := h
  obtain ⟨k', hk', v', hv', n', hn', heq⟩ := h'
  have heq := (List.cons.inj heq).2
  rw [List.append_assoc, List.append_assoc] at heq
  obtain ⟨hkey, heq⟩ := lenPrefixedBytes_append_inj hk' hk heq
  obtain ⟨hvalue, heq⟩ := lenPrefixedBytes_append_inj hv' hv heq
  have hnext : n' ++ [] = n ++ [] := by rw [heq]
  exact ⟨hkey.symm, hvalue.symm, (lenPrefixedBytes_append_inj hn' hn hnext).1.symm⟩

end Operations

/-- What `verifyQmdbKeyValueProof` hashes. -/
def verifyQmdbKeyValueProofInputs (P : Primitives) (key value : Bytes)
    (proof : QmdbStateKeyValueProof) : List Bytes :=
  match encodeQmdbUpdateOperation key value proof.nextKey with
  | none => []
  | some operation => verifyQmdbOperationProofInputs P operation proof.operation

theorem verifyQmdbKeyValueProof_eq_true {P : Primitives} {root : Digest} {key value : Bytes}
    {proof : QmdbStateKeyValueProof} (h : verifyQmdbKeyValueProof P root key value proof = true) :
    ∃ operation, encodeQmdbUpdateOperation key value proof.nextKey = some operation ∧
      verifyQmdbOperationProof P root operation proof.operation = true ∧
      verifyQmdbKeyValueProofInputs P key value proof =
        verifyQmdbOperationProofInputs P operation proof.operation := by
  cases hoperation : encodeQmdbUpdateOperation key value proof.nextKey with
  | none => simp [verifyQmdbKeyValueProof, hoperation] at h
  | some operation =>
    simp only [verifyQmdbKeyValueProof, hoperation] at h
    exact ⟨operation, rfl, h, by simp only [verifyQmdbKeyValueProofInputs, hoperation]⟩

/-- **Operation proofs are binding.**  As long as the strings that two checks hash do not collide,
two accepted proofs for one location of one root show the same operation and the same chunk; and
two accepted key proofs the same key, value and next key. -/
theorem qmdb_operation_proofs_bind (P : Primitives) (root : Digest) :
    (∀ (operation operation' : Bytes) (proof proof' : QmdbStateOperationProof),
      verifyQmdbOperationProof P root operation proof = true →
      verifyQmdbOperationProof P root operation' proof' = true →
      proof.location = proof'.location →
      CollisionFree P.sha256 (verifyQmdbOperationProofInputs P operation proof ++
        verifyQmdbOperationProofInputs P operation' proof') →
      operation = operation' ∧ proof.activityChunk = proof'.activityChunk) ∧
    ∀ (key value key' value' : Bytes) (proof proof' : QmdbStateKeyValueProof),
      verifyQmdbKeyValueProof P root key value proof = true →
      verifyQmdbKeyValueProof P root key' value' proof' = true →
      proof.operation.location = proof'.operation.location →
      CollisionFree P.sha256 (verifyQmdbKeyValueProofInputs P key value proof ++
        verifyQmdbKeyValueProofInputs P key' value' proof') →
      (key, value, proof.nextKey) = (key', value', proof'.nextKey) := by
  refine ⟨fun operation operation' proof proof' h h' hloc hfree => ?_,
    fun key value key' value' proof proof' h h' hloc hfree => ?_⟩
  · obtain ⟨hoperation, hchunk, -⟩ := verifyQmdbOperationProof_binding h h' hloc hfree.separates
    exact ⟨hoperation, hchunk⟩
  · obtain ⟨operation, hencode, haccepted, hinputs⟩ := verifyQmdbKeyValueProof_eq_true h
    obtain ⟨operation', hencode', haccepted', hinputs'⟩ := verifyQmdbKeyValueProof_eq_true h'
    rw [hinputs, hinputs'] at hfree
    obtain ⟨rfl, -⟩ := verifyQmdbOperationProof_binding haccepted haccepted' hloc hfree.separates
    obtain ⟨rfl, rfl, hnext⟩ := encodeQmdbUpdateOperation_inj hencode hencode'
    rw [hnext]

end Sybil.Zk
