import Sybil.Zk.Qmdb

/-!
# A root can prove several states

The guest takes a ring of proven leaves for the whole state: a hidden active key, so the
reasoning goes, would be the next key of one of the leaves.  That holds for a database
whose active keys form *one* ring.  The prover of a block chooses the root, and a root can
be built over the operations of several rings.

`exists_root_proving` builds it: for every hash function, and for any lists of leaves with
distinct keys, there is one root under which the check accepts each of them.
-/

namespace Sybil.Zk

variable {P : Primitives}

variable {height pos : ℕ} {operation : Bytes}

/-! ## Complete trees -/

section Trees

variable (P)

/-- Digest of a complete tree over operations. -/
def treeDigest : ℕ → ℕ → List Bytes → Digest
  | 0, pos, ops => mmrLeafDigest P pos (ops.headD [])
  | height + 1, pos, ops =>
    mmrNodeDigest P pos (treeDigest height (pos - 2 ^ (height + 1)) (ops.take (2 ^ height)))
      (treeDigest height (pos - 1) (ops.drop (2 ^ height)))

/-- The siblings that the reconstruction asks for, in the order in which it does. -/
def treeSiblings : ℕ → ℕ → List Bytes → ℕ → List Digest
  | 0, _, _, _ => []
  | height + 1, pos, ops, i =>
    let left := treeDigest P height (pos - 2 ^ (height + 1)) (ops.take (2 ^ height))
    let right := treeDigest P height (pos - 1) (ops.drop (2 ^ height))
    if i < 2 ^ height then
      treeSiblings height (pos - 2 ^ (height + 1)) (ops.take (2 ^ height)) i ++ [right]
    else left :: treeSiblings height (pos - 1) (ops.drop (2 ^ height)) (i - 2 ^ height)

end Trees

variable {startLoc startChunk : ℕ} {chunk : FixedBytes 32}

/-- Outside of the location a subtree is a sibling of the proof. -/
theorem reconstructPeak_outside {leafStart : ℕ} {st : PeakState} {digest : Digest}
    {rest : List Digest} (hst : st.siblings = digest :: rest)
    (h : leafStart + 2 ^ height ≤ startLoc ∨ startLoc + 1 ≤ leafStart) :
    reconstructPeak P startLoc startChunk chunk height pos leafStart st =
      some (digest, { st with siblings := rest }) := by
  unfold reconstructPeak
  rw [if_pos h, hst]

/-- Below a chunk, and without one, a node is not grafted. -/
theorem graftedNodeDigest_plain {left right : Digest}
    (hplain : height < graftingHeight ∨ chunk = 0) :
    graftedNodeDigest P pos height left right startChunk chunk =
      mmrNodeDigest P pos left right := by
  rw [graftedNodeDigest]
  rcases hplain with hheight | hzero
  · exact if_pos hheight.ne
  · simp only [hzero, or_true, if_true]
    split_ifs
    · rfl
    · split <;> rfl

/-- **Reconstruction of a complete tree** without grafting: the siblings of a location and the
operation at it give the digest of the tree. -/
theorem reconstructPeak_tree {leafStart i : ℕ} {ops : List Bytes} {rest : List Digest}
    (hplain : height < graftingHeight ∨ chunk = 0) (hpos : 2 ^ (height + 1) - 2 ≤ pos)
    (hlength : ops.length = 2 ^ height) (hop : ops[i]? = some operation)
    (hloc : startLoc = leafStart + i) :
    reconstructPeak P startLoc startChunk chunk height pos leafStart
        ⟨some operation, false, treeSiblings P height pos ops i ++ rest⟩ =
      some (treeDigest P height pos ops, ⟨none, true, rest⟩) := by
  have hi : i < 2 ^ height := hlength ▸ (List.getElem?_eq_some_iff.mp hop).1
  induction height generalizing pos leafStart i ops rest with
  | zero =>
    obtain rfl : i = 0 := by simpa using hi
    obtain ⟨op, rfl⟩ := List.length_eq_one_iff.mp hlength
    obtain rfl : op = operation := by simpa using hop
    have hinside : ¬ (leafStart + 2 ^ 0 ≤ startLoc ∨ startLoc + 1 ≤ leafStart) := by omega
    rw [reconstructPeak, if_neg hinside]
    rfl
  | succ height ih =>
    have hpow : 2 ^ (height + 1 + 1) = 2 ^ (height + 1) + 2 ^ (height + 1) := by ring
    have hhalf : 2 ^ (height + 1) = 2 ^ height + 2 ^ height := by ring
    have hone : 1 ≤ 2 ^ height := Nat.one_le_two_pow
    have hinside : ¬ (leafStart + 2 ^ (height + 1) ≤ startLoc ∨ startLoc + 1 ≤ leafStart) := by
      omega
    have hleftPos : checkedSubU64 pos (2 ^ (height + 1)) = some (pos - 2 ^ (height + 1)) :=
      if_pos (by omega)
    have hrightPos : checkedSubU64 pos 1 = some (pos - 1) := if_pos (by omega)
    have hbelow : height < graftingHeight ∨ chunk = 0 := hplain.imp_left (Nat.lt_of_succ_lt ·)
    rw [reconstructPeak, if_neg hinside]
    simp only [hleftPos, hrightPos, Option.bind_eq_bind, Option.bind_some, treeSiblings]
    by_cases hside : i < 2 ^ height
    · have hleft : reconstructPeak P startLoc startChunk chunk height (pos - 2 ^ (height + 1))
          leafStart ⟨some operation, false,
            treeSiblings P height (pos - 2 ^ (height + 1)) (ops.take (2 ^ height)) i ++
              treeDigest P height (pos - 1) (ops.drop (2 ^ height)) :: rest⟩ =
          some (treeDigest P height (pos - 2 ^ (height + 1)) (ops.take (2 ^ height)),
            ⟨none, true, treeDigest P height (pos - 1) (ops.drop (2 ^ height)) :: rest⟩) :=
        ih hbelow (by omega) (by simp [hlength, hhalf])
          (by rw [List.getElem?_take_of_lt hside, hop]) hloc hside
      have hright : reconstructPeak P startLoc startChunk chunk height (pos - 1)
          (leafStart + 2 ^ height)
          ⟨none, true, treeDigest P height (pos - 1) (ops.drop (2 ^ height)) :: rest⟩ =
          some (treeDigest P height (pos - 1) (ops.drop (2 ^ height)), ⟨none, true, rest⟩) :=
        reconstructPeak_outside rfl (Or.inr (by omega))
      rw [if_pos hside, List.append_assoc, List.singleton_append, hleft, Option.bind_some, hright,
        Option.bind_some, graftedNodeDigest_plain hplain]
      rfl
    · have hleft : reconstructPeak P startLoc startChunk chunk height (pos - 2 ^ (height + 1))
          leafStart ⟨some operation, false,
            treeDigest P height (pos - 2 ^ (height + 1)) (ops.take (2 ^ height)) ::
              (treeSiblings P height (pos - 1) (ops.drop (2 ^ height)) (i - 2 ^ height) ++ rest)⟩ =
          some (treeDigest P height (pos - 2 ^ (height + 1)) (ops.take (2 ^ height)),
            ⟨some operation, false,
              treeSiblings P height (pos - 1) (ops.drop (2 ^ height)) (i - 2 ^ height) ++ rest⟩) :=
        reconstructPeak_outside rfl (Or.inl (by omega))
      have hright : reconstructPeak P startLoc startChunk chunk height (pos - 1)
          (leafStart + 2 ^ height) ⟨some operation, false,
            treeSiblings P height (pos - 1) (ops.drop (2 ^ height)) (i - 2 ^ height) ++ rest⟩ =
          some (treeDigest P height (pos - 1) (ops.drop (2 ^ height)), ⟨none, true, rest⟩) := by
        refine ih hbelow (by omega) (by simp [hlength, hhalf]) ?_ (by omega) (by omega)
        rw [List.getElem?_drop, Nat.add_sub_cancel' (not_lt.mp hside), hop]
      rw [if_neg hside, List.cons_append, hleft, Option.bind_some, hright, Option.bind_some,
        graftedNodeDigest_plain hplain]
      rfl

/-! ## A root over a list of operations -/

section Root

variable (P) (ops : List Bytes)

/-- The chunk of a bitmap with every operation active. -/
def allActive : FixedBytes 32 := ⟨256 ^ 32 - 1, by norm_num⟩

/-- Fill up a list of operations to 128. -/
def padded : List Bytes := ops ++ List.replicate (128 - ops.length) []

/-- Digest of the mountain range over the padded operations; 128 of them have one peak. -/
def rangeRoot : Digest :=
  P.sha256 (beBytes 8 128 ++ (treeDigest P 7 254 (padded ops)).toBytes)

/-- Root over the operations, all of them active. -/
def rootOver : Digest :=
  P.sha256 ((0 : Digest).toBytes ++ (rangeRoot P ops).toBytes ++
    (beBytes 8 128 ++ (P.sha256 allActive.toBytes).toBytes))

/-- The proof of the operation at a location. -/
def operationProof (i : ℕ) : QmdbStateOperationProof where
  location := i
  activityChunk := allActive
  range := ⟨128, 0, treeSiblings P 7 254 (padded ops) i, some (P.sha256 allActive.toBytes), 0⟩

variable {P ops}

theorem getBitFromChunk_allActive {i : ℕ} (hi : i < 128) : getBitFromChunk allActive i = true := by
  have hall : ∀ i < 128, getBitFromChunk allActive i = true := by decide +kernel
  exact hall i hi

theorem length_padded (hlength : ops.length ≤ 128) : (padded ops).length = 128 := by
  rw [padded, List.length_append, List.length_replicate]
  omega

/-- The reconstruction finds the root of the range. -/
theorem reconstruct_rangeRoot (hlength : ops.length ≤ 128) {i : ℕ}
    (hop : (padded ops)[i]? = some operation) :
    reconstructQmdbMmrRoot P 128 0 (treeSiblings P 7 254 (padded ops) i) i operation allActive =
      some (rangeRoot P ops) := by
  have hi : i < 128 := length_padded hlength ▸ (List.getElem?_eq_some_iff.mp hop).1
  have hpeak : reconstructPeak P i (i / qmdbChunkBits) allActive 7 254 0
      ⟨some operation, false, treeSiblings P 7 254 (padded ops) i⟩ =
      some (treeDigest P 7 254 (padded ops), ⟨none, true, []⟩) := by
    have htree : reconstructPeak P i (i / qmdbChunkBits) allActive 7 254 0
        ⟨some operation, false, treeSiblings P 7 254 (padded ops) i ++ []⟩ =
        some (treeDigest P 7 254 (padded ops), ⟨none, true, []⟩) :=
      reconstructPeak_tree (.inl (by decide)) (by decide) (length_padded hlength) hop
        (Nat.zero_add i).symm
    rwa [List.append_nil] at htree
  have hsize : mmrLocationToPosition 128 = some 255 := by decide
  have hpeaks : mmrPeaks 255 = [(254, 7)] := by decide
  have hlayout : layoutStep 0 i ⟨0, 0, 0, 0, [], 0, 0⟩ (254, 7) =
      ⟨0, 0, 0, 0, [(254, 7, 0)], 128, 1⟩ := by
    simp [layoutStep, not_le.mpr hi]
  have hrange : ¬ (maxMmrLeaves < 128 ∨ 128 ≤ i) := by
    rw [maxMmrLeaves]
    omega
  simp [reconstructQmdbMmrRoot, hrange, hsize, hpeaks, hlayout, hpeak, mmrRoot, foldInactive,
    rangeRoot]

/-- **Every operation is proven under the root.** -/
theorem operation_proven (hlength : ops.length ≤ 128) {i : ℕ}
    (hop : (padded ops)[i]? = some operation) :
    verifyQmdbOperationProof P (rootOver P ops) operation (operationProof P ops i) = true := by
  have hi : i < 128 := length_padded hlength ▸ (List.getElem?_eq_some_iff.mp hop).1
  have hroot := reconstruct_rangeRoot (P := P) hlength hop
  simp [verifyQmdbOperationProof, operationProof, getBitFromChunk_allActive hi,
    verifyQmdbRangeProof, hroot, rootOver, qmdbChunkBits, hi]

theorem exists_operationProof (hlength : ops.length ≤ 128) (hop : operation ∈ ops) :
    ∃ proof, verifyQmdbOperationProof P (rootOver P ops) operation proof = true := by
  obtain ⟨i, hi⟩ := List.mem_iff_getElem?.mp (List.mem_append_left _ hop)
  exact ⟨operationProof P ops i, operation_proven hlength hi⟩

end Root

/-! ## Rings -/

section Rings

variable (ring : List (Bytes × Bytes))

/-- The key behind a position of a ring. -/
def successorKey (j : ℕ) : Bytes := (ring[(j + 1) % ring.length]?.map Prod.fst).getD []

/-- The operation of the leaf at a position. -/
def ringOperation (entry : (Bytes × Bytes) × ℕ) : Bytes :=
  (encodeQmdbUpdateOperation entry.1.1 entry.1.2 (successorKey ring entry.2)).getD []

/-- Keys are distinct, and keys and values can be encoded. -/
structure Ring : Prop where
  distinct : (ring.map Prod.fst).Nodup
  small : ∀ leaf ∈ ring, leaf.1.length < 2 ^ 32 ∧ leaf.2.length < 2 ^ 32

variable {ring}

theorem getElem?_successor {leaf : Bytes × Bytes} {j : ℕ} (hleaf : ring[j]? = some leaf) :
    ∃ next ∈ ring, ring[(j + 1) % ring.length]? = some next ∧ successorKey ring j = next.1 := by
  have hpos : 0 < ring.length := (Nat.zero_le j).trans_lt (List.getElem?_eq_some_iff.mp hleaf).1
  have hlt := Nat.mod_lt (j + 1) hpos
  have hnext := List.getElem?_eq_getElem hlt
  exact ⟨_, List.getElem_mem hlt, hnext, by rw [successorKey, hnext]; rfl⟩

theorem Ring.encode (h : Ring ring) {leaf : Bytes × Bytes} {j : ℕ} (hleaf : ring[j]? = some leaf) :
    encodeQmdbUpdateOperation leaf.1 leaf.2 (successorKey ring j) =
      some (ringOperation ring (leaf, j)) := by
  obtain ⟨next, hnext, -, hkey⟩ := getElem?_successor hleaf
  obtain ⟨hk, hv⟩ := h.small leaf (List.mem_iff_getElem?.mpr ⟨j, hleaf⟩)
  have hoperation : (encodeQmdbUpdateOperation leaf.1 leaf.2 (successorKey ring j)).isSome := by
    rw [hkey, encodeQmdbUpdateOperation, lenPrefixedBytes_of_lt hk, lenPrefixedBytes_of_lt hv,
      lenPrefixedBytes_of_lt (h.small next hnext).1]
    rfl
  obtain ⟨operation, hoperation⟩ := Option.isSome_iff_exists.mp hoperation
  rw [ringOperation, hoperation]
  rfl

/-- A ring whose operations are proven under a root is accepted under it. -/
theorem Ring.verified (h : Ring ring) {root : Digest}
    (hproven : ∀ entry ∈ ring.zipIdx, ∃ proof,
      verifyQmdbOperationProof P root (ringOperation ring entry) proof = true) :
    ∃ proof, verifyQmdbStateRootFor P root ring proof = .ok () := by
  choose! prove hprove using hproven
  refine ⟨⟨ring.zipIdx.map fun entry => ⟨prove entry, successorKey ring entry.2⟩⟩, ?_⟩
  refine bind_eq_ok.mpr ⟨(), ensure_eq_ok.mpr (by simp), bind_eq_ok.mpr ⟨(), ?_, ?_⟩⟩
  · -- Adjacent keys differ.
    refine checkAll_eq_ok.mpr fun window hwindow => ensure_eq_ok.mpr ?_
    obtain ⟨hfirst, hsecond⟩ := List.getElem?_zip_eq_some.mp
      (List.mem_zipIdx_iff_getElem?.mp hwindow)
    rw [List.getElem?_tail] at hsecond
    have hlt := (List.getElem?_eq_some_iff.mp hsecond).1
    have hne := List.nodup_iff_getElem?_ne_getElem?.mp h.distinct window.2 (window.2 + 1)
      (Nat.lt_succ_self _) (by simpa using hlt)
    simpa [hfirst, hsecond] using hne
  · refine checkAll_eq_ok.mpr fun entry hentry => ?_
    obtain ⟨hleaf, hproof⟩ := List.getElem?_zip_eq_some.mp
      (List.mem_zipIdx_iff_getElem?.mp hentry)
    have hmem : (entry.1.1, entry.2) ∈ ring.zipIdx := List.mem_zipIdx_iff_getElem?.mpr hleaf
    obtain ⟨next, -, hnext, hkey⟩ := getElem?_successor hleaf
    have hproof : entry.1.2 = ⟨prove (entry.1.1, entry.2), successorKey ring entry.2⟩ := by
      rw [List.getElem?_map, List.getElem?_zipIdx, hleaf] at hproof
      simpa using hproof.symm
    refine bind_eq_ok.mpr ⟨(), ensure_eq_ok.mpr ?_, ensure_eq_ok.mpr ?_⟩
    · rw [verifyQmdbKeyValueProof, hproof]
      simp only [h.encode hleaf]
      exact hprove _ hmem
    · rw [hnext, hproof, hkey]
      rfl

/-- Root over the operations of one ring, as an honest database has it. -/
def ringRoot (P : Primitives) (ring : List (Bytes × Bytes)) : Digest :=
  rootOver P (ring.zipIdx.map (ringOperation ring))

/-- It proves the ring. -/
theorem Ring.exists_proof (h : Ring ring) (hlength : ring.length ≤ 128) :
    ∃ proof, verifyQmdbStateRootFor P (ringRoot P ring) ring proof = .ok () :=
  h.verified fun _ hentry =>
    exists_operationProof (by simpa using hlength) (List.mem_map_of_mem hentry)

/-- **One root for several states.**  Whatever the hash function is, lists of leaves with distinct
keys have a root under which the guest accepts each of them as the whole state. -/
theorem exists_root_proving (P : Primitives) {rings : List (List (Bytes × Bytes))}
    (hrings : ∀ ring ∈ rings, Ring ring) (hcount : (rings.map List.length).sum ≤ 128) :
    ∃ root, ∀ ring ∈ rings, ∃ proof, verifyQmdbStateRootFor P root ring proof = .ok () := by
  let ops := rings.flatMap fun ring => ring.zipIdx.map (ringOperation ring)
  have hlength : ops.length ≤ 128 := by
    simpa [ops, List.length_flatMap] using hcount
  refine ⟨rootOver P ops, fun ring hring => (hrings ring hring).verified fun entry hentry => ?_⟩
  refine exists_operationProof hlength (List.mem_flatMap.mpr ⟨ring, hring, ?_⟩)
  exact List.mem_map_of_mem hentry

end Rings

end Sybil.Zk
