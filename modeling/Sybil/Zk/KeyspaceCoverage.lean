import Sybil.Lib.CyclicOrder
import Sybil.Lib.ByteOrder
import Sybil.Verifier.Schema
import Sybil.Zk.DepositBlocks
import Sybil.Zk.OperationBinding

/-!
# What a ring of leaves leaves out

A root check proves each leaf of a state and that every next key is the key of the following leaf.
Whether a key is *missing* is not checked.  It need not be when the database keeps its promise:
the active operations form one ring in key order, and only active operations can be proven.  Then
the leaves, sorted and without duplicates, walk around that ring, and no key is left out.

The same promise makes exclusion proofs sound: the span of an active operation holds no active key
but its own.

`RootBinding` shows that the promise is needed: nothing in the check enforces it.
-/

namespace Sybil.Zk

open Engine Verifier CyclicOrder HashBinding

variable {P : Primitives} {root : Digest}

variable {key : Bytes} {leaves : List (Bytes × Bytes)}

/-! ## Keys in order -/

theorem stateRootLeaves_ne_nil (accounts : List AccountSnapshot) (sidecar : StateSidecarSnapshot) :
    stateRootLeaves P accounts sidecar ≠ [] := by
  intro hnil
  have hlength := congrArg List.length hnil
  rw [stateRootLeaves, List.length_mergeSort] at hlength
  simp at hlength

theorem pairwise_stateRootLeaves (P : Primitives) (accounts : List AccountSnapshot)
    (sidecar : StateSidecarSnapshot) :
    (stateRootLeaves P accounts sidecar).Pairwise fun a b => a.1 ≤ b.1 :=
  pairwise_sortByKey Prod.fst _

/-- Sorted and without equal neighbours is strictly sorted. -/
theorem pairwise_lt_of_neighbours (hsorted : leaves.Pairwise fun a b => a.1 ≤ b.1)
    (hne : ∀ pair ∈ leaves.zip leaves.tail, pair.1.1 ≠ pair.2.1) :
    leaves.Pairwise fun a b => a.1 < b.1 := by
  induction leaves with
  | nil => exact .nil
  | cons leaf leaves ih =>
    rw [List.pairwise_cons] at hsorted
    cases leaves with
    | nil => exact List.pairwise_singleton _ _
    | cons next leaves =>
      have htail := ih hsorted.2 fun pair hpair => hne pair (List.mem_cons_of_mem _ hpair)
      have hfirst : leaf.1 < next.1 :=
        lt_of_le_of_ne (hsorted.1 next List.mem_cons_self) (hne (leaf, next) List.mem_cons_self)
      refine List.pairwise_cons.mpr ⟨fun other hother => ?_, htail⟩
      rcases List.mem_cons.mp hother with rfl | hother
      · exact hfirst
      · exact hfirst.trans ((List.pairwise_cons.mp htail).1 other hother)

/-! ## The promise of the database -/

/-- Keys of some operations. -/
def keysOf (active : Set (Bytes × Bytes × Bytes)) : Set Bytes := {key | ∃ op ∈ active, op.1 = key}

/-- A root commits to active update operations, given by key, value and next key: one for each
key, each with the cyclic successor of its key, and no other update operation can be proven. -/
structure ActiveRing (P : Primitives) (root : Digest) (active : Set (Bytes × Bytes × Bytes)) :
    Prop where
  unique : ∀ op ∈ active, ∀ other ∈ active, op.1 = other.1 → op = other
  successor : ∀ op ∈ active, IsSuccessor (keysOf active) op.1 op.2.2
  shown : ∀ key value nextKey operation proof,
    encodeQmdbUpdateOperation key value nextKey = some operation →
    verifyQmdbOperationProof P root operation proof = true → (key, value, nextKey) ∈ active

/-- What an accepted root check says about its leaves. -/
theorem verifyQmdbStateRootFor_eq_ok {proof : QmdbStateRootProof}
    (h : verifyQmdbStateRootFor P root leaves proof = .ok ()) :
    (∀ pair ∈ leaves.zip leaves.tail, pair.1.1 ≠ pair.2.1) ∧
      ∀ i leaf, leaves[i]? = some leaf → ∃ leafProof,
        verifyQmdbKeyValueProof P root leaf.1 leaf.2 leafProof = true ∧
          leaves[(i + 1) % leaves.length]?.map Prod.fst = some leafProof.nextKey := by
  simp only [verifyQmdbStateRootFor, bind_eq_ok, ensure_eq_ok, checkAll_eq_ok, exists_const] at h
  obtain ⟨hcount, hne, hleaves⟩ := h
  refine ⟨fun pair hpair => ?_, fun i leaf hleaf => ?_⟩
  · obtain ⟨i, hi⟩ := List.getElem?_of_mem hpair
    exact hne (pair, i) (List.mem_zipIdx_iff_getElem?.mpr hi)
  · obtain ⟨hi, -⟩ := List.getElem?_eq_some_iff.mp hleaf
    obtain ⟨leafProof, hproof⟩ : ∃ leafProof, proof.leafProofs[i]? = some leafProof :=
      ⟨_, List.getElem?_eq_getElem (hcount ▸ hi)⟩
    have hentry := hleaves ((leaf, leafProof), i)
      (List.mem_zipIdx_iff_getElem?.mpr (List.getElem?_zip_eq_some.mpr ⟨hleaf, hproof⟩))
    simp only [verifyLeafProof, bind_eq_ok, ensure_eq_ok, exists_const] at hentry
    exact ⟨leafProof, hentry⟩

namespace ActiveRing

variable {active : Set (Bytes × Bytes × Bytes)}

theorem mem_of_proven (h : ActiveRing P root active) {value : Bytes}
    {proof : QmdbStateKeyValueProof}
    (hproof : verifyQmdbKeyValueProof P root key value proof = true) :
    (key, value, proof.nextKey) ∈ active := by
  obtain ⟨operation, hencode, haccepted, -⟩ := verifyQmdbKeyValueProof_eq_true hproof
  exact h.shown _ _ _ _ _ hencode haccepted

/-- **A sorted list of leaves that passes the root check is the set of active pairs.** -/
theorem mem_leaves_iff (h : ActiveRing P root active) (hnil : leaves ≠ [])
    (hsorted : leaves.Pairwise fun a b => a.1 ≤ b.1) {proof : QmdbStateRootProof}
    (hproof : verifyQmdbStateRootFor P root leaves proof = .ok ()) (leaf : Bytes × Bytes) :
    leaf ∈ leaves ↔ ∃ nextKey, (leaf.1, leaf.2, nextKey) ∈ active := by
  obtain ⟨hne, hleaves⟩ := verifyQmdbStateRootFor_eq_ok hproof
  have hactive : ∀ i leaf, leaves[i]? = some leaf → ∃ nextKey,
      leaves[(i + 1) % leaves.length]?.map Prod.fst = some nextKey ∧
        (leaf.1, leaf.2, nextKey) ∈ active := by
    intro i leaf hleaf
    obtain ⟨leafProof, hproven, hnext⟩ := hleaves i leaf hleaf
    exact ⟨leafProof.nextKey, hnext, h.mem_of_proven hproven⟩
  have hmem : ∀ leaf ∈ leaves, ∃ nextKey, (leaf.1, leaf.2, nextKey) ∈ active := by
    intro leaf hleaf
    obtain ⟨i, hi⟩ := List.getElem?_of_mem hleaf
    obtain ⟨nextKey, -, hop⟩ := hactive i leaf hi
    exact ⟨nextKey, hop⟩
  refine ⟨hmem leaf, fun ⟨nextKey, hop⟩ => ?_⟩
  -- The keys of the leaves walk around the ring, so the key of the operation is one of them.
  have hopKey : leaf.1 ∈ keysOf active := ⟨_, hop, rfl⟩
  have hkey : leaf.1 ∈ leaves.map Prod.fst := by
    refine mem_of_ring (by simpa using hnil) ?_ ?_ hopKey
    · rw [List.pairwise_map]
      exact pairwise_lt_of_neighbours hsorted hne
    · intro i key next hi hnext
      rw [List.getElem?_map, Option.map_eq_some_iff] at hi
      obtain ⟨entry, hentry, rfl⟩ := hi
      obtain ⟨next', hnext', hentryOp⟩ := hactive i entry hentry
      rw [List.length_map, List.getElem?_map, hnext', Option.some.injEq] at hnext
      exact hnext ▸ h.successor _ hentryOp
  obtain ⟨entry, hentry, hentryKey⟩ := List.mem_map.mp hkey
  obtain ⟨nextKey', hentryOp⟩ := hmem entry hentry
  have heq := h.unique _ hentryOp _ hop hentryKey
  have hvalue : entry.2 = leaf.2 := congrArg (fun op => op.2.1) heq
  rwa [← Prod.ext hentryKey hvalue]

theorem qmdbSpanContains_eq_true {spanStart spanEnd : Bytes} :
    qmdbSpanContains spanStart spanEnd key = true ↔ InSpan spanStart spanEnd key := by
  rw [qmdbSpanContains, InSpan]
  split_ifs <;> exact decide_eq_true_iff

/-- **An active key has no exclusion proof from a span.** -/
theorem not_excluded (h : ActiveRing P root active) (hkey : key ∈ keysOf active)
    (operation : QmdbStateOperationProof) (spanKey spanValue spanNextKey : Bytes) :
    verifyQmdbExclusionProof P root key (.keyValue operation spanKey spanValue spanNextKey) =
      false := by
  rw [verifyQmdbExclusionProof]
  by_cases hspan : spanKey = key ∨ qmdbSpanContains spanKey spanNextKey key = false
  · rw [if_pos hspan]
  · rw [if_neg hspan]
    rw [not_or, Bool.not_eq_false, qmdbSpanContains_eq_true] at hspan
    cases hencode : encodeQmdbUpdateOperation spanKey spanValue spanNextKey with
    | none => rfl
    | some encoded =>
      refine Bool.eq_false_iff.mpr fun haccepted => ?_
      have hop := h.shown _ _ _ _ _ hencode haccepted
      exact (h.successor _ hop).not_inSpan hkey (Ne.symm hspan.1) hspan.2

end ActiveRing

/-- **State-root proofs cover the whole keyspace.**  Under a root that commits to one ring of
active operations, the leaves of a state that pass the root check are exactly the active pairs, and
no exclusion proof from a span is accepted for an active key. -/
theorem state_root_proofs_cover_keyspace (P : Primitives) (root : Digest)
    (active : Set (Bytes × Bytes × Bytes)) (h : ActiveRing P root active) :
    (∀ (accounts : List AccountSnapshot) (sidecar : StateSidecarSnapshot)
        (proof : QmdbStateRootProof),
      verifyQmdbStateRootFor P root (stateRootLeaves P accounts sidecar) proof = .ok () →
      ∀ leaf, leaf ∈ stateRootLeaves P accounts sidecar ↔
        ∃ nextKey, (leaf.1, leaf.2, nextKey) ∈ active) ∧
    ∀ key value nextKey, (key, value, nextKey) ∈ active →
      ∀ operation spanKey spanValue spanNextKey,
        verifyQmdbExclusionProof P root key (.keyValue operation spanKey spanValue spanNextKey) =
          false := by
  refine ⟨fun accounts sidecar proof hproof => ?_, fun key value nextKey hop => ?_⟩
  · exact h.mem_leaves_iff (stateRootLeaves_ne_nil accounts sidecar)
      (pairwise_stateRootLeaves P accounts sidecar) hproof
  · exact h.not_excluded ⟨_, hop, rfl⟩

/-! ### A database that keeps the promise

The state without accounts and markets has five leaves.  Its operations are the first of a range of
eight; a hash that numbers the strings of the range lets nothing else be proven. -/

/-- A bridge at the start. -/
def bareBridge : BridgeStateSnapshot where
  depositCursor := 0
  depositRoot := 0
  observedL1Height := 0
  nextWithdrawalId := 0
  withdrawals := []
  quarantine := []

/-- The leaves of the bare state.  The hash numbers eighteen strings, and all others `18`. -/
def bareRing : List (Bytes × Bytes) :=
  [(utf8 "sys/deposit_cursor", sysU64LeafValue "deposit_cursor" 0),
    (utf8 "sys/deposit_root", sysBytes32LeafValue "deposit_root" 0),
    (utf8 "sys/next_withdrawal_id", sysU64LeafValue "next_withdrawal_id" 0),
    (utf8 "sys/observed_l1_height", sysU64LeafValue "observed_l1_height" 0),
    (utf8 "sys/quarantine_digest", sysBytes32LeafValue "quarantine_digest" 18)]

/-- The operations of the range: those of the ring, and empty ones. -/
def bareOperations : List Bytes := bareRing.zipIdx.map (ringOperation bareRing) ++ [[], [], []]

/-- The strings of the range, in the order in which their digests are used. -/
def bareStrings : List Bytes :=
  ([0, 1, 3, 4, 7, 8, 10, 11].zip bareOperations).map (fun leaf => beBytes 8 leaf.1 ++ leaf.2) ++
    [mmrNodeInput 2 0 1, mmrNodeInput 5 2 3, mmrNodeInput 9 4 5, mmrNodeInput 12 6 7,
      mmrNodeInput 6 8 9, mmrNodeInput 13 10 11, mmrNodeInput 14 12 13,
      rangeRootInput 8 0 14, allActive.toBytes,
      (0 : Digest).toBytes ++ (15 : Digest).toBytes ++ (beBytes 8 8 ++ (16 : Digest).toBytes)]

/-- A hash that numbers the strings of the range. -/
def bareP : Primitives := separating bareStrings

/-- Siblings of the locations. -/
def bareSiblings : List (List Digest) :=
  [[1, 9, 13], [0, 9, 13], [8, 3, 13], [8, 2, 13], [12, 5, 11], [12, 4, 11], [12, 10, 7],
    [12, 10, 6]]

/-- The proof of a location. -/
def bareProof (i : ℕ) : QmdbStateOperationProof where
  location := i
  activityChunk := allActive
  range := ⟨8, 0, (bareSiblings[i]?).getD [], some 16, 0⟩

/-- Proofs of the leaves. -/
def bareRootProof : QmdbStateRootProof :=
  ⟨(List.range 5).map fun i => ⟨bareProof i, successorKey bareRing i⟩⟩

/-- The active operations. -/
def bareActive : List (Bytes × Bytes × Bytes) :=
  bareRing.zipIdx.map fun entry => (entry.1.1, entry.1.2, successorKey bareRing entry.2)

theorem bare_accepted {i : ℕ} {operation : Bytes} (hop : bareOperations[i]? = some operation) :
    verifyQmdbOperationProof bareP 17 operation (bareProof i) = true ∧
      verifyQmdbOperationProofInputs bareP operation (bareProof i) ⊆ bareStrings := by
  have hall : ∀ entry ∈ bareOperations.zipIdx,
      verifyQmdbOperationProof bareP 17 entry.1 (bareProof entry.2) = true ∧
        verifyQmdbOperationProofInputs bareP entry.1 (bareProof entry.2) ⊆ bareStrings := by
    decide +kernel
  exact hall (operation, i) (List.mem_zipIdx_iff_getElem?.mpr hop)

/-- Every location of the range has one operation, and the third the leaf of the next id. -/
theorem qmdb_operation_proofs_bind_bare :
    (∀ i operation, bareOperations[i]? = some operation →
      verifyQmdbOperationProof bareP 17 operation (bareProof i) = true ∧
        ∀ operation' proof, verifyQmdbOperationProof bareP 17 operation' proof = true →
          proof.location = i → verifyQmdbOperationProofInputs bareP operation' proof ⊆ bareStrings →
          operation' = operation ∧ proof.activityChunk = allActive) ∧
      verifyQmdbKeyValueProof bareP 17 (utf8 "sys/next_withdrawal_id")
        (sysU64LeafValue "next_withdrawal_id" 0)
        ⟨bareProof 2, utf8 "sys/observed_l1_height"⟩ = true ∧
      ∀ key value proof, verifyQmdbKeyValueProof bareP 17 key value proof = true →
        proof.operation.location = 2 →
        verifyQmdbKeyValueProofInputs bareP key value proof ⊆ bareStrings →
        (key, value, proof.nextKey) = (utf8 "sys/next_withdrawal_id",
          sysU64LeafValue "next_withdrawal_id" 0, utf8 "sys/observed_l1_height") := by
  have hfree : CollisionFree bareP.sha256 bareStrings :=
    fun x _ y hy h => separating_inj (by decide +kernel) hy h
  have hkey : verifyQmdbKeyValueProof bareP 17 (utf8 "sys/next_withdrawal_id")
      (sysU64LeafValue "next_withdrawal_id" 0)
      ⟨bareProof 2, utf8 "sys/observed_l1_height"⟩ = true := by decide +kernel
  have hstrings : verifyQmdbKeyValueProofInputs bareP (utf8 "sys/next_withdrawal_id")
      (sysU64LeafValue "next_withdrawal_id" 0) ⟨bareProof 2, utf8 "sys/observed_l1_height"⟩ ⊆
        bareStrings := by decide +kernel
  obtain ⟨hoperations, hkeys⟩ := qmdb_operation_proofs_bind bareP 17
  refine ⟨fun i operation hop => ⟨(bare_accepted hop).1, fun operation' proof h hloc hsub => ?_⟩,
    hkey, fun key value proof h hloc hsub => ?_⟩
  · have hinputs := List.append_subset.mpr ⟨hsub, (bare_accepted hop).2⟩
    exact hoperations _ _ proof (bareProof i) h (bare_accepted hop).1 hloc
      (hfree.mono hinputs hinputs)
  · have hinputs := List.append_subset.mpr ⟨hsub, hstrings⟩
    exact hkeys _ _ _ _ proof _ h hkey hloc (hfree.mono hinputs hinputs)

/-- What is proven under the root is an operation of the range. -/
theorem mem_bareOperations {operation : Bytes} {proof : QmdbStateOperationProof}
    (h : verifyQmdbOperationProof bareP 17 operation proof = true) :
      operation ∈ bareOperations := by
  have hlength : bareOperations.length = 8 := by decide +kernel
  have hsep : ∀ {i operation'}, bareOperations[i]? = some operation' →
      Separates bareP.sha256 (verifyQmdbOperationProofInputs bareP operation proof)
        (verifyQmdbOperationProofInputs bareP operation' (bareProof i)) :=
    fun hop x _ y hy hhash => separating_inj (by decide +kernel) ((bare_accepted hop).2 hy) hhash
  obtain ⟨first, hfirst⟩ : ∃ first, bareOperations[0]? = some first :=
    ⟨_, List.getElem?_eq_getElem (by omega)⟩
  have hlocation : proof.location < 8 :=
    verifyQmdbOperationProof_leaves h (bare_accepted hfirst).1 (hsep hfirst)
  obtain ⟨operation', hop⟩ : ∃ operation', bareOperations[proof.location]? = some operation' :=
    ⟨_, List.getElem?_eq_getElem (by omega)⟩
  obtain ⟨rfl, -⟩ := verifyQmdbOperationProof_binding h (bare_accepted hop).1 rfl (hsep hop)
  exact List.mem_of_getElem? hop

theorem activeRing_bare : ActiveRing bareP 17 {op | op ∈ bareActive} where
  unique := by
    have hall : ∀ op ∈ bareActive, ∀ other ∈ bareActive, op.1 = other.1 → op = other := by
      decide +kernel
    exact hall
  successor := by
    have hall : ∀ op ∈ bareActive, (∃ other ∈ bareActive, other.1 = op.2.2) ∧
        ((op.1 < op.2.2 ∧ ∀ other ∈ bareActive, op.1 < other.1 → op.2.2 ≤ other.1) ∨
          ((∀ other ∈ bareActive, other.1 ≤ op.1) ∧ ∀ other ∈ bareActive, op.2.2 ≤ other.1)) := by
      decide +kernel
    intro op hop
    obtain ⟨hmem, hnearest⟩ := hall op hop
    refine ⟨hmem, hnearest.imp (And.imp_right ?_) (And.imp ?_ ?_)⟩ <;>
    · rintro h _ ⟨other, hother, rfl⟩
      exact h other hother
  shown := by
    intro key value nextKey operation proof hencode haccepted
    have hall : ∀ operation ∈ bareOperations, operation = [] ∨ ∃ op ∈ bareActive,
        encodeQmdbUpdateOperation op.1 op.2.1 op.2.2 = some operation := by
      decide +kernel
    obtain rfl | ⟨op, hop, hencode'⟩ := hall operation (mem_bareOperations haccepted)
    · simp [encodeQmdbUpdateOperation, Option.bind_eq_some_iff] at hencode
    · obtain ⟨rfl, rfl, rfl⟩ := encodeQmdbUpdateOperation_inj hencode hencode'
      exact hop

theorem stateRootLeaves_bare : stateRootLeaves bareP [] (bridgeSidecar bareBridge) = bareRing := by
  have hdigest : quarantineLedgerDigest bareP [] = 18 := by
    rw [quarantineLedgerDigest, sortByKey, List.mergeSort_nil]
    decide +kernel
  have hperm : (stateRootLeaves bareP [] (bridgeSidecar bareBridge)).Perm bareRing := by
    refine (stateRootLeaves_bridgeSidecar rfl bareP).trans ?_
    show (systemLeaves bareP bareBridge).Perm bareRing
    have hleaves : systemLeaves bareP bareBridge =
        [(utf8 "sys/deposit_cursor", sysU64LeafValue "deposit_cursor" 0),
          (utf8 "sys/deposit_root", sysBytes32LeafValue "deposit_root" 0),
          (utf8 "sys/quarantine_digest", sysBytes32LeafValue "quarantine_digest" 18),
          (utf8 "sys/observed_l1_height", sysU64LeafValue "observed_l1_height" 0),
          (utf8 "sys/next_withdrawal_id", sysU64LeafValue "next_withdrawal_id" 0)] := by
      rw [systemLeaves, show bareBridge.quarantine = [] from rfl, hdigest]
      rfl
    rw [hleaves]
    decide +kernel
  have hkeys : ∀ a ∈ bareRing, ∀ b ∈ bareRing, a.1 = b.1 → a = b := by decide +kernel
  have hsorted : bareRing.Pairwise fun a b => a.1 ≤ b.1 := by decide +kernel
  refine hperm.eq_of_pairwise (fun a b ha hb hab hba => ?_) (pairwise_stateRootLeaves _ _ _) hsorted
  exact hkeys a (hperm.mem_iff.mp ha) b hb (le_antisymm hab hba)

/-- The five leaves of the bare state are its active pairs; the cursor is not excluded. -/
theorem state_root_proofs_cover_bare_state :
    verifyQmdbStateRootFor bareP 17 (stateRootLeaves bareP [] (bridgeSidecar bareBridge))
        bareRootProof = .ok () ∧
      (utf8 "sys/deposit_cursor", sysU64LeafValue "deposit_cursor" 0) ∈
        stateRootLeaves bareP [] (bridgeSidecar bareBridge) ∧
      verifyQmdbExclusionProof bareP 17 (utf8 "sys/deposit_cursor")
        (.keyValue (bareProof 4) (utf8 "sys/quarantine_digest")
          (sysBytes32LeafValue "quarantine_digest" 18) (utf8 "sys/deposit_cursor")) = false := by
  obtain ⟨hleaves, hexcluded⟩ := state_root_proofs_cover_keyspace bareP 17 _ activeRing_bare
  have hproof : verifyQmdbStateRootFor bareP 17
      (stateRootLeaves bareP [] (bridgeSidecar bareBridge)) bareRootProof = .ok () := by
    rw [stateRootLeaves_bare]
    decide +kernel
  have hop : (utf8 "sys/deposit_cursor", sysU64LeafValue "deposit_cursor" 0,
      utf8 "sys/deposit_root") ∈ bareActive := by
    decide +kernel
  exact ⟨hproof, (hleaves _ _ _ hproof _).mpr ⟨_, hop⟩, hexcluded _ _ _ hop _ _ _ _⟩

end Sybil.Zk
