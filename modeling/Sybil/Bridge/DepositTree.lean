import Sybil.Contracts.VaultContract
import Sybil.Lib.Merkle

/-!
# The deposit tree

The vault, the sequencer and the guest each keep the deposit tree as a frontier of one node
a level.  Here the frontier is compared with the tree itself, a complete binary tree over the
deposits so far and zeros (`Merkle.root`).

A deposit writes every level it meets with an even index, also with subtrees that are not yet
complete.  Such a node is never read before it is overwritten: what counts is `Merkle.Valid`,
the levels whose bit is set in the number of deposits.  At the full tree no bit of that number
is left below the depth of the tree, and the frontier no longer says what the root is.
-/

namespace Sybil.L1Protocol

variable {P : Primitives}

variable {frontier : List Digest} {preCount : ℕ}

/-! ## One deposit -/

section Levels

variable {zero root : Digest} {index : ℕ} {leaves : ℕ → Digest}

/-- The root after an insertion is the root of the tree in the making. -/
theorem appendLevels_snd (hvalid : Merkle.Valid (hashNode P) leaves index frontier)
    (hroom : index < 2 ^ frontier.length) :
    (appendLevels P zero index root frontier).2 =
      Merkle.root (hashNode P) frontier.length (Merkle.padded zero root index leaves) := by
  induction frontier generalizing zero index root leaves with
  | nil =>
    obtain rfl : index = 0 := Nat.lt_one_iff.mp hroom
    rfl
  | cons left frontier ih =>
    have hhalf : index / 2 < 2 ^ frontier.length := by
      rw [List.length_cons, Nat.pow_succ] at hroom
      omega
    rw [appendLevels, List.length_cons, Merkle.root_succ]
    split_ifs with hbit
    · rw [Merkle.parents_padded_even _ hbit]
      exact ih hvalid.2 hhalf
    · rw [Merkle.parents_padded_odd _ (by omega), ← hvalid.1 (by omega)]
      exact ih hvalid.2 hhalf

/-- An insertion whose subtree is not complete writes only levels that do not count. -/
theorem valid_of_partial (hvalid : Merkle.Valid (hashNode P) leaves index frontier) :
    Merkle.Valid (hashNode P) leaves index (appendLevels P zero index root frontier).1 := by
  induction frontier generalizing zero index root leaves with
  | nil => exact trivial
  | cons left frontier ih =>
    rw [appendLevels]
    split_ifs with hbit
    · exact ⟨fun hodd => absurd hodd (by omega), ih hvalid.2⟩
    · exact ⟨hvalid.1, ih hvalid.2⟩

/-- Inserting the next leaf keeps the frontier valid. -/
theorem valid_appendLevels (hvalid : Merkle.Valid (hashNode P) leaves index frontier)
    (hroot : root = leaves index) :
    Merkle.Valid (hashNode P) leaves (index + 1) (appendLevels P zero index root frontier).1 := by
  induction frontier generalizing zero index root leaves with
  | nil => exact trivial
  | cons left frontier ih =>
    rw [appendLevels]
    split_ifs with hbit
    · -- The leaf is the last complete node of its level; above it nothing is complete yet.
      have hhalf : (index + 1) / 2 = index / 2 := by omega
      refine ⟨fun _ => hroot, ?_⟩
      rw [hhalf]
      exact valid_of_partial hvalid.2
    · -- The leaf completes its parent, which is inserted one level up.
      have hhalf : (index + 1) / 2 = index / 2 + 1 := by omega
      have hparent : hashNode P left root = Merkle.parents (hashNode P) leaves (index / 2) := by
        have hleft : 2 * (index / 2) = index - 1 := by omega
        have hright : index - 1 + 1 = index := by omega
        rw [Merkle.parents, hleft, hright, hvalid.1 (by omega), hroot]
      refine ⟨fun hodd => absurd hodd (by omega), ?_⟩
      rw [hhalf]
      exact ih hvalid.2 hparent

end Levels

/-! ## Lists of deposits -/

/-- The leaves of a list of deposits. -/
def leafAt (P : Primitives) (deposits : List DepositLeaf) (i : ℕ) : Digest :=
  (deposits.map (depositTreeLeaf P)).getD i 0

/-- Root of the tree of depth 32 over the first deposits and zeros. -/
def depositTreeRoot (P : Primitives) (deposits : List DepositLeaf) (count : ℕ) : Digest :=
  Merkle.root (hashNode P) depositTreeDepth (Merkle.truncated 0 count (leafAt P deposits))

def emptyDepositFrontier : List Digest := List.replicate depositTreeDepth 0

/-- `deposit_frontier_after_prefix`. -/
def depositFrontierAfterPrefix (P : Primitives) (preFrontier : List Digest) (preCount : ℕ)
    (deposits : List DepositLeaf) : Option (List Digest) := do
  let postCount ← checkedU64 (preCount + deposits.length)
  if depositTreeCapacity < postCount then none else appendDeposits P preFrontier preCount deposits

/-- Roots and frontier of deposits that arrive in batches. -/
def appendBatches (P : Primitives) (frontier : List Digest) (preCount : ℕ) :
    List (List DepositLeaf) → Option (List Digest × List Digest)
  | [] => some ([], frontier)
  | batch :: batches => do
    let roots ← depositFrontierPrefixRoots P frontier preCount batch
    let frontier ← depositFrontierAfterPrefix P frontier preCount batch
    let (rest, after) ← appendBatches P frontier (preCount + batch.length) batches
    pure (roots ++ rest, after)

/-- From a valid frontier the deposits that fit give the roots of the growing tree, and a valid
frontier. -/
theorem exists_prefixRoots {all : List DepositLeaf} {deposits : List DepositLeaf}
    (hlength : frontier.length = depositTreeDepth)
    (hvalid : Merkle.Valid (hashNode P) (leafAt P all) preCount frontier)
    (hleaves : all.drop preCount = deposits)
    (hroom : preCount + deposits.length ≤ depositTreeCapacity) :
    ∃ roots after, prefixRoots P frontier preCount deposits = some roots ∧
      appendDeposits P frontier preCount deposits = some after ∧
      ∀ k < deposits.length, roots[k]? = some (depositTreeRoot P all (preCount + k + 1)) := by
  induction deposits generalizing frontier preCount with
  | nil => exact ⟨[], frontier, rfl, rfl, nofun⟩
  | cons deposit deposits ih =>
    have hpre : preCount < depositTreeCapacity := by
      rw [List.length_cons] at hroom
      omega
    have hleaf : depositTreeLeaf P deposit = leafAt P all preCount := by
      have hget : all[preCount]? = some deposit := by
        rw [← List.head?_drop, hleaves, List.head?_cons]
      rw [leafAt, List.getD_eq_getElem?_getD, List.getElem?_map, hget]
      rfl
    have hfirst : appendDepositFrontier P frontier preCount deposit =
        some (appendLevels P 0 preCount (depositTreeLeaf P deposit) frontier) :=
      if_neg (Nat.not_le.mpr hpre)
    have hroot : (appendLevels P 0 preCount (depositTreeLeaf P deposit) frontier).2 =
        depositTreeRoot P all (preCount + 1) := by
      rw [appendLevels_snd hvalid (hlength ▸ hpre), hleaf, Merkle.padded_next, hlength]
      rfl
    have htail : all.drop (preCount + 1) = deposits := by
      rw [← List.tail_drop, hleaves, List.tail_cons]
    rw [List.length_cons, ← Nat.add_assoc, Nat.add_right_comm] at hroom
    obtain ⟨roots, after, hroots, hafter, hall⟩ :=
      ih (length_appendLevels.trans hlength) (valid_appendLevels hvalid hleaf) htail hroom
    refine ⟨depositTreeRoot P all (preCount + 1) :: roots, after, ?_, ?_, fun k hk => ?_⟩
    · rw [← hroot]
      exact Option.bind_eq_some_iff.mpr
        ⟨_, hfirst, Option.bind_eq_some_iff.mpr ⟨roots, hroots, rfl⟩⟩
    · rw [appendDeposits, hfirst]
      exact hafter
    · cases k with
      | zero => rfl
      | succ k =>
        rw [List.getElem?_cons_succ, hall k (Nat.lt_of_succ_lt_succ hk)]
        congr 2
        omega

/-! ## Batches -/

/-- Deposits made in two goes. -/
theorem exists_of_prefixRoots_append {after : List Digest} {first second : List DepositLeaf}
    {roots : List Digest}
    (hroots : prefixRoots P frontier preCount (first ++ second) = some roots)
    (hafter : appendDeposits P frontier preCount (first ++ second) = some after) :
    ∃ roots₁ middle roots₂, prefixRoots P frontier preCount first = some roots₁ ∧
      appendDeposits P frontier preCount first = some middle ∧
      prefixRoots P middle (preCount + first.length) second = some roots₂ ∧
      appendDeposits P middle (preCount + first.length) second = some after ∧
      roots = roots₁ ++ roots₂ := by
  induction first generalizing frontier preCount roots with
  | nil => exact ⟨[], frontier, roots, rfl, rfl, hroots, hafter, rfl⟩
  | cons deposit first ih =>
    obtain ⟨⟨next, root⟩, hnext, hroots⟩ := Option.bind_eq_some_iff.mp hroots
    obtain ⟨rest, hrest, hroots⟩ := Option.bind_eq_some_iff.mp hroots
    cases hroots
    obtain ⟨_, hsame, hafter⟩ := Option.bind_eq_some_iff.mp hafter
    cases hnext.symm.trans hsame
    obtain ⟨roots₁, middle, roots₂, h₁, hmiddle, h₂, hlast, rfl⟩ := ih hrest hafter
    have hcount : preCount + (deposit :: first).length = preCount + 1 + first.length := by
      rw [List.length_cons]
      omega
    refine ⟨root :: roots₁, middle, roots₂, ?_, ?_, hcount ▸ h₂, hcount ▸ hlast, rfl⟩
    · exact Option.bind_eq_some_iff.mpr ⟨_, hnext, Option.bind_eq_some_iff.mpr ⟨_, h₁, rfl⟩⟩
    · exact Option.bind_eq_some_iff.mpr ⟨_, hnext, hmiddle⟩

theorem depositFrontierAfterPrefix_eq {deposits : List DepositLeaf}
    (hroom : preCount + deposits.length ≤ depositTreeCapacity) :
    depositFrontierAfterPrefix P frontier preCount deposits =
      appendDeposits P frontier preCount deposits := by
  have hcount : checkedU64 (preCount + deposits.length) = some (preCount + deposits.length) :=
    checkedU64_eq_some_iff.mpr ⟨hroom.trans_lt (by decide), rfl⟩
  rw [depositFrontierAfterPrefix, hcount]
  exact if_neg (Nat.not_lt.mpr hroom)

/-- Batches give the roots and the frontier of the list they make up. -/
theorem appendBatches_eq {after : List Digest} {batches : List (List DepositLeaf)}
    {roots : List Digest} (hroom : preCount + batches.flatten.length ≤ depositTreeCapacity)
    (hroots : prefixRoots P frontier preCount batches.flatten = some roots)
    (hafter : appendDeposits P frontier preCount batches.flatten = some after) :
    appendBatches P frontier preCount batches = some (roots, after) := by
  induction batches generalizing frontier preCount roots with
  | nil =>
    cases hroots
    cases hafter
    rfl
  | cons batch batches ih =>
    rw [List.flatten_cons] at hroots hafter
    rw [List.flatten_cons, List.length_append] at hroom
    obtain ⟨roots₁, middle, roots₂, h₁, hmiddle, h₂, hlast, rfl⟩ :=
      exists_of_prefixRoots_append hroots hafter
    have hbatch : preCount + batch.length ≤ depositTreeCapacity := by omega
    have hrest := ih (by omega) h₂ hlast
    refine Option.bind_eq_some_iff.mpr
      ⟨roots₁, depositFrontierPrefixRoots_eq_some.mpr ⟨hbatch, h₁⟩, ?_⟩
    refine Option.bind_eq_some_iff.mpr
      ⟨middle, (depositFrontierAfterPrefix_eq hbatch).trans hmiddle, ?_⟩
    exact Option.bind_eq_some_iff.mpr ⟨_, hrest, rfl⟩

end Sybil.L1Protocol

namespace Sybil.Contracts

open L1Protocol

variable {P : Primitives}

variable {c : VaultContract} {deposits : List DepositLeaf} {frontier : List Digest}

/-! ## The vault -/

/-- The loop of the vault over its levels is the insertion into the frontier. -/
theorem appendLeafLoop_eq {zeroHashes done : List Digest} {zero root : Digest} {index : ℕ}
    (hzero : zeroHashes.drop done.length = zeroHashesFrom P frontier.length zero) :
    appendLeafLoop P zeroHashes (List.range' done.length frontier.length) index root
        (done ++ frontier) =
      (done ++ (appendLevels P zero index root frontier).1,
        (appendLevels P zero index root frontier).2) := by
  induction frontier generalizing done zero root index with
  | nil => rfl
  | cons left frontier ih =>
    -- The zero of this level and those above it.
    have hhere : zeroHashes.getD done.length 0 = zero := by
      rw [List.getD_eq_getElem?_getD, ← List.head?_drop, hzero]
      rfl
    have habove : zeroHashes.drop (done.length + 1) =
        zeroHashesFrom P frontier.length (hashNode P zero zero) := by
      rw [← List.tail_drop, hzero]
      rfl
    have hread : (done ++ left :: frontier).getD done.length 0 = left := by
      rw [List.getD_eq_getElem?_getD, List.getElem?_append_right le_rfl, Nat.sub_self]
      rfl
    have hwrite : (done ++ left :: frontier).set done.length root = done ++ [root] ++ frontier := by
      rw [List.set_append_right _ _ le_rfl, Nat.sub_self, List.append_assoc]
      rfl
    have hsame : done ++ left :: frontier = done ++ [left] ++ frontier := by
      rw [List.append_assoc]
      rfl
    have hstep : ∀ here next, appendLeafLoop P zeroHashes
        (List.range' (done.length + 1) frontier.length) (index / 2) next
        (done ++ [here] ++ frontier) =
          (done ++ here :: (appendLevels P (hashNode P zero zero) (index / 2) next frontier).1,
            (appendLevels P (hashNode P zero zero) (index / 2) next frontier).2) := by
      intro here next
      have hlength : (done ++ [here]).length = done.length + 1 := List.length_append
      rw [List.append_cons done here (appendLevels _ _ _ _ _).1, ← hlength]
      exact ih (hlength ▸ habove)
    rw [List.length_cons, List.range'_succ, appendLeafLoop, appendLevels, hhere, hread, hwrite]
    split_ifs with hbit
    · exact hstep root _
    · rw [hsame]
      exact hstep left _

namespace VaultContract

/-- The roots that `_appendDepositLeaf` returns for leaves appended from an id on. -/
def appendRoots (P : Primitives) : VaultContract → ℕ → List Digest → List Digest
  | _, _, [] => []
  | c, depositId, leaf :: leaves =>
    (c.appendDepositLeaf P depositId leaf).2 ::
      appendRoots P (c.appendDepositLeaf P depositId leaf).1 (depositId + 1) leaves

/-- The vault was set up by its constructor. -/
def Deployed (P : Primitives) (c : VaultContract) : Prop :=
  ∃ self admin token settlement verifier escapeVerifier withdrawalDelay escapeTimeout
    adminActionDelay timestamp,
    deploy P self admin token settlement verifier escapeVerifier withdrawalDelay escapeTimeout
      adminActionDelay timestamp = .ok c

theorem Deployed.tree (h : Deployed P c) :
    c.zeroHashes = zeroHashesFrom P depositTreeDepth 0 ∧
      c.filledSubtrees = emptyDepositFrontier := by
  obtain ⟨_, _, _, _, _, _, _, _, _, _, h⟩ := h
  replace h := eq_ok_of_bind (eq_ok_of_bind (eq_ok_of_bind (eq_ok_of_bind (eq_ok_of_bind h))))
  cases Except.ok.inj h
  exact ⟨rfl, rfl⟩

/-- One call of `_appendDepositLeaf` is one insertion into the frontier. -/
theorem appendDepositLeaf_eq (preCount : ℕ) (leaf : Digest)
    (hzero : c.zeroHashes = zeroHashesFrom P depositTreeDepth 0)
    (hlength : c.filledSubtrees.length = depositTreeDepth) :
    c.appendDepositLeaf P (preCount + 1) leaf =
      ({ c with filledSubtrees := (appendLevels P 0 preCount leaf c.filledSubtrees).1 },
        (appendLevels P 0 preCount leaf c.filledSubtrees).2) := by
  have hdrop : c.zeroHashes.drop ([] : List Digest).length =
      zeroHashesFrom P c.filledSubtrees.length 0 := by
    rw [hzero, hlength]
    rfl
  have hloop : appendLeafLoop P c.zeroHashes (List.range depositTreeDepth) preCount leaf
      c.filledSubtrees = appendLevels P 0 preCount leaf c.filledSubtrees := by
    rw [List.range_eq_range', ← hlength]
    exact appendLeafLoop_eq hdrop
  rw [appendDepositLeaf, Nat.add_sub_cancel, hloop]

/-- The vault returns the roots of the protocol's frontier. -/
theorem appendRoots_eq {preCount : ℕ} (hzero : c.zeroHashes = zeroHashesFrom P depositTreeDepth 0)
    (hlength : c.filledSubtrees.length = depositTreeDepth)
    (hroom : preCount + deposits.length ≤ depositTreeCapacity) :
    prefixRoots P c.filledSubtrees preCount deposits =
      some (c.appendRoots P (preCount + 1) (deposits.map (depositTreeLeaf P))) := by
  induction deposits generalizing c preCount with
  | nil => rfl
  | cons deposit deposits ih =>
    rw [List.length_cons] at hroom
    have hfirst : appendDepositFrontier P c.filledSubtrees preCount deposit =
        some (appendLevels P 0 preCount (depositTreeLeaf P deposit) c.filledSubtrees) :=
      if_neg (by omega)
    rw [List.map_cons, appendRoots, appendDepositLeaf_eq preCount _ hzero hlength]
    refine Option.bind_eq_some_iff.mpr ⟨_, hfirst, Option.bind_eq_some_iff.mpr ⟨_, ?_, rfl⟩⟩
    let next : VaultContract := { c with
      filledSubtrees := (appendLevels P 0 preCount (depositTreeLeaf P deposit) c.filledSubtrees).1 }
    have hnext : next.filledSubtrees.length = depositTreeDepth :=
      length_appendLevels.trans hlength
    exact ih (c := next) hzero hnext (by omega)

end VaultContract

/-! ## The frontier is the tree -/

/-- Deposits appended one by one from the empty frontier give the roots of the growing tree, as
the vault does; the frontier reads back the last of them; and batches give the same. -/
structure FrontierIsTree (P : Primitives) (deposits : List DepositLeaf) (roots : List Digest)
    (frontier : List Digest) : Prop where
  roots_eq : prefixRoots P emptyDepositFrontier 0 deposits = some roots
  frontier_eq : appendDeposits P emptyDepositFrontier 0 deposits = some frontier
  tree : ∀ k < deposits.length, roots[k]? = some (depositTreeRoot P deposits (k + 1))
  vault : ∀ c, VaultContract.Deployed P c →
    c.appendRoots P 1 (deposits.map (depositTreeLeaf P)) = roots
  read_back : depositRootFromFrontier P frontier deposits.length = roots.getLast?
  batches : ∀ batches : List (List DepositLeaf), batches.flatten = deposits →
    appendBatches P emptyDepositFrontier 0 batches = some (roots, frontier)

/-- Everything but the reading back holds up to the full tree. -/
theorem exists_frontierIsTree (hroom : deposits.length ≤ depositTreeCapacity) :
    ∃ roots frontier, prefixRoots P emptyDepositFrontier 0 deposits = some roots ∧
      appendDeposits P emptyDepositFrontier 0 deposits = some frontier ∧
      (depositRootFromFrontier P frontier deposits.length = roots.getLast? →
        FrontierIsTree P deposits roots frontier) := by
  have hempty : emptyDepositFrontier.length = depositTreeDepth := List.length_replicate
  obtain ⟨roots, frontier, hroots, hfrontier, htree⟩ := exists_prefixRoots hempty
    (Merkle.valid_zero (hashNode P) _ _) (List.drop_zero) (by rwa [Nat.zero_add])
  refine ⟨roots, frontier, hroots, hfrontier, fun hread =>
    ⟨hroots, hfrontier, fun k hk => ?_, fun c hdeployed => ?_, hread, ?_⟩⟩
  · rw [htree k hk, Nat.zero_add]
  · obtain ⟨hzero, hfilled⟩ := hdeployed.tree
    have hlength : c.filledSubtrees.length = depositTreeDepth := hfilled ▸ hempty
    have hfits : 0 + deposits.length ≤ depositTreeCapacity := by rwa [Nat.zero_add]
    have hvault := VaultContract.appendRoots_eq hzero hlength hfits
    rw [hfilled, hroots] at hvault
    exact (Option.some.inj hvault).symm
  · rintro batches rfl
    exact appendBatches_eq (by rwa [Nat.zero_add]) hroots hfrontier

/-- Below the full tree the frontier reads back the last root. -/
theorem read_back_of_lt {roots : List Digest} (hpos : 1 ≤ deposits.length)
    (hroom : deposits.length < depositTreeCapacity)
    (hroots : prefixRoots P emptyDepositFrontier 0 deposits = some roots)
    (hfrontier : appendDeposits P emptyDepositFrontier 0 deposits = some frontier) :
    depositRootFromFrontier P frontier deposits.length = roots.getLast? := by
  have hempty : emptyDepositFrontier.length = depositTreeDepth := List.length_replicate
  obtain ⟨after, hafter, hlast⟩ := exists_appendDeposits hempty
    (fun _ => if_neg (Nat.not_lt_zero _)) hroots
  cases hfrontier.symm.trans hafter
  rw [Nat.zero_add] at hlast
  have hne : roots ≠ [] := by
    intro hnil
    have hlength := length_prefixRoots hroots
    rw [hnil, List.length_nil] at hlength
    omega
  rw [hlast hroom, List.getLast?_eq_getLast_of_ne_nil hne]
  rfl

/-- A hash under which the empty tree has root `0` and the full one root `1`. -/
def tellingZero : Primitives :=
  onlyKeccak fun bytes => if bytes = 0x01 :: List.replicate 64 0 then 0 else 1

theorem hashNode_tellingZero_zero : hashNode tellingZero 0 0 = 0 := by decide +kernel

theorem hashNode_tellingZero_one : hashNode tellingZero 1 1 = 1 := by decide +kernel

theorem depositTreeLeaf_tellingZero (deposit : DepositLeaf) :
    depositTreeLeaf tellingZero deposit = 1 := by
  -- Leaves are hashed under another first byte than nodes.
  have hne : (0x00 : UInt8) :: (L1Protocol.depositLeaf tellingZero deposit).toBytes ≠
      0x01 :: List.replicate 64 0 := fun h => absurd (List.cons.inj h).1 (by decide)
  rw [depositTreeLeaf]
  simp only [tellingZero, onlyKeccak] at hne ⊢
  rw [if_neg hne]

/-- Read at the number of leaves of a full tree, the frontier gives the root of an empty one. -/
theorem read_back_full (hlength : frontier.length = depositTreeDepth) :
    depositRootFromFrontier tellingZero frontier depositTreeCapacity = some 0 := by
  have hzero : ∀ frontier : List Digest, rootLevels tellingZero 0 0 0 frontier = 0 := by
    intro frontier
    induction frontier with
    | nil => rfl
    | cons left frontier ih =>
      rw [rootLevels, if_neg (by decide), Nat.zero_div, hashNode_tellingZero_zero, ih]
  have hfull : 2 ^ frontier.length ∣ depositTreeCapacity := by rw [hlength]; rfl
  rw [depositRootFromFrontier, if_neg (Nat.lt_irrefl _),
    rootLevels_of_dvd rfl hfull (dvd_zero _), hzero]

theorem depositTreeRoot_full (hfull : deposits.length = depositTreeCapacity) :
    depositTreeRoot tellingZero deposits deposits.length = 1 := by
  have hleaf : ∀ i < 2 ^ depositTreeDepth,
      Merkle.truncated 0 deposits.length (leafAt tellingZero deposits) i = 1 := by
    intro i hi
    have hlt : i < deposits.length := hfull ▸ hi
    rw [Merkle.truncated, if_pos hlt, leafAt, List.getD_eq_getElem?_getD, List.getElem?_map,
      List.getElem?_eq_getElem hlt]
    exact depositTreeLeaf_tellingZero _
  rw [depositTreeRoot, Merkle.root_congr _ hleaf]
  exact Merkle.root_const _ hashNode_tellingZero_one _

/-- At a full tree the reading back fails for some hash. -/
theorem not_frontierIsTree_full {roots : List Digest}
    (hfull : deposits.length = depositTreeCapacity) :
    ¬FrontierIsTree tellingZero deposits roots frontier := by
  intro h
  have hlength : frontier.length = depositTreeDepth :=
    (length_appendDeposits h.frontier_eq).trans List.length_replicate
  have hpos : 0 < deposits.length := hfull ▸ Nat.two_pow_pos _
  have hlast := h.tree (deposits.length - 1) (by omega)
  rw [Nat.sub_add_cancel hpos, depositTreeRoot_full hfull, ← length_prefixRoots h.roots_eq,
    ← List.getLast?_eq_getElem?, ← h.read_back, hfull, read_back_full hlength] at hlast
  exact absurd (Option.some.inj hlast) (by decide)

/-- **The frontier is the vault's tree** for every hash exactly below the full tree: there
`deposit_root_from_frontier` answers with the root of an empty one. -/
theorem frontierIsTree_iff {deposits : List DepositLeaf} (hpos : 1 ≤ deposits.length)
    (hroom : deposits.length ≤ depositTreeCapacity) :
    (∀ P, ∃ roots frontier, FrontierIsTree P deposits roots frontier) ↔
      deposits.length < depositTreeCapacity := by
  constructor
  · intro h
    obtain ⟨roots, frontier, htree⟩ := h tellingZero
    refine hroom.lt_of_ne fun hfull => ?_
    exact not_frontierIsTree_full hfull htree
  · intro hlt P
    obtain ⟨roots, frontier, hroots, hfrontier, h⟩ := exists_frontierIsTree (P := P) hroom
    exact ⟨roots, frontier, h (read_back_of_lt hpos hlt hroots hfrontier)⟩

/-- A deposit of one unit. -/
def unitDeposit : DepositLeaf := ⟨1, 1, 1, 1, 1, 1, 1⟩

/-- It is followed by deposits of two other accounts. -/
def threeDeposits : List DepositLeaf := [unitDeposit, ⟨1, 1, 2, 1, 2, 2, 5⟩, ⟨1, 1, 3, 1, 3, 3, 7⟩]

/-- Two deposits and then the third give the tree of the three. -/
theorem frontierIsTree_iff_three : threeDeposits.length = 3 ∧
    ∀ P, ∃ roots frontier, FrontierIsTree P threeDeposits roots frontier ∧
      roots[2]? = some (depositTreeRoot P threeDeposits 3) ∧
      appendBatches P emptyDepositFrontier 0 [threeDeposits.take 2, threeDeposits.drop 2] =
        some (roots, frontier) := by
  have htree : ∀ P, ∃ roots frontier, FrontierIsTree P threeDeposits roots frontier :=
    (frontierIsTree_iff (by decide) (by decide)).mpr (by decide)
  refine ⟨rfl, fun P => ?_⟩
  obtain ⟨roots, frontier, h⟩ := htree P
  exact ⟨roots, frontier, h, h.tree 2 (by decide), h.batches _ rfl⟩

/-- The full tree of equal deposits is not read back. -/
theorem full_tree_not_read_back :
    ∃ deposits : List DepositLeaf, 1 ≤ deposits.length ∧
      deposits.length ≤ depositTreeCapacity ∧
      ¬∃ roots frontier, FrontierIsTree tellingZero deposits roots frontier := by
  have hlength : (List.replicate depositTreeCapacity unitDeposit).length = depositTreeCapacity :=
    List.length_replicate
  refine ⟨List.replicate depositTreeCapacity unitDeposit, ?_, hlength.le, ?_⟩
  · rw [hlength]
    exact Nat.two_pow_pos _
  · rintro ⟨roots, frontier, h⟩
    exact not_frontierIsTree_full hlength h

end Sybil.Contracts
