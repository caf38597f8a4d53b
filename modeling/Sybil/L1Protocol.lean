import Sybil.Primitives

/-!
# The L1 protocol boundary

ABI words, withdrawal nullifiers and the incremental deposit tree that the vault
and the sequencer share.

A word is 32 bytes and integers are right-aligned in it, so the preimage of a
nullifier determines its fields (`withdrawalNullifierPreimage_inj`): two different
withdrawals share a nullifier only if keccak collides on their preimages.
-/

namespace Sybil.L1Protocol

variable {P : Primitives} {frontier roots : List Digest} {preCount : ℕ}

abbrev EthAddress := FixedBytes 20

/-! ## ABI encoding -/

/-- One static ABI word. -/
inductive AbiWord where
  | uint (value : ℕ)
  | address (value : EthAddress)
  | bytes32 (value : Digest)

/-- The 32 bytes of a word; a `uint` is 64 bits wide. -/
def AbiWord.encode : AbiWord → Bytes
  | .uint value => List.replicate 24 0 ++ beBytes 8 value
  | .address value => List.replicate 12 0 ++ value.toBytes
  | .bytes32 value => value.toBytes

/-- Bytes that pad a string to whole words. -/
def padding (len : ℕ) : Bytes := List.replicate ((len + 31) / 32 * 32 - len) 0

/-- `abi.encode` of the bytes of a domain string and static words. -/
def abiEncodeBytesDomain (domain : Bytes) (words : List AbiWord) : Bytes :=
  AbiWord.encode (.uint ((1 + words.length) * 32)) ++ words.flatMap AbiWord.encode ++
    AbiWord.encode (.uint domain.length) ++ domain ++ padding domain.length

/-- The same for a domain that is written as a text. -/
def abiEncodeDomainAndWords (domain : String) (words : List AbiWord) : Bytes :=
  abiEncodeBytesDomain (utf8 domain) words

@[simp] theorem AbiWord.length_encode (word : AbiWord) : word.encode.length = 32 := by
  cases word <;> simp [encode, FixedBytes.toBytes]

theorem AbiWord.encode_uint_inj {n m : ℕ} (hn : n < 2 ^ 64) (hm : m < 2 ^ 64)
    (h : encode (.uint n) = encode (.uint m)) : n = m := by
  have hbytes : beBytes 8 n = beBytes 8 m := by simpa [encode] using h
  exact beBytes_inj (by simpa using hn) (by simpa using hm) hbytes

theorem toBytes_injective {n : ℕ} : Function.Injective (FixedBytes.toBytes (n := n)) := by
  intro a b h
  exact Fin.ext (beBytes_inj a.isLt b.isLt h)

theorem AbiWord.encode_address_inj {a b : EthAddress}
    (h : encode (.address a) = encode (.address b)) : a = b := by
  apply toBytes_injective
  simpa [encode] using h

/-! ## Withdrawal nullifiers -/

/-- The fields that a nullifier commits to. -/
structure NullifierFields where
  chainId : ℕ
  vaultAddress : EthAddress
  withdrawalId : ℕ
  accountId : ℕ
  recipient : EthAddress
  tokenAddress : EthAddress
  amountTokenUnits : ℕ
  deriving DecidableEq

/-- The integer fields are 64-bit words. -/
structure NullifierFields.InRange (f : NullifierFields) : Prop where
  chainId : f.chainId < 2 ^ 64
  withdrawalId : f.withdrawalId < 2 ^ 64
  accountId : f.accountId < 2 ^ 64
  amountTokenUnits : f.amountTokenUnits < 2 ^ 64

/-- The words of a nullifier preimage. -/
def NullifierFields.words (f : NullifierFields) : List AbiWord :=
  [.uint f.chainId, .address f.vaultAddress, .uint f.withdrawalId, .uint f.accountId,
    .address f.recipient, .address f.tokenAddress, .uint f.amountTokenUnits]

/-- The bytes that are hashed. -/
def withdrawalNullifierPreimage (f : NullifierFields) : Bytes :=
  abiEncodeDomainAndWords "sybil/withdrawal-nullifier/v1" f.words

/-- Nullifier of a withdrawal. -/
def withdrawalNullifier (P : Primitives) (f : NullifierFields) : Digest :=
  P.keccak256 (withdrawalNullifierPreimage f)

/-- A nullifier preimage determines the withdrawal. -/
theorem withdrawalNullifierPreimage_inj {f g : NullifierFields} (hf : f.InRange)
    (hg : g.InRange) (h : withdrawalNullifierPreimage f = withdrawalNullifierPreimage g) :
    f = g := by
  -- Every word is 32 bytes long, so the concatenation splits word by word.
  have split {a b c d : Bytes} (hlen : a.length = b.length) (he : a ++ c = b ++ d) :
      a = b ∧ c = d := List.append_inj he hlen
  have hwords : f.words.flatMap AbiWord.encode = g.words.flatMap AbiWord.encode := by
    simp only [withdrawalNullifierPreimage, abiEncodeDomainAndWords, abiEncodeBytesDomain,
      List.append_assoc] at h
    obtain ⟨-, h⟩ := split (by simp) h
    exact (split (by simp [NullifierFields.words]) h).1
  simp only [NullifierFields.words, List.flatMap_cons, List.flatMap_nil, List.append_nil] at hwords
  obtain ⟨h₁, hwords⟩ := split (by simp) hwords
  obtain ⟨h₂, hwords⟩ := split (by simp) hwords
  obtain ⟨h₃, hwords⟩ := split (by simp) hwords
  obtain ⟨h₄, hwords⟩ := split (by simp) hwords
  obtain ⟨h₅, hwords⟩ := split (by simp) hwords
  obtain ⟨h₆, h₇⟩ := split (by simp) hwords
  have e₁ := AbiWord.encode_uint_inj hf.chainId hg.chainId h₁
  have e₂ := AbiWord.encode_address_inj h₂
  have e₃ := AbiWord.encode_uint_inj hf.withdrawalId hg.withdrawalId h₃
  have e₄ := AbiWord.encode_uint_inj hf.accountId hg.accountId h₄
  have e₅ := AbiWord.encode_address_inj h₅
  have e₆ := AbiWord.encode_address_inj h₆
  have e₇ := AbiWord.encode_uint_inj hf.amountTokenUnits hg.amountTokenUnits h₇
  cases f
  cases g
  simp_all

/-! ## The deposit tree -/

/-- A deposit as the vault hashes it. -/
structure DepositLeaf where
  chainId : ℕ
  vaultAddress : EthAddress
  depositId : ℕ
  tokenAddress : EthAddress
  sender : EthAddress
  sybilAccountKey : Digest
  amountTokenUnits : ℕ

variable {deposits : List DepositLeaf}

def depositTreeDepth : ℕ := 32

def depositTreeCapacity : ℕ := 2 ^ depositTreeDepth

def depositLeaf (P : Primitives) (d : DepositLeaf) : Digest :=
  P.keccak256 (abiEncodeDomainAndWords "sybil/l1-deposit/v1"
    [.uint d.chainId, .address d.vaultAddress, .uint d.depositId, .address d.tokenAddress,
      .address d.sender, .bytes32 d.sybilAccountKey, .uint d.amountTokenUnits])

def depositTreeLeaf (P : Primitives) (d : DepositLeaf) : Digest :=
  P.keccak256 (0x00 :: (depositLeaf P d).toBytes)

def hashNode (P : Primitives) (left right : Digest) : Digest :=
  P.keccak256 (0x01 :: (left.toBytes ++ right.toBytes))

/-- Fold a frontier from some level up.  `zero` is the root of an empty tree of that level; the
source tabulates these roots. -/
def rootLevels (P : Primitives) (zero : Digest) (count : ℕ) (root : Digest) :
    List Digest → Digest
  | [] => root
  | left :: frontier =>
    rootLevels P (hashNode P zero zero) (count / 2)
      (if count % 2 = 1 then hashNode P left root else hashNode P root zero) frontier

/-- Root of the tree with the given frontier and number of leaves. -/
def depositRootFromFrontier (P : Primitives) (frontier : List Digest) (count : ℕ) :
    Option Digest :=
  if depositTreeCapacity < count then none else some (rootLevels P 0 count 0 frontier)

/-- Insert a subtree root from some level up; returns the new frontier and the root. -/
def appendLevels (P : Primitives) (zero : Digest) (index : ℕ) (root : Digest) :
    List Digest → List Digest × Digest
  | [] => ([], root)
  | left :: frontier =>
    if index % 2 = 0 then
      let rest := appendLevels P (hashNode P zero zero) (index / 2) (hashNode P root zero) frontier
      (root :: rest.1, rest.2)
    else
      let rest := appendLevels P (hashNode P zero zero) (index / 2) (hashNode P left root) frontier
      (left :: rest.1, rest.2)

/-- Append a deposit. -/
def appendDepositFrontier (P : Primitives) (frontier : List Digest) (preCount : ℕ)
    (deposit : DepositLeaf) : Option (List Digest × Digest) :=
  if depositTreeCapacity ≤ preCount then none
  else some (appendLevels P 0 preCount (depositTreeLeaf P deposit) frontier)

/-- Roots after each of a list of deposits. -/
def prefixRoots (P : Primitives) (frontier : List Digest) (preCount : ℕ) :
    List DepositLeaf → Option (List Digest)
  | [] => some []
  | deposit :: deposits => do
    let (frontier, root) ← appendDepositFrontier P frontier preCount deposit
    let roots ← prefixRoots P frontier (preCount + 1) deposits
    pure (root :: roots)

/-- Roots after each of a list of deposits, within the capacity of the tree. -/
def depositFrontierPrefixRoots (P : Primitives) (preFrontier : List Digest) (preCount : ℕ)
    (deposits : List DepositLeaf) : Option (List Digest) := do
  let postCount ← checkedU64 (preCount + deposits.length)
  if depositTreeCapacity < postCount then none else prefixRoots P preFrontier preCount deposits

theorem length_prefixRoots (h : prefixRoots P frontier preCount deposits = some roots) :
    roots.length = deposits.length := by
  induction deposits generalizing frontier preCount roots with
  | nil => rw [← Option.some.inj h, List.length_nil, List.length_nil]
  | cons deposit deposits ih =>
    obtain ⟨⟨next, root⟩, -, h⟩ := Option.bind_eq_some_iff.mp h
    obtain ⟨rest, hrest, h⟩ := Option.bind_eq_some_iff.mp h
    rw [← Option.some.inj h, List.length_cons, List.length_cons, ih hrest]

/-- The roots exist when the deposits fit into the tree. -/
theorem depositFrontierPrefixRoots_eq_some :
    depositFrontierPrefixRoots P frontier preCount deposits = some roots ↔
      preCount + deposits.length ≤ depositTreeCapacity ∧
        prefixRoots P frontier preCount deposits = some roots := by
  rw [depositFrontierPrefixRoots, Option.bind_eq_bind, Option.bind_eq_some_iff]
  constructor
  · rintro ⟨count, hcount, h⟩
    obtain ⟨-, rfl⟩ := checkedU64_eq_some_iff.mp hcount
    split_ifs at h with hlt
    exact ⟨not_lt.mp hlt, h⟩
  · rintro ⟨hle, h⟩
    refine ⟨_, checkedU64_eq_some_iff.mpr ⟨hle.trans_lt (by decide), rfl⟩, ?_⟩
    rwa [if_neg (not_lt.mpr hle)]

/-- The frontier after a list of deposits. -/
def appendDeposits (P : Primitives) (frontier : List Digest) (preCount : ℕ) :
    List DepositLeaf → Option (List Digest)
  | [] => some frontier
  | deposit :: deposits => do
    let (frontier, _) ← appendDepositFrontier P frontier preCount deposit
    appendDeposits P frontier (preCount + 1) deposits

section Append

variable {zero root : Digest} {index : ℕ}

@[simp] theorem length_appendLevels :
    (appendLevels P zero index root frontier).1.length = frontier.length := by
  induction frontier generalizing zero index root with
  | nil => rfl
  | cons left frontier ih =>
    rw [appendLevels]
    split_ifs <;> simp [ih]

/-- The root of an inserted subtree, folded over the frontier that it left. -/
theorem rootLevels_appendLevels :
    rootLevels P zero index root (appendLevels P zero index root frontier).1 =
      (appendLevels P zero index root frontier).2 := by
  induction frontier generalizing zero index root with
  | nil => rfl
  | cons left frontier ih =>
    rw [appendLevels]
    split_ifs with heven
    · simp only [rootLevels, if_neg (show ¬ index % 2 = 1 by omega), ih]
    · simp only [rootLevels, if_pos (show index % 2 = 1 by omega), ih]

/-- **Append and root agree**: below the capacity, the frontier after an insertion has the root
that the insertion returned. -/
theorem rootLevels_succ_appendLevels (hroom : index + 1 < 2 ^ frontier.length) :
    rootLevels P zero (index + 1) zero (appendLevels P zero index root frontier).1 =
      (appendLevels P zero index root frontier).2 := by
  induction frontier generalizing zero index root with
  | nil => exact absurd hroom (by simp)
  | cons left frontier ih =>
    rw [List.length_cons, pow_succ] at hroom
    rw [appendLevels]
    split_ifs with heven
    · have hodd : (index + 1) % 2 = 1 := by omega
      have hhalf : (index + 1) / 2 = index / 2 := by omega
      simp only [rootLevels, if_pos hodd, hhalf, rootLevels_appendLevels]
    · have hnext : ¬ (index + 1) % 2 = 1 := by omega
      have hhalf : (index + 1) / 2 = index / 2 + 1 := by omega
      simp only [rootLevels, if_neg hnext, hhalf]
      exact ih (by omega)

end Append

/-- The last of the roots is the one of the frontier after the deposits, as long as the tree is not
full; the fold of a full frontier is the root of an empty tree. -/
theorem exists_appendDeposits {preRoot : Digest} (hlength : frontier.length = depositTreeDepth)
    (hpre : preCount < depositTreeCapacity →
      depositRootFromFrontier P frontier preCount = some preRoot)
    (hroots : prefixRoots P frontier preCount deposits = some roots) :
    ∃ after, appendDeposits P frontier preCount deposits = some after ∧
      (preCount + deposits.length < depositTreeCapacity →
        depositRootFromFrontier P after (preCount + deposits.length) =
          some (roots.getLast?.getD preRoot)) := by
  induction deposits generalizing frontier preCount roots preRoot with
  | nil =>
    obtain rfl := Option.some.inj hroots
    exact ⟨frontier, rfl, hpre⟩
  | cons deposit deposits ih =>
    obtain ⟨⟨next, root⟩, happend, hroots⟩ := Option.bind_eq_some_iff.mp hroots
    obtain ⟨rest, hrest, hroots⟩ := Option.bind_eq_some_iff.mp hroots
    obtain rfl := Option.some.inj hroots
    have hpair := happend
    rw [appendDepositFrontier] at hpair
    split_ifs at hpair with hfull
    obtain ⟨rfl, rfl⟩ := Prod.mk.inj (Option.some.inj hpair)
    have hnext : preCount + 1 < depositTreeCapacity → depositRootFromFrontier P
        (appendLevels P 0 preCount (depositTreeLeaf P deposit) frontier).1 (preCount + 1) =
          some (appendLevels P 0 preCount (depositTreeLeaf P deposit) frontier).2 := by
      intro hroom
      rw [depositRootFromFrontier, if_neg (Nat.not_lt.mpr hroom.le)]
      exact congrArg some (rootLevels_succ_appendLevels (hlength ▸ hroom))
    obtain ⟨after, hafter, hlast⟩ := ih (length_appendLevels.trans hlength) hnext hrest
    refine ⟨after, Option.bind_eq_some_iff.mpr ⟨_, happend, hafter⟩, ?_⟩
    rw [List.length_cons, List.getLast?_cons, Option.getD_some, ← Nat.add_assoc,
      Nat.add_right_comm]
    exact hlast

section Concat

variable {after next : List Digest} {deposit : DepositLeaf} {root : Digest}

theorem length_of_appendDepositFrontier
    (h : appendDepositFrontier P frontier preCount deposit = some (next, root)) :
    next.length = frontier.length ∧ preCount < depositTreeCapacity := by
  rw [appendDepositFrontier] at h
  split_ifs at h with hfull
  obtain ⟨rfl, rfl⟩ := Prod.mk.inj (Option.some.inj h)
  exact ⟨length_appendLevels, Nat.not_le.mp hfull⟩

theorem length_appendDeposits (h : appendDeposits P frontier preCount deposits = some after) :
    after.length = frontier.length := by
  induction deposits generalizing frontier preCount with
  | nil =>
    cases h
    rfl
  | cons deposit deposits ih =>
    obtain ⟨⟨next, root⟩, hnext, h⟩ := Option.bind_eq_some_iff.mp h
    exact (ih h).trans (length_of_appendDepositFrontier hnext).1

/-- When no bit of the count is set, the root is that of an empty tree, whatever the frontier. -/
theorem rootLevels_of_dvd {zero start : Digest} {count count' : ℕ} {frontier' : List Digest}
    (hlength : frontier'.length = frontier.length) (h : 2 ^ frontier.length ∣ count)
    (h' : 2 ^ frontier.length ∣ count') :
    rootLevels P zero count start frontier = rootLevels P zero count' start frontier' := by
  have hhalf : ∀ {n m : ℕ}, 2 ^ (n + 1) ∣ m → m % 2 = 0 ∧ 2 ^ n ∣ m / 2 := by
    rintro n _ ⟨k, rfl⟩
    have hdouble : 2 ^ (n + 1) * k = 2 * (2 ^ n * k) := by
      rw [Nat.pow_succ, Nat.mul_comm _ 2, Nat.mul_assoc]
    rw [hdouble, Nat.mul_mod_right, Nat.mul_div_cancel_left _ Nat.two_pos]
    exact ⟨rfl, Nat.dvd_mul_right _ _⟩
  induction frontier generalizing zero start count count' frontier' with
  | nil =>
    obtain rfl := List.length_eq_zero_iff.mp hlength
    rfl
  | cons left frontier ih =>
    obtain ⟨left', rest, rfl⟩ := List.exists_cons_of_length_eq_add_one hlength
    obtain ⟨hmod, hdvd⟩ := hhalf h
    obtain ⟨hmod', hdvd'⟩ := hhalf h'
    rw [rootLevels, rootLevels, hmod, hmod', if_neg (by decide), if_neg (by decide)]
    exact ih (Nat.succ.inj hlength) hdvd hdvd'

end Concat

end Sybil.L1Protocol
