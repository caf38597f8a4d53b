import Sybil.Bridge.DepositTree
import Sybil.Lib.FromBytes
import Sybil.Zk.Epoch

/-!
# ABI statements and vault events

The two directions in which bytes cross the boundary with L1.

Outwards, every statement that a contract checks is the hash of an ABI encoding: a dynamic
domain text and static words.  The domain stands behind the words, so a reader of the bytes
first needs the length of the head, which the offset word gives; the kinds of the words are
then those of the domain (`abiEncodeBytesDomain_inj`).

Inwards, the log of a cancelled withdrawal ends with a text.  `ensureCanonicalStringTail`
compares offset, length and padding with what Solidity writes, and accepts nothing else
(`ensureCanonicalStringTail_eq_ok`).
-/

namespace Sybil.L1Protocol

variable {data : Bytes} {event field : String} {idx n : ℕ}

/-! ## Words -/

/-- The kind of a static word. -/
inductive AbiKind where
  | uint
  | address
  | bytes32
  deriving DecidableEq

namespace AbiWord

def kind : AbiWord → AbiKind
  | .uint _ => .uint
  | .address _ => .address
  | .bytes32 _ => .bytes32

/-- An integer word is a `u64`. -/
def InRange : AbiWord → Prop
  | .uint value => value < 2 ^ 64
  | .address _ => True
  | .bytes32 _ => True

theorem encode_inj {v w : AbiWord} (hv : v.InRange) (hw : w.InRange) (hkind : v.kind = w.kind)
    (h : v.encode = w.encode) : v = w := by
  cases v <;> cases w <;> try cases hkind
  case uint.uint n m => rw [encode_uint_inj hv hw h]
  case address.address a b => rw [encode_address_inj h]
  case bytes32.bytes32 a b => rw [toBytes_injective h]

/-- The bytes and the kinds determine a list of words. -/
theorem flatMap_encode_inj {v w : List AbiWord} (hv : ∀ word ∈ v, word.InRange)
    (hw : ∀ word ∈ w, word.InRange) (hkinds : v.map kind = w.map kind)
    (h : v.flatMap encode = w.flatMap encode) : v = w := by
  induction v generalizing w with
  | nil =>
    rw [List.map_nil, eq_comm, List.map_eq_nil_iff] at hkinds
    rw [hkinds]
  | cons word v ih =>
    cases w with
    | nil => cases hkinds
    | cons word' w =>
      obtain ⟨hkind, hkinds⟩ := List.cons.inj hkinds
      rw [List.flatMap_cons, List.flatMap_cons] at h
      obtain ⟨hword, h⟩ := List.append_inj h (by simp)
      rw [encode_inj (hv word List.mem_cons_self) (hw word' List.mem_cons_self) hkind hword,
        ih (fun x hx => hv x (List.mem_cons_of_mem _ hx))
          (fun x hx => hw x (List.mem_cons_of_mem _ hx)) hkinds h]

theorem length_flatMap_encode (words : List AbiWord) :
    (words.flatMap encode).length = words.length * 32 := by
  induction words with
  | nil => rfl
  | cons word words ih =>
    rw [List.flatMap_cons, List.length_append, length_encode, ih, List.length_cons]
    omega

end AbiWord

/-! ## Domain and words -/

/-- The integers of an encoding fit the types they have in the source: the words are `u64`, and
the sizes in memory are a `usize`. -/
structure Encodable (domain : Bytes) (words : List AbiWord) : Prop where
  inRange : ∀ word ∈ words, word.InRange
  head : (1 + words.length) * 32 < 2 ^ 64
  tail : domain.length < 2 ^ 64

/-- An encoding determines the domain and the bytes of the words. -/
theorem abiEncodeBytesDomain_split {domain domain' : Bytes} {words words' : List AbiWord}
    (he : Encodable domain words) (he' : Encodable domain' words')
    (h : abiEncodeBytesDomain domain words = abiEncodeBytesDomain domain' words') :
    domain = domain' ∧ words.flatMap AbiWord.encode = words'.flatMap AbiWord.encode := by
  simp only [abiEncodeBytesDomain, List.append_assoc] at h
  -- The offset word says how many words stand before the length of the domain.
  obtain ⟨hhead, h⟩ := List.append_inj h (by simp)
  have hlength := AbiWord.encode_uint_inj he.head he'.head hhead
  have hcount : words.length = words'.length := by omega
  obtain ⟨hwords, h⟩ := List.append_inj h (by
    rw [AbiWord.length_flatMap_encode, AbiWord.length_flatMap_encode, hcount])
  obtain ⟨hsize, h⟩ := List.append_inj h (by simp)
  exact ⟨(List.append_inj h (AbiWord.encode_uint_inj he.tail he'.tail hsize)).1, hwords⟩

/-- Where each domain fixes the kinds of its words, an encoding determines both. -/
theorem abiEncodeBytesDomain_inj {kinds : Bytes → List AbiKind} {domain domain' : Bytes}
    {words words' : List AbiWord} (he : Encodable domain words) (he' : Encodable domain' words')
    (hkinds : words.map AbiWord.kind = kinds domain)
    (hkinds' : words'.map AbiWord.kind = kinds domain')
    (h : abiEncodeBytesDomain domain words = abiEncodeBytesDomain domain' words') :
    domain = domain' ∧ words = words' := by
  obtain ⟨rfl, hwords⟩ := abiEncodeBytesDomain_split he he' h
  exact ⟨rfl, AbiWord.flatMap_encode_inj he.inRange he'.inRange (hkinds.trans hkinds'.symm) hwords⟩

/-! ## Statements -/

open Contracts (EscapeClaimPublicInputs)

open Zk (StateTransitionPublicInputs EpochTransitionPublicInputs)

/-- What the repository hashes in this form: deposits, nullifiers, and the public inputs of the
three guests. -/
inductive Statement where
  | deposit (deposit : DepositLeaf)
  | withdrawalNullifier (fields : NullifierFields)
  | escapeNullifier (chainId : ℕ) (vaultAddress : EthAddress) (accountId : ℕ) (stateRoot : Digest)
  | escapeClaim (inputs : EscapeClaimPublicInputs)
  | stateTransition (inputs : StateTransitionPublicInputs)
  | epochTransition (inputs : EpochTransitionPublicInputs)

namespace Statement

variable {s t : Statement}

def domain : Statement → String
  | .deposit _ => "sybil/l1-deposit/v1"
  | .withdrawalNullifier _ => "sybil/withdrawal-nullifier/v1"
  | .escapeNullifier .. => "sybil/escape-nullifier/v1"
  | .escapeClaim _ => "sybil/openvm/escape-claim/v1"
  | .stateTransition _ => "sybil/openvm/state-transition/v1"
  | .epochTransition _ => "sybil/openvm/epoch-transition/v1"

def words : Statement → List AbiWord
  | .deposit d =>
    [.uint d.chainId, .address d.vaultAddress, .uint d.depositId, .address d.tokenAddress,
      .address d.sender, .bytes32 d.sybilAccountKey, .uint d.amountTokenUnits]
  | .withdrawalNullifier fields => fields.words
  | .escapeNullifier chainId vaultAddress accountId stateRoot =>
    [.uint chainId, .address vaultAddress, .uint accountId, .bytes32 stateRoot]
  | .escapeClaim inputs =>
    [.bytes32 inputs.stateRoot, .uint inputs.height, .uint inputs.accountId,
      .address inputs.recipient, .uint inputs.amount, .bytes32 inputs.nullifier]
  | .stateTransition inputs =>
    [.uint inputs.previousHeight, .uint inputs.newHeight, .bytes32 inputs.previousStateRoot,
      .bytes32 inputs.newStateRoot, .bytes32 inputs.blockHash, .bytes32 inputs.eventsRoot,
      .bytes32 inputs.witnessRoot, .bytes32 inputs.daCommitment, .bytes32 inputs.depositRoot,
      .uint inputs.depositCount]
  | .epochTransition inputs =>
    [.uint inputs.startHeight, .uint inputs.endHeight, .bytes32 inputs.startStateRoot,
      .bytes32 inputs.endStateRoot, .uint inputs.blockCount, .bytes32 inputs.blocksCommitment,
      .bytes32 inputs.epochDaCommitment, .bytes32 inputs.depositRoot, .uint inputs.depositCount]

/-- The bytes that are hashed. -/
def preimage (s : Statement) : Bytes := abiEncodeDomainAndWords s.domain s.words

/-- The integers of a statement are `u64`. -/
def InRange (s : Statement) : Prop := ∀ word ∈ s.words, word.InRange

/-! The preimages are those of the functions that hash them. -/

theorem encodable (s : Statement) (h : s.InRange) : Encodable (utf8 s.domain) s.words where
  inRange := h
  head := by cases s <;> simp [words, NullifierFields.words]
  tail := by cases s <;> simp only [domain] <;> decide +kernel

/-- The domain says which statement is made, hence which kinds its words have. -/
theorem kinds_of_domain (h : s.domain = t.domain) :
    s.words.map AbiWord.kind = t.words.map AbiWord.kind := by
  cases s <;> cases t <;> first | rfl | simp [domain] at h

theorem eq_of_domain_of_words (hdomain : s.domain = t.domain) (hwords : s.words = t.words) :
    s = t := by
  cases s <;> cases t <;> simp only [domain, String.reduceEq] at hdomain
  case deposit.deposit d e =>
    cases d
    cases e
    simp_all [words]
  case withdrawalNullifier.withdrawalNullifier f g =>
    cases f
    cases g
    simp_all [words, NullifierFields.words]
  case escapeNullifier.escapeNullifier => simp_all [words]
  case escapeClaim.escapeClaim a b =>
    cases a
    cases b
    simp_all [words]
  case stateTransition.stateTransition a b =>
    cases a
    cases b
    simp_all [words]
  case epochTransition.epochTransition a b =>
    cases a
    cases b
    simp_all [words]

/-- Equal preimages are preimages of one statement. -/
theorem preimage_inj (hs : s.InRange) (ht : t.InRange) (h : s.preimage = t.preimage) : s = t := by
  obtain ⟨hdomain, hwords⟩ := abiEncodeBytesDomain_split (s.encodable hs) (t.encodable ht) h
  have hdomain := utf8_injective hdomain
  exact eq_of_domain_of_words hdomain
    (AbiWord.flatMap_encode_inj hs ht (kinds_of_domain hdomain) hwords)

end Statement

/-! ## Decoding of vault events -/

/-- Why a vault event is refused. -/
inductive L1ProtocolError where
  | unexpectedEventTopicCount (event : String) (expected actual : ℕ)
  | unexpectedVaultEventTopic0
  | unexpectedEventDataLength (event : String) (expected actual : ℕ)
  | unexpectedDynamicOffset (event field : String) (expected actual : ℕ)
  | dynamicLengthOverflow (event field : String)
  | nonZeroDynamicPadding (event field : String)
  | nonZeroHighBytes (field : String)
  deriving DecidableEq

/-- The word at an index of the data. -/
def dataWord (data : Bytes) (idx : ℕ) : Digest :=
  FixedBytes.ofBytes 32 ((data.drop (idx * 32)).take 32)

def decodeU64Word (word : Digest) (field : String) : Except L1ProtocolError ℕ := do
  ensure (∀ byte ∈ word.toBytes.take 24, byte = 0) (.nonZeroHighBytes field)
  pure (fromBeBytes (word.toBytes.drop 24))

/-- Static words, the offset of a dynamic text, and the text, are laid out as Solidity does.  A
head of `2 ^ 64` bytes stops the source; no data is that long, and it is refused here. -/
def ensureCanonicalStringTail (event : String) (data : Bytes) (staticWordsBeforeOffset : ℕ)
    (field : String) : Except L1ProtocolError Unit := do
  let offsetWord := staticWordsBeforeOffset
  let offset := (offsetWord + 1) * 32
  let tailHeaderEnd := offset + 32
  ensure (tailHeaderEnd ≤ data.length) (.unexpectedEventDataLength event tailHeaderEnd data.length)
  let actualOffset ← decodeU64Word (dataWord data offsetWord) field
  ensure (actualOffset = offset) (.unexpectedDynamicOffset event field offset actualOffset)
  let dynamicLen ← decodeU64Word (dataWord data (offset / 32)) field
  let roundedLen ← okOr (checkedU64 (dynamicLen + 31)) (.dynamicLengthOverflow event field)
  let paddedDynamicLen := roundedLen / 32 * 32
  let expectedDataLen ← okOr (checkedU64 (tailHeaderEnd + paddedDynamicLen))
    (.dynamicLengthOverflow event field)
  ensure (data.length = expectedDataLen)
    (.unexpectedEventDataLength event expectedDataLen data.length)
  let paddingStart := tailHeaderEnd + dynamicLen
  ensure (∀ byte ∈ (data.take expectedDataLen).drop paddingStart, byte = 0)
    (.nonZeroDynamicPadding event field)

/-! ### Words -/

theorem forall_take_eq_zero {bytes : Bytes} (hn : n ≤ bytes.length) :
    (∀ byte ∈ bytes.take n, byte = 0) ↔ bytes.take n = List.replicate n 0 := by
  have hlength : (bytes.take n).length = n := by simpa using hn
  rw [List.eq_replicate_iff]
  exact ⟨fun h => ⟨hlength, h⟩, fun h => h.2⟩

/-- A word with zeros in front is a small number. -/
theorem decodeU64Word_eq_ok {word : Digest} :
    decodeU64Word word field = .ok n ↔ n < 2 ^ 64 ∧ word.val = n := by
  have hwidth : word.toBytes.length = 32 := FixedBytes.length_toBytes word
  simp only [decodeU64Word, bind_eq_ok, ensure_eq_ok,
    forall_take_eq_zero (show 24 ≤ word.toBytes.length by omega)]
  constructor
  · rintro ⟨-, hhigh, hlow⟩
    obtain rfl := Except.ok.inj hlow
    have hlength : (word.toBytes.drop 24).length = 8 := by simp [hwidth]
    have hlt : fromBeBytes (word.toBytes.drop 24) < 256 ^ 8 := by
      have := fromBeBytes_lt (word.toBytes.drop 24)
      rwa [hlength] at this
    have hlow : beBytes 8 (fromBeBytes (word.toBytes.drop 24)) = word.toBytes.drop 24 := by
      have := beBytes_fromBeBytes (word.toBytes.drop 24)
      rwa [hlength] at this
    have hword : beBytes 32 word.val = beBytes 32 (fromBeBytes (word.toBytes.drop 24)) :=
      calc beBytes 32 word.val
          = word.toBytes.take 24 ++ word.toBytes.drop 24 := (List.take_append_drop 24 _).symm
        _ = List.replicate 24 0 ++ beBytes 8 (fromBeBytes (word.toBytes.drop 24)) := by
          rw [hhigh, hlow]
        _ = beBytes 32 (fromBeBytes (word.toBytes.drop 24)) := (beBytes_add hlt 24).symm
    exact ⟨hlt.trans_eq (by norm_num),
      beBytes_inj word.isLt (hlt.trans (by norm_num)) hword⟩
  · rintro ⟨hlt, hval⟩
    have hlt : n < 256 ^ 8 := hlt.trans_eq (by norm_num)
    have hword : word.toBytes = List.replicate 24 0 ++ beBytes 8 n := by
      rw [FixedBytes.toBytes, hval, ← beBytes_add hlt]
    have htake : word.toBytes.take 24 = List.replicate 24 0 := by
      rw [hword, List.take_left' (by simp)]
    have hdrop : word.toBytes.drop 24 = beBytes 8 n := by
      rw [hword, List.drop_left' (by simp)]
    refine ⟨(), htake, ?_⟩
    rw [hdrop, fromBeBytes_beBytes hlt]
    rfl

/-! ### The layout of Solidity -/

/-- The ABI encoding of static words and one dynamic byte string. -/
def solidityEncoding (words : List Digest) (text : Bytes) : Bytes :=
  words.flatMap FixedBytes.toBytes ++ beBytes 32 ((words.length + 1) * 32) ++
    beBytes 32 text.length ++ text ++ padding text.length

theorem length_flatMap_toBytes (words : List Digest) :
    (words.flatMap FixedBytes.toBytes).length = words.length * 32 := by
  induction words with
  | nil => rfl
  | cons word words ih =>
    rw [List.flatMap_cons, List.length_append, FixedBytes.length_toBytes, ih, List.length_cons]
    omega

theorem length_padding (len : ℕ) : len + (padding len).length = (len + 31) / 32 * 32 := by
  rw [padding, List.length_replicate]
  omega

theorem exists_words {bytes : Bytes} {k : ℕ} (h : bytes.length = k * 32) :
    ∃ words : List Digest, words.length = k ∧ words.flatMap FixedBytes.toBytes = bytes := by
  induction k generalizing bytes with
  | zero => exact ⟨[], rfl, (List.length_eq_zero_iff.mp (by omega)).symm⟩
  | succ k ih =>
    have hrest : (bytes.drop 32).length = k * 32 := by
      rw [List.length_drop]
      omega
    obtain ⟨words, hcount, hwords⟩ := ih hrest
    refine ⟨FixedBytes.ofBytes 32 (bytes.take 32) :: words, by simp [hcount], ?_⟩
    rw [List.flatMap_cons, FixedBytes.toBytes_ofBytes (by simp; omega), hwords,
      List.take_append_drop]

theorem dataWord_append {before after : Bytes} {word : Digest} (h : before.length = idx * 32) :
    dataWord (before ++ word.toBytes ++ after) idx = word := by
  rw [dataWord, List.append_assoc, List.drop_left' h, List.take_left' (by simp),
    FixedBytes.ofBytes_toBytes]

theorem toBytes_dataWord (h : idx * 32 + 32 ≤ data.length) :
    (dataWord data idx).toBytes = (data.drop (idx * 32)).take 32 :=
  FixedBytes.toBytes_ofBytes (by simp; omega)

theorem decodeU64Word_dataWord (h : idx * 32 + 32 ≤ data.length)
    (hn : decodeU64Word (dataWord data idx) field = .ok n) :
    (data.drop (idx * 32)).take 32 = beBytes 32 n := by
  rw [← toBytes_dataWord h, FixedBytes.toBytes, (decodeU64Word_eq_ok.mp hn).2]

theorem ensureCanonicalStringTail_eq_ok {k : ℕ} :
    ensureCanonicalStringTail event data k field = .ok () ↔
      (k + 1) * 32 + 32 ≤ data.length ∧
        decodeU64Word (dataWord data k) field = .ok ((k + 1) * 32) ∧
        ∃ len, decodeU64Word (dataWord data (k + 1)) field = .ok len ∧
          (k + 1) * 32 + 32 + (len + 31) / 32 * 32 < 2 ^ 64 ∧ len + 31 < 2 ^ 64 ∧
          data.length = (k + 1) * 32 + 32 + (len + 31) / 32 * 32 ∧
          ∀ byte ∈ data.drop ((k + 1) * 32 + 32 + len), byte = 0 := by
  simp only [ensureCanonicalStringTail, bind_eq_ok, ensure_eq_ok, okOr_eq_ok,
    checkedU64_eq_some_iff, Nat.mul_div_cancel (k + 1) (show 0 < 32 by decide)]
  constructor
  · rintro ⟨-, hsize, _, hoffset, -, rfl, len, hlen, _, ⟨hround, rfl⟩, _, ⟨hfit, rfl⟩, -, hlength,
      hpad⟩
    rw [← hlength, List.take_length] at hpad
    exact ⟨hsize, hoffset, len, hlen, hfit, hround, hlength, hpad⟩
  · rintro ⟨hsize, hoffset, len, hlen, hfit, hround, hlength, hpad⟩
    refine ⟨(), hsize, _, hoffset, (), rfl, len, hlen, _, ⟨hround, rfl⟩, _, ⟨hfit, rfl⟩, (),
      hlength, ?_⟩
    rwa [← hlength, List.take_length]

theorem exists_solidityEncoding {k : ℕ}
    (h : ensureCanonicalStringTail event data k field = .ok ()) :
    ∃ words text, words.length = k ∧ data = solidityEncoding words text := by
  obtain ⟨hsize, hoffset, len, hlen, -, -, hlength, hpad⟩ := ensureCanonicalStringTail_eq_ok.mp h
  have hk : (k + 1) * 32 = k * 32 + 32 := by omega
  have hpad : data.drop ((k + 1) * 32 + 32 + len) = padding len := by
    rw [padding, List.eq_replicate_iff]
    exact ⟨by rw [List.length_drop]; omega, hpad⟩
  have htext : ((data.drop ((k + 1) * 32 + 32)).take len).length = len := by
    rw [List.length_take, List.length_drop]
    omega
  have hhead : (data.take (k * 32)).length = k * 32 := by
    rw [List.length_take]
    omega
  obtain ⟨words, hcount, hwords⟩ := exists_words hhead
  refine ⟨words, (data.drop ((k + 1) * 32 + 32)).take len, hcount, ?_⟩
  rw [solidityEncoding, hwords, hcount, htext, ← hpad,
    ← decodeU64Word_dataWord (by omega) hoffset, ← decodeU64Word_dataWord (by omega) hlen, hk,
    ← List.take_add, ← List.take_add, ← List.take_add, List.take_append_drop]

theorem ensureCanonicalStringTail_solidityEncoding {words : List Digest} {text : Bytes}
    (h : (solidityEncoding words text).length < 2 ^ 64) :
    ensureCanonicalStringTail event (solidityEncoding words text) words.length field = .ok () := by
  have hhead := length_flatMap_toBytes words
  have hpadded := length_padding text.length
  have hlength : (solidityEncoding words text).length =
      (words.length + 1) * 32 + 32 + (text.length + 31) / 32 * 32 := by
    simp only [solidityEncoding, List.length_append, length_beBytes]
    omega
  have hoffset : (words.length + 1) * 32 < 256 ^ 32 := by
    have : (2 : ℕ) ^ 64 < 256 ^ 32 := by norm_num
    omega
  have hlen : text.length < 256 ^ 32 := by
    have : (2 : ℕ) ^ 64 < 256 ^ 32 := by norm_num
    omega
  have hword : dataWord (solidityEncoding words text) words.length =
      ⟨(words.length + 1) * 32, hoffset⟩ := by
    simp only [solidityEncoding, List.append_assoc]
    rw [← List.append_assoc]
    exact @dataWord_append _ _ _ ⟨_, hoffset⟩ hhead
  have hword' : dataWord (solidityEncoding words text) (words.length + 1) =
      ⟨text.length, hlen⟩ := by
    rw [solidityEncoding, List.append_assoc _ text]
    refine @dataWord_append _ _ _ ⟨_, hlen⟩ ?_
    rw [List.length_append, hhead, length_beBytes]
    omega
  refine ensureCanonicalStringTail_eq_ok.mpr ⟨by omega, ?_, text.length, ?_, by omega, by omega,
    hlength, ?_⟩
  · exact decodeU64Word_eq_ok.mpr ⟨by omega, by rw [hword]⟩
  · exact decodeU64Word_eq_ok.mpr ⟨by omega, by rw [hword']⟩
  · intro byte hbyte
    rw [solidityEncoding, List.drop_left' (by simp [hhead]; omega)] at hbyte
    exact List.eq_of_mem_replicate hbyte

/-- Encodings of domain and words, and event data with a text, are read in one way only. -/
theorem abi_codec_canonical :
    (∀ (kinds : Bytes → List AbiKind) (domain domain' : Bytes) (words words' : List AbiWord),
      Encodable domain words → Encodable domain' words' →
      words.map AbiWord.kind = kinds domain → words'.map AbiWord.kind = kinds domain' →
      abiEncodeBytesDomain domain words = abiEncodeBytesDomain domain' words' →
      domain = domain' ∧ words = words') ∧
    (∀ s t : Statement, s.InRange → t.InRange → s.preimage = t.preimage → s = t) ∧
    (∀ (event field : String) (k : ℕ) (data : Bytes), data.length < 2 ^ 64 →
      (ensureCanonicalStringTail event data k field = .ok () ↔
        ∃ words text, words.length = k ∧ data = solidityEncoding words text)) := by
  refine ⟨fun kinds domain domain' words words' he he' => abiEncodeBytesDomain_inj he he',
    fun s t hs ht => Statement.preimage_inj hs ht, fun event field k data hdata => ?_⟩
  constructor
  · exact exists_solidityEncoding
  · rintro ⟨words, text, rfl, rfl⟩
    exact ensureCanonicalStringTail_solidityEncoding hdata

/-- Two nullifiers, and the data of a cancelled withdrawal with the reason "ok". -/
theorem abi_codec_canonical_cancelled :
    (abiEncodeBytesDomain [1] [.uint 7] = abiEncodeBytesDomain [1] [.uint 7] →
      ([1] : Bytes) = [1] ∧ ([.uint 7] : List AbiWord) = [.uint 7]) ∧
    (Statement.escapeNullifier 1 2 3 4).preimage ≠ (Statement.escapeNullifier 1 2 5 4).preimage ∧
    ensureCanonicalStringTail "WithdrawalCancelled" (solidityEncoding [1, 2, 3] (utf8 "ok")) 3
      "reason" = .ok () := by
  have he : Encodable [1] [.uint 7] :=
    ⟨by simp [AbiWord.InRange], by decide, by decide⟩
  have hrange : ∀ n < 2 ^ 64, (Statement.escapeNullifier 1 2 n 4).InRange := by
    intro n hn
    simp [Statement.InRange, Statement.words, AbiWord.InRange]
    omega
  refine ⟨abi_codec_canonical.1 (fun _ => [.uint]) [1] [1] [.uint 7] [.uint 7] he he rfl rfl,
    fun h => ?_, ?_⟩
  · cases abi_codec_canonical.2.1 _ _ (hrange 3 (by norm_num)) (hrange 5 (by norm_num)) h
  · exact (abi_codec_canonical.2.2 _ _ 3 _ (by decide +kernel)).mpr ⟨[1, 2, 3], utf8 "ok", rfl, rfl⟩

end Sybil.L1Protocol
