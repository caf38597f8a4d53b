import Sybil.L1Protocol
import Sybil.Verifier.Types

/-!
# Signed messages

The thirteen builders of signed messages, in the two crates that have them, over the
records they are given, and the bytes that the verifier rebuilds for client actions and
key operations.  A message is a domain string, the genesis hash and the Borsh encoding of
the fields.  Borsh writes integers little-endian, arrays and records without a length, an option
as a tag byte and its value, a vector as a `u32` length and its items, and an enumeration
as the index of its variant.

The order id is assigned by the server and is not signed.
-/

namespace Sybil.Signing

open Engine Verifier

open L1Protocol (EthAddress)

/-! ## The signed records -/

/-- What `Order` and `MmBundleOrder` of `sybil-signing` have in common. -/
@[ext] structure OrderTerms where
  markets : Vector MarketId 5
  numMarkets : ℕ
  payoffs : Vector ℤ 32
  numStates : ℕ
  limitPrice : Nanos
  maxFill : Qty
  condition : Option PriceCondition
  expiresAtBlock : Option ℕ
  deriving DecidableEq

@[ext] structure SigningOrder extends OrderTerms where
  nonce : ℕ
  deriving DecidableEq

@[ext] structure MmBundleOrder extends OrderTerms where
  side : MmSide
  deriving DecidableEq

@[ext] structure MmBundle where
  accountId : ℕ
  bundleId : Digest
  revision : ℕ
  orders : List MmBundleOrder
  maxCapital : Nanos
  nonce : ℕ
  deriving DecidableEq

@[ext] structure MmBundleReplace where
  expectedRevision : ℕ
  replacement : MmBundle
  deriving DecidableEq

@[ext] structure MmBundleCancel where
  accountId : ℕ
  bundleId : Digest
  expectedRevision : ℕ
  nonce : ℕ
  deriving DecidableEq

@[ext] structure BridgeWithdrawalRequest where
  accountId : ℕ
  chainId : ℕ
  vaultAddress : EthAddress
  recipient : EthAddress
  tokenAddress : EthAddress
  amountTokenUnits : ℕ
  expiryHeight : ℕ
  nonce : ℕ
  deriving DecidableEq

@[ext] structure ResolutionAttestation where
  marketId : MarketId
  payoutNanos : Nanos
  nonce : ℕ
  deriving DecidableEq

/-- Which builder made a message. -/
inductive Action where
  | order
  | cancel
  | mmBundle
  | mmBundleReplace
  | mmBundleCancel
  | profileUpdate
  | apiKeyCreate
  | apiKeyRevoke
  | bridgeWithdrawal
  | resolutionAttestation
  | keyRegistration
  | keyRevocation
  | escapeClaim
  deriving DecidableEq

/-- A builder with its arguments, besides the genesis hash. -/
inductive Message where
  | order (order : SigningOrder)
  | cancel (accountId orderId nonce : ℕ)
  | mmBundle (bundle : MmBundle)
  | mmBundleReplace (replacement : MmBundleReplace)
  | mmBundleCancel (cancel : MmBundleCancel)
  | profileUpdate (accountId : ℕ) (displayName avatarSeed : Option String) (nonce : ℕ)
  | apiKeyCreate (accountId : ℕ) (label : Option String) (nonce : ℕ)
  | apiKeyRevoke (accountId apiKeyId nonce : ℕ)
  | bridgeWithdrawal (request : BridgeWithdrawalRequest)
  | resolutionAttestation (attestation : ResolutionAttestation)
  | keyRegistration (accountId : ℕ) (key : KeyRecord) (boundKeysDigest boundEventsDigest : Digest)
  | keyRevocation (accountId : ℕ) (key : KeyRecord) (boundKeysDigest boundEventsDigest : Digest)
  | escapeClaim (chainId : ℕ) (vaultAddress : EthAddress) (stateRoot : Digest)
      (height accountId : ℕ) (recipient : EthAddress) (amountTokenUnits : ℕ)
  deriving DecidableEq

/-! ## Borsh -/

/-- Borsh encoding of an option. -/
def borshOption {α : Type} (encode : α → Bytes) : Option α → Bytes
  | none => [0]
  | some a => 1 :: encode a

/-- Borsh encoding of a vector. -/
def borshVec {α : Type} (encode : α → Bytes) (l : List α) : Bytes :=
  leBytes 4 l.length ++ l.flatMap encode

/-- Variant index of a condition direction. -/
def conditionDirByte : ConditionDir → UInt8
  | .above => 0
  | .below => 1

/-- Variant index of a market maker's side. -/
def mmSideByte : MmSide → UInt8
  | .sellYes => 0
  | .buyYes => 1
  | .sellNo => 2
  | .buyNo => 3

/-- Encoding of a price condition. -/
def borshCondition (condition : PriceCondition) : Bytes :=
  leBytes 4 condition.market ++ leBytes 8 condition.threshold ++
    [conditionDirByte condition.direction]

def borshString (s : String) : Bytes := leBytes 4 (utf8 s).length ++ utf8 s

def OrderTerms.borsh (terms : OrderTerms) : Bytes :=
  terms.markets.toList.flatMap (leBytes 4) ++ leBytes 1 terms.numMarkets ++
    terms.payoffs.toList.flatMap (leBytesInt 1) ++ leBytes 1 terms.numStates ++
    leBytes 8 terms.limitPrice ++ leBytes 8 terms.maxFill ++
    borshOption borshCondition terms.condition ++ borshOption (leBytes 8) terms.expiresAtBlock

def MmBundleOrder.borsh (order : MmBundleOrder) : Bytes :=
  order.toOrderTerms.borsh ++ [mmSideByte order.side]

def MmBundle.borsh (bundle : MmBundle) : Bytes :=
  leBytes 8 bundle.accountId ++ bundle.bundleId.toBytes ++ leBytes 8 bundle.revision ++
    borshVec MmBundleOrder.borsh bundle.orders ++ leBytes 8 bundle.maxCapital ++
    leBytes 8 bundle.nonce

/-! ## The builders -/

def Action.domain : Action → String
  | .order => "sybil/signing/order/v1"
  | .cancel => "sybil/signing/cancel/v1"
  | .mmBundle => "sybil/signing/mm-bundle/v1"
  | .mmBundleReplace => "sybil/signing/mm-bundle-replace/v1"
  | .mmBundleCancel => "sybil/signing/mm-bundle-cancel/v1"
  | .profileUpdate => "sybil/signing/profile-update/v1"
  | .apiKeyCreate => "sybil/signing/read-api-key-create/v1"
  | .apiKeyRevoke => "sybil/signing/read-api-key-revoke/v1"
  | .bridgeWithdrawal => "sybil/signing/bridge-withdrawal/v1"
  | .resolutionAttestation => "sybil/signing/resolution-attestation/v1"
  | .keyRegistration => "sybil/keyop/register/v1"
  | .keyRevocation => "sybil/keyop/revoke/v1"
  | .escapeClaim => "sybil/escape-claim/v1"

namespace Message

def action : Message → Action
  | .order _ => .order
  | .cancel .. => .cancel
  | .mmBundle _ => .mmBundle
  | .mmBundleReplace _ => .mmBundleReplace
  | .mmBundleCancel _ => .mmBundleCancel
  | .profileUpdate .. => .profileUpdate
  | .apiKeyCreate .. => .apiKeyCreate
  | .apiKeyRevoke .. => .apiKeyRevoke
  | .bridgeWithdrawal _ => .bridgeWithdrawal
  | .resolutionAttestation _ => .resolutionAttestation
  | .keyRegistration .. => .keyRegistration
  | .keyRevocation .. => .keyRevocation
  | .escapeClaim .. => .escapeClaim

/-- The bytes behind the genesis hash. -/
def payload : Message → Bytes
  | .order o => o.toOrderTerms.borsh ++ leBytes 8 o.nonce
  | .cancel accountId orderId nonce => leBytes 8 accountId ++ leBytes 8 orderId ++ leBytes 8 nonce
  | .mmBundle bundle => bundle.borsh
  | .mmBundleReplace replacement =>
    leBytes 8 replacement.expectedRevision ++ replacement.replacement.borsh
  | .mmBundleCancel c =>
    leBytes 8 c.accountId ++ c.bundleId.toBytes ++ leBytes 8 c.expectedRevision ++
      leBytes 8 c.nonce
  | .profileUpdate accountId displayName avatarSeed nonce =>
    leBytes 8 accountId ++ borshOption borshString displayName ++
      borshOption borshString avatarSeed ++ leBytes 8 nonce
  | .apiKeyCreate accountId label nonce =>
    leBytes 8 accountId ++ borshOption borshString label ++ leBytes 8 nonce
  | .apiKeyRevoke accountId apiKeyId nonce =>
    leBytes 8 accountId ++ leBytes 8 apiKeyId ++ leBytes 8 nonce
  | .bridgeWithdrawal request =>
    leBytes 8 request.accountId ++ leBytes 8 request.chainId ++ request.vaultAddress.toBytes ++
      request.recipient.toBytes ++ request.tokenAddress.toBytes ++
      leBytes 8 request.amountTokenUnits ++ leBytes 8 request.expiryHeight ++
      leBytes 8 request.nonce
  | .resolutionAttestation attestation =>
    leBytes 4 attestation.marketId ++ leBytes 8 attestation.payoutNanos ++
      leBytes 8 attestation.nonce
  | .keyRegistration accountId key boundKeysDigest boundEventsDigest
  | .keyRevocation accountId key boundKeysDigest boundEventsDigest =>
    leBytes 8 accountId ++ leBytes 1 key.authScheme ++ key.pubkeySec1.toBytes ++
      leBytes 4 key.capabilityMask ++ boundKeysDigest.toBytes ++ boundEventsDigest.toBytes
  | .escapeClaim chainId vaultAddress stateRoot height accountId recipient amountTokenUnits =>
    leBytes 8 chainId ++ vaultAddress.toBytes ++ stateRoot.toBytes ++ leBytes 8 height ++
      leBytes 8 accountId ++ recipient.toBytes ++ leBytes 8 amountTokenUnits

/-- The bytes that are signed. -/
def signed (genesisHash : Digest) (m : Message) : Bytes :=
  utf8 m.action.domain ++ genesisHash.toBytes ++ m.payload

end Message

/-! ## What the verifier rebuilds -/

/-- The terms of an order, without its id. -/
def orderTerms (order : Order) : OrderTerms :=
  { order with }

/-- The bundle of an authorized action. -/
def mmBundleOf (accountId : ℕ) (bundleId : Digest) (revision : ℕ) (terms : MmBundleTerms)
    (nonce : ℕ) : MmBundle :=
  ⟨accountId, bundleId, revision,
    (terms.orders.zip terms.orderSides).map fun (order, side) => ⟨orderTerms order, side⟩,
    terms.maxCapital, nonce⟩

/-- Message of a signed order. -/
def canonicalOrderBytes (order : Order) (nonce : ℕ) (genesisHash : Digest) : Bytes :=
  (Message.order ⟨orderTerms order, nonce⟩).signed genesisHash

/-- Message of a signed cancel. -/
def canonicalCancelBytes (accountId orderId nonce : ℕ) (genesisHash : Digest) : Bytes :=
  (Message.cancel accountId orderId nonce).signed genesisHash

/-- Message of a signed bundle. -/
def canonicalMmBundleBytes (accountId : ℕ) (bundleId : Digest) (revision : ℕ)
    (terms : MmBundleTerms) (nonce : ℕ) (genesisHash : Digest) : Except String Bytes := do
  ensure (terms.orders.length = terms.orderSides.length)
    "MM bundle orders and sides have different lengths"
  pure ((Message.mmBundle (mmBundleOf accountId bundleId revision terms nonce)).signed genesisHash)

/-- Message of a signed bundle replacement. -/
def canonicalMmBundleReplaceBytes (accountId : ℕ) (bundleId : Digest)
    (expectedRevision newRevision : ℕ) (terms : MmBundleTerms) (nonce : ℕ)
    (genesisHash : Digest) : Except String Bytes := do
  let next ← okOr (checkedU64 (expectedRevision + 1)) "MM bundle revision exhausted"
  ensure (newRevision = next) "replacement revision must be exactly expected revision plus one"
  ensure (terms.orders.length = terms.orderSides.length)
    "MM bundle orders and sides have different lengths"
  pure ((Message.mmBundleReplace ⟨expectedRevision, mmBundleOf accountId bundleId newRevision terms
    nonce⟩).signed genesisHash)

/-- Message of a signed bundle cancellation. -/
def canonicalMmBundleCancelBytes (accountId : ℕ) (bundleId : Digest)
    (expectedRevision nonce : ℕ) (genesisHash : Digest) : Bytes :=
  (Message.mmBundleCancel ⟨accountId, bundleId, expectedRevision, nonce⟩).signed genesisHash

/-- Message and signature of a client action. -/
def canonicalActionBytes (genesisHash : Digest) :
    ClientActionWitness → Except String (Bytes × KeyOpAuth)
  | .order _ order nonce authorization =>
    .ok (canonicalOrderBytes order nonce genesisHash, authorization)
  | .cancel accountId orderId nonce authorization =>
    .ok (canonicalCancelBytes accountId orderId nonce genesisHash, authorization)
  | .mmBundle accountId bundleId revision terms nonce authorization => do
    let bytes ← canonicalMmBundleBytes accountId bundleId revision terms nonce genesisHash
    pure (bytes, authorization)
  | .mmBundleReplace accountId bundleId expectedRevision newRevision terms nonce
      authorization => do
    let bytes ← canonicalMmBundleReplaceBytes accountId bundleId expectedRevision newRevision
      terms nonce genesisHash
    pure (bytes, authorization)
  | .mmBundleCancel accountId bundleId expectedRevision nonce authorization =>
    .ok (canonicalMmBundleCancelBytes accountId bundleId expectedRevision nonce genesisHash,
      authorization)

/-- Message of a key registration. -/
def canonicalKeyRegistrationBytes (genesisHash : Digest) (accountId : ℕ) (key : KeyRecord)
    (boundKeysDigest boundEventsDigest : Digest) : Bytes :=
  (Message.keyRegistration accountId key boundKeysDigest boundEventsDigest).signed genesisHash

/-- Message of a key revocation. -/
def canonicalKeyRevocationBytes (genesisHash : Digest) (accountId : ℕ) (key : KeyRecord)
    (boundKeysDigest boundEventsDigest : Digest) : Bytes :=
  (Message.keyRevocation accountId key boundKeysDigest boundEventsDigest).signed genesisHash

end Sybil.Signing
