import Sybil.Lib.SelfDelimiting
import Sybil.Signing

/-!
# All signed messages

A signed message is a domain, the genesis hash, and the fields; the domain is neither
terminated nor counted.  No domain is a front of another, though some share most of their
text, so the domain can be read off the bytes, and the fields then follow one by one.

Borsh counts a vector or a text by a `u32` and fails on a longer one, at which the builder
stops; such a message has no bytes here.
-/

namespace Sybil.Signing

open Engine Verifier

open L1Protocol (EthAddress)

namespace Message

/-- The vectors and texts of a message are short enough for Borsh. -/
def Serializable : Message → Prop
  | .mmBundle bundle => bundle.orders.length < 2 ^ 32
  | .mmBundleReplace replacement => replacement.replacement.orders.length < 2 ^ 32
  | .profileUpdate _ displayName avatarSeed _ =>
    (∀ s ∈ displayName, (utf8 s).length < 2 ^ 32) ∧ ∀ s ∈ avatarSeed, (utf8 s).length < 2 ^ 32
  | .apiKeyCreate _ label _ => ∀ s ∈ label, (utf8 s).length < 2 ^ 32
  | _ => True

instance (m : Message) : Decidable m.Serializable := by
  cases m <;> simp only [Serializable] <;> infer_instance

/-- The bytes of a message; nothing where the builder stops. -/
def bytes (genesisHash : Digest) (m : Message) : Option Bytes :=
  if m.Serializable then some (m.signed genesisHash) else none

end Message

/-- The builders. -/
def Action.all : List Action :=
  [.order, .cancel, .mmBundle, .mmBundleReplace, .mmBundleCancel, .profileUpdate, .apiKeyCreate,
    .apiKeyRevoke, .bridgeWithdrawal, .resolutionAttestation, .keyRegistration, .keyRevocation,
    .escapeClaim]

theorem Action.mem_all (a : Action) : a ∈ Action.all := by
  cases a <;> decide

/-- No domain is a front of another. -/
theorem Action.domain_prefixFree : PrefixFree fun a : Action => utf8 a.domain := by
  intro a b h
  have hall : ∀ a ∈ Action.all, ∀ b ∈ Action.all,
      (utf8 a.domain).isPrefixOf (utf8 b.domain) = true → a = b := by
    decide +kernel
  exact hall a (mem_all a) b (mem_all b) (List.isPrefixOf_iff_prefix.mpr h)

/-! ## Widths -/

/-- The numbers of an order have the widths of their types. -/
structure OrderTerms.InRange (terms : OrderTerms) : Prop where
  markets : ∀ market ∈ terms.markets.toList, market < 2 ^ 32
  numMarkets : terms.numMarkets < 2 ^ 8
  payoffs : ∀ payoff ∈ terms.payoffs.toList, -2 ^ 7 ≤ payoff ∧ payoff < 2 ^ 7
  numStates : terms.numStates < 2 ^ 8
  limitPrice : terms.limitPrice < 2 ^ 64
  maxFill : terms.maxFill < 2 ^ 64
  condition : ∀ c ∈ terms.condition, c.market < 2 ^ 32 ∧ c.threshold < 2 ^ 64
  expiresAtBlock : ∀ height ∈ terms.expiresAtBlock, height < 2 ^ 64

structure MmBundle.InRange (bundle : MmBundle) : Prop where
  accountId : bundle.accountId < 2 ^ 64
  revision : bundle.revision < 2 ^ 64
  orders : ∀ order ∈ bundle.orders, order.toOrderTerms.InRange
  maxCapital : bundle.maxCapital < 2 ^ 64
  nonce : bundle.nonce < 2 ^ 64

/-- The numbers of a message have the widths of their types. -/
def Message.InRange : Message → Prop
  | .order o => o.toOrderTerms.InRange ∧ o.nonce < 2 ^ 64
  | .cancel accountId orderId nonce => accountId < 2 ^ 64 ∧ orderId < 2 ^ 64 ∧ nonce < 2 ^ 64
  | .mmBundle bundle => bundle.InRange
  | .mmBundleReplace replacement =>
    replacement.expectedRevision < 2 ^ 64 ∧ replacement.replacement.InRange
  | .mmBundleCancel c =>
    c.accountId < 2 ^ 64 ∧ c.expectedRevision < 2 ^ 64 ∧ c.nonce < 2 ^ 64
  | .profileUpdate accountId _ _ nonce => accountId < 2 ^ 64 ∧ nonce < 2 ^ 64
  | .apiKeyCreate accountId _ nonce => accountId < 2 ^ 64 ∧ nonce < 2 ^ 64
  | .apiKeyRevoke accountId apiKeyId nonce =>
    accountId < 2 ^ 64 ∧ apiKeyId < 2 ^ 64 ∧ nonce < 2 ^ 64
  | .bridgeWithdrawal request =>
    request.accountId < 2 ^ 64 ∧ request.chainId < 2 ^ 64 ∧ request.amountTokenUnits < 2 ^ 64 ∧
      request.expiryHeight < 2 ^ 64 ∧ request.nonce < 2 ^ 64
  | .resolutionAttestation attestation =>
    attestation.marketId < 2 ^ 32 ∧ attestation.payoutNanos < 2 ^ 64 ∧ attestation.nonce < 2 ^ 64
  | .keyRegistration accountId key _ _ | .keyRevocation accountId key _ _ =>
    accountId < 2 ^ 64 ∧ key.authScheme < 2 ^ 8 ∧ key.capabilityMask < 2 ^ 32
  | .escapeClaim chainId _ _ height accountId _ amountTokenUnits =>
    chainId < 2 ^ 64 ∧ height < 2 ^ 64 ∧ accountId < 2 ^ 64 ∧ amountTokenUnits < 2 ^ 64

/-! ## Self-delimiting parts -/

theorem conditionDirByte_injective : Function.Injective conditionDirByte := by
  intro d d' h
  cases d <;> cases d' <;> first | rfl | exact absurd h (by decide)

theorem mmSideByte_injective : Function.Injective mmSideByte := by
  intro d d' h
  cases d <;> cases d' <;> first | rfl | exact absurd h (by decide)

theorem borshOption_selfDelimiting {α : Type} {ok : α → Prop} {encode : α → Bytes}
    (h : SelfDelimiting ok id encode) :
    SelfDelimiting (fun o : Option α => ∀ a ∈ o, ok a) id (borshOption encode) := by
  rintro (_ | a) (_ | a') s t ha ha' heq
  · exact ⟨rfl, List.cons.inj heq |>.2⟩
  · exact absurd (List.cons.inj heq).1 (by decide)
  · exact absurd (List.cons.inj heq).1 (by decide)
  · obtain ⟨hvalue, hrest⟩ := h.split (ha a rfl) (ha' a' rfl) (List.cons.inj heq).2
    exact ⟨congrArg some hvalue, hrest⟩

theorem borshVec_selfDelimiting {α : Type} {ok : α → Prop} {encode : α → Bytes}
    (h : SelfDelimiting ok id encode) :
    SelfDelimiting (fun l : List α => l.length < 2 ^ 32 ∧ ∀ a ∈ l, ok a) id (borshVec encode) := by
  intro l l' s t hl hl' heq
  have hitems := h.counted u32_selfDelimiting hl hl' heq
  simpa using hitems

theorem borshString_selfDelimiting :
    SelfDelimiting (fun s : String => (utf8 s).length < 2 ^ 32) id borshString :=
  text_selfDelimiting 4

theorem borshCondition_selfDelimiting :
    SelfDelimiting (fun c : PriceCondition => c.market < 2 ^ 32 ∧ c.threshold < 2 ^ 64) id
      borshCondition := by
  rintro c c' s t ⟨hm, ht⟩ ⟨hm', ht'⟩ h
  simp only [borshCondition, List.append_assoc] at h
  obtain ⟨hmarket, h⟩ := u32_selfDelimiting.split hm hm' h
  obtain ⟨hthreshold, h⟩ := u64_selfDelimiting.split ht ht' h
  obtain ⟨hdirection, hrest⟩ := List.cons.inj h
  have hdirection := conditionDirByte_injective hdirection
  cases c
  cases c'
  simp_all

theorem OrderTerms.borsh_selfDelimiting :
    SelfDelimiting OrderTerms.InRange id OrderTerms.borsh := by
  intro o o' s t ha ha' h
  simp only [OrderTerms.borsh, List.append_assoc] at h
  -- The two arrays have a fixed number of items and are written without a count.
  obtain ⟨hmarkets, h⟩ := u32_selfDelimiting.flatMap ha.markets ha'.markets (by simp) h
  obtain ⟨hnumMarkets, h⟩ := u8_selfDelimiting.split ha.numMarkets ha'.numMarkets h
  obtain ⟨hpayoffs, h⟩ := i8_selfDelimiting.flatMap ha.payoffs ha'.payoffs (by simp) h
  obtain ⟨hnumStates, h⟩ := u8_selfDelimiting.split ha.numStates ha'.numStates h
  obtain ⟨hlimitPrice, h⟩ := u64_selfDelimiting.split ha.limitPrice ha'.limitPrice h
  obtain ⟨hmaxFill, h⟩ := u64_selfDelimiting.split ha.maxFill ha'.maxFill h
  obtain ⟨hcondition, h⟩ := (borshOption_selfDelimiting borshCondition_selfDelimiting).split
    ha.condition ha'.condition h
  obtain ⟨hexpires, hrest⟩ := (borshOption_selfDelimiting u64_selfDelimiting).split
    ha.expiresAtBlock ha'.expiresAtBlock h
  rw [List.map_id, List.map_id] at hmarkets hpayoffs
  exact ⟨OrderTerms.ext (Vector.toList_inj.mp hmarkets) hnumMarkets (Vector.toList_inj.mp hpayoffs)
    hnumStates hlimitPrice hmaxFill hcondition hexpires, hrest⟩

theorem keyFields_append_inj {key key' : KeyRecord} {s t : Bytes}
    (hkey : key.authScheme < 2 ^ 8 ∧ key.capabilityMask < 2 ^ 32)
    (hkey' : key'.authScheme < 2 ^ 8 ∧ key'.capabilityMask < 2 ^ 32)
    (h : leBytes 1 key.authScheme ++ (key.pubkeySec1.toBytes ++
        (leBytes 4 key.capabilityMask ++ s)) =
      leBytes 1 key'.authScheme ++ (key'.pubkeySec1.toBytes ++
        (leBytes 4 key'.capabilityMask ++ t))) :
    key = key' ∧ s = t := by
  obtain ⟨hscheme, h⟩ := u8_selfDelimiting.split hkey.1 hkey'.1 h
  obtain ⟨hpubkey, h⟩ := (toBytes_selfDelimiting 33).split trivial trivial h
  obtain ⟨hmask, hrest⟩ := u32_selfDelimiting.split hkey.2 hkey'.2 h
  cases key
  cases key'
  simp_all

theorem MmBundleOrder.borsh_selfDelimiting :
    SelfDelimiting (fun order : MmBundleOrder => order.toOrderTerms.InRange) id
      MmBundleOrder.borsh := by
  intro o o' s t ha ha' h
  simp only [MmBundleOrder.borsh, List.append_assoc] at h
  obtain ⟨hterms, h⟩ := OrderTerms.borsh_selfDelimiting.split ha ha' h
  obtain ⟨hside, hrest⟩ := List.cons.inj h
  have hside := mmSideByte_injective hside
  cases o
  cases o'
  simp_all

theorem MmBundle.borsh_selfDelimiting :
    SelfDelimiting (fun bundle : MmBundle => bundle.orders.length < 2 ^ 32 ∧ bundle.InRange) id
      MmBundle.borsh := by
  rintro b b' s t ⟨hlen, ha⟩ ⟨hlen', ha'⟩ h
  simp only [MmBundle.borsh, List.append_assoc] at h
  obtain ⟨haccount, h⟩ := u64_selfDelimiting.split ha.accountId ha'.accountId h
  obtain ⟨hbundle, h⟩ := (toBytes_selfDelimiting 32).split trivial trivial h
  obtain ⟨hrevision, h⟩ := u64_selfDelimiting.split ha.revision ha'.revision h
  obtain ⟨horders, h⟩ := (borshVec_selfDelimiting MmBundleOrder.borsh_selfDelimiting).split
    ⟨hlen, ha.orders⟩ ⟨hlen', ha'.orders⟩ h
  obtain ⟨hcapital, h⟩ := u64_selfDelimiting.split ha.maxCapital ha'.maxCapital h
  obtain ⟨hnonce, hrest⟩ := u64_selfDelimiting.split ha.nonce ha'.nonce h
  exact ⟨MmBundle.ext haccount hbundle hrevision horders hcapital hnonce, hrest⟩

/-! ## Messages -/

namespace Message

theorem payload_append_inj {m m' : Message} {s t : Bytes} (haction : m.action = m'.action)
    (hser : m.Serializable) (hser' : m'.Serializable) (hm : m.InRange) (hm' : m'.InRange)
    (h : m.payload ++ s = m'.payload ++ t) : m = m' ∧ s = t := by
  cases m <;> cases m' <;> try cases haction
  all_goals simp only [payload, List.append_assoc] at h
  case order.order o o' =>
    obtain ⟨hterms, h⟩ := OrderTerms.borsh_selfDelimiting.split hm.1 hm'.1 h
    obtain ⟨hnonce, hrest⟩ := u64_selfDelimiting.split hm.2 hm'.2 h
    cases o
    cases o'
    simp_all
  case cancel.cancel | apiKeyRevoke.apiKeyRevoke =>
    obtain ⟨e₁, h⟩ := u64_selfDelimiting.split hm.1 hm'.1 h
    obtain ⟨e₂, h⟩ := u64_selfDelimiting.split hm.2.1 hm'.2.1 h
    obtain ⟨e₃, hrest⟩ := u64_selfDelimiting.split hm.2.2 hm'.2.2 h
    subst e₁ e₂ e₃
    exact ⟨rfl, hrest⟩
  case mmBundle.mmBundle =>
    obtain ⟨e₁, hrest⟩ := MmBundle.borsh_selfDelimiting.split ⟨hser, hm⟩ ⟨hser', hm'⟩ h
    subst e₁
    exact ⟨rfl, hrest⟩
  case mmBundleReplace.mmBundleReplace r r' =>
    obtain ⟨hrevision, h⟩ := u64_selfDelimiting.split hm.1 hm'.1 h
    obtain ⟨hbundle, hrest⟩ :=
      MmBundle.borsh_selfDelimiting.split ⟨hser, hm.2⟩ ⟨hser', hm'.2⟩ h
    exact ⟨congrArg _ (MmBundleReplace.ext hrevision hbundle), hrest⟩
  case mmBundleCancel.mmBundleCancel c c' =>
    obtain ⟨haccount, h⟩ := u64_selfDelimiting.split hm.1 hm'.1 h
    obtain ⟨hbundle, h⟩ := (toBytes_selfDelimiting 32).split trivial trivial h
    obtain ⟨hrevision, h⟩ := u64_selfDelimiting.split hm.2.1 hm'.2.1 h
    obtain ⟨hnonce, hrest⟩ := u64_selfDelimiting.split hm.2.2 hm'.2.2 h
    exact ⟨congrArg _ (MmBundleCancel.ext haccount hbundle hrevision hnonce), hrest⟩
  case profileUpdate.profileUpdate =>
    have htext := borshOption_selfDelimiting borshString_selfDelimiting
    obtain ⟨e₁, h⟩ := u64_selfDelimiting.split hm.1 hm'.1 h
    obtain ⟨e₂, h⟩ := htext.split hser.1 hser'.1 h
    obtain ⟨e₃, h⟩ := htext.split hser.2 hser'.2 h
    obtain ⟨e₄, hrest⟩ := u64_selfDelimiting.split hm.2 hm'.2 h
    subst e₁ e₂ e₃ e₄
    exact ⟨rfl, hrest⟩
  case apiKeyCreate.apiKeyCreate =>
    have htext := borshOption_selfDelimiting borshString_selfDelimiting
    obtain ⟨e₁, h⟩ := u64_selfDelimiting.split hm.1 hm'.1 h
    obtain ⟨e₂, h⟩ := htext.split hser hser' h
    obtain ⟨e₃, hrest⟩ := u64_selfDelimiting.split hm.2 hm'.2 h
    subst e₁ e₂ e₃
    exact ⟨rfl, hrest⟩
  case bridgeWithdrawal.bridgeWithdrawal r r' =>
    have haddress := toBytes_selfDelimiting 20
    obtain ⟨haccount, h⟩ := u64_selfDelimiting.split hm.1 hm'.1 h
    obtain ⟨hchain, h⟩ := u64_selfDelimiting.split hm.2.1 hm'.2.1 h
    obtain ⟨hvault, h⟩ := haddress.split trivial trivial h
    obtain ⟨hrecipient, h⟩ := haddress.split trivial trivial h
    obtain ⟨htoken, h⟩ := haddress.split trivial trivial h
    obtain ⟨hamount, h⟩ := u64_selfDelimiting.split hm.2.2.1 hm'.2.2.1 h
    obtain ⟨hexpiry, h⟩ := u64_selfDelimiting.split hm.2.2.2.1 hm'.2.2.2.1 h
    obtain ⟨hnonce, hrest⟩ := u64_selfDelimiting.split hm.2.2.2.2 hm'.2.2.2.2 h
    exact ⟨congrArg _ (BridgeWithdrawalRequest.ext haccount hchain hvault hrecipient htoken hamount
      hexpiry hnonce), hrest⟩
  case resolutionAttestation.resolutionAttestation a a' =>
    obtain ⟨hmarket, h⟩ := u32_selfDelimiting.split hm.1 hm'.1 h
    obtain ⟨hpayout, h⟩ := u64_selfDelimiting.split hm.2.1 hm'.2.1 h
    obtain ⟨hnonce, hrest⟩ := u64_selfDelimiting.split hm.2.2 hm'.2.2 h
    exact ⟨congrArg _ (ResolutionAttestation.ext hmarket hpayout hnonce), hrest⟩
  case keyRegistration.keyRegistration | keyRevocation.keyRevocation =>
    obtain ⟨e₁, h⟩ := u64_selfDelimiting.split hm.1 hm'.1 h
    obtain ⟨hkey, h⟩ := keyFields_append_inj hm.2 hm'.2 h
    obtain ⟨e₂, h⟩ := (toBytes_selfDelimiting 32).split trivial trivial h
    obtain ⟨e₃, hrest⟩ := (toBytes_selfDelimiting 32).split trivial trivial h
    subst e₁ e₂ e₃ hkey
    exact ⟨rfl, hrest⟩
  case escapeClaim.escapeClaim =>
    have haddress := toBytes_selfDelimiting 20
    obtain ⟨e₁, h⟩ := u64_selfDelimiting.split hm.1 hm'.1 h
    obtain ⟨e₂, h⟩ := haddress.split trivial trivial h
    obtain ⟨e₃, h⟩ := (toBytes_selfDelimiting 32).split trivial trivial h
    obtain ⟨e₄, h⟩ := u64_selfDelimiting.split hm.2.1 hm'.2.1 h
    obtain ⟨e₅, h⟩ := u64_selfDelimiting.split hm.2.2.1 hm'.2.2.1 h
    obtain ⟨e₆, h⟩ := haddress.split trivial trivial h
    obtain ⟨e₇, hrest⟩ := u64_selfDelimiting.split hm.2.2.2 hm'.2.2.2 h
    subst e₁ e₂ e₃ e₄ e₅ e₆ e₇
    exact ⟨rfl, hrest⟩

theorem bytes_eq_some {genesisHash : Digest} {m : Message} {b : Bytes} :
    m.bytes genesisHash = some b ↔
      m.Serializable ∧ m.signed genesisHash = b := by
  rw [bytes, Option.ite_none_right_eq_some, Option.some.injEq]

/-- The bytes of a signed message say which builder made it, for which deployment, and from
which arguments. -/
theorem signed_bytes_determine_message {m m' : Message} {genesisHash genesisHash' : Digest}
    {b : Bytes} (hm : m.InRange) (hm' : m'.InRange) (h : m.bytes genesisHash = some b)
    (h' : m'.bytes genesisHash' = some b) :
    m.action = m'.action ∧ genesisHash = genesisHash' ∧ m = m' := by
  obtain ⟨hser, hbytes⟩ := bytes_eq_some.mp h
  obtain ⟨hser', hbytes'⟩ := bytes_eq_some.mp h'
  rw [← hbytes', signed, signed, List.append_assoc, List.append_assoc] at hbytes
  have haction := Action.domain_prefixFree.eq_of_append hbytes
  rw [haction] at hbytes
  obtain ⟨hgenesis, hpayload⟩ :=
    (toBytes_selfDelimiting 32).split trivial trivial (List.append_cancel_left hbytes)
  have hend : m.payload ++ [] = m'.payload ++ [] := by rw [hpayload]
  exact ⟨haction, hgenesis, (payload_append_inj haction hser hser' hm hm' hend).1⟩

/-- A bundle of one order. -/
def loneBundle : MmBundle where
  accountId := 7
  bundleId := 3
  revision := 1
  orders := [⟨orderTerms { Order.new 0 with limitPrice := 5, maxFill := 9 }, .sellNo⟩]
  maxCapital := 1000
  nonce := 11

/-- The bytes of a bundle, whose domain starts as those of its replacement and its cancellation:
no message of these builders, and no bundle with another nonce, has them. -/
theorem signed_bytes_determine_bundle :
    ∃ b, (mmBundle loneBundle).bytes 5 = some b ∧
      (∀ g (bundle : MmBundle), bundle.InRange → (mmBundle bundle).bytes g = some b →
        g = 5 ∧ bundle = loneBundle) ∧
      (mmBundleReplace ⟨0, loneBundle⟩).bytes 5 ≠ some b ∧
      (mmBundleCancel ⟨7, 3, 1, 11⟩).bytes 5 ≠ some b := by
  have hterms : (orderTerms { Order.new 0 with limitPrice := 5, maxFill := 9 }).InRange := by
    constructor <;> decide
  have hbundle : (mmBundle loneBundle).InRange :=
    ⟨by decide, by decide, List.forall_mem_singleton.mpr hterms, by decide, by decide⟩
  have hbytes : (mmBundle loneBundle).bytes 5 = some ((mmBundle loneBundle).signed 5) :=
    bytes_eq_some.mpr ⟨by decide, rfl⟩
  refine ⟨_, hbytes, fun g bundle hrange h => ?_, fun h => ?_, fun h => ?_⟩
  · have hrange' : (mmBundle bundle).InRange := hrange
    obtain ⟨-, hgenesis, hmessage⟩ := signed_bytes_determine_message hrange' hbundle h hbytes
    exact ⟨hgenesis, mmBundle.inj hmessage⟩
  · have hreplace : (mmBundleReplace ⟨0, loneBundle⟩).InRange := ⟨by decide, hbundle⟩
    cases (signed_bytes_determine_message hbundle hreplace hbytes h).1
  · have hcancel : (mmBundleCancel ⟨7, 3, 1, 11⟩).InRange := ⟨by decide, by decide, by decide⟩
    cases (signed_bytes_determine_message hbundle hcancel hbytes h).1

end Message

end Sybil.Signing
