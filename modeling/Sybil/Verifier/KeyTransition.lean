import Sybil.Signing
import Sybil.Verifier.System

/-!
# Key transitions and signatures

The verifier opens the key sets after the block, undoes the key events to recover
the sets before it, checks both against the authenticated digests, and then replays
the events forward.  The forward replay is where every signature is checked: a key
operation or a client action must be signed by a key that its account holds at that
point of the block.
-/

namespace Sybil.Verifier

open Engine

variable {P : Primitives} {w : BlockWitness}

/-! ## Signatures -/

/-- Verify an authorization under the active keys of an account. -/
def verifyKeyopAuth (P : Primitives) (authorization : KeyOpAuth) (activeKeys : List KeyRecord)
    (canonicalBytes : Bytes) : Except String Unit := do
  ensure (∃ key ∈ activeKeys, key.pubkeySec1 = authorization.signerPubkey ∧
      key.authScheme = authorization.signerAuthScheme)
    "key-op signer is not a current scheme-matching key"
  match authorization with
  | .rawP256 signerPubkey signature =>
    P.verifyP256Prehash signerPubkey signature (P.sha256 canonicalBytes)
  | .webAuthn signerPubkey authenticatorData clientDataJson signature => do
    P.verifyWebauthnEnvelope canonicalBytes authenticatorData clientDataJson
    P.verifyP256Prehash signerPubkey signature
      (P.sha256 (authenticatorData ++ (P.sha256 clientDataJson).toBytes))

/-! ## Key sets -/

/-- Field-by-field order of key records. -/
instance : LinearOrder KeyRecord :=
  LinearOrder.lift' (fun key => toLex (key.authScheme, toLex (key.pubkeySec1, key.capabilityMask)))
    fun a b h => by
      cases a
      cases b
      simpa using h

/-- The keys of an account. -/
abbrev KeySet := OrdMap KeyRecord Unit

/-- Key sets by account. -/
abbrev KeyUniverse := OrdMap ℕ KeySet

/-- The set of a list of keys. -/
def keySetOf (keys : List KeyRecord) : KeySet := OrdMap.ofList (keys.map fun key => (key, ()))

def maxKeysPerAccount : ℕ := 16

def maxKeyOpsPerBlock : ℕ := 64

/-- Snapshots by id; an id may occur once. -/
def accountMap (accounts : List AccountSnapshot) (label : String) : Except String Accounts :=
  collectDistinct (fun account => account.id)
    (fun account => s!"duplicate account {account.id} in {label}") accounts

/-- A key of the current protocol version. -/
def validateKeyRecord (key : KeyRecord) : Except String Unit := do
  ensure (key.authScheme ≤ 1) s!"unsupported key auth_scheme {key.authScheme}"
  ensure (key.pubkeySec1.val / 256 ^ 32 = 0x02 ∨ key.pubkeySec1.val / 256 ^ 32 = 0x03)
    "key is not a compressed SEC1 P-256 point"
  ensure (key.capabilityMask = KeyRecord.fullCapabilityMask)
    "key capability_mask is not full-authority in v6"

/-- Check a key and that its public key is new. -/
def validateKeyStep (accountId : ℕ) (pubkeys : List (FixedBytes 33)) (key : KeyRecord) :
    Except String (List (FixedBytes 33)) := do
  validateKeyRecord key
  ensure (key.pubkeySec1 ∉ pubkeys) s!"account {accountId} contains a duplicate pubkey"
  pure (key.pubkeySec1 :: pubkeys)

/-- Check the opened keys of an account. -/
def validateKeyList (accountId : ℕ) (keys : List KeyRecord) : Except String Unit := do
  ensure (keys.length ≤ maxKeysPerAccount)
    (s!"account {accountId} has {keys.length} keys, exceeding " ++
      s!"MAX_KEYS_PER_ACCOUNT={maxKeysPerAccount}")
  let _ ← keys.foldlM (validateKeyStep accountId) []
  pure ()

/-- Open the keys of one account. -/
def openKeysStep (postAccounts : Accounts) (st : KeyUniverse × List ℕ)
    (opened : ℕ × List KeyRecord) : Except String (KeyUniverse × List ℕ) := do
  ensure (opened.1 ∉ st.2) s!"duplicate account {opened.1} in witness.account_keys"
  ensure (postAccounts.contains opened.1 = true)
    s!"witness.account_keys opens unknown post-state account {opened.1}"
  validateKeyList opened.1 opened.2
  pure (st.1.insert opened.1 (keySetOf opened.2), opened.1 :: st.2)

/-- Key sets after the block; an account that is not opened has no key. -/
def normalizedPostKeyMap (w : BlockWitness) (postAccounts : Accounts) :
    Except String KeyUniverse := do
  let opened ← w.accountKeys.foldlM (openKeysStep postAccounts)
    (postAccounts.mapValues fun _ _ => ∅, [])
  pure opened.1

/-- The digests of a section are those of the opened keys. -/
def weldPostKeys (P : Primitives) (keys : KeyUniverse) (accounts : Accounts) (label : String) :
    Except String Unit :=
  checkAll (fun (accountId, account) => do
    let active ← okOr (keys.get? accountId)
      s!"account {accountId} in {label} is absent from the post key universe"
    ensure (account.keysDigest = accountKeysDigest P accountId active.keys)
      s!"account {accountId} {label} keys_digest does not match witness.account_keys")
    accounts.entries

/-- Owners by public key. -/
abbrev PubkeyOwners := OrdMap (FixedBytes 33) ℕ

/-- Record the owner of a key. -/
def ownKeyStep (owners : PubkeyOwners) (owned : ℕ × KeyRecord) : Except String PubkeyOwners :=
  match owners.get? owned.2.pubkeySec1 with
  | some previous =>
    .error s!"pubkey is active on both account {previous} and account {owned.1}"
  | none => .ok (owners.insert owned.2.pubkeySec1 owned.1)

/-- Owners of all keys; a public key has one owner. -/
def pubkeyOwnerMap (keys : KeyUniverse) : Except String PubkeyOwners :=
  (keys.entries.flatMap fun (accountId, set) => set.keys.map fun key => (accountId, key)).foldlM
    ownKeyStep ∅

def ensureGlobalPubkeyUniqueness (keys : KeyUniverse) (context : String) : Except String Unit := do
  let _ ← (pubkeyOwnerMap keys).mapError fun details => s!"{context}: {details}"
  pure ()

/-! ## Events that touch keys -/

/-- Is the event a key operation? -/
def isKeyOp : SystemEventWitness → Bool
  | .keyRegistered .. => true
  | .keyRevoked .. => true
  | _ => false

/-- The account whose keys an event sets or changes. -/
def keyTouchedAccount : SystemEventWitness → Option ℕ
  | .createAccount accountId _ _ => some accountId
  | .keyRegistered accountId _ _ => some accountId
  | .keyRevoked accountId _ _ => some accountId
  | _ => none

/-- Accounts whose keys the block sets or changes, in order. -/
def keyTouchedAccounts (events : List SystemEventWitness) : List ℕ :=
  (OrdMap.ofList ((events.filterMap keyTouchedAccount).map fun id => (id, ()))).keys

/-- Accounts that an event is about. -/
def eventAccountIds : SystemEventWitness → List ℕ
  | .createAccount accountId _ _ => [accountId]
  | .deposit accountId _ => [accountId]
  | .l1Deposit accountId _ _ _ _ => [accountId]
  | .withdrawalCreated w => [w.accountId]
  | .withdrawalRefunded accountId _ _ _ => [accountId]
  | .withdrawalFinalized accountId _ _ => [accountId]
  | .orderCancelled accountId _ _ _ _ => [accountId]
  | .keyRegistered accountId _ _ => [accountId]
  | .keyRevoked accountId _ _ => [accountId]
  | .clientActionAuthorized action => [action.accountNonce.1]
  | .quarantineClaimed accountId _ _ => [accountId]
  | .marketResolved _ _ affectedAccounts => affectedAccounts
  | .l1BlockObserved _ => []
  | .marketGroupExtended _ _ => []
  | .depositQuarantined .. => []

/-- Key events of an account come before its other events; client actions do not count. -/
def keyEventOrderStep (seen : List ℕ) (event : SystemEventWitness) : Except String (List ℕ) :=
  match event with
  | .clientActionAuthorized _ => .ok seen
  | event =>
    if (keyTouchedAccount event).isSome then
      match (eventAccountIds event).find? fun id => decide (id ∈ seen) with
      | some accountId =>
        .error s!"key event for account {accountId} follows another same-account system event"
      | none => .ok seen
    else .ok (eventAccountIds event ++ seen)

def verifyKeyEventOrder (events : List SystemEventWitness) : Except String Unit := do
  let _ ← events.foldlM keyEventOrderStep []
  pure ()

/-! ## Reverse replay -/

/-- Undo the key effect of an event. -/
def reverseKeyStep (keys : KeyUniverse) : SystemEventWitness → Except String KeyUniverse
  | .keyRegistered accountId key _ => do
    let set ← okOr (keys.get? accountId)
      s!"KeyRegistered account {accountId} has no opened post-state leaf"
    ensure (set.contains key = true)
      s!"reverse KeyRegistered for account {accountId} did not find the registered key"
    pure (keys.insert accountId (set.erase key))
  | .keyRevoked accountId key _ => do
    let set ← okOr (keys.get? accountId)
      s!"KeyRevoked account {accountId} has no opened post-state leaf"
    ensure (set.contains key = false)
      s!"reverse KeyRevoked for account {accountId} found the key still active"
    pure (keys.insert accountId (set.insert key ()))
  | .createAccount accountId _ initialKeys => do
    validateKeyList accountId initialKeys
    let actual ← okOr (keys.get? accountId)
      s!"CreateAccount {accountId} has no opened post-state leaf"
    ensure (actual = keySetOf initialKeys)
      s!"reverse CreateAccount {accountId} did not recover its initial key set"
    pure (keys.erase accountId)
  | _ => .ok keys

/-- Is the account created in the block? -/
def createsAccount (accountId : ℕ) : SystemEventWitness → Bool
  | .createAccount id _ _ => decide (id = accountId)
  | _ => false

/-- The recovered keys of a touched account are those of the pre-state. -/
def checkTouchedKeys (P : Primitives) (events : List SystemEventWitness) (preAccounts : Accounts)
    (preKeys : KeyUniverse) (accountId : ℕ) : Except String Unit :=
  if events.any (createsAccount accountId) then
    ensure (preAccounts.contains accountId = false)
      s!"CreateAccount {accountId} already exists in authenticated pre-state"
  else do
    let pre ← okOr (preAccounts.get? accountId)
      s!"key event account {accountId} has no opened pre-state leaf"
    let keys ← okOr (preKeys.get? accountId)
      s!"key event account {accountId} is missing from recovered pre keys"
    ensure (pre.keysDigest = accountKeysDigest P accountId keys.keys)
      (s!"account {accountId} recovered pre key set does not match authenticated pre " ++
        "keys_digest")

/-- An untouched account keeps its digest. -/
def checkUntouchedKeys (touched : List ℕ) (preAccounts : Accounts)
    (entry : ℕ × AccountSnapshot) : Except String Unit :=
  if entry.1 ∈ touched then .ok ()
  else do
    let pre ← okOr (preAccounts.get? entry.1)
      s!"untouched account {entry.1} is absent from authenticated pre-state"
    ensure (pre.keysDigest = entry.2.keysDigest)
      s!"account {entry.1} changed keys_digest without a witnessed key event"

/-! ## Forward replay -/

/-- State of the forward replay. -/
structure KeyReplay where
  running : KeyUniverse
  pubkeys : PubkeyOwners
  runningEvents : OrdMap ℕ Digest

/-- Add a key that no account holds. -/
def insertGloballyUniqueKey (accountId : ℕ) (st : KeySet × PubkeyOwners) (key : KeyRecord) :
    Except String (KeySet × PubkeyOwners) :=
  match st.2.get? key.pubkeySec1 with
  | some owner =>
    .error s!"key registration on account {accountId} collides with account {owner}"
  | none => do
    ensure (st.1.contains key = false) s!"duplicate key registration on account {accountId}"
    pure (st.1.insert key (), st.2.insert key.pubkeySec1 accountId)

/-- Register a key. -/
def forwardRegister (P : Primitives) (w : BlockWitness) (st : KeyReplay) (accountId : ℕ)
    (key : KeyRecord) (authorization : KeyOpAuth) : Except String KeyReplay := do
  validateKeyRecord key
  let keys ← okOr (st.running.get? accountId)
    s!"KeyRegistered account {accountId} has no running account"
  let eventsDigest ← okOr (st.runningEvents.get? accountId)
    s!"KeyRegistered account {accountId} has no running events digest"
  (verifyKeyopAuth P authorization keys.keys
    (Signing.canonicalKeyRegistrationBytes w.genesisHash accountId key
      (accountKeysDigest P accountId keys.keys) eventsDigest)).mapError
    fun details => s!"account {accountId} registration: {details}"
  ensure (keys.size < maxKeysPerAccount)
    (s!"account {accountId} exceeds MAX_KEYS_PER_ACCOUNT={maxKeysPerAccount} " ++
      "on registration")
  let next ← insertGloballyUniqueKey accountId (keys, st.pubkeys) key
  pure
    { running := st.running.insert accountId next.1
      pubkeys := next.2
      runningEvents := st.runningEvents.insert accountId
        (updateDigest P eventsDigest (encodeKeyEvent 0x0a key w.header.height)) }

/-- Revoke a key; the last one stays. -/
def forwardRevoke (P : Primitives) (w : BlockWitness) (st : KeyReplay) (accountId : ℕ)
    (key : KeyRecord) (authorization : KeyOpAuth) : Except String KeyReplay := do
  validateKeyRecord key
  let keys ← okOr (st.running.get? accountId)
    s!"KeyRevoked account {accountId} has no running account"
  let eventsDigest ← okOr (st.runningEvents.get? accountId)
    s!"KeyRevoked account {accountId} has no running events digest"
  (verifyKeyopAuth P authorization keys.keys
    (Signing.canonicalKeyRevocationBytes w.genesisHash accountId key
      (accountKeysDigest P accountId keys.keys) eventsDigest)).mapError
    fun details => s!"account {accountId} revocation: {details}"
  ensure (1 < keys.size) s!"KeyRevoked would remove account {accountId}'s last active key"
  ensure (keys.contains key = true) s!"KeyRevoked target is not active on account {accountId}"
  pure
    { running := st.running.insert accountId (keys.erase key)
      pubkeys := st.pubkeys.erase key.pubkeySec1
      runningEvents := st.runningEvents.insert accountId
        (updateDigest P eventsDigest (encodeKeyEvent 0x0b key w.header.height)) }

/-- Create an account with its initial keys. -/
def forwardCreate (P : Primitives) (w : BlockWitness) (st : KeyReplay) (accountId : ℕ)
    (initialBalance : ℤ) (initialKeys : List KeyRecord) : Except String KeyReplay := do
  ensure (st.running.contains accountId = false) s!"CreateAccount duplicated account {accountId}"
  validateKeyList accountId initialKeys
  let next ← initialKeys.foldlM (insertGloballyUniqueKey accountId) (∅, st.pubkeys)
  pure
    { running := st.running.insert accountId next.1
      pubkeys := next.2
      runningEvents := st.runningEvents.insert accountId
        (updateDigest P 0 (encodeCreateAccountEvent initialBalance w.header.height)) }

/-- Check the signature of a client action under the running keys of its account. -/
def checkClientAction (P : Primitives) (genesisHash : Digest) (running : KeyUniverse)
    (action : ClientActionWitness) : Except String Unit := do
  let signed ← Signing.canonicalActionBytes genesisHash action
  let keys ← okOr (running.get? action.accountNonce.1)
    s!"client action account {action.accountNonce.1} has no running key set"
  (verifyKeyopAuth P signed.2 keys.keys signed.1).mapError
    fun details => s!"account {action.accountNonce.1} client action: {details}"

/-- Replay the key effect of an event. -/
def forwardKeyStep (P : Primitives) (w : BlockWitness) (st : KeyReplay) :
    SystemEventWitness → Except String KeyReplay
  | .createAccount accountId initialBalance initialKeys =>
    forwardCreate P w st accountId initialBalance initialKeys
  | .keyRegistered accountId key authorization =>
    forwardRegister P w st accountId key authorization
  | .keyRevoked accountId key authorization => forwardRevoke P w st accountId key authorization
  | .clientActionAuthorized action => do
    checkClientAction P w.genesisHash st.running action
    pure st
  | _ => .ok st

/-! ## The pass -/

/-- Recover the key sets before the block from those after it. -/
def recoverPreKeys (P : Primitives) (w : BlockWitness) (preAccounts postAccounts : Accounts)
    (postKeys : KeyUniverse) : Except String KeyUniverse := do
  let preKeys ← w.systemEvents.reverse.foldlM reverseKeyStep postKeys
  ensureGlobalPubkeyUniqueness preKeys "recovered pre key universe"
  checkAll (checkTouchedKeys P w.systemEvents preAccounts preKeys)
    (keyTouchedAccounts w.systemEvents)
  checkAll (checkUntouchedKeys (keyTouchedAccounts w.systemEvents) preAccounts)
    postAccounts.entries
  pure preKeys

/-- Replay the key events from the recovered sets. -/
def replayKeys (P : Primitives) (w : BlockWitness) (preAccounts : Accounts)
    (preKeys : KeyUniverse) : Except String KeyReplay := do
  let pubkeys ← pubkeyOwnerMap preKeys
  w.systemEvents.foldlM (forwardKeyStep P w)
    { running := preKeys
      pubkeys
      runningEvents := preAccounts.mapValues fun _ account => account.eventsDigest }

/-- Verify the key transitions of a block. -/
def verifyKeys (P : Primitives) (w : BlockWitness) : Except String Unit := do
  let preAccounts ← accountMap w.preState "pre_state"
  let postSystemAccounts ← accountMap w.postSystemState "post_system_state"
  let postAccounts ← accountMap w.postState "post_state"
  let postKeys ← normalizedPostKeyMap w postAccounts
  weldPostKeys P postKeys postSystemAccounts "post_system_state"
  weldPostKeys P postKeys postAccounts "post_state"
  ensureGlobalPubkeyUniqueness postKeys "post key universe"
  ensure ((w.systemEvents.filter isKeyOp).length ≤ maxKeyOpsPerBlock)
    (s!"block has {(w.systemEvents.filter isKeyOp).length} key ops, exceeding " ++
      s!"MAX_KEY_OPS_PER_BLOCK={maxKeyOpsPerBlock}")
  verifyKeyEventOrder w.systemEvents
  let preKeys ← recoverPreKeys P w preAccounts postAccounts postKeys
  let final ← replayKeys P w preAccounts preKeys
  let expectedPost ← normalizedPostKeyMap w postAccounts
  ensure (final.running = expectedPost)
    "forward key-event replay does not produce witness.account_keys"

/-- The pass. -/
def verifyKeyTransitions (P : Primitives) (w : BlockWitness) : List Violation :=
  match verifyKeys P w with
  | .ok () => []
  | .error details => [⟨.keyTransitionMismatch, details⟩]

theorem verifyKeyTransitions_eq_nil : verifyKeyTransitions P w = [] ↔ verifyKeys P w = .ok () := by
  unfold verifyKeyTransitions
  split <;> simp_all

/-- An account is listed once in each section of the witness. -/
theorem nodup_of_verifyKeys (h : verifyKeys P w = .ok ()) :
    (w.preState.map fun a => a.id).Nodup ∧ (w.postSystemState.map fun a => a.id).Nodup ∧
      (w.postState.map fun a => a.id).Nodup := by
  simp only [verifyKeys, bind_eq_ok] at h
  obtain ⟨_, hpre, _, hsystem, _, hpost, -⟩ := h
  exact ⟨(collectDistinct_eq_ok.mp hpre).1, (collectDistinct_eq_ok.mp hsystem).1,
    (collectDistinct_eq_ok.mp hpost).1⟩

/-- What a passing key transition has established, with the key sets after the block, the
recovered ones before it, and the end of the forward replay. -/
structure KeyPassed (P : Primitives) (w : BlockWitness) (postKeys preKeys : KeyUniverse)
    (last : KeyReplay) : Prop where
  opened : normalizedPostKeyMap w (accountsOf w.postState) = .ok postKeys
  weldedSystem : weldPostKeys P postKeys (accountsOf w.postSystemState) "post_system_state" = .ok ()
  weldedPost : weldPostKeys P postKeys (accountsOf w.postState) "post_state" = .ok ()
  recovered :
    recoverPreKeys P w (accountsOf w.preState) (accountsOf w.postState) postKeys = .ok preKeys
  replayed : replayKeys P w (accountsOf w.preState) preKeys = .ok last
  running : last.running = postKeys

theorem keyPassed_of_verifyKeys (h : verifyKeys P w = .ok ()) :
    ∃ postKeys preKeys last, KeyPassed P w postKeys preKeys last := by
  simp only [verifyKeys, accountMap, bind_eq_ok, collectDistinct_eq_ok] at h
  obtain ⟨_, ⟨-, rfl⟩, _, ⟨-, rfl⟩, _, ⟨-, rfl⟩, postKeys, hopen, _, hsystem, _, hpost, h⟩ := h
  obtain ⟨_, -, _, -, _, -, preKeys, hrecover, last, hreplay, postKeys', hopen', h⟩ := h
  obtain rfl : postKeys = postKeys' := Except.ok.inj (hopen.symm.trans hopen')
  exact ⟨postKeys, preKeys, last,
    { opened := hopen
      weldedSystem := hsystem
      weldedPost := hpost
      recovered := hrecover
      replayed := hreplay
      running := ensure_eq_ok.mp h }⟩

/-- The digest of a welded account is that of its opened keys. -/
theorem weldPostKeys_eq_ok {keys : KeyUniverse} {accounts : Accounts} {label : String} :
    weldPostKeys P keys accounts label = .ok () ↔ ∀ id a, accounts.get? id = some a →
      ∃ active, keys.get? id = some active ∧ a.keysDigest = accountKeysDigest P id active.keys := by
  simp only [weldPostKeys, checkAll_eq_ok, Prod.forall, OrdMap.mem_entries_iff, bind_eq_ok,
    okOr_eq_ok, ensure_eq_ok]

end Sybil.Verifier
