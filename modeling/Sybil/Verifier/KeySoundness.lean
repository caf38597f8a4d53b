import Sybil.Verifier.Universe

/-!
# Soundness of the key transition

The key pass does not see the key sets before a block.  It undoes the key events from
the opened sets after the block, compares the result with the authenticated digests,
and replays the events forward over two maps: the running sets, and the owner of every
public key.

## 1.  Forward

`Owned` is what the two maps have to do with each other: the owner map knows the account
of every active key, and an account has one key of a public key.  Every step of the
forward replay keeps it (`forwardKeyStep_eq_ok`), so at no point is a public key active
on two accounts.

## 2.  Back

Undoing an event adds no account, and a key only where the event revokes one
(`reverseKeyStep_eq_ok`).  So the recovered sets hold valid keys only, and a digest that
is injective on sets of valid keys identifies them.

## 3.  The whole block

`keyTransition_sound` puts the parts together.  Two clauses are relative to the rest of
the chain.  The cap on the number of keys is checked when a key is registered and when
the sets after the block are opened, and not when they are recovered.  And an account
that is missing after the block is not noticed here.  `oversized_set_accepted` is a
block with both.
-/

namespace Sybil.Verifier

open Engine

variable {P : Primitives} {w : BlockWitness}

variable {authorization : KeyOpAuth} {events : List SystemEventWitness} {key : KeyRecord}
  {l : List KeyRecord} {last st st' : KeyReplay} {preKeys : KeyUniverse} {set : KeySet}

/-! ## 1.  Owners -/

/-- The key is one of the account. -/
def Active (keys : KeyUniverse) (id : ℕ) (key : KeyRecord) : Prop :=
  ∃ set, keys.get? id = some set ∧ set.contains key = true

/-- A public key is active on one account, and under one record. -/
def UniqueKeys (keys : KeyUniverse) : Prop :=
  ∀ id id' key key', Active keys id key → Active keys id' key' →
    key.pubkeySec1 = key'.pubkeySec1 → id = id' ∧ key = key'

/-- The owner map knows the account of every active key, and an account has one key of a public
key. -/
structure Owned (keys : KeyUniverse) (owners : PubkeyOwners) : Prop where
  owner : ∀ id key, Active keys id key → owners.get? key.pubkeySec1 = some id
  single : ∀ id key key', Active keys id key → Active keys id key' →
    key.pubkeySec1 = key'.pubkeySec1 → key = key'

theorem active_insert {keys : KeyUniverse} {id id' : ℕ} :
    Active (keys.insert id set) id' key ↔
      if id' = id then set.contains key = true else Active keys id' key := by
  unfold Active
  rw [OrdMap.get?_insert]
  split_ifs <;> simp

namespace Owned

variable {keys : KeyUniverse} {owners : PubkeyOwners} {id : ℕ}

theorem unique (h : Owned keys owners) : UniqueKeys keys := by
  intro id id' key key' hkey hkey' hpubkey
  have hid : id = id' := by
    have howner := h.owner id key hkey
    rw [hpubkey, h.owner id' key' hkey'] at howner
    exact (Option.some.inj howner).symm
  subst hid
  exact ⟨rfl, h.single id key key' hkey hkey' hpubkey⟩

theorem insert_empty (h : Owned keys owners) (id : ℕ) : Owned (keys.insert id ∅) owners := by
  have hactive : ∀ id' key, Active (keys.insert id ∅) id' key → Active keys id' key := by
    intro id' key hkey
    rw [active_insert] at hkey
    split_ifs at hkey with heq
    · exact absurd hkey Bool.false_ne_true
    · exact hkey
  exact ⟨fun id' key hkey => h.owner id' key (hactive id' key hkey),
    fun id' key key' hkey hkey' => h.single id' key key' (hactive id' key hkey)
      (hactive id' key' hkey')⟩

theorem insert_key (h : Owned (keys.insert id set) owners)
    (hfree : owners.get? key.pubkeySec1 = none) :
    Owned (keys.insert id (set.insert key ())) (owners.insert key.pubkeySec1 id) := by
  -- The active keys are the old ones and the new one, and no old one has its public key.
  have hactive : ∀ id' key', Active (keys.insert id (set.insert key ())) id' key' →
      id' = id ∧ key' = key ∨
        Active (keys.insert id set) id' key' ∧ key'.pubkeySec1 ≠ key.pubkeySec1 := by
    intro id' key' hkey'
    have hold : Active (keys.insert id set) id' key' → key'.pubkeySec1 ≠ key.pubkeySec1 := by
      intro hkey' heq
      have howner := h.owner id' key' hkey'
      rw [heq, hfree] at howner
      exact nomatch howner
    rw [active_insert] at hkey'
    rw [active_insert] at hold ⊢
    split_ifs at hkey' hold ⊢ with heq
    · rcases OrdMap.contains_insert.mp hkey' with hnew | hkey'
      · exact .inl ⟨heq, hnew⟩
      · exact .inr ⟨hkey', hold hkey'⟩
    · exact .inr ⟨hkey', hold hkey'⟩
  constructor
  · intro id' key' hkey'
    rw [OrdMap.get?_insert]
    rcases hactive id' key' hkey' with ⟨rfl, rfl⟩ | ⟨hkey', hne⟩
    · rw [if_pos rfl]
    · rw [if_neg hne]
      exact h.owner id' key' hkey'
  · intro id' key' key'' hkey' hkey'' hpubkey
    rcases hactive id' key' hkey' with ⟨-, rfl⟩ | ⟨hkey', hne⟩
    · rcases hactive id' key'' hkey'' with ⟨-, rfl⟩ | ⟨-, hne⟩
      · rfl
      · exact absurd hpubkey.symm hne
    · rcases hactive id' key'' hkey'' with ⟨-, rfl⟩ | ⟨hkey'', -⟩
      · exact absurd hpubkey hne
      · exact h.single id' key' key'' hkey' hkey'' hpubkey

theorem erase_key (h : Owned keys owners) (hset : keys.get? id = some set)
    (hkey : set.contains key = true) :
    Owned (keys.insert id (set.erase key)) (owners.erase key.pubkeySec1) := by
  have hactive : ∀ id' key', Active (keys.insert id (set.erase key)) id' key' →
      Active keys id' key' ∧ key'.pubkeySec1 ≠ key.pubkeySec1 := by
    intro id' key' hkey'
    rw [active_insert] at hkey'
    split_ifs at hkey' with heq
    · subst heq
      obtain ⟨hne, hkey'⟩ := OrdMap.contains_erase.mp hkey'
      have hkey' : Active keys id' key' := ⟨set, hset, hkey'⟩
      exact ⟨hkey', fun hpubkey => hne (h.single id' key' key hkey' ⟨set, hset, hkey⟩ hpubkey)⟩
    · exact ⟨hkey', fun hpubkey => heq (h.unique _ _ _ _ hkey' ⟨set, hset, hkey⟩ hpubkey).1⟩
  constructor
  · intro id' key' hkey'
    obtain ⟨hkey', hne⟩ := hactive id' key' hkey'
    rw [OrdMap.get?_erase, if_neg hne]
    exact h.owner id' key' hkey'
  · intro id' key' key'' hkey' hkey''
    exact h.single id' key' key'' (hactive id' key' hkey').1 (hactive id' key'' hkey'').1

end Owned

/-- A loop that records owners knows every key it saw, and saw no public key twice. -/
theorem ownKeys_eq_ok {l : List (ℕ × KeyRecord)} {owners owners' : PubkeyOwners}
    (h : l.foldlM ownKeyStep owners = .ok owners') :
    (l.map fun owned => owned.2.pubkeySec1).Nodup ∧
      (∀ pubkey id, owners.get? pubkey = some id → owners'.get? pubkey = some id) ∧
      ∀ owned ∈ l, owners.get? owned.2.pubkeySec1 = none ∧
        owners'.get? owned.2.pubkeySec1 = some owned.1 := by
  induction l generalizing owners with
  | nil =>
    obtain rfl := Except.ok.inj h
    exact ⟨List.nodup_nil, fun _ _ hget => hget, nofun⟩
  | cons owned l ih =>
    obtain ⟨next, hstep, hrest⟩ := foldlM_cons_eq_ok.mp h
    unfold ownKeyStep at hstep
    split at hstep
    · exact nomatch hstep
    rename_i hfree
    obtain rfl := Except.ok.inj hstep
    obtain ⟨hnodup, hkept, hknown⟩ := ih hrest
    have hnew : ∀ other ∈ l, other.2.pubkeySec1 ≠ owned.2.pubkeySec1 := by
      intro other hother heq
      have hnone := (hknown other hother).1
      rw [heq, OrdMap.get?_insert_self] at hnone
      exact nomatch hnone
    refine ⟨?_, fun pubkey id hget => hkept pubkey id ?_, ?_⟩
    · rw [List.map_cons, List.nodup_cons, List.mem_map]
      exact ⟨fun ⟨other, hother, heq⟩ => hnew other hother heq, hnodup⟩
    · rw [OrdMap.get?_insert_of_ne]
      · exact hget
      · rintro rfl
        rw [hfree] at hget
        exact nomatch hget
    · rw [List.forall_mem_cons]
      refine ⟨⟨hfree, hkept _ _ OrdMap.get?_insert_self⟩, fun other hother => ?_⟩
      obtain ⟨hnone, hsome⟩ := hknown other hother
      rw [OrdMap.get?_insert_of_ne (hnew other hother)] at hnone
      exact ⟨hnone, hsome⟩

theorem owned_of_pubkeyOwnerMap {keys : KeyUniverse} {owners : PubkeyOwners}
    (h : pubkeyOwnerMap keys = .ok owners) : Owned keys owners := by
  obtain ⟨hnodup, -, hknown⟩ := ownKeys_eq_ok h
  have hmem : ∀ id key, Active keys id key → (id, key) ∈ keys.entries.flatMap
      fun entry => entry.2.keys.map fun key => (entry.1, key) := by
    rintro id key ⟨set, hset, hkey⟩
    rw [List.mem_flatMap]
    exact ⟨(id, set), OrdMap.mem_entries_iff.mpr hset,
      List.mem_map_of_mem (OrdMap.contains_iff_mem_keys.mp hkey)⟩
  refine ⟨fun id key hkey => (hknown _ (hmem id key hkey)).2, ?_⟩
  intro id key key' hkey hkey' hpubkey
  exact congrArg Prod.snd
    (List.inj_on_of_nodup_map hnodup (hmem id key hkey) (hmem id key' hkey') hpubkey)

/-! ## 2.  One step forward -/

/-- No account has more keys than the protocol allows, unless it started with more, and then it has
no more than it started with. -/
def Bounded (start keys : KeyUniverse) : Prop :=
  ∀ id set, keys.get? id = some set → set.size ≤ maxKeysPerAccount ∨
    ∃ first, start.get? id = some first ∧ set.size ≤ first.size

/-- The signer of an operation is an active key of the account, and its signature is over the given
bytes. -/
def SignedBy (P : Primitives) (running : KeyUniverse) (id : ℕ) (authorization : KeyOpAuth)
    (message : Bytes) : Prop :=
  ∃ set, running.get? id = some set ∧
    (∃ key, Active running id key ∧ key.pubkeySec1 = authorization.signerPubkey ∧
      key.authScheme = authorization.signerAuthScheme) ∧
    verifyKeyopAuth P authorization set.keys message = .ok ()

theorem signedBy_of_verifyKeyopAuth {running : KeyUniverse} {id : ℕ} {message : Bytes}
    (hset : running.get? id = some set)
    (h : verifyKeyopAuth P authorization set.keys message = .ok ()) :
    SignedBy P running id authorization message := by
  obtain ⟨_, hsigner, -⟩ := bind_eq_ok.mp h
  obtain ⟨key, hkey, hpubkey, hscheme⟩ := ensure_eq_ok.mp hsigner
  exact ⟨set, hset, ⟨key, ⟨set, hset, OrdMap.contains_iff_mem_keys.mpr hkey⟩, hpubkey, hscheme⟩, h⟩

/-- Who has to sign an event, and what. -/
def AuthorizedAt (P : Primitives) (w : BlockWitness) (st : KeyReplay) : SystemEventWitness → Prop
  | .keyRegistered id key authorization =>
    ∃ set eventsDigest, st.running.get? id = some set ∧
      st.runningEvents.get? id = some eventsDigest ∧
      SignedBy P st.running id authorization (Signing.canonicalKeyRegistrationBytes w.genesisHash id
        key (accountKeysDigest P id set.keys) eventsDigest)
  | .keyRevoked id key authorization =>
    ∃ set eventsDigest, st.running.get? id = some set ∧
      st.runningEvents.get? id = some eventsDigest ∧
      SignedBy P st.running id authorization (Signing.canonicalKeyRevocationBytes w.genesisHash id
        key (accountKeysDigest P id set.keys) eventsDigest)
  | .clientActionAuthorized action =>
    ∃ message authorization,
      Signing.canonicalActionBytes w.genesisHash action = .ok (message, authorization) ∧
      SignedBy P st.running action.accountNonce.1 authorization message
  | _ => True

theorem insertGloballyUniqueKey_eq_ok {id : ℕ} {st next : KeySet × PubkeyOwners}
    (h : insertGloballyUniqueKey id st key = .ok next) :
    st.2.get? key.pubkeySec1 = none ∧
      next = (st.1.insert key (), st.2.insert key.pubkeySec1 id) := by
  unfold insertGloballyUniqueKey at h
  split at h
  · exact nomatch h
  rename_i hfree
  obtain ⟨_, -, hnext⟩ := bind_eq_ok.mp h
  exact ⟨hfree, (Except.ok.inj hnext).symm⟩

theorem forwardRegister_eq_ok {id : ℕ} (h : forwardRegister P w st id key authorization = .ok st') :
    AuthorizedAt P w st (.keyRegistered id key authorization) ∧
      ∃ set, st.running.get? id = some set ∧ set.size < maxKeysPerAccount ∧
        st.pubkeys.get? key.pubkeySec1 = none ∧
        st'.running = st.running.insert id (set.insert key ()) ∧
        st'.pubkeys = st.pubkeys.insert key.pubkeySec1 id := by
  simp only [forwardRegister, bind_eq_ok, okOr_eq_ok, mapError_eq_ok, ensure_eq_ok] at h
  obtain ⟨_, -, set, hset, eventsDigest, hdigest, _, hauth, _, hsize, next, hnext, hst⟩ := h
  obtain rfl := Except.ok.inj hst
  obtain ⟨hfree, rfl⟩ := insertGloballyUniqueKey_eq_ok hnext
  exact ⟨⟨set, eventsDigest, hset, hdigest, signedBy_of_verifyKeyopAuth hset hauth⟩, set, hset,
    hsize, hfree, rfl, rfl⟩

theorem forwardRevoke_eq_ok {id : ℕ} (h : forwardRevoke P w st id key authorization = .ok st') :
    AuthorizedAt P w st (.keyRevoked id key authorization) ∧ validateKeyRecord key = .ok () ∧
      ∃ set, st.running.get? id = some set ∧ 1 < set.size ∧ set.contains key = true ∧
        st'.running = st.running.insert id (set.erase key) ∧
        st'.pubkeys = st.pubkeys.erase key.pubkeySec1 := by
  simp only [forwardRevoke, bind_eq_ok, okOr_eq_ok, mapError_eq_ok, ensure_eq_ok] at h
  obtain ⟨_, hvalid, set, hset, eventsDigest, hdigest, _, hauth, _, hsize, _, hkey, hst⟩ := h
  obtain rfl := Except.ok.inj hst
  exact ⟨⟨set, eventsDigest, hset, hdigest, signedBy_of_verifyKeyopAuth hset hauth⟩, hvalid, set,
    hset, hsize, hkey, rfl, rfl⟩

/-- Keys that are added one after the other, each of which nobody holds. -/
theorem owned_insertKeys {running : KeyUniverse} {id : ℕ} {st next : KeySet × PubkeyOwners}
    (h : l.foldlM (insertGloballyUniqueKey id) st = .ok next)
    (howned : Owned (running.insert id st.1) st.2) : Owned (running.insert id next.1) next.2 := by
  refine invariant_of_foldlM (P := fun st : KeySet × PubkeyOwners =>
    Owned (running.insert id st.1) st.2) h (fun st next key _ hstep howned => ?_) howned
  obtain ⟨hfree, rfl⟩ := insertGloballyUniqueKey_eq_ok hstep
  exact howned.insert_key hfree

theorem size_insertKeys {id : ℕ} {st next : KeySet × PubkeyOwners}
    (h : l.foldlM (insertGloballyUniqueKey id) st = .ok next) :
    next.1.size ≤ st.1.size + l.length := by
  induction l generalizing st with
  | nil => exact (Except.ok.inj h) ▸ le_rfl
  | cons key l ih =>
    obtain ⟨middle, hstep, hrest⟩ := foldlM_cons_eq_ok.mp h
    obtain ⟨-, rfl⟩ := insertGloballyUniqueKey_eq_ok hstep
    have hinsert : (st.1.insert key ()).size ≤ st.1.size + 1 := OrdMap.size_insert_le
    have hlast : next.1.size ≤ (st.1.insert key ()).size + l.length := ih hrest
    rw [List.length_cons]
    omega

theorem bounded_insert {start keys : KeyUniverse} {id : ℕ} (h : Bounded start keys)
    (hset : set.size ≤ maxKeysPerAccount ∨ ∃ first, start.get? id = some first ∧
      set.size ≤ first.size) : Bounded start (keys.insert id set) := by
  intro id' set' hget
  rw [OrdMap.get?_insert] at hget
  split_ifs at hget with heq
  · subst heq
    exact Option.some.inj hget ▸ hset
  · exact h id' set' hget

/-- **One step forward.**  The event is signed by an active key of its account, and the step keeps
the owners right and the number of keys bounded. -/
theorem forwardKeyStep_eq_ok {event : SystemEventWitness}
    (h : forwardKeyStep P w st event = .ok st') :
    AuthorizedAt P w st event ∧
      (Owned st.running st.pubkeys → Owned st'.running st'.pubkeys) ∧
      ∀ start, Bounded start st.running → Bounded start st'.running := by
  cases event with
  | createAccount id initialBalance initialKeys =>
    simp only [forwardKeyStep, forwardCreate, bind_eq_ok, ensure_eq_ok] at h
    obtain ⟨_, -, _, hkeys, next, hnext, hst⟩ := h
    obtain rfl := Except.ok.inj hst
    obtain ⟨_, hlength, -⟩ := bind_eq_ok.mp hkeys
    refine ⟨trivial, fun howned => owned_insertKeys hnext (howned.insert_empty id),
      fun start hbounded => bounded_insert hbounded (.inl ?_)⟩
    have hsize : next.1.size ≤ 0 + initialKeys.length := size_insertKeys hnext
    exact (hsize.trans (Nat.zero_add _).le).trans (ensure_eq_ok.mp hlength)
  | keyRegistered id key authorization =>
    obtain ⟨hauth, set, hset, hsize, hfree, hrunning, hpubkeys⟩ := forwardRegister_eq_ok h
    rw [hrunning, hpubkeys]
    refine ⟨hauth, fun howned => ?_, fun start hbounded => ?_⟩
    · rw [← OrdMap.insert_of_get? hset] at howned
      exact howned.insert_key hfree
    · exact bounded_insert hbounded (.inl (OrdMap.size_insert_le.trans hsize))
  | keyRevoked id key authorization =>
    obtain ⟨hauth, -, set, hset, -, hkey, hrunning, hpubkeys⟩ := forwardRevoke_eq_ok h
    rw [hrunning, hpubkeys]
    refine ⟨hauth, fun howned => howned.erase_key hset hkey, fun start hbounded => ?_⟩
    refine bounded_insert hbounded ((hbounded id set hset).imp OrdMap.size_erase_le.trans ?_)
    exact fun ⟨first, hfirst, hle⟩ => ⟨first, hfirst, OrdMap.size_erase_le.trans hle⟩
  | clientActionAuthorized action =>
    obtain ⟨_, hcheck, hst⟩ := bind_eq_ok.mp h
    obtain rfl := Except.ok.inj hst
    simp only [checkClientAction, bind_eq_ok, okOr_eq_ok, mapError_eq_ok] at hcheck
    obtain ⟨⟨message, authorization⟩, hsigned, set, hset, hauth⟩ := hcheck
    exact ⟨⟨message, authorization, hsigned, signedBy_of_verifyKeyopAuth hset hauth⟩, id,
      fun _ => id⟩
  | _ =>
    obtain rfl := Except.ok.inj h
    exact ⟨trivial, id, fun _ => id⟩

/-! ## 3.  The recovered sets -/

/-- Every active key is a key of the current protocol version. -/
def ValidKeys (keys : KeyUniverse) : Prop :=
  ∀ id key, Active keys id key → validateKeyRecord key = .ok ()

/-- The key that an event revokes. -/
def revokedKey : SystemEventWitness → Option KeyRecord
  | .keyRevoked _ key _ => some key
  | _ => none

theorem get?_insert_eq_none {keys : KeyUniverse} {id id' : ℕ} {set' : KeySet}
    (hset : keys.get? id = some set) (hnone : keys.get? id' = none) :
    (keys.insert id set').get? id' = none := by
  rw [OrdMap.get?_insert_of_ne]
  · exact hnone
  · rintro rfl
    rw [hset] at hnone
    exact nomatch hnone

/-- **One step back.**  It leaves other accounts as they are, adds no account, removes a created
one, and adds no key but the revoked one. -/
theorem reverseKeyStep_eq_ok {keys keys' : KeyUniverse} {event : SystemEventWitness}
    (h : reverseKeyStep keys event = .ok keys') :
    (∀ id, keyTouchedAccount event ≠ some id → keys'.get? id = keys.get? id) ∧
      (∀ id, keys.get? id = none ∨ createsAccount id event = true → keys'.get? id = none) ∧
      ∀ id key, Active keys' id key → Active keys id key ∨ revokedKey event = some key := by
  cases event with
  | createAccount id initialBalance initialKeys =>
    simp only [reverseKeyStep, bind_eq_ok, okOr_eq_ok, ensure_eq_ok] at h
    obtain ⟨_, -, set, hset, _, -, hkeys⟩ := h
    obtain rfl := Except.ok.inj hkeys
    simp only [Active, OrdMap.get?_erase, createsAccount, decide_eq_true_eq]
    refine ⟨fun id' hne => if_neg fun heq => hne (by rw [heq]; rfl), fun id' hid' => ?_,
      fun id' key hkey => .inl ?_⟩
    · split_ifs with heq
      · rfl
      · exact hid'.resolve_right (Ne.symm heq)
    · obtain ⟨set', hset', hkey⟩ := hkey
      split_ifs at hset'
      exact ⟨set', hset', hkey⟩
  | keyRegistered id key authorization =>
    simp only [reverseKeyStep, bind_eq_ok, okOr_eq_ok, ensure_eq_ok] at h
    obtain ⟨set, hset, _, -, hkeys⟩ := h
    obtain rfl := Except.ok.inj hkeys
    refine ⟨fun id' hne => OrdMap.get?_insert_of_ne fun heq => hne (by rw [heq]; rfl),
      fun id' hid' => ?_, fun id' key' hkey' => .inl ?_⟩
    · exact get?_insert_eq_none hset (hid'.resolve_right Bool.false_ne_true)
    · rw [active_insert] at hkey'
      split_ifs at hkey' with heq
      · exact ⟨set, heq ▸ hset, (OrdMap.contains_erase.mp hkey').2⟩
      · exact hkey'
  | keyRevoked id key authorization =>
    simp only [reverseKeyStep, bind_eq_ok, okOr_eq_ok, ensure_eq_ok] at h
    obtain ⟨set, hset, _, -, hkeys⟩ := h
    obtain rfl := Except.ok.inj hkeys
    refine ⟨fun id' hne => OrdMap.get?_insert_of_ne fun heq => hne (by rw [heq]; rfl),
      fun id' hid' => ?_, fun id' key' hkey' => ?_⟩
    · exact get?_insert_eq_none hset (hid'.resolve_right Bool.false_ne_true)
    · rw [active_insert] at hkey'
      split_ifs at hkey' with heq
      · rcases OrdMap.contains_insert.mp hkey' with rfl | hkey'
        · exact .inr rfl
        · exact .inl ⟨set, heq ▸ hset, hkey'⟩
      · exact .inl hkey'
  | _ =>
    obtain rfl := Except.ok.inj h
    exact ⟨fun _ _ => rfl, fun _ hid => hid.resolve_right Bool.false_ne_true,
      fun _ _ hkey => .inl hkey⟩

section Reverse

variable {keys keys' : KeyUniverse} {id : ℕ}

/-- Undoing the events of a block leaves the accounts that they do not touch. -/
theorem reverseKeys_untouched (h : events.foldlM reverseKeyStep keys = .ok keys')
    (hid : ∀ event ∈ events, keyTouchedAccount event ≠ some id) :
    keys'.get? id = keys.get? id :=
  invariant_of_foldlM (P := fun k : KeyUniverse => k.get? id = keys.get? id) h
    (fun _ _ event hevent hstep hkeys =>
      ((reverseKeyStep_eq_ok hstep).1 id (hid event hevent)).trans hkeys) rfl

/-- Undoing the events of a block removes the accounts that it creates. -/
theorem reverseKeys_created (h : events.foldlM reverseKeyStep keys = .ok keys')
    (hid : events.any (createsAccount id) = true) : keys'.get? id = none := by
  obtain ⟨event, hevent, hcreates⟩ := List.any_eq_true.mp hid
  obtain ⟨before, later, rfl⟩ := List.append_of_mem hevent
  obtain ⟨middle, -, hrest⟩ := foldlM_append_eq_ok.mp h
  obtain ⟨next, hstep, hlater⟩ := foldlM_cons_eq_ok.mp hrest
  exact invariant_of_foldlM (P := fun k : KeyUniverse => k.get? id = none) hlater
    (fun _ _ event _ hstep hnone => (reverseKeyStep_eq_ok hstep).2.1 id (.inl hnone))
    ((reverseKeyStep_eq_ok hstep).2.1 id (.inr hcreates))

/-- Undoing the events of a block brings back revoked keys only. -/
theorem reverseKeys_valid (h : events.foldlM reverseKeyStep keys = .ok keys')
    (hrevoked : ∀ event ∈ events, ∀ key, revokedKey event = some key →
      validateKeyRecord key = .ok ()) (hvalid : ValidKeys keys) : ValidKeys keys' :=
  invariant_of_foldlM (P := ValidKeys) h
    (fun _ _ event hevent hstep hvalid id key hkey =>
      ((reverseKeyStep_eq_ok hstep).2.2 id key hkey).elim (hvalid id key)
        (hrevoked event hevent key)) hvalid

end Reverse

/-! ## 4.  The opened sets -/

theorem validateKeys_eq_ok {id : ℕ} {pubkeys pubkeys' : List (FixedBytes 33)}
    (h : l.foldlM (validateKeyStep id) pubkeys = .ok pubkeys') :
    ∀ key ∈ l, validateKeyRecord key = .ok () := by
  induction l generalizing pubkeys with
  | nil => nofun
  | cons key l ih =>
    obtain ⟨next, hstep, hrest⟩ := foldlM_cons_eq_ok.mp h
    obtain ⟨_, hvalid, -⟩ := bind_eq_ok.mp hstep
    exact List.forall_mem_cons.mpr ⟨hvalid, ih hrest⟩

/-- The keys of a checked list are valid, and there are not too many. -/
theorem validateKeyList_eq_ok {id : ℕ} (h : validateKeyList id l = .ok ()) :
    l.length ≤ maxKeysPerAccount ∧ ∀ key ∈ l, validateKeyRecord key = .ok () := by
  obtain ⟨_, hlength, hrest⟩ := bind_eq_ok.mp h
  obtain ⟨_, hkeys, -⟩ := bind_eq_ok.mp hrest
  exact ⟨ensure_eq_ok.mp hlength, validateKeys_eq_ok hkeys⟩

/-- Opening a list of key sets: each account is opened once, and the others stay as they are. -/
theorem openKeys_eq_ok {post : Accounts} {l : List (ℕ × List KeyRecord)}
    {st st' : KeyUniverse × List ℕ} (h : l.foldlM (openKeysStep post) st = .ok st') :
    (∀ opened ∈ l, opened.1 ∉ st.2 ∧ validateKeyList opened.1 opened.2 = .ok () ∧
      st'.1.get? opened.1 = some (keySetOf opened.2)) ∧
    ∀ id, (∀ opened ∈ l, opened.1 ≠ id) → st'.1.get? id = st.1.get? id := by
  induction l generalizing st with
  | nil =>
    obtain rfl := Except.ok.inj h
    exact ⟨nofun, fun _ _ => rfl⟩
  | cons opened l ih =>
    obtain ⟨next, hstep, hrest⟩ := foldlM_cons_eq_ok.mp h
    simp only [openKeysStep, bind_eq_ok, ensure_eq_ok] at hstep
    obtain ⟨_, hfresh, _, -, _, hvalid, hnext⟩ := hstep
    obtain rfl := Except.ok.inj hnext
    obtain ⟨hopened, hothers⟩ := ih hrest
    have hne : ∀ other ∈ l, other.1 ≠ opened.1 := fun other hother heq =>
      (hopened other hother).1 (heq ▸ List.mem_cons_self)
    refine ⟨List.forall_mem_cons.mpr ⟨⟨hfresh, hvalid, ?_⟩, fun other hother => ?_⟩,
      fun id hid => ?_⟩
    · rw [hothers opened.1 hne]
      exact OrdMap.get?_insert_self
    · obtain ⟨hseen, hkeys, hget⟩ := hopened other hother
      exact ⟨fun hmem => hseen (List.mem_cons_of_mem _ hmem), hkeys, hget⟩
    · obtain ⟨hhead, htail⟩ := List.forall_mem_cons.mp hid
      rw [hothers id htail]
      exact OrdMap.get?_insert_of_ne hhead.symm

/-- The key sets after the block: the opened ones, and no key for the other accounts. -/
structure OpenedKeys (w : BlockWitness) (postKeys : KeyUniverse) : Prop where
  opened : ∀ opened ∈ w.accountKeys, postKeys.get? opened.1 = some (keySetOf opened.2)
  unopened : ∀ id, (∀ opened ∈ w.accountKeys, opened.1 ≠ id) →
    postKeys.get? id = ((accountsOf w.postState).get? id).map fun _ => ∅
  capped : ∀ id set, postKeys.get? id = some set → set.size ≤ maxKeysPerAccount

theorem contains_keySetOf {keys : List KeyRecord} :
    (keySetOf keys).contains key = true ↔ key ∈ keys := by
  rw [OrdMap.contains_iff, keySetOf, OrdMap.contains_ofList]
  simp

theorem openedKeys_of_normalized {postKeys : KeyUniverse}
    (h : normalizedPostKeyMap w (accountsOf w.postState) = .ok postKeys) :
    OpenedKeys w postKeys ∧ ValidKeys postKeys := by
  obtain ⟨st, hrun, hkeys⟩ := bind_eq_ok.mp h
  obtain rfl := Except.ok.inj hkeys
  obtain ⟨hopened, hothers⟩ := openKeys_eq_ok hrun
  have hunopened : ∀ id, (∀ opened ∈ w.accountKeys, opened.1 ≠ id) →
      st.1.get? id = ((accountsOf w.postState).get? id).map fun _ => ∅ := fun id hid => by
    rw [hothers id hid, OrdMap.get?_mapValues]
  -- A set is the empty one or was checked when it was opened.
  have hset : ∀ id set, st.1.get? id = some set → set = ∅ ∨
      ∃ opened ∈ w.accountKeys, set = keySetOf opened.2 ∧
        validateKeyList opened.1 opened.2 = .ok () := by
    intro id set hget
    by_cases hid : ∃ opened ∈ w.accountKeys, opened.1 = id
    · obtain ⟨opened, hmem, rfl⟩ := hid
      obtain ⟨-, hvalid, hsome⟩ := hopened opened hmem
      rw [hget] at hsome
      exact .inr ⟨opened, hmem, Option.some.inj hsome, hvalid⟩
    · rw [hunopened id fun opened hmem heq => hid ⟨opened, hmem, heq⟩] at hget
      obtain ⟨_, -, rfl⟩ := Option.map_eq_some_iff.mp hget
      exact .inl rfl
  refine ⟨⟨fun opened hmem => (hopened opened hmem).2.2, hunopened, fun id set hget => ?_⟩,
    fun id key hkey => ?_⟩
  · rcases hset id set hget with rfl | ⟨opened, -, rfl, hvalid⟩
    · exact Nat.zero_le _
    · exact (OrdMap.size_ofList_le _).trans
        ((List.length_map _).trans_le (validateKeyList_eq_ok hvalid).1)
  · obtain ⟨set, hget, hmem⟩ := hkey
    rcases hset id set hget with rfl | ⟨opened, -, rfl, hvalid⟩
    · exact absurd hmem Bool.false_ne_true
    · exact (validateKeyList_eq_ok hvalid).2 key (contains_keySetOf.mp hmem)

/-! ## 5.  Every point of the replay -/

/-- The replay of some events from given key sets. -/
def keysAfter (P : Primitives) (w : BlockWitness) (preKeys : KeyUniverse)
    (events : List SystemEventWitness) : Except String KeyReplay := do
  let pubkeys ← pubkeyOwnerMap preKeys
  events.foldlM (forwardKeyStep P w)
    { running := preKeys
      pubkeys
      runningEvents := (accountsOf w.preState).mapValues fun _ account => account.eventsDigest }

/-- The digests of the pre-state are those of `committed`, and of no other set of valid keys. -/
structure CommitsKeys (P : Primitives) (w : BlockWitness) (committed : ℕ → KeySet) : Prop where
  digest : ∀ a ∈ w.preState, a.keysDigest = accountKeysDigest P a.id (committed a.id).keys
  injective : ∀ a ∈ w.preState, ∀ set : KeySet,
    (∀ key, set.contains key = true → validateKeyRecord key = .ok ()) →
    accountKeysDigest P a.id set.keys = accountKeysDigest P a.id (committed a.id).keys →
    set = committed a.id

/-- **A sound key transition**, from the key sets before the block to those after it. -/
structure SoundTransition (P : Primitives) (w : BlockWitness) (committed : ℕ → KeySet)
    (preKeys postKeys : KeyUniverse) : Prop where
  /-- The sets before the block are recovered from those after it by undoing its events. -/
  reverse : w.systemEvents.reverse.foldlM reverseKeyStep postKeys = .ok preKeys
  /-- Of an account with key events they are the committed ones. -/
  recovered : ∀ id ∈ keyTouchedAccounts w.systemEvents,
    w.systemEvents.any (createsAccount id) = false →
      (∃ a ∈ w.preState, a.id = id) ∧ preKeys.get? id = some (committed id)
  /-- A created account is new. -/
  created : ∀ id, w.systemEvents.any (createsAccount id) = true →
    (∀ a ∈ w.preState, a.id ≠ id) ∧ preKeys.get? id = none
  /-- An account without key events keeps its keys. -/
  kept : ∀ a ∈ w.postState, a.id ∉ keyTouchedAccounts w.systemEvents →
    (∃ b ∈ w.preState, b.id = a.id) ∧ preKeys.get? a.id = some (committed a.id) ∧
      postKeys.get? a.id = some (committed a.id)
  /-- The replay ends in the opened sets. -/
  forward : ∃ last, keysAfter P w preKeys w.systemEvents = .ok last ∧ last.running = postKeys
  opened : OpenedKeys w postKeys
  /-- At every point, a public key is active once, and the number of keys is bounded. -/
  point : ∀ before later, w.systemEvents = before ++ later →
    ∃ st, keysAfter P w preKeys before = .ok st ∧ UniqueKeys st.running ∧
      Bounded preKeys st.running
  /-- Every event that needs a signature has one of a key active on its account at that point. -/
  authorized : ∀ before event later, w.systemEvents = before ++ event :: later →
    ∃ st, keysAfter P w preKeys before = .ok st ∧ AuthorizedAt P w st event
  /-- A revocation leaves a key. -/
  survivor : ∀ before id key authorization later,
    w.systemEvents = before ++ .keyRevoked id key authorization :: later →
      ∃ st key', keysAfter P w preKeys (before ++ [.keyRevoked id key authorization]) = .ok st ∧
        Active st.running id key'

/-- A part of a replay that ran to its end ran to its own end. -/
theorem keysAfter_append {before later : List SystemEventWitness}
    (h : keysAfter P w preKeys (before ++ later) = .ok last) :
    ∃ st, keysAfter P w preKeys before = .ok st ∧
      later.foldlM (forwardKeyStep P w) st = .ok last := by
  obtain ⟨pubkeys, howners, hrun⟩ := bind_eq_ok.mp h
  obtain ⟨st, hbefore, hlater⟩ := foldlM_append_eq_ok.mp hrun
  exact ⟨st, bind_eq_ok.mpr ⟨pubkeys, howners, hbefore⟩, hlater⟩

/-- **Every point of a replay.**  Public keys are active once, and the number of keys is bounded. -/
theorem point_of_keysAfter (h : keysAfter P w preKeys events = .ok st) :
    UniqueKeys st.running ∧ Bounded preKeys st.running := by
  obtain ⟨pubkeys, howners, hrun⟩ := bind_eq_ok.mp h
  have hinv : Owned st.running st.pubkeys ∧ Bounded preKeys st.running := by
    refine invariant_of_foldlM (P := fun st : KeyReplay =>
      Owned st.running st.pubkeys ∧ Bounded preKeys st.running) hrun ?_ ?_
    · intro st next event _ hstep hinv
      obtain ⟨-, howned, hbounded⟩ := forwardKeyStep_eq_ok hstep
      exact ⟨howned hinv.1, hbounded preKeys hinv.2⟩
    · exact ⟨owned_of_pubkeyOwnerMap howners, fun id set hget => .inr ⟨set, hget, le_rfl⟩⟩
  exact ⟨hinv.1.unique, hinv.2⟩

/-- The key of a revocation is valid, and another key stays. -/
theorem revocation_of_keysAfter {before later : List SystemEventWitness} {id : ℕ}
    (h : keysAfter P w preKeys (before ++ .keyRevoked id key authorization :: later) = .ok last) :
    validateKeyRecord key = .ok () ∧ ∃ st key',
      keysAfter P w preKeys (before ++ [.keyRevoked id key authorization]) = .ok st ∧
        Active st.running id key' := by
  rw [List.append_cons] at h
  obtain ⟨st, hst, -⟩ := keysAfter_append h
  obtain ⟨middle, -, hrun⟩ := keysAfter_append hst
  obtain ⟨next, hstep, hnil⟩ := foldlM_cons_eq_ok.mp hrun
  obtain rfl := Except.ok.inj hnil
  obtain ⟨-, hvalid, set, -, hsize, -, hrunning, -⟩ := forwardRevoke_eq_ok hstep
  obtain ⟨key', hne, hkey'⟩ := OrdMap.exists_contains_ne hsize key
  refine ⟨hvalid, next, key', hst, set.erase key, ?_, OrdMap.contains_erase.mpr ⟨hne, hkey'⟩⟩
  rw [hrunning]
  exact OrdMap.get?_insert_self

theorem mem_keyTouchedAccounts {id : ℕ} :
    id ∈ keyTouchedAccounts events ↔ ∃ event ∈ events, keyTouchedAccount event = some id := by
  rw [keyTouchedAccounts, OrdMap.mem_keys_iff, OrdMap.contains_ofList]
  simp

theorem mem_keyTouchedAccounts_of_creates {id : ℕ} (h : events.any (createsAccount id) = true) :
    id ∈ keyTouchedAccounts events := by
  obtain ⟨event, hevent, hcreates⟩ := List.any_eq_true.mp h
  refine mem_keyTouchedAccounts.mpr ⟨event, hevent, ?_⟩
  cases event with
  | createAccount id => exact congrArg some (of_decide_eq_true hcreates)
  | _ => exact nomatch hcreates

/-- What the recovered sets of a block have to do with its accounts. -/
structure RecoveredKeys (P : Primitives) (w : BlockWitness) (preKeys postKeys : KeyUniverse) :
    Prop where
  reverse : w.systemEvents.reverse.foldlM reverseKeyStep postKeys = .ok preKeys
  valid : ValidKeys preKeys
  /-- An account with key events was there and has its digest, or it is created and new. -/
  touched : ∀ id ∈ keyTouchedAccounts w.systemEvents,
    if w.systemEvents.any (createsAccount id) then
      (∀ a ∈ w.preState, a.id ≠ id) ∧ preKeys.get? id = none
    else ∃ a ∈ w.preState, a.id = id ∧ ∃ set, preKeys.get? id = some set ∧
      a.keysDigest = accountKeysDigest P id set.keys
  /-- Another account of the post-state was there, has its digest and keeps its set. -/
  untouched : ∀ a ∈ w.postState, a.id ∉ keyTouchedAccounts w.systemEvents →
    ∃ b ∈ w.preState, b.id = a.id ∧ ∃ set, preKeys.get? a.id = some set ∧
      postKeys.get? a.id = some set ∧ b.keysDigest = accountKeysDigest P a.id set.keys

theorem recoveredKeys_of_keyPassed {postKeys : KeyUniverse} (h : verifyKeys P w = .ok ())
    (hpassed : KeyPassed P w postKeys preKeys last) : RecoveredKeys P w preKeys postKeys := by
  obtain ⟨hpre, -, hpost⟩ := nodup_of_verifyKeys h
  have hforward : keysAfter P w preKeys w.systemEvents = .ok last := hpassed.replayed
  have hrecovered := hpassed.recovered
  simp only [recoverPreKeys, bind_eq_ok, checkAll_eq_ok] at hrecovered
  obtain ⟨preKeys', hreverse, _, -, _, htouched, _, huntouched, heq⟩ := hrecovered
  obtain rfl := Except.ok.inj heq
  refine ⟨hreverse, ?_, fun id hid => ?_, fun a ha hid => ?_⟩
  · -- The opened keys are valid, and the revoked ones were checked.
    refine reverseKeys_valid hreverse (fun event hevent key hkey => ?_)
      (openedKeys_of_normalized hpassed.opened).2
    obtain ⟨before, later, hsplit⟩ := List.append_of_mem (List.mem_reverse.mp hevent)
    cases event with
    | keyRevoked id key' authorization =>
      obtain rfl := Option.some.inj hkey
      exact (revocation_of_keysAfter (hsplit ▸ hforward)).1
    | _ => cases hkey
  · have hcheck := htouched id hid
    unfold checkTouchedKeys at hcheck
    split_ifs at hcheck ⊢ with hnew
    · refine ⟨fun a ha heq => ?_, reverseKeys_created hreverse (List.any_reverse.trans hnew)⟩
      subst heq
      rw [ensure_eq_ok, OrdMap.contains_eq_false_iff, get?_accountsOf_of_mem hpre ha] at hcheck
      cases hcheck
    · simp only [bind_eq_ok, okOr_eq_ok, ensure_eq_ok] at hcheck
      obtain ⟨a, hget, set, hset, hdigest⟩ := hcheck
      obtain ⟨ha, haid⟩ := mem_of_get?_accountsOf hget
      exact ⟨a, ha, haid, set, hset, hdigest⟩
  · have hget := get?_accountsOf_of_mem hpost ha
    have hcheck := huntouched (a.id, a) (OrdMap.mem_entries_iff.mpr hget)
    rw [checkUntouchedKeys, if_neg hid] at hcheck
    simp only [bind_eq_ok, okOr_eq_ok, ensure_eq_ok] at hcheck
    obtain ⟨b, hb, hdigest⟩ := hcheck
    obtain ⟨hb, hbid⟩ := mem_of_get?_accountsOf hb
    obtain ⟨set, hset, hwelded⟩ := weldPostKeys_eq_ok.mp hpassed.weldedPost a.id a hget
    have hkept := reverseKeys_untouched hreverse fun event hevent heq =>
      hid (mem_keyTouchedAccounts.mpr ⟨event, List.mem_reverse.mp hevent, heq⟩)
    exact ⟨b, hb, hbid, set, hkept.trans hset, hset, hdigest.trans hwelded⟩

/-- **Soundness of the key pass.** -/
theorem keyTransition_sound {committed : ℕ → KeySet} (h : verifyKeys P w = .ok ())
    (hcommits : CommitsKeys P w committed) :
    ∃ preKeys postKeys, SoundTransition P w committed preKeys postKeys := by
  obtain ⟨postKeys, preKeys, last, hpassed⟩ := keyPassed_of_verifyKeys h
  have hrecovered := recoveredKeys_of_keyPassed h hpassed
  have hforward : keysAfter P w preKeys w.systemEvents = .ok last := hpassed.replayed
  -- A set of valid keys with the digest of the pre-state is the committed one.
  have hcommitted : ∀ a ∈ w.preState, ∀ set, preKeys.get? a.id = some set →
      a.keysDigest = accountKeysDigest P a.id set.keys → set = committed a.id := by
    intro a ha set hset hdigest
    refine hcommits.injective a ha set
      (fun key hkey => hrecovered.valid a.id key ⟨set, hset, hkey⟩) ?_
    rw [← hdigest]
    exact hcommits.digest a ha
  refine ⟨preKeys, postKeys,
    { reverse := hrecovered.reverse
      recovered := fun id hid hnew => ?_
      created := fun id hnew => ?_
      kept := fun a ha hid => ?_
      forward := ⟨last, hforward, hpassed.running⟩
      opened := (openedKeys_of_normalized hpassed.opened).1
      point := fun before later hsplit => ?_
      authorized := fun before event later hsplit => ?_
      survivor := fun before id key authorization later hsplit =>
        (revocation_of_keysAfter (hsplit ▸ hforward)).2 }⟩
  · have htouched := hrecovered.touched id hid
    rw [if_neg (by rw [hnew]; exact Bool.false_ne_true)] at htouched
    obtain ⟨a, ha, rfl, set, hset, hdigest⟩ := htouched
    exact ⟨⟨a, ha, rfl⟩, hset.trans (congrArg some (hcommitted a ha set hset hdigest))⟩
  · have htouched := hrecovered.touched id (mem_keyTouchedAccounts_of_creates hnew)
    rwa [if_pos hnew] at htouched
  · obtain ⟨b, hb, hbid, set, hset, hpostSet, hdigest⟩ := hrecovered.untouched a ha hid
    have hcommit : set = committed a.id := by
      rw [← hbid] at hset hdigest ⊢
      exact hcommitted b hb set hset hdigest
    rw [hset, hpostSet, hcommit]
    exact ⟨⟨b, hb, hbid⟩, rfl, rfl⟩
  · obtain ⟨st, hst, -⟩ := keysAfter_append (hsplit ▸ hforward)
    exact ⟨st, hst, point_of_keysAfter hst⟩
  · obtain ⟨st, hst, hrest⟩ := keysAfter_append (hsplit ▸ hforward)
    obtain ⟨next, hstep, -⟩ := foldlM_cons_eq_ok.mp hrest
    exact ⟨st, hst, (forwardKeyStep_eq_ok hstep).1⟩

/-! ## 6.  A set above the cap -/

/-- The bytes of a key in a key-set digest. -/
def keyBytes (key : KeyRecord) : Bytes :=
  leBytes 1 key.authScheme ++ key.pubkeySec1.toBytes ++ leBytes 4 key.capabilityMask

/-- The bytes whose hash is the digest of a key set. -/
def keysEncoding (accountId : ℕ) (keys : List KeyRecord) : Bytes :=
  let sorted := keys.mergeSort fun a b => decide (a.canonicalSortKey ≤ b.canonicalSortKey)
  utf8 "sybil/state/account-keys-digest/v2" ++ leBytes 8 accountId ++ leBytes 8 sorted.length ++
    sorted.flatMap keyBytes

theorem length_keyBytes (key : KeyRecord) : (keyBytes key).length = 38 := by
  simp [keyBytes, FixedBytes.toBytes]

theorem keyBytes_inj {key' : KeyRecord} (h : validateKeyRecord key = .ok ())
    (h' : validateKeyRecord key' = .ok ()) (heq : keyBytes key = keyBytes key') : key = key' := by
  simp only [validateKeyRecord, bind_eq_ok, ensure_eq_ok] at h h'
  obtain ⟨_, hscheme, _, -, hmask⟩ := h
  obtain ⟨_, hscheme', _, -, hmask'⟩ := h'
  obtain ⟨hleft, -⟩ := List.append_inj heq (by simp [FixedBytes.toBytes])
  obtain ⟨hfirst, hpubkey⟩ := List.append_inj hleft (by simp)
  have hbyte : key.authScheme = key'.authScheme :=
    leBytes_inj (hscheme.trans_lt (by norm_num)) (hscheme'.trans_lt (by norm_num)) hfirst
  cases key
  cases key'
  congr
  · exact L1Protocol.toBytes_injective hpubkey
  · exact hmask.trans hmask'.symm

/-- The encoding of a set of valid keys determines it. -/
theorem keysEncoding_inj {id : ℕ} {set' : KeySet}
    (h : ∀ key, set.contains key = true → validateKeyRecord key = .ok ())
    (h' : ∀ key, set'.contains key = true → validateKeyRecord key = .ok ())
    (heq : keysEncoding id set.keys = keysEncoding id set'.keys) : set = set' := by
  obtain ⟨-, hkeys⟩ := List.append_inj heq (by simp)
  have hsorted := flatMap_inj_of_length (by norm_num) length_keyBytes
    (fun key hkey key' hkey' => keyBytes_inj
      (h key (OrdMap.contains_iff_mem_keys.mpr (List.mem_mergeSort.mp hkey)))
      (h' key' (OrdMap.contains_iff_mem_keys.mpr (List.mem_mergeSort.mp hkey')))) hkeys
  refine OrdMap.ext_get? fun key => Option.ext fun _ => ?_
  have hcontains : set.contains key = true ↔ set'.contains key = true := by
    rw [OrdMap.contains_iff_mem_keys, OrdMap.contains_iff_mem_keys, ← List.mem_mergeSort, hsorted,
      List.mem_mergeSort]
  rwa [OrdMap.contains_iff, OrdMap.contains_iff, Unique.exists_iff, Unique.exists_iff] at hcontains

/-- A raw P-256 key for each number. -/
def numberedKey (n : ℕ) : KeyRecord where
  authScheme := 0
  pubkeySec1 := Fin.ofNat _ (2 * 256 ^ 32 + n)
  capabilityMask := KeyRecord.fullCapabilityMask

/-- The first keys. -/
def firstKeys (n : ℕ) : KeySet := keySetOf ((List.range n).map numberedKey)

/-- Account `1` has two keys too many, and account `2` one key. -/
def oversizedKeys : ℕ → KeySet
  | 1 => firstKeys 18
  | _ => keySetOf [numberedKey 18]

/-- Primitives that tell the committed sets from everything else. -/
def oversizedP : Primitives :=
  separating [keysEncoding 1 (oversizedKeys 1).keys, keysEncoding 2 (oversizedKeys 2).keys]

/-- An account with given keys. -/
def keyedAccount (id : ℕ) (keys : KeySet) : AccountSnapshot :=
  { freshAccount oversizedP id 0 [] with keysDigest := accountKeysDigest oversizedP id keys.keys }

/-- Revocation of a key of account `1`, signed with the first one. -/
def revokeNumbered (n : ℕ) : SystemEventWitness :=
  .keyRevoked 1 (numberedKey n) (.rawP256 (numberedKey 0).pubkeySec1 0)

/-- Two of eighteen keys are revoked, and account `2` is missing after the block. -/
def oversized : BlockWitness :=
  secondBlock oversizedP
    { idleContent [keyedAccount 1 (oversizedKeys 1), keyedAccount 2 (oversizedKeys 2)]
        [keyedAccount 1 (firstKeys 16)] (oneMarketSidecar oversizedP [])
        (oneMarketSidecar oversizedP []) [revokeNumbered 17, revokeNumbered 16] with
      accountKeys := [(1, (List.range 16).map numberedKey)] }

theorem validate_numberedKey : ∀ n < 19, validateKeyRecord (numberedKey n) = .ok () := by
  decide

theorem contains_firstKeys {n : ℕ} :
    (firstKeys n).contains key = true ↔ ∃ i < n, numberedKey i = key := by
  rw [firstKeys, contains_keySetOf]
  simp

theorem valid_oversizedKeys (id : ℕ) (key : KeyRecord)
    (h : (oversizedKeys id).contains key = true) : validateKeyRecord key = .ok () := by
  unfold oversizedKeys at h
  split at h
  · obtain ⟨i, hi, rfl⟩ := contains_firstKeys.mp h
    exact validate_numberedKey i (hi.trans (by norm_num))
  · rw [contains_keySetOf, List.mem_singleton] at h
    rw [h]
    exact validate_numberedKey 18 (by norm_num)

theorem commitsKeys_oversized : CommitsKeys oversizedP oversized oversizedKeys := by
  have hpre : ∀ a ∈ oversized.preState, (a.id = 1 ∨ a.id = 2) ∧
      a.keysDigest = accountKeysDigest oversizedP a.id (oversizedKeys a.id).keys := by
    intro a ha
    rcases List.mem_pair.mp ha with rfl | rfl
    · exact ⟨.inl rfl, rfl⟩
    · exact ⟨.inr rfl, rfl⟩
  refine ⟨fun a ha => (hpre a ha).2, fun a ha set hvalid heq => ?_⟩
  refine keysEncoding_inj hvalid (valid_oversizedKeys a.id) (separating_inj (by norm_num) ?_ heq)
  rcases (hpre a ha).1 with hid | hid <;> simp [hid]

/-- The key sets that are opened after the block. -/
def oversizedPost : KeyUniverse := OrdMap.ofList [(1, firstKeys 16)]

/-- The key sets that are recovered before it. -/
def oversizedPre : KeyUniverse := OrdMap.ofList [(1, firstKeys 18)]

theorem normalizedPostKeyMap_oversized :
    normalizedPostKeyMap oversized (accountsOf oversized.postState) = .ok oversizedPost := by
  rfl

theorem weldPostKeys_oversized (label : String) :
    weldPostKeys oversizedP oversizedPost (accountsOf oversized.postState) label = .ok () := by
  rw [weldPostKeys_eq_ok]
  intro id a ha
  obtain ⟨hmem, rfl⟩ := mem_of_get?_accountsOf ha
  obtain rfl := List.mem_singleton.mp hmem
  exact ⟨firstKeys 16, rfl, rfl⟩

theorem recoverPreKeys_oversized :
    recoverPreKeys oversizedP oversized (accountsOf oversized.preState)
      (accountsOf oversized.postState) oversizedPost = .ok oversizedPre := by
  simp only [recoverPreKeys, bind_eq_ok, checkAll_eq_ok]
  refine ⟨oversizedPre, rfl, (), rfl, (), ?_, (), ?_, rfl⟩
  · intro id hid
    obtain rfl := List.mem_singleton.mp hid
    exact bind_eq_ok.mpr ⟨keyedAccount 1 (oversizedKeys 1), rfl,
      bind_eq_ok.mpr ⟨firstKeys 18, rfl, ensure_eq_ok.mpr rfl⟩⟩
  · rintro ⟨id, a⟩ hmem
    obtain ⟨ha, rfl⟩ := mem_of_get?_accountsOf (OrdMap.mem_entries_iff.mp hmem)
    obtain rfl := List.mem_singleton.mp ha
    rfl

/-- The replay when account `1` has the first `n` keys. -/
def oversizedReplay (n : ℕ) (eventsDigest : Digest) : KeyReplay where
  running := OrdMap.ofList [(1, firstKeys n)]
  pubkeys := OrdMap.ofList ((List.range n).map fun i => ((numberedKey i).pubkeySec1, 1))
  runningEvents := OrdMap.ofList [(1, eventsDigest), (2, 0)]

/-- The events digest after a revocation. -/
def revokedDigest (eventsDigest : Digest) (n : ℕ) : Digest :=
  updateDigest oversizedP eventsDigest
    (encodeKeyEvent 0x0b (numberedKey n) oversized.header.height)

/-- Each revocation takes the last key away. -/
theorem forwardKeyStep_oversized (eventsDigest : Digest) : ∀ n ∈ [16, 17],
    forwardKeyStep oversizedP oversized (oversizedReplay (n + 1) eventsDigest) (revokeNumbered n) =
      .ok (oversizedReplay n (revokedDigest eventsDigest n)) := by
  intro n hn
  rcases List.mem_pair.mp hn with rfl | rfl <;> rfl

/-- The first revocation leaves one key too many. -/
theorem keysAfter_oversized :
    keysAfter oversizedP oversized oversizedPre [revokeNumbered 17] =
      .ok (oversizedReplay 17 (revokedDigest 0 17)) := by
  refine bind_eq_ok.mpr ⟨(oversizedReplay 18 0).pubkeys, rfl, ?_⟩
  exact foldlM_cons_eq_ok.mpr ⟨_, forwardKeyStep_oversized 0 17 (by simp), rfl⟩

theorem replayKeys_oversized :
    replayKeys oversizedP oversized (accountsOf oversized.preState) oversizedPre =
      .ok (oversizedReplay 16 (revokedDigest (revokedDigest 0 17) 16)) := by
  refine bind_eq_ok.mpr ⟨(oversizedReplay 18 0).pubkeys, rfl, ?_⟩
  exact foldlM_cons_eq_ok.mpr ⟨_, forwardKeyStep_oversized 0 17 (by simp),
    foldlM_cons_eq_ok.mpr ⟨_, forwardKeyStep_oversized _ 16 (by simp), rfl⟩⟩

theorem keyPassed_oversized :
    ∃ last, KeyPassed oversizedP oversized oversizedPost oversizedPre last :=
  ⟨_,
    { opened := normalizedPostKeyMap_oversized
      weldedSystem := weldPostKeys_oversized _
      weldedPost := weldPostKeys_oversized _
      recovered := recoverPreKeys_oversized
      replayed := replayKeys_oversized
      running := rfl }⟩

theorem verifyKeys_oversized : verifyKeys oversizedP oversized = .ok () := by
  obtain ⟨last, hpassed⟩ := keyPassed_oversized
  simp only [verifyKeys, bind_eq_ok]
  exact ⟨_, rfl, _, rfl, _, rfl, _, hpassed.opened, (), hpassed.weldedSystem, (),
    hpassed.weldedPost, (), rfl, (), rfl, (), rfl, _, hpassed.recovered, _, hpassed.replayed, _,
    hpassed.opened, ensure_eq_ok.mpr hpassed.running⟩

theorem keyTransition_sound_oversized :
    ∃ preKeys postKeys, SoundTransition oversizedP oversized oversizedKeys preKeys postKeys :=
  keyTransition_sound verifyKeys_oversized commitsKeys_oversized

/-- **The cap is not checked on what was there before.**  The block is accepted although its first
account has seventeen keys after the first revocation, and its second account, which has a key and
no key event, has none after the block. -/
theorem oversized_set_accepted :
    CommitsKeys oversizedP oversized oversizedKeys ∧ verifyKeys oversizedP oversized = .ok () ∧
      (∃ last, KeyPassed oversizedP oversized oversizedPost oversizedPre last) ∧
      (∃ before later st set, oversized.systemEvents = before ++ later ∧
        keysAfter oversizedP oversized oversizedPre before = .ok st ∧
        st.running.get? 1 = some set ∧ maxKeysPerAccount < set.size) ∧
      ∃ a ∈ oversized.preState, a.id ∉ keyTouchedAccounts oversized.systemEvents ∧
        (oversizedKeys a.id).size = 1 ∧ oversizedPost.get? a.id = none := by
  refine ⟨commitsKeys_oversized, verifyKeys_oversized, keyPassed_oversized, ?_, ?_⟩
  · exact ⟨[revokeNumbered 17], [revokeNumbered 16], _, firstKeys 17, rfl, keysAfter_oversized, rfl,
      by decide⟩
  · exact ⟨keyedAccount 2 (oversizedKeys 2), List.mem_cons_of_mem _ List.mem_cons_self, by decide,
      by decide, rfl⟩

end Sybil.Verifier
