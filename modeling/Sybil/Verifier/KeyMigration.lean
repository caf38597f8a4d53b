import Sybil.Verifier.Chain
import Sybil.Verifier.KeySoundness

/-!
# Signed orders and keys that move

The message of a signed order does not name an account.  Which account an order is for
follows from its signer: at every point a public key is active on one account only.
Over time this is not enough.  A key that is revoked from one account may be registered
on another one, and there its old signatures verify again; the nonce, which is compared
with that of the new account, does not stop them.

## 1.  A public key over a run

`Kept` is what stays true of a public key that an account held at some point, as long as
no key moves: nobody else holds it, and the account itself holds it unless one of the
events since then revoked it.  One event keeps this (`Kept.step`), hence a block
(`Kept.block`), and a chain of blocks whose digests determine the key sets
(`Kept.chain`).

## 2.  Signers

Along a chain without migrated keys two actions with one signer are of one account
(`pairwise_sameSigner`), and so a signed order is accepted on one account
(`signedOrder_single_account`).  `signedOrder_replayed` is a block that accepts one
signed order on two accounts.
-/

namespace Sybil.Verifier

open Engine

variable {P : Primitives} {w w' : BlockWitness} {id owner : ℕ} {pubkey : FixedBytes 33}

variable {event : SystemEventWitness} {first second : List KeyRecord} {l : List AccountSnapshot}
  {last st : KeyReplay} {postKeys preKeys : KeyUniverse}

/-! ## 1.  A public key over a run -/

/-- The account holds the public key. -/
def Holds (keys : KeyUniverse) (id : ℕ) (pubkey : FixedBytes 33) : Prop :=
  ∃ key, Active keys id key ∧ key.pubkeySec1 = pubkey

/-- The account and the public key that an event takes from it. -/
def revokedPubkey : SystemEventWitness → Option (ℕ × FixedBytes 33)
  | .keyRevoked id key _ => some (id, key.pubkeySec1)
  | _ => none

/-- An account and the public keys that an event gives to it. -/
def registeredPubkeys : SystemEventWitness → List (ℕ × FixedBytes 33)
  | .keyRegistered id key _ => [(id, key.pubkeySec1)]
  | .createAccount id _ initialKeys => initialKeys.map fun key => (id, key.pubkeySec1)
  | _ => []

/-- The later event does not give a public key to another account than the earlier one took it
from. -/
def Stays (earlier later : SystemEventWitness) : Prop :=
  ∀ revoked ∈ revokedPubkey earlier, ∀ registered ∈ registeredPubkeys later,
    revoked.2 = registered.2 → revoked.1 = registered.1

/-- No key moves from one account to another. -/
def NoMigration (events : List SystemEventWitness) : Prop := events.Pairwise Stays

theorem insertKeys_contains {l : List KeyRecord} {st next : KeySet × PubkeyOwners}
    (h : l.foldlM (insertGloballyUniqueKey id) st = .ok next) {key : KeyRecord}
    (hkey : next.1.contains key = true) :
    st.1.contains key = true ∨ key ∈ l ∧ st.2.get? key.pubkeySec1 = none := by
  induction l generalizing st with
  | nil =>
    obtain rfl := Except.ok.inj h
    exact .inl hkey
  | cons first l ih =>
    obtain ⟨middle, hstep, hrest⟩ := foldlM_cons_eq_ok.mp h
    obtain ⟨hfree, rfl⟩ := insertGloballyUniqueKey_eq_ok hstep
    rcases ih hrest with hold | ⟨hmem, hnone⟩
    · rcases OrdMap.contains_insert.mp hold with rfl | hold
      · exact .inr ⟨List.mem_cons_self, hfree⟩
      · exact .inl hold
    · refine .inr ⟨List.mem_cons_of_mem _ hmem, ?_⟩
      rw [OrdMap.get?_insert] at hnone
      split_ifs at hnone
      exact hnone

theorem holds_insert {keys : KeyUniverse} {set : KeySet} {id' : ℕ} :
    Holds (keys.insert id' set) id pubkey ↔
      if id = id' then ∃ key, set.contains key = true ∧ key.pubkeySec1 = pubkey
      else Holds keys id pubkey := by
  simp only [Holds, active_insert]
  split_ifs <;> rfl

theorem holds_iff {keys : KeyUniverse} {set : KeySet} (hset : keys.get? id = some set) :
    Holds keys id pubkey ↔ ∃ key, set.contains key = true ∧ key.pubkeySec1 = pubkey := by
  constructor
  · rintro ⟨key, ⟨set', hset', hkey⟩, hpubkey⟩
    obtain rfl := Option.some.inj (hset.symm.trans hset')
    exact ⟨key, hkey, hpubkey⟩
  · rintro ⟨key, hkey, hpubkey⟩
    exact ⟨key, ⟨set, hset, hkey⟩, hpubkey⟩

/-- **One event and one public key.**  A new holder got it from the event, and nobody held it; an
old holder still has it unless the event revoked it. -/
theorem holds_forwardKeyStep {st' : KeyReplay} (h : forwardKeyStep P w st event = .ok st')
    (howned : Owned st.running st.pubkeys) :
    (Holds st'.running id pubkey → Holds st.running id pubkey ∨
      (id, pubkey) ∈ registeredPubkeys event ∧ ∀ other, ¬ Holds st.running other pubkey) ∧
    (Holds st.running id pubkey → Holds st'.running id pubkey ∨
      revokedPubkey event = some (id, pubkey)) := by
  have hfree : st.pubkeys.get? pubkey = none → ∀ other, ¬ Holds st.running other pubkey := by
    rintro hnone other ⟨key, hkey, rfl⟩
    rw [howned.owner other key hkey] at hnone
    cases hnone
  cases event with
  | createAccount id' initialBalance initialKeys =>
    simp only [forwardKeyStep, forwardCreate, bind_eq_ok, ensure_eq_ok] at h
    obtain ⟨_, hnew, _, -, next, hnext, hst⟩ := h
    obtain rfl := Except.ok.inj hst
    rw [holds_insert]
    split_ifs with heq
    · subst heq
      refine ⟨?_, ?_⟩
      · rintro ⟨key, hkey, rfl⟩
        rcases insertKeys_contains hnext hkey with hempty | ⟨hmem, hnone⟩
        · exact absurd hempty Bool.false_ne_true
        · exact .inr ⟨List.mem_map_of_mem (f := fun key => (id, key.pubkeySec1)) hmem, hfree hnone⟩
      · rintro ⟨key, ⟨set, hset, -⟩, -⟩
        rw [OrdMap.contains_eq_false_iff, hset] at hnew
        cases hnew
    · exact ⟨.inl, .inl⟩
  | keyRegistered id' key' authorization =>
    obtain ⟨-, set, hset, -, hnone, hrunning, -⟩ := forwardRegister_eq_ok h
    rw [hrunning, holds_insert]
    split_ifs with heq
    · subst heq
      rw [holds_iff hset]
      refine ⟨?_, ?_⟩
      · rintro ⟨key, hkey, rfl⟩
        rcases OrdMap.contains_insert.mp hkey with rfl | hkey
        · exact .inr ⟨List.mem_singleton_self _, hfree hnone⟩
        · exact .inl ⟨key, hkey, rfl⟩
      · rintro ⟨key, hkey, rfl⟩
        exact .inl ⟨key, OrdMap.contains_insert.mpr (.inr hkey), rfl⟩
    · exact ⟨.inl, .inl⟩
  | keyRevoked id' key' authorization =>
    obtain ⟨-, -, set, hset, -, -, hrunning, -⟩ := forwardRevoke_eq_ok h
    rw [hrunning, holds_insert]
    split_ifs with heq
    · subst heq
      rw [holds_iff hset]
      refine ⟨?_, ?_⟩
      · rintro ⟨key, hkey, rfl⟩
        exact .inl ⟨key, (OrdMap.contains_erase.mp hkey).2, rfl⟩
      · rintro ⟨key, hkey, rfl⟩
        by_cases hsame : key = key'
        · subst hsame
          exact .inr rfl
        · exact .inl ⟨key, OrdMap.contains_erase.mpr ⟨hsame, hkey⟩, rfl⟩
    · exact ⟨.inl, .inl⟩
  | clientActionAuthorized action =>
    obtain ⟨_, -, hst⟩ := bind_eq_ok.mp h
    obtain rfl := Except.ok.inj hst
    exact ⟨.inl, .inl⟩
  | _ =>
    obtain rfl := Except.ok.inj h
    exact ⟨.inl, .inl⟩

/-- Nobody but the owner holds the public key, and the owner does unless a past event revoked it. -/
structure Kept (owner : ℕ) (pubkey : FixedBytes 33) (past : List SystemEventWitness)
    (keys : KeyUniverse) : Prop where
  only : ∀ id, Holds keys id pubkey → id = owner
  held : Holds keys owner pubkey ∨ ∃ event ∈ past, revokedPubkey event = some (owner, pubkey)

theorem Owned.kept {keys : KeyUniverse} {owners : PubkeyOwners} (h : Owned keys owners)
    (hheld : Holds keys owner pubkey) : Kept owner pubkey [] keys := by
  refine ⟨fun id hid => ?_, .inl hheld⟩
  obtain ⟨key, hkey, hpubkey⟩ := hid
  obtain ⟨key', hkey', hpubkey'⟩ := hheld
  exact (h.unique id owner key key' hkey hkey' (hpubkey.trans hpubkey'.symm)).1

namespace Kept

variable {past : List SystemEventWitness} {st' : KeyReplay}

theorem mono {past' : List SystemEventWitness} {keys : KeyUniverse}
    (h : Kept owner pubkey past keys) (hsub : past ⊆ past') : Kept owner pubkey past' keys :=
  ⟨h.only, h.held.imp_right fun ⟨event, hevent, hrevoked⟩ => ⟨event, hsub hevent, hrevoked⟩⟩

/-- **One event.** -/
theorem step (h : Kept owner pubkey past st.running) (howned : Owned st.running st.pubkeys)
    (hstep : forwardKeyStep P w st event = .ok st')
    (hstays : ∀ earlier ∈ past, Stays earlier event) :
    Kept owner pubkey (past ++ [event]) st'.running := by
  refine ⟨fun id hid => ?_, ?_⟩
  · rcases (holds_forwardKeyStep hstep howned).1 hid with hold | ⟨hregistered, hnobody⟩
    · exact h.only id hold
    · obtain ⟨earlier, hearlier, hrevoked⟩ := h.held.resolve_left (hnobody owner)
      exact (hstays earlier hearlier _ hrevoked _ hregistered rfl).symm
  · rcases h.held with hheld | ⟨earlier, hearlier, hrevoked⟩
    · rcases (holds_forwardKeyStep hstep howned).2 hheld with hheld | hrevoked
      · exact .inl hheld
      · exact .inr ⟨event, List.mem_append_right _ (List.mem_singleton_self _), hrevoked⟩
    · exact .inr ⟨earlier, List.mem_append_left _ hearlier, hrevoked⟩

end Kept

/-! ### Signed orders of a block -/

/-- The account and the signer of a signed order. -/
def orderSigner : SystemEventWitness → Option (ℕ × FixedBytes 33)
  | .clientActionAuthorized (.order id _ _ authorization) => some (id, authorization.signerPubkey)
  | _ => none

/-- The account of a signed order holds the key of its signer. -/
theorem holds_of_authorizedAt (h : AuthorizedAt P w st event)
    (hsigner : orderSigner event = some (id, pubkey)) : Holds st.running id pubkey := by
  unfold orderSigner at hsigner
  split at hsigner
  · next id' order nonce authorization =>
    obtain ⟨rfl, rfl⟩ := Prod.mk.inj (Option.some.inj hsigner)
    obtain ⟨message, authorization', hmessage, set, hset, ⟨key, hkey, hpubkey, -⟩, -⟩ := h
    obtain ⟨-, rfl⟩ := Prod.mk.inj (Except.ok.inj hmessage)
    exact ⟨key, hkey, hpubkey⟩
  · exact nomatch hsigner

/-- **A block.**  The key stays with its owner, and every order that it signs is of the owner. -/
theorem Kept.block {past events : List SystemEventWitness} (h : Kept owner pubkey past st.running)
    (howned : Owned st.running st.pubkeys)
    (hrun : events.foldlM (forwardKeyStep P w) st = .ok last)
    (hpast : ∀ earlier ∈ past, ∀ later ∈ events, Stays earlier later)
    (hevents : NoMigration events) :
    Kept owner pubkey (past ++ events) last.running ∧
      ∀ event ∈ events, ∀ id, orderSigner event = some (id, pubkey) → id = owner := by
  induction events generalizing st past with
  | nil =>
    obtain rfl := Except.ok.inj hrun
    exact ⟨h.mono (List.subset_append_left _ _), nofun⟩
  | cons event events ih =>
    obtain ⟨middle, hstep, hrest⟩ := foldlM_cons_eq_ok.mp hrun
    obtain ⟨hauthorized, hkeepsOwned, -⟩ := forwardKeyStep_eq_ok hstep
    obtain ⟨hhead, htail⟩ := List.pairwise_cons.mp hevents
    have hmiddle : Kept owner pubkey (past ++ [event]) middle.running :=
      h.step howned hstep fun earlier hearlier => hpast earlier hearlier event List.mem_cons_self
    have hpast' : ∀ earlier ∈ past ++ [event], ∀ later ∈ events, Stays earlier later := by
      intro earlier hearlier later hlater
      rcases List.mem_append.mp hearlier with hearlier | hearlier
      · exact hpast earlier hearlier later (List.mem_cons_of_mem _ hlater)
      · rw [List.mem_singleton.mp hearlier]
        exact hhead later hlater
    obtain ⟨hlast, hsigners⟩ := ih hmiddle (hkeepsOwned howned) hrest hpast' htail
    rw [List.append_assoc, List.singleton_append] at hlast
    refine ⟨hlast, List.forall_mem_cons.mpr ⟨fun id hsigner => ?_, hsigners⟩⟩
    exact h.only id (holds_of_authorizedAt hauthorized hsigner)

/-! ### From one block to the next -/

/-- The key digests before the block determine the key sets. -/
def BindingKeys (P : Primitives) (w : BlockWitness) : Prop :=
  ∀ a ∈ w.preState, ∀ set set' : KeySet,
    (∀ key, set.contains key = true → validateKeyRecord key = .ok ()) →
    (∀ key, set'.contains key = true → validateKeyRecord key = .ok ()) →
    accountKeysDigest P a.id set.keys = a.keysDigest →
    accountKeysDigest P a.id set'.keys = a.keysDigest → set = set'

namespace RecoveredKeys

/-- A recovered set is that of an account, with its digest. -/
theorem account (h : RecoveredKeys P w preKeys postKeys)
    (hpassed : KeyPassed P w postKeys preKeys last) {set : KeySet}
    (hset : preKeys.get? id = some set) :
    ∃ a ∈ w.preState, a.id = id ∧ a.keysDigest = accountKeysDigest P id set.keys := by
  by_cases hid : id ∈ keyTouchedAccounts w.systemEvents
  · have htouched := h.touched id hid
    split_ifs at htouched
    · rw [htouched.2] at hset
      exact nomatch hset
    · obtain ⟨a, ha, haid, set', hset', hdigest⟩ := htouched
      obtain rfl := Option.some.inj (hset.symm.trans hset')
      exact ⟨a, ha, haid, hdigest⟩
  · have hpost : postKeys.get? id = some set := by
      rw [← hset]
      refine (reverseKeys_untouched h.reverse fun event hevent heq => hid ?_).symm
      exact mem_keyTouchedAccounts.mpr ⟨event, List.mem_reverse.mp hevent, heq⟩
    have hsome : ((accountsOf w.postState).get? id).isSome := by
      rw [← contains_normalizedPostKeyMap hpassed.opened, hpost]
      rfl
    obtain ⟨b, hb, rfl⟩ := List.mem_map.mp (isSome_get?_accountsOf.mp hsome)
    obtain ⟨a, ha, haid, set', hset', -, hdigest⟩ := h.untouched b hb hid
    obtain rfl := Option.some.inj (hset.symm.trans hset')
    exact ⟨a, ha, haid, hdigest⟩

/-- An account before the block has a recovered set. -/
theorem exists_get? (h : RecoveredKeys P w preKeys postKeys)
    (hsystem : verifySystemTransition P w = []) (hkeys : verifyKeys P w = .ok ())
    {a : AccountSnapshot} (ha : a ∈ w.preState) : ∃ set, preKeys.get? a.id = some set := by
  by_cases hid : a.id ∈ keyTouchedAccounts w.systemEvents
  · have htouched := h.touched a.id hid
    split_ifs at htouched
    · exact absurd rfl (htouched.1 a ha)
    · obtain ⟨-, -, -, set, hset, -⟩ := htouched
      exact ⟨set, hset⟩
  · have hpost := (ids_of_accepted hsystem hkeys a.id).2.mpr
      (.inl (isSome_get?_accountsOf.mpr (List.mem_map_of_mem ha)))
    obtain ⟨b, hb, hbid⟩ := List.mem_map.mp (isSome_get?_accountsOf.mp hpost)
    obtain ⟨-, -, -, set, hset, -⟩ := h.untouched b hb (hbid ▸ hid)
    exact ⟨set, hbid ▸ hset⟩

end RecoveredKeys

/-- **The next block starts from the key sets of the last one.** -/
theorem Continues.preKeys_eq {preKeys' postKeys' : KeyUniverse} {last' : KeyReplay}
    (h : Continues w w') (hw : verifyFull P w = []) (hw' : verifyFull P w' = [])
    (hbinding : BindingKeys P w') (hpassed : KeyPassed P w postKeys preKeys last)
    (hpassed' : KeyPassed P w' postKeys' preKeys' last') : preKeys' = postKeys := by
  have haccepted := verifyFull_eq_nil_iff.mp hw
  have haccepted' := verifyFull_eq_nil_iff.mp hw'
  obtain ⟨-, -, hpostIds⟩ := nodup_of_verifyKeys haccepted.keys
  obtain ⟨hpreIds, -, -⟩ := nodup_of_verifyKeys haccepted'.keys
  have hvalidPost := (openedKeys_of_normalized hpassed.opened).2
  have hrecovered := recoveredKeys_of_keyPassed haccepted'.keys hpassed'
  -- An account is in both blocks or in neither, with one digest.
  have hsame := @get?_ofList_of_perm _ _ _ AccountSnapshot.id committedAccount _ _
    (fun _ => rfl) hpreIds hpostIds h.accounts
  refine OrdMap.ext_get? fun id => ?_
  cases hpre : preKeys'.get? id with
  | none =>
    symm
    by_contra hne
    obtain ⟨set, hset⟩ := Option.ne_none_iff_exists'.mp hne
    have hsome : ((accountsOf w.postState).get? id).isSome := by
      rw [← contains_normalizedPostKeyMap hpassed.opened, hset]
      rfl
    have hsome' : ((accountsOf w'.preState).get? id).isSome := by
      rw [← Option.isSome_map (f := committedAccount)] at hsome ⊢
      exact (congrArg Option.isSome (hsame id)).trans hsome
    obtain ⟨a, ha, rfl⟩ := List.mem_map.mp (isSome_get?_accountsOf.mp hsome')
    obtain ⟨set', hset'⟩ := hrecovered.exists_get? haccepted'.system haccepted'.keys ha
    rw [hpre] at hset'
    exact nomatch hset'
  | some set =>
    obtain ⟨a, ha, rfl, hdigest⟩ := hrecovered.account hpassed' hpre
    have hget := hsame a.id
    rw [show OrdMap.ofList (w'.preState.map fun a => (a.id, a)) = accountsOf w'.preState from rfl,
      get?_accountsOf_of_mem hpreIds ha, Option.map_some] at hget
    obtain ⟨b, hb, hcommitted⟩ := Option.map_eq_some_iff.mp hget.symm
    obtain ⟨set', hset', hdigest'⟩ := weldPostKeys_eq_ok.mp hpassed.weldedPost a.id b hb
    have hsameDigest : (committedAccount b).keysDigest = (committedAccount a).keysDigest :=
      congrArg AccountSnapshot.keysDigest hcommitted
    rw [hset', hbinding a ha set set'
      (fun key hkey => hrecovered.valid a.id key ⟨set, hpre, hkey⟩)
      (fun key hkey => hvalidPost a.id key ⟨set', hset', hkey⟩) hdigest.symm
      (hdigest'.symm.trans hsameDigest)]

/-- The replay of a block that passed, from its recovered key sets. -/
theorem KeyPassed.run (h : KeyPassed P w postKeys preKeys last) :
    ∃ st, st.running = preKeys ∧ Owned st.running st.pubkeys ∧
      w.systemEvents.foldlM (forwardKeyStep P w) st = .ok last := by
  obtain ⟨pubkeys, howners, hrun⟩ := bind_eq_ok.mp h.replayed
  exact ⟨_, rfl, owned_of_pubkeyOwnerMap howners, hrun⟩

/-! ## 2.  Signers -/

/-- The system events of a chain, in order. -/
def chainEvents (chain : List BlockWitness) : List SystemEventWitness :=
  chain.flatMap fun w => w.systemEvents

/-- **A chain.**  Every order that the key signs after the block is of the owner. -/
theorem Kept.chain {past : List SystemEventWitness} {chain : List BlockWitness}
    (h : Kept owner pubkey past postKeys) (hpassed : KeyPassed P w postKeys preKeys last)
    (hchain : (w :: chain).IsChain Continues)
    (haccepted : ∀ block ∈ w :: chain, verifyFull P block = [])
    (hbinding : ∀ block ∈ chain, BindingKeys P block)
    (hpast : ∀ earlier ∈ past, ∀ later ∈ chainEvents chain, Stays earlier later)
    (hevents : NoMigration (chainEvents chain)) :
    ∀ event ∈ chainEvents chain, ∀ id, orderSigner event = some (id, pubkey) → id = owner := by
  induction chain generalizing w past preKeys postKeys last with
  | nil => exact nofun
  | cons next chain ih =>
    obtain ⟨hnext, hrest⟩ := List.isChain_cons_cons.mp hchain
    obtain ⟨hw, haccepted⟩ := List.forall_mem_cons.mp haccepted
    obtain ⟨hbound, hbinding⟩ := List.forall_mem_cons.mp hbinding
    have hsplit : chainEvents (next :: chain) = next.systemEvents ++ chainEvents chain :=
      List.flatMap_cons
    rw [hsplit] at hpast hevents ⊢
    obtain ⟨hblock, hlater, hcross⟩ := List.pairwise_append.mp hevents
    have hnextAccepted := haccepted next List.mem_cons_self
    obtain ⟨postKeys', preKeys', last', hpassed'⟩ :=
      keyPassed_of_verifyKeys (verifyFull_eq_nil_iff.mp hnextAccepted).keys
    -- The block starts from the key sets of the last one, where the key is kept.
    obtain ⟨st, hst, howned, hrun⟩ := hpassed'.run
    have hstart : Kept owner pubkey past st.running := by
      rw [hst, hnext.preKeys_eq hw hnextAccepted hbound hpassed hpassed']
      exact h
    obtain ⟨hkept, hsigners⟩ := hstart.block howned hrun
      (fun earlier hearlier later hlater => hpast earlier hearlier later
        (List.mem_append_left _ hlater)) hblock
    rw [hpassed'.running] at hkept
    intro event hevent
    rcases List.mem_append.mp hevent with hevent | hevent
    · exact hsigners event hevent
    · refine ih hkept hpassed' hrest haccepted hbinding (fun earlier hearlier later hlater' => ?_)
        hlater event hevent
      rcases List.mem_append.mp hearlier with hearlier | hearlier
      · exact hpast earlier hearlier later (List.mem_append_right _ hlater')
      · exact hcross earlier hearlier later hlater'

/-- Two orders of one signer are of one account. -/
def SameSigner (event event' : SystemEventWitness) : Prop :=
  ∀ id id' pubkey, orderSigner event = some (id, pubkey) →
    orderSigner event' = some (id', pubkey) → id = id'

instance : Std.Symm SameSigner where
  symm _ _ h id id' pubkey hid hid' := (h id' id pubkey hid' hid).symm

/-- The signer of an order of the block keeps its key to the end of the block, and signs for no
other account. -/
theorem kept_of_signer (hpassed : KeyPassed P w postKeys preKeys last)
    (hevents : NoMigration w.systemEvents) {before later : List SystemEventWitness}
    (hsplit : w.systemEvents = before ++ event :: later)
    (hsigner : orderSigner event = some (owner, pubkey)) :
    Kept owner pubkey w.systemEvents postKeys ∧
      ∀ event' ∈ later, ∀ id, orderSigner event' = some (id, pubkey) → id = owner := by
  obtain ⟨st, -, howned, hrun⟩ := hpassed.run
  rw [hsplit] at hrun hevents
  obtain ⟨middle, hbefore, hrest⟩ := foldlM_append_eq_ok.mp hrun
  obtain ⟨next, hstep, -⟩ := foldlM_cons_eq_ok.mp hrest
  have hmiddle : Owned middle.running middle.pubkeys :=
    invariant_of_foldlM (P := fun st : KeyReplay => Owned st.running st.pubkeys) hbefore
      (fun _ _ _ _ hstep => (forwardKeyStep_eq_ok hstep).2.1) howned
  have hheld := holds_of_authorizedAt (forwardKeyStep_eq_ok hstep).1 hsigner
  obtain ⟨hkept, hsigners⟩ := (hmiddle.kept hheld).block hmiddle hrest nofun
    (List.pairwise_append.mp hevents).2.1
  rw [hpassed.running] at hkept
  refine ⟨hkept.mono ?_, fun event' hevent' => hsigners event' (List.mem_cons_of_mem _ hevent')⟩
  rw [hsplit]
  exact List.subset_append_right _ _

/-- **Along a chain** without migrated keys the orders of one signer are of one account. -/
theorem pairwise_sameSigner {chain : List BlockWitness} (hchain : chain.IsChain Continues)
    (haccepted : ∀ block ∈ chain, verifyFull P block = [])
    (hbinding : ∀ block ∈ chain, BindingKeys P block) (hevents : NoMigration (chainEvents chain)) :
    (chainEvents chain).Pairwise SameSigner := by
  induction chain with
  | nil => exact List.Pairwise.nil
  | cons w chain ih =>
    obtain ⟨hw, hlaterAccepted⟩ := List.forall_mem_cons.mp haccepted
    obtain ⟨-, hlaterBinding⟩ := List.forall_mem_cons.mp hbinding
    obtain ⟨postKeys, preKeys, last, hpassed⟩ :=
      keyPassed_of_verifyKeys (verifyFull_eq_nil_iff.mp hw).keys
    have hsplit : chainEvents (w :: chain) = w.systemEvents ++ chainEvents chain :=
      List.flatMap_cons
    rw [hsplit] at hevents ⊢
    obtain ⟨hblock, hlater, hcross⟩ := List.pairwise_append.mp hevents
    refine List.pairwise_append.mpr ⟨?_, ih hchain.tail hlaterAccepted hlaterBinding hlater, ?_⟩
    · rw [List.pairwise_iff_getElem]
      intro i j hi hj hij id id' pubkey hsigner hsigner'
      have hat : w.systemEvents =
          w.systemEvents.take i ++ w.systemEvents[i] :: w.systemEvents.drop (i + 1) := by
        rw [List.getElem_cons_drop, List.take_append_drop]
      have hlast : w.systemEvents[j] ∈ w.systemEvents.drop (i + 1) :=
        List.mem_drop_iff_getElem.mpr ⟨j - (i + 1), by omega, by congr 1; omega⟩
      exact ((kept_of_signer hpassed hblock hat hsigner).2 _ hlast id' hsigner').symm
    · intro event hevent event' hevent' id id' pubkey hsigner hsigner'
      obtain ⟨before, later, hsplit⟩ := List.append_of_mem hevent
      obtain ⟨hkept, -⟩ := kept_of_signer hpassed hblock hsplit hsigner
      exact (hkept.chain hpassed hchain haccepted hlaterBinding hcross hlater event' hevent' id'
        hsigner').symm

/-- A signed order: the same message, signer and signature are accepted on one account only. -/
def SingleAccount (chain : List BlockWitness) : Prop :=
  ∀ w ∈ chain, ∀ w' ∈ chain, ∀ id id' order order' nonce nonce' authorization,
    .clientActionAuthorized (.order id order nonce authorization) ∈ w.systemEvents →
    .clientActionAuthorized (.order id' order' nonce' authorization) ∈ w'.systemEvents →
    Signing.canonicalOrderBytes order nonce w.genesisHash =
      Signing.canonicalOrderBytes order' nonce' w'.genesisHash → id = id'

/-- **A signed order executes on one account**, along a chain in which no key moves from one account
to another. -/
theorem signedOrder_single_account {chain : List BlockWitness} (hchain : chain.IsChain Continues)
    (haccepted : ∀ w ∈ chain, verifyFull P w = []) (hbinding : ∀ w ∈ chain, BindingKeys P w)
    (hevents : NoMigration (chainEvents chain)) : SingleAccount chain := by
  intro w hw w' hw' id id' order order' nonce nonce' authorization hevent hevent' _
  have hpairs := pairwise_sameSigner hchain haccepted hbinding hevents
  have hself : ∀ event ∈ chainEvents chain, SameSigner event event := by
    intro event _ id id' pubkey hid hid'
    exact (Prod.mk.inj (Option.some.inj (hid.symm.trans hid'))).1
  exact hpairs.forall_of_forall hself (List.mem_flatMap.mpr ⟨w, hw, hevent⟩)
    (List.mem_flatMap.mpr ⟨w', hw', hevent'⟩) id id' authorization.signerPubkey rfl rfl

/-- A hash that tells the encodings of the keys from everything else binds them. -/
theorem bindingKeys_separating {encodings : List Bytes} (hlength : encodings.length < 256 ^ 32)
    (h : ∀ a ∈ w.preState, ∃ keys, keysEncoding a.id keys ∈ encodings ∧
      a.keysDigest = accountKeysDigest (separating encodings) a.id keys) :
    BindingKeys (separating encodings) w := by
  intro a ha set set' hset hset' hdigest hdigest'
  obtain ⟨keys, hmem, hkeys⟩ := h a ha
  rw [hkeys] at hdigest hdigest'
  exact keysEncoding_inj hset hset' ((separating_inj hlength hmem hdigest).trans
    (separating_inj hlength hmem hdigest').symm)

/-- An account with money and keys. -/
def keyedTrader (P : Primitives) (id nonce : ℕ) (keys : List KeyRecord) (eventsDigest : Digest) :
    AccountSnapshot :=
  { freshAccount P id 2000000000 [] with
    keysDigest := accountKeysDigest P id keys
    lastTradingNonce := nonce
    eventsDigest }

/-- The key sets of two accounts. -/
def pairKeys (first second : List KeyRecord) : KeyUniverse :=
  OrdMap.ofList [(1, keySetOf first), (2, keySetOf second)]

/-- Two accounts with their keys. -/
structure PairOf (P : Primitives) (first second : List KeyRecord) (l : List AccountSnapshot) :
    Prop where
  accounts : ∃ nonce nonce' digest digest',
    l = [keyedTrader P 1 nonce first digest, keyedTrader P 2 nonce' second digest']
  sorted : (keySetOf first).keys = first ∧ (keySetOf second).keys = second

theorem PairOf.get? (h : PairOf P first second l) (hid : id ∈ [1, 2]) :
    ∃ a keys, (accountsOf l).get? id = some a ∧ (pairKeys first second).get? id = some keys ∧
      a.keysDigest = accountKeysDigest P id keys.keys := by
  obtain ⟨nonce, nonce', digest, digest', rfl⟩ := h.accounts
  rcases List.mem_pair.mp hid with rfl | rfl
  · exact ⟨_, keySetOf first, rfl, rfl, congrArg (accountKeysDigest P 1) h.sorted.1.symm⟩
  · exact ⟨_, keySetOf second, rfl, rfl, congrArg (accountKeysDigest P 2) h.sorted.2.symm⟩

theorem PairOf.mem (h : PairOf P first second l) {a : AccountSnapshot}
    (ha : (accountsOf l).get? id = some a) : id ∈ [1, 2] := by
  obtain ⟨nonce, nonce', digest, digest', rfl⟩ := h.accounts
  obtain ⟨hmem, rfl⟩ := mem_of_get?_accountsOf ha
  rcases List.mem_pair.mp hmem with rfl | rfl
  · exact List.mem_cons_self
  · exact List.mem_cons_of_mem _ List.mem_cons_self

theorem PairOf.weldPostKeys (h : PairOf P first second l) (label : String) :
    weldPostKeys P (pairKeys first second) (accountsOf l) label = .ok () := by
  rw [weldPostKeys_eq_ok]
  intro id a ha
  obtain ⟨b, keys, hb, hkeys, hdigest⟩ := h.get? (h.mem ha)
  obtain rfl := Option.some.inj (ha.symm.trans hb)
  exact ⟨keys, hkeys, hdigest⟩

/-- The keys before the block are recovered, where each account is touched or keeps its keys. -/
theorem PairOf.recoverPreKeys {first' second' : List KeyRecord}
    (hpre : PairOf P first second w.preState) (hpost : PairOf P first' second' w.postState)
    (hreverse : w.systemEvents.reverse.foldlM reverseKeyStep (pairKeys first' second') =
      .ok (pairKeys first second))
    (hunique : ensureGlobalPubkeyUniqueness (pairKeys first second)
      "recovered pre key universe" = .ok ())
    (hcreates : ∀ id, w.systemEvents.any (createsAccount id) = false)
    (htouched : keyTouchedAccounts w.systemEvents = [1, 2] ∨
      keyTouchedAccounts w.systemEvents = [] ∧ first = first' ∧ second = second') :
    recoverPreKeys P w (accountsOf w.preState) (accountsOf w.postState)
      (pairKeys first' second') = .ok (pairKeys first second) := by
  simp only [Verifier.recoverPreKeys, bind_eq_ok, checkAll_eq_ok]
  refine ⟨_, hreverse, (), hunique, (), fun id hid => ?_, (), ?_, rfl⟩
  · have hmem : id ∈ [1, 2] := by
      rcases htouched with htouched | ⟨htouched, -⟩ <;> rw [htouched] at hid
      · exact hid
      · exact absurd hid List.not_mem_nil
    obtain ⟨a, keys, ha, hkeys, hdigest⟩ := hpre.get? hmem
    rw [checkTouchedKeys, hcreates, if_neg Bool.false_ne_true]
    exact bind_eq_ok.mpr ⟨a, okOr_eq_ok.mpr ha,
      bind_eq_ok.mpr ⟨keys, okOr_eq_ok.mpr hkeys, ensure_eq_ok.mpr hdigest⟩⟩
  · rintro ⟨id, a⟩ hentry
    have ha := OrdMap.mem_entries_iff.mp hentry
    have hmem := hpost.mem ha
    rw [checkUntouchedKeys]
    rcases htouched with htouched | ⟨htouched, rfl, rfl⟩ <;> rw [htouched]
    · rw [if_pos hmem]
    · obtain ⟨b, keys, hb, hkeys, hdigest⟩ := hpre.get? hmem
      obtain ⟨b', keys', hb', hkeys', hdigest'⟩ := hpost.get? hmem
      obtain rfl := Option.some.inj (ha.symm.trans hb')
      obtain rfl := Option.some.inj (hkeys.symm.trans hkeys')
      rw [if_neg List.not_mem_nil]
      exact bind_eq_ok.mpr ⟨b, okOr_eq_ok.mpr hb,
        ensure_eq_ok.mpr (hdigest.trans hdigest'.symm)⟩

theorem PairOf.accountMap (h : PairOf P first second l) (label : String) :
    accountMap l label = .ok (accountsOf l) := by
  obtain ⟨nonce, nonce', digest, digest', rfl⟩ := h.accounts
  exact collectDistinct_eq_ok.mpr ⟨by simp [keyedTrader, freshAccount], rfl⟩

/-- **Two accounts with keys.**  The key pass accepts a block over two accounts when it can be
undone and replayed between their key sets. -/
theorem PairOf.verifyKeys {first' second' : List KeyRecord}
    (hpre : PairOf P first second w.preState) (hpost : PairOf P first' second' w.postState)
    (hsystem : w.postSystemState = w.postState)
    (hopened : normalizedPostKeyMap w (accountsOf w.postState) = .ok (pairKeys first' second'))
    (hshape : ensureGlobalPubkeyUniqueness (pairKeys first' second') "post key universe" = .ok () ∧
      (w.systemEvents.filter isKeyOp).length ≤ maxKeyOpsPerBlock ∧
      verifyKeyEventOrder w.systemEvents = .ok ())
    (hrecovered : Verifier.recoverPreKeys P w (accountsOf w.preState) (accountsOf w.postState)
      (pairKeys first' second') = .ok (pairKeys first second))
    (hreplay : (replayKeys P w (accountsOf w.preState) (pairKeys first second)).toOption.map
      (fun st => st.running) = some (pairKeys first' second')) : verifyKeys P w = .ok () := by
  obtain ⟨last, hlast, hrunning⟩ := Option.map_eq_some_iff.mp hreplay
  have hreplayed : replayKeys P w (accountsOf w.preState) (pairKeys first second) = .ok last := by
    cases hrun : replayKeys P w (accountsOf w.preState) (pairKeys first second) with
    | error details => simp [hrun, Except.toOption] at hlast
    | ok final => simpa [hrun, Except.toOption] using hlast
  simp only [Verifier.verifyKeys, bind_eq_ok]
  refine ⟨_, hpre.accountMap _, _, (hsystem ▸ hpost).accountMap _, _, hpost.accountMap _, _,
    hopened, (), (hsystem ▸ hpost).weldPostKeys _, (), hpost.weldPostKeys _, (), hshape.1, (),
    ensure_eq_ok.mpr hshape.2.1, (), hshape.2.2, _, hrecovered, last, hreplayed, _, hopened,
    ensure_eq_ok.mpr hrunning⟩

/-- A buy at forty cents under its id. -/
def numberedBuy (id : ℕ) : Order := { yesBuy 400000000 with id }

/-- The buy of an account, signed with a key. -/
def signedBuy (account orderId nonce key : ℕ) : SystemEventWitness :=
  .clientActionAuthorized
    (.order account (numberedBuy orderId) nonce (.rawP256 (numberedKey key).pubkeySec1 0))

/-- A book of such buys with their owners. -/
def buysSidecar (P : Primitives) (owners : List (ℕ × ℕ)) (reserved : Nanos) :
    StateSidecarSnapshot :=
  { oneMarketSidecar P [] with
    restingOrders := owners.map fun owned =>
      ⟨numberedBuy owned.1, owned.2, 0, 10, 400000000, []⟩
    accountReservations := [⟨1, reserved, []⟩, ⟨2, reserved, []⟩] }

/-- The accounts after account 1 revoked a key and account 2 registered one. -/
def rotatedAccounts (P : Primitives) (nonce : ℕ) : List AccountSnapshot :=
  [keyedTrader P 1 nonce [numberedKey 1]
      (updateDigest P 0 (encodeKeyEvent 0x0b (numberedKey 0) 2)),
    keyedTrader P 2 nonce [numberedKey 2, numberedKey 3]
      (updateDigest P 0 (encodeKeyEvent 0x0a (numberedKey 3) 2))]

/-- Account 1 signs an order and revokes the key; account 2 registers another key and signs an
order with it. -/
def rotationBlock (P : Primitives) : BlockWitness :=
  secondBlock P
    { idleContent [keyedTrader P 1 0 [numberedKey 0, numberedKey 1] 0,
          keyedTrader P 2 0 [numberedKey 2] 0] (rotatedAccounts P 1) (oneMarketSidecar P [])
        (buysSidecar P [(1, 1), (2, 2)] 400000000)
        [signedBuy 1 1 1 0, .keyRevoked 1 (numberedKey 0) (.rawP256 (numberedKey 1).pubkeySec1 0),
          .keyRegistered 2 (numberedKey 3) (.rawP256 (numberedKey 2).pubkeySec1 0),
          signedBuy 2 2 1 3] with
      orders := [⟨numberedBuy 1, 1, false⟩, ⟨numberedBuy 2, 2, false⟩]
      accountKeys := [(1, [numberedKey 1]), (2, [numberedKey 2, numberedKey 3])] }

/-- In the next block each account signs an order with a key that it kept. -/
def keptKeysBlock (P : Primitives) : BlockWitness :=
  nextBlock P (rotationBlock P).header
    { idleContent (rotatedAccounts P 1) (rotatedAccounts P 2)
        (buysSidecar P [(1, 1), (2, 2)] 400000000)
        (buysSidecar P [(1, 1), (2, 2), (3, 1), (4, 2)] 800000000)
        [signedBuy 1 3 2 1, signedBuy 2 4 2 2] with
      orders := [⟨numberedBuy 1, 1, false⟩, ⟨numberedBuy 2, 2, false⟩, ⟨numberedBuy 3, 1, false⟩,
        ⟨numberedBuy 4, 2, false⟩]
      accountKeys := [(1, [numberedKey 1]), (2, [numberedKey 2, numberedKey 3])] }

/-- The key sets that the two blocks start from. -/
def rotationEncodings : List Bytes :=
  [keysEncoding 1 [numberedKey 0, numberedKey 1], keysEncoding 2 [numberedKey 2],
    keysEncoding 1 [numberedKey 1], keysEncoding 2 [numberedKey 2, numberedKey 3]]

/-- Primitives whose hash binds these key sets. -/
def rotationP : Primitives := separating rotationEncodings

theorem pairOf_rotatedAccounts (P : Primitives) (nonce : ℕ) :
    PairOf P [numberedKey 1] [numberedKey 2, numberedKey 3] (rotatedAccounts P nonce) :=
  ⟨⟨_, _, _, _, rfl⟩, rfl, rfl⟩

theorem verifyFull_rotationBlock : verifyFull rotationP (rotationBlock rotationP) = [] := by
  have hpre : PairOf rotationP [numberedKey 0, numberedKey 1] [numberedKey 2]
    (rotationBlock rotationP).preState := ⟨⟨_, _, _, _, rfl⟩, rfl, rfl⟩
  have hpost := pairOf_rotatedAccounts rotationP 1
  exact verifyFull_eq_nil_iff.mpr
    { match_ := List.isEmpty_iff.mp (by decide +kernel)
      system := List.isEmpty_iff.mp (by decide +kernel)
      keys := hpre.verifyKeys hpost rfl rfl ⟨rfl, by decide, rfl⟩
        (hpre.recoverPreKeys hpost rfl rfl (fun _ => rfl) (.inl rfl)) (by decide +kernel)
      bindings := rfl
      settlement := List.isEmpty_iff.mp (by decide +kernel)
      block := verifyBlock_secondBlock _ _
      orders := List.isEmpty_iff.mp (by decide +kernel)
      sidecar := verifySidecar_eq_nil_iff.mp (List.isEmpty_iff.mp (by decide +kernel)) }

theorem verifyFull_keptKeysBlock : verifyFull rotationP (keptKeysBlock rotationP) = [] := by
  have hpre := pairOf_rotatedAccounts rotationP 1
  have hpost := pairOf_rotatedAccounts rotationP 2
  exact verifyFull_eq_nil_iff.mpr
    { match_ := List.isEmpty_iff.mp (by decide +kernel)
      system := List.isEmpty_iff.mp (by decide +kernel)
      keys := hpre.verifyKeys hpost rfl rfl ⟨rfl, by decide, rfl⟩
        (hpre.recoverPreKeys hpost rfl rfl (fun _ => rfl) (.inr ⟨rfl, rfl, rfl⟩))
        (by decide +kernel)
      bindings := rfl
      settlement := List.isEmpty_iff.mp (by decide +kernel)
      block := verifyBlock_nextBlock rfl
      orders := List.isEmpty_iff.mp (by decide +kernel)
      sidecar := verifySidecar_eq_nil_iff.mp (List.isEmpty_iff.mp (by decide +kernel)) }

/-- Two accounts sign orders over two blocks, one drops a key and one takes a new one. -/
theorem signedOrder_single_account_rotation :
    (∀ w ∈ [rotationBlock rotationP, keptKeysBlock rotationP], verifyFull rotationP w = []) ∧
      NoMigration (chainEvents [rotationBlock rotationP, keptKeysBlock rotationP]) ∧
      SingleAccount [rotationBlock rotationP, keptKeysBlock rotationP] := by
  have haccepted : ∀ w ∈ [rotationBlock rotationP, keptKeysBlock rotationP],
      verifyFull rotationP w = [] :=
    List.forall_mem_cons.mpr
      ⟨verifyFull_rotationBlock, List.forall_mem_singleton.mpr verifyFull_keptKeysBlock⟩
  have hevents : NoMigration (chainEvents [rotationBlock rotationP, keptKeysBlock rotationP]) := by
    unfold NoMigration Stays
    decide +kernel
  have hbinding : ∀ w ∈ [rotationBlock rotationP, keptKeysBlock rotationP],
      BindingKeys rotationP w := by
    have hlength : rotationEncodings.length < 256 ^ 32 := by decide +kernel
    refine List.forall_mem_cons.mpr ⟨bindingKeys_separating hlength fun a ha => ?_,
      List.forall_mem_singleton.mpr (bindingKeys_separating hlength fun a ha => ?_)⟩
    · rcases List.mem_pair.mp ha with rfl | rfl
      · exact ⟨[numberedKey 0, numberedKey 1], List.mem_cons_self, rfl⟩
      · exact ⟨[numberedKey 2], List.mem_cons_of_mem _ List.mem_cons_self, rfl⟩
    · rcases List.mem_pair.mp ha with rfl | rfl
      · exact ⟨[numberedKey 1],
          List.mem_cons_of_mem _ (List.mem_cons_of_mem _ List.mem_cons_self), rfl⟩
      · exact ⟨[numberedKey 2, numberedKey 3], List.mem_of_getLast? rfl, rfl⟩
  exact ⟨haccepted, hevents, signedOrder_single_account
    (List.isChain_pair.mpr ⟨rfl, rfl, .refl _, .refl _⟩) haccepted hbinding hevents⟩

/-! ## 3.  A signed order on two accounts -/

/-- The order of account `1`, with a new id. -/
def replayedBuy : Order := { yesBuy 400000000 with id := 2 }

/-- The signature of the order. -/
def orderSignature : KeyOpAuth := .rawP256 (numberedKey 0).pubkeySec1 0

/-- Account `1` signs an order and revokes the key; account `2` registers the key, and the signed
order is accepted for it as well. -/
def migration : List SystemEventWitness :=
  [.clientActionAuthorized (.order 1 (yesBuy 400000000) 1 orderSignature),
    .keyRevoked 1 (numberedKey 0) (.rawP256 (numberedKey 1).pubkeySec1 0),
    .keyRegistered 2 (numberedKey 0) (.rawP256 (numberedKey 2).pubkeySec1 0),
    .clientActionAuthorized (.order 2 replayedBuy 1 orderSignature)]

/-- The accounts before the block. -/
def migrationPre (P : Primitives) : List AccountSnapshot :=
  [keyedTrader P 1 0 [numberedKey 0, numberedKey 1] 0, keyedTrader P 2 0 [numberedKey 2] 0]

/-- The accounts after the block. -/
def migrationPost (P : Primitives) : List AccountSnapshot :=
  [keyedTrader P 1 1 [numberedKey 1] (updateDigest P 0 (encodeKeyEvent 0x0b (numberedKey 0) 2)),
    keyedTrader P 2 1 [numberedKey 0, numberedKey 2]
      (updateDigest P 0 (encodeKeyEvent 0x0a (numberedKey 0) 2))]

/-- The book after the block, with an order of each account. -/
def migrationSidecar (P : Primitives) : StateSidecarSnapshot :=
  { oneMarketSidecar P [] with
    restingOrders := [⟨yesBuy 400000000, 1, 0, 10, 400000000, []⟩,
      ⟨replayedBuy, 2, 0, 10, 400000000, []⟩]
    accountReservations := [⟨1, 400000000, []⟩, ⟨2, 400000000, []⟩] }

/-- The block in which the key moves. -/
def migrationBlock (P : Primitives) : BlockWitness :=
  secondBlock P
    { idleContent (migrationPre P) (migrationPost P) (oneMarketSidecar P []) (migrationSidecar P)
        migration with
      orders := [⟨yesBuy 400000000, 1, false⟩, ⟨replayedBuy, 2, false⟩]
      accountKeys := [(1, [numberedKey 1]), (2, [numberedKey 0, numberedKey 2])] }

/-- The signature check accepts the one signature of the order, and those of the key events. -/
structure MigrationSigned (P : Primitives) : Prop where
  order : P.verifyP256Prehash (numberedKey 0).pubkeySec1 0
    (P.sha256 (Signing.canonicalOrderBytes (yesBuy 400000000) 1 0)) = .ok ()
  revocation : P.verifyP256Prehash (numberedKey 1).pubkeySec1 0
    (P.sha256 (Signing.canonicalKeyRevocationBytes 0 1 (numberedKey 0)
      (accountKeysDigest P 1 [numberedKey 0, numberedKey 1]) 0)) = .ok ()
  registration : P.verifyP256Prehash (numberedKey 2).pubkeySec1 0
    (P.sha256 (Signing.canonicalKeyRegistrationBytes 0 2 (numberedKey 0)
      (accountKeysDigest P 2 [numberedKey 2]) 0)) = .ok ()

theorem normalizedPostKeyMap_migration (P : Primitives) :
    normalizedPostKeyMap (migrationBlock P) (accountsOf (migrationPost P)) =
      .ok (pairKeys [numberedKey 1] [numberedKey 0, numberedKey 2]) := by
  rfl

theorem pairOf_migrationPre (P : Primitives) :
    PairOf P [numberedKey 0, numberedKey 1] [numberedKey 2] (migrationPre P) :=
  ⟨⟨_, _, _, _, rfl⟩, rfl, rfl⟩

theorem pairOf_migrationPost (P : Primitives) :
    PairOf P [numberedKey 1] [numberedKey 0, numberedKey 2] (migrationPost P) :=
  ⟨⟨_, _, _, _, rfl⟩, rfl, rfl⟩

/-- A state of the replay. -/
def migrationReplay (first second : List KeyRecord) (owners : List (ℕ × ℕ))
    (firstEvents secondEvents : Digest) : KeyReplay where
  running := pairKeys first second
  pubkeys := OrdMap.ofList (owners.map fun owned => ((numberedKey owned.1).pubkeySec1, owned.2))
  runningEvents := OrdMap.ofList [(1, firstEvents), (2, secondEvents)]

/-- The keys before the block. -/
def beforeMigration : KeyReplay :=
  migrationReplay [numberedKey 0, numberedKey 1] [numberedKey 2] [(0, 1), (1, 1), (2, 2)] 0 0

/-- The keys between the two key events. -/
def afterRevocation (P : Primitives) : KeyReplay :=
  migrationReplay [numberedKey 1] [numberedKey 2] [(1, 1), (2, 2)]
    (updateDigest P 0 (encodeKeyEvent 0x0b (numberedKey 0) 2)) 0

/-- The keys after the block. -/
def afterMigration (P : Primitives) : KeyReplay :=
  migrationReplay [numberedKey 1] [numberedKey 0, numberedKey 2] [(0, 2), (1, 1), (2, 2)]
    (updateDigest P 0 (encodeKeyEvent 0x0b (numberedKey 0) 2))
    (updateDigest P 0 (encodeKeyEvent 0x0a (numberedKey 0) 2))

namespace MigrationSigned

/-- The signature of the order verifies wherever the key is active. -/
theorem order_accepted (h : MigrationSigned P) {keys : List KeyRecord}
    (hkeys : numberedKey 0 ∈ keys) :
    verifyKeyopAuth P orderSignature keys (Signing.canonicalOrderBytes (yesBuy 400000000) 1 0) =
      .ok () :=
  bind_eq_ok.mpr ⟨(), ensure_eq_ok.mpr ⟨numberedKey 0, hkeys, rfl, rfl⟩, h.order⟩

theorem step_order (h : MigrationSigned P) :
    forwardKeyStep P (migrationBlock P) beforeMigration
      (.clientActionAuthorized (.order 1 (yesBuy 400000000) 1 orderSignature)) =
        .ok beforeMigration := by
  refine bind_eq_ok.mpr ⟨(), bind_eq_ok.mpr ⟨_, rfl, bind_eq_ok.mpr ⟨_, rfl, ?_⟩⟩, rfl⟩
  exact mapError_eq_ok.mpr (h.order_accepted (by decide))

theorem step_revoke (h : MigrationSigned P) :
    forwardKeyStep P (migrationBlock P) beforeMigration
      (.keyRevoked 1 (numberedKey 0) (.rawP256 (numberedKey 1).pubkeySec1 0)) =
        .ok (afterRevocation P) := by
  simp only [forwardKeyStep, forwardRevoke, bind_eq_ok]
  refine ⟨(), rfl, _, rfl, _, rfl, (), mapError_eq_ok.mpr ?_, (), rfl, (), rfl, rfl⟩
  exact bind_eq_ok.mpr ⟨(), rfl, h.revocation⟩

theorem step_register (h : MigrationSigned P) :
    forwardKeyStep P (migrationBlock P) (afterRevocation P)
      (.keyRegistered 2 (numberedKey 0) (.rawP256 (numberedKey 2).pubkeySec1 0)) =
        .ok (afterMigration P) := by
  simp only [forwardKeyStep, forwardRegister, bind_eq_ok]
  refine ⟨(), rfl, _, rfl, _, rfl, (), mapError_eq_ok.mpr ?_, (), rfl, _, rfl, rfl⟩
  exact bind_eq_ok.mpr ⟨(), rfl, h.registration⟩

theorem step_replay (h : MigrationSigned P) :
    forwardKeyStep P (migrationBlock P) (afterMigration P)
      (.clientActionAuthorized (.order 2 replayedBuy 1 orderSignature)) =
        .ok (afterMigration P) := by
  refine bind_eq_ok.mpr ⟨(), bind_eq_ok.mpr ⟨_, rfl, bind_eq_ok.mpr ⟨_, rfl, ?_⟩⟩, rfl⟩
  exact mapError_eq_ok.mpr (h.order_accepted (by decide))

theorem replay (h : MigrationSigned P) :
    replayKeys P (migrationBlock P) (accountsOf (migrationPre P))
      (pairKeys [numberedKey 0, numberedKey 1] [numberedKey 2]) = .ok (afterMigration P) := by
  refine bind_eq_ok.mpr ⟨beforeMigration.pubkeys, rfl, ?_⟩
  exact foldlM_cons_eq_ok.mpr ⟨_, h.step_order, foldlM_cons_eq_ok.mpr ⟨_, h.step_revoke,
    foldlM_cons_eq_ok.mpr ⟨_, h.step_register, foldlM_cons_eq_ok.mpr ⟨_, h.step_replay, rfl⟩⟩⟩⟩

theorem keys (h : MigrationSigned P) : verifyKeys P (migrationBlock P) = .ok () := by
  have hrecovered := (pairOf_migrationPre P).recoverPreKeys (w := migrationBlock P)
    (pairOf_migrationPost P) rfl rfl (fun _ => rfl) (.inl rfl)
  have hops : (migration.filter isKeyOp).length ≤ maxKeyOpsPerBlock := by decide
  refine (pairOf_migrationPre P).verifyKeys (w := migrationBlock P) (pairOf_migrationPost P) rfl
    (normalizedPostKeyMap_migration P) ⟨rfl, hops, rfl⟩ hrecovered ?_
  exact congrArg (fun run => run.toOption.map fun st => st.running) h.replay

theorem system (P : Primitives) : verifySystemTransition P (migrationBlock P) = [] := by
  -- The replay of the system events leaves the key digests alone.
  refine verifySystemTransition_eq_nil_iff.mpr ⟨accountsOf
    [keyedTrader P 1 1 [numberedKey 0, numberedKey 1]
      (updateDigest P 0 (encodeKeyEvent 0x0b (numberedKey 0) 2)),
    keyedTrader P 2 1 [numberedKey 2]
      (updateDigest P 0 (encodeKeyEvent 0x0a (numberedKey 0) 2))], rfl, fun id => ?_⟩
  have hother : ∀ a b : AccountSnapshot, id ≠ a.id → id ≠ b.id →
      (accountsOf [a, b]).get? id = none := by
    intro a b ha hb
    refine Option.eq_none_iff_forall_ne_some.mpr fun c hc => ?_
    obtain ⟨hmem, rfl⟩ := mem_of_get?_accountsOf hc
    rcases List.mem_pair.mp hmem with rfl | rfl
    · exact ha rfl
    · exact hb rfl
  by_cases hfirst : id = 1
  · subst hfirst
    exact .inr ⟨_, _, rfl, rfl, decide_eq_true ⟨rfl, rfl, rfl, rfl, rfl⟩⟩
  by_cases hsecond : id = 2
  · subst hsecond
    exact .inr ⟨_, _, rfl, rfl, decide_eq_true ⟨rfl, rfl, rfl, rfl, rfl⟩⟩
  · exact .inl ⟨hother _ _ hfirst hsecond, hother _ _ hfirst hsecond⟩

theorem accepted (h : MigrationSigned P) : verifyFull P (migrationBlock P) = [] := by
  have htotals : marketTotals (startAccounts (migrationPost P)) = ([], []) := rfl
  exact verifyFull_eq_nil_iff.mpr
    { match_ := rfl
      system := system P
      keys := h.keys
      bindings := rfl
      settlement := verifySettlement_of_no_fills rfl rfl rfl htotals rfl rfl rfl
      block := verifyBlock_secondBlock P _
      orders := rfl
      sidecar := ⟨rfl, rfl, rfl, rfl, verifyDepositAccumulator_of_idle rfl rfl rfl rfl
        (depositRootFromFrontier_fresh P) rfl, rfl, rfl, rfl⟩ }

end MigrationSigned

/-- **A signed order on two accounts.**  Whatever the hash is, if the signatures of the two key
events and the one signature of the order verify, the block is accepted, and with it the order for
both accounts. -/
theorem signedOrder_replayed :
    (∃ P, MigrationSigned P) ∧ ∀ P, MigrationSigned P →
      verifyFull P (migrationBlock P) = [] ∧ [migrationBlock P].IsChain Continues ∧
        ¬ SingleAccount [migrationBlock P] := by
  refine ⟨⟨separating [], rfl, rfl, rfl⟩, fun P hP => ⟨hP.accepted, List.isChain_singleton _, ?_⟩⟩
  intro hsingle
  have hagain : .clientActionAuthorized (.order 2 replayedBuy 1 orderSignature) ∈ migration := by
    simp [migration]
  have hsame : (1 : ℕ) = 2 := hsingle _ (List.mem_singleton_self _) _ (List.mem_singleton_self _)
    1 2 (yesBuy 400000000) replayedBuy 1 1 orderSignature List.mem_cons_self hagain rfl
  exact absurd hsame (by decide)

end Sybil.Verifier
