import Sybil.Verifier.Chain
import Sybil.Verifier.ClientIntent
import Sybil.Verifier.ResolutionPayout

/-!
# Accounts and nonces

No pass states which accounts a block has.  It follows from three of them together:
the system pass replays the events over the accounts before the block and finds the
post-system accounts, the key pass opens the key sets of the accounts after the block
and welds the post-system accounts to them, and an account after the block that no key
event touches must have been there before.  Settlement alone would let an empty
account disappear.

## 1.  One event

An event adds the account it creates, which was absent, and no other
(`contains_applyEvent`).  It moves the trading nonce of an account only when it
authorizes an action of that account, and then upwards
(`tradingNonce_of_unauthorized`, `tradingNonce_of_authorized`).

## 2.  One block

The accounts after an accepted block are those before it and those it creates, and the
nonces it authorizes for an account increase from the one committed before the block
to the one committed after it (`universeKept_of_accepted`).

## 3.  A chain

Over a chain of blocks the nonces of an account increase throughout, so no nonce is
used twice.
-/

namespace Sybil.Verifier

open Engine

variable {P : Primitives} {w w' : BlockWitness} {height : ℕ} {accounts next final : Accounts}
  {event : SystemEventWitness} {events : List SystemEventWitness} {id : ℕ}

variable {a : AccountSnapshot} {encoded : Bytes}

/-! ## 1.  One event -/

/-- The account that an event creates. -/
def createdId : SystemEventWitness → Option ℕ
  | .createAccount accountId _ _ => some accountId
  | _ => none

/-- Account and nonce that an event authorizes. -/
def authorizedNonce : SystemEventWitness → Option (ℕ × ℕ)
  | .clientActionAuthorized action => some action.accountNonce
  | _ => none

/-- The trading nonce of an account; zero when the account is absent. -/
def tradingNonce (accounts : Accounts) (id : ℕ) : ℕ :=
  ((accounts.get? id).map AccountSnapshot.lastTradingNonce).getD 0

theorem tradingNonce_of_get? (h : accounts.get? id = some a) :
    tradingNonce accounts id = a.lastTradingNonce := by
  rw [tradingNonce, h]
  rfl

theorem tradingNonce_insert {k : ℕ} :
    tradingNonce (accounts.insert k a) id =
      if id = k then a.lastTradingNonce else tradingNonce accounts id := by
  rw [tradingNonce, OrdMap.get?_insert]
  split_ifs <;> rfl

theorem contains_resolve {market : MarketId} {payout : Nanos} {affected : List ℕ}
    (h : affected.foldlM (resolveStep P height market payout) accounts = .ok next) :
    (next.get? id).isSome = (accounts.get? id).isSome := by
  refine invariant_of_foldlM (P := fun m : Accounts => (m.get? id).isSome =
    (accounts.get? id).isSome) h (fun m m' k _ hstep hm => ?_) rfl
  obtain ⟨a, a', ha, -, rfl⟩ := resolveStep_eq_ok.mp hstep
  rw [OrdMap.get?_insert, ← hm]
  split_ifs with hid
  · rw [hid, ha]
    rfl
  · rfl

/-- A creation is the event of a created account. -/
theorem createdId_eq_some {k : ℕ} :
    createdId event = some k ↔ ∃ balance keys, event = .createAccount k balance keys := by
  constructor
  · intro h
    cases event with
    | createAccount k' balance keys =>
      obtain rfl := Option.some.inj h
      exact ⟨balance, keys, rfl⟩
    | _ => exact nomatch h
  · rintro ⟨balance, keys, rfl⟩
    rfl

/-- A created account was absent. -/
theorem fresh_applyEvent (h : applyEvent P height accounts event = .ok next)
    (hcreated : createdId event = some id) :
    accounts.get? id = none ∧ (next.get? id).isSome := by
  obtain ⟨balance, keys, rfl⟩ := createdId_eq_some.mp hcreated
  simp only [applyEvent] at h
  split_ifs at h with hcontains
  obtain rfl := Except.ok.inj h
  rw [Bool.not_eq_true, OrdMap.contains_eq_false_iff] at hcontains
  exact ⟨hcontains, by simp⟩

/-- **Accounts along an event.** -/
theorem contains_applyEvent (h : applyEvent P height accounts event = .ok next) (id : ℕ) :
    (next.get? id).isSome ↔ (accounts.get? id).isSome ∨ createdId event = some id := by
  rcases applyEvent_cases h with ⟨k, balance, keys, rfl, -, rfl⟩ |
    ⟨market, payout, affected, rfl, hresolve⟩ | ⟨k, a, a', hk, ha, -, rfl⟩ | ⟨rfl, -, -, -⟩
  · rw [OrdMap.get?_insert, createdId, Option.some.injEq, eq_comm (a := k)]
    split_ifs with hid <;> simp [hid]
  · rw [contains_resolve hresolve]
    simp [createdId]
  · have hcreated : createdId event = none := by
      cases event <;> first | rfl | exact nomatch hk
    rw [OrdMap.get?_insert, hcreated]
    split_ifs with hid
    · simp [hid, ha]
    · simp
  · -- An event that changes nothing creates nothing, since a created account is new.
    have hcreated : createdId event ≠ some id := by
      intro hid
      obtain ⟨hnone, hsome⟩ := fresh_applyEvent h hid
      rw [hnone] at hsome
      exact nomatch hsome
    simp [hcreated]

/-! ### Nonces -/

/-- An update that leaves the nonce of its account alone leaves all nonces alone. -/
theorem tradingNonce_updateAccount {k : ℕ} {f : AccountSnapshot → Except String AccountSnapshot}
    (hf : ∀ a a', f a = .ok a' → a'.lastTradingNonce = a.lastTradingNonce)
    (h : updateAccount accounts k f = .ok next) (id : ℕ) :
    tradingNonce next id = tradingNonce accounts id := by
  obtain ⟨a, a', ha, ha', rfl⟩ := updateAccount_eq_ok.mp h
  rw [tradingNonce_insert]
  split_ifs with hid
  · rw [hid, hf a a' ha', tradingNonce_of_get? ha]
  · rfl

theorem nonce_creditDeposit {k : ℕ} {amount : ℤ} (a a' : AccountSnapshot)
    (h : creditDeposit P k amount encoded a = .ok a') :
    a'.lastTradingNonce = a.lastTradingNonce := by
  simp only [creditDeposit, bind_eq_ok] at h
  obtain ⟨b, -, d, -, h⟩ := h
  obtain rfl := Except.ok.inj h
  rfl

theorem nonce_creditBalance {k : ℕ} {amount : ℤ} (a a' : AccountSnapshot)
    (h : creditBalance P k amount encoded a = .ok a') :
    a'.lastTradingNonce = a.lastTradingNonce := by
  simp only [creditBalance, bind_eq_ok] at h
  obtain ⟨b, -, h⟩ := h
  obtain rfl := Except.ok.inj h
  rfl

theorem nonce_debitWithdrawal {k : ℕ} {amount : ℤ} (a a' : AccountSnapshot)
    (h : debitWithdrawal P k amount encoded a = .ok a') :
    a'.lastTradingNonce = a.lastTradingNonce := by
  simp only [debitWithdrawal, bind_eq_ok] at h
  obtain ⟨b, -, h⟩ := h
  obtain rfl := Except.ok.inj h
  rfl

theorem nonce_logEvent (a a' : AccountSnapshot) (h : logEvent P encoded a = .ok a') :
    a'.lastTradingNonce = a.lastTradingNonce := by
  obtain rfl := Except.ok.inj h
  rfl

theorem nonce_resolveAccount {k : ℕ} {market : MarketId} {payout : Nanos} (a a' : AccountSnapshot)
    (h : resolveAccount P height market payout k a = .ok a') :
    a'.lastTradingNonce = a.lastTradingNonce := by
  simp only [resolveAccount, bind_eq_ok] at h
  obtain ⟨_, -, _, -, _, -, _, -, h⟩ := h
  obtain rfl := Except.ok.inj h
  rfl

/-- **Nonces along an event.**  An event that authorizes no action keeps every nonce. -/
theorem tradingNonce_of_unauthorized (h : applyEvent P height accounts event = .ok next)
    (hevent : authorizedNonce event = none) (id : ℕ) :
    tradingNonce next id = tradingNonce accounts id := by
  cases event with
  | createAccount k balance keys =>
    have hnone : accounts.get? k = none := (fresh_applyEvent h rfl).1
    simp only [applyEvent] at h
    split_ifs at h
    obtain rfl := Except.ok.inj h
    rw [tradingNonce_insert]
    split_ifs with hid
    · rw [hid, tradingNonce, hnone]
      rfl
    · rfl
  | marketResolved market payout affected =>
    refine invariant_of_foldlM (P := fun m : Accounts => tradingNonce m id =
      tradingNonce accounts id) h (fun m m' k _ hstep hm => ?_) rfl
    exact (tradingNonce_updateAccount nonce_resolveAccount hstep id).trans hm
  | deposit k amount => exact tradingNonce_updateAccount nonce_creditDeposit h id
  | l1Deposit k amount depositId root key =>
    exact tradingNonce_updateAccount nonce_creditDeposit h id
  | withdrawalCreated w => exact tradingNonce_updateAccount nonce_debitWithdrawal h id
  | withdrawalRefunded k withdrawalId amount reason =>
    exact tradingNonce_updateAccount nonce_creditBalance h id
  | quarantineClaimed k amount key => exact tradingNonce_updateAccount nonce_creditDeposit h id
  | orderCancelled k orderId markets side quantity =>
    exact tradingNonce_updateAccount nonce_logEvent h id
  | keyRegistered k key authorization => exact tradingNonce_updateAccount nonce_logEvent h id
  | keyRevoked k key authorization => exact tradingNonce_updateAccount nonce_logEvent h id
  | clientActionAuthorized action => cases hevent
  | withdrawalFinalized k withdrawalId amount => rw [← Except.ok.inj h]
  | l1BlockObserved observed => rw [← Except.ok.inj h]
  | marketGroupExtended group market => rw [← Except.ok.inj h]
  | depositQuarantined amount depositId root key => rw [← Except.ok.inj h]

/-- An authorization moves the nonce of its account up to its own, and no other. -/
theorem tradingNonce_of_authorized {k n : ℕ} (h : applyEvent P height accounts event = .ok next)
    (hevent : authorizedNonce event = some (k, n)) :
    tradingNonce accounts k < n ∧
      ∀ id, tradingNonce next id = if id = k then n else tradingNonce accounts id := by
  cases event with
  | clientActionAuthorized action =>
    have hpair := Option.some.inj hevent
    obtain ⟨a, a', ha, hadvance, rfl⟩ := updateAccount_eq_ok.mp h
    unfold advanceNonce at hadvance
    split_ifs at hadvance with hnonce
    obtain rfl := Except.ok.inj hadvance
    rw [hpair] at ha hnonce
    rw [tradingNonce_of_get? ha]
    refine ⟨not_le.mp hnonce, fun id => ?_⟩
    rw [tradingNonce_insert, hpair]
  | _ => exact nomatch hevent

/-! ### Whole replays -/

/-- The accounts that a list of events creates. -/
def createdIds (events : List SystemEventWitness) : List ℕ := events.filterMap createdId

/-- The authorizations of a list of events. -/
def authorizations (events : List SystemEventWitness) : List (ℕ × ℕ) :=
  events.filterMap authorizedNonce

/-- The nonces that a list of authorizations has for an account. -/
def noncesOf (id : ℕ) (pairs : List (ℕ × ℕ)) : List ℕ :=
  (pairs.filter fun pair => pair.1 = id).map Prod.snd

theorem noncesOf_cons (id : ℕ) (pair : ℕ × ℕ) (pairs : List (ℕ × ℕ)) :
    noncesOf id (pair :: pairs) =
      if pair.1 = id then pair.2 :: noncesOf id pairs else noncesOf id pairs := by
  unfold noncesOf
  split_ifs with hid
  · rw [List.filter_cons_of_pos (by simpa using hid), List.map_cons]
  · rw [List.filter_cons_of_neg (by simpa using hid)]

theorem noncesOf_append (id : ℕ) (pairs pairs' : List (ℕ × ℕ)) :
    noncesOf id (pairs ++ pairs') = noncesOf id pairs ++ noncesOf id pairs' := by
  rw [noncesOf, List.filter_append, List.map_append, noncesOf, noncesOf]

theorem contains_replay (h : replayEvents P height accounts events = .ok final) (id : ℕ) :
    (final.get? id).isSome ↔ (accounts.get? id).isSome ∨ id ∈ createdIds events := by
  induction events generalizing accounts with
  | nil =>
    obtain rfl := Except.ok.inj h
    simp [createdIds]
  | cons event events ih =>
    obtain ⟨middle, hstep, hrest⟩ := replayEvents_cons_eq_ok.mp h
    have hcreated : id ∈ createdIds (event :: events) ↔
        createdId event = some id ∨ id ∈ createdIds events := by
      simp [createdIds, List.mem_filterMap]
    rw [ih hrest, contains_applyEvent hstep, hcreated, or_assoc]

/-- Created accounts were absent before the replay. -/
theorem fresh_replay (h : replayEvents P height accounts events = .ok final)
    (hid : id ∈ createdIds events) : accounts.get? id = none := by
  induction events generalizing accounts with
  | nil => exact absurd hid List.not_mem_nil
  | cons event events ih =>
    obtain ⟨middle, hstep, hrest⟩ := replayEvents_cons_eq_ok.mp h
    obtain ⟨created, hmem, hcreated⟩ := List.mem_filterMap.mp hid
    rcases List.mem_cons.mp hmem with rfl | hmem
    · exact (fresh_applyEvent hstep hcreated).1
    · have hmiddle := ih hrest (List.mem_filterMap.mpr ⟨created, hmem, hcreated⟩)
      by_contra hsome
      have hkept := (contains_applyEvent hstep id).mpr (.inl (Option.isSome_iff_ne_none.mpr hsome))
      rw [hmiddle] at hkept
      exact nomatch hkept

/-- **Nonces along a replay.**  The nonces of an account increase, from the one before the replay
to the one after it. -/
theorem nonces_replay (h : replayEvents P height accounts events = .ok final) (id : ℕ) :
    (tradingNonce accounts id :: noncesOf id (authorizations events)).IsChain (· < ·) ∧
      tradingNonce final id =
        (noncesOf id (authorizations events)).getLastD (tradingNonce accounts id) := by
  induction events generalizing accounts with
  | nil =>
    obtain rfl := Except.ok.inj h
    exact ⟨List.isChain_singleton _, rfl⟩
  | cons event events ih =>
    obtain ⟨middle, hstep, hrest⟩ := replayEvents_cons_eq_ok.mp h
    obtain ⟨hchain, hlast⟩ := ih hrest
    cases hevent : authorizedNonce event with
    | none =>
      have hsame := tradingNonce_of_unauthorized hstep hevent id
      rw [hsame] at hchain hlast
      rw [authorizations, List.filterMap_cons_none hevent]
      exact ⟨hchain, hlast⟩
    | some pair =>
      obtain ⟨k, n⟩ := pair
      obtain ⟨hlt, hnext⟩ := tradingNonce_of_authorized hstep hevent
      rw [hnext] at hchain hlast
      rw [authorizations, List.filterMap_cons_some hevent, noncesOf_cons]
      by_cases hid : id = k
      · rw [if_pos hid] at hchain hlast
        rw [if_pos hid.symm, List.isChain_cons_cons, List.getLastD_cons, hid]
        exact ⟨⟨hlt, hid ▸ hchain⟩, hid ▸ hlast⟩
      · rw [if_neg hid] at hchain hlast
        rw [if_neg (Ne.symm hid)]
        exact ⟨hchain, hlast⟩

/-! ## 2.  One block -/

/-- Accounts before the block and accounts that it creates. -/
structure UniverseKept (w : BlockWitness) : Prop where
  /-- The accounts after the block are those before it and the created ones. -/
  ids : ∀ id, id ∈ w.postState.map (fun a => a.id) ↔
    id ∈ w.preState.map (fun a => a.id) ∨ id ∈ createdIds w.systemEvents
  /-- A created account is new. -/
  fresh : ∀ id ∈ createdIds w.systemEvents, id ∉ w.preState.map fun a => a.id
  /-- The nonces that the block authorizes for an account increase. -/
  increasing : ∀ id, (noncesOf id (authorizations w.systemEvents)).Pairwise (· < ·)
  /-- They are above the nonce that was committed before the block. -/
  above : ∀ a ∈ w.preState, ∀ n ∈ noncesOf a.id (authorizations w.systemEvents),
    a.lastTradingNonce < n
  /-- The last of them is committed after the block. -/
  last : ∀ a ∈ w.postState, ∀ n,
    (noncesOf a.id (authorizations w.systemEvents)).getLast? = some n → a.lastTradingNonce = n
  /-- Without one the nonce stays. -/
  kept : ∀ a ∈ w.postState, noncesOf a.id (authorizations w.systemEvents) = [] →
    ∀ b ∈ w.preState, b.id = a.id → a.lastTradingNonce = b.lastTradingNonce

/-! ### The key pass -/

theorem isSome_get?_accountsOf {snapshots : List AccountSnapshot} :
    ((accountsOf snapshots).get? id).isSome ↔ id ∈ snapshots.map fun a => a.id := by
  rw [Option.isSome_iff_exists, List.mem_map]
  constructor
  · rintro ⟨a, ha⟩
    obtain ⟨hmem, hid⟩ := mem_of_get?_accountsOf ha
    exact ⟨a, hmem, hid⟩
  · rintro ⟨a, ha, rfl⟩
    exact exists_get?_accountsOf ha

/-- The key sets are opened for the accounts after the block. -/
theorem contains_normalizedPostKeyMap {post : Accounts} {keys : KeyUniverse}
    (h : normalizedPostKeyMap w post = .ok keys) (id : ℕ) :
    (keys.get? id).isSome ↔ (post.get? id).isSome := by
  obtain ⟨opened, hopen, hkeys⟩ := bind_eq_ok.mp h
  obtain rfl := Except.ok.inj hkeys
  refine invariant_of_foldlM (P := fun st : KeyUniverse × List ℕ =>
    (st.1.get? id).isSome ↔ (post.get? id).isSome) hopen (fun st st' opening _ hstep hst => ?_) ?_
  · simp only [openKeysStep, bind_eq_ok, ensure_eq_ok] at hstep
    obtain ⟨_, -, _, hcontains, _, -, hstep⟩ := hstep
    obtain rfl := Except.ok.inj hstep
    rw [OrdMap.get?_insert]
    split_ifs with hid
    · obtain ⟨a, ha⟩ := OrdMap.contains_iff.mp hcontains
      simp [hid, ha]
    · exact hst
  · rw [OrdMap.get?_mapValues, Option.isSome_map]

/-- What the key pass says about the accounts of a block. -/
structure KeyedAccounts (w : BlockWitness) : Prop where
  /-- A post-system account is still there after the block. -/
  system : ∀ id, ((accountsOf w.postSystemState).get? id).isSome →
    ((accountsOf w.postState).get? id).isSome
  /-- An account after the block was there before it, or is created. -/
  post : ∀ id, ((accountsOf w.postState).get? id).isSome →
    ((accountsOf w.preState).get? id).isSome ∨ id ∈ createdIds w.systemEvents

theorem mem_createdIds : id ∈ createdIds events ↔ events.any (createsAccount id) = true := by
  rw [createdIds, List.mem_filterMap, List.any_eq_true]
  refine exists_congr fun event => and_congr_right fun _ => ?_
  cases event <;> simp [createdId, createsAccount]

theorem keyedAccounts_of_verifyKeys (h : verifyKeys P w = .ok ()) : KeyedAccounts w := by
  obtain ⟨postKeys, preKeys, last, hpassed⟩ := keyPassed_of_verifyKeys h
  have hrecover := hpassed.recovered
  simp only [recoverPreKeys, bind_eq_ok, checkAll_eq_ok] at hrecover
  obtain ⟨_, -, _, -, _, htouched, _, huntouched, -⟩ := hrecover
  refine ⟨fun id hid => ?_, fun id hid => ?_⟩
  · obtain ⟨a, ha⟩ := Option.isSome_iff_exists.mp hid
    obtain ⟨active, hactive, -⟩ := weldPostKeys_eq_ok.mp hpassed.weldedSystem id a ha
    rw [← contains_normalizedPostKeyMap hpassed.opened, hactive]
    rfl
  · by_cases hmem : id ∈ keyTouchedAccounts w.systemEvents
    · have hcheck := htouched id hmem
      unfold checkTouchedKeys at hcheck
      split_ifs at hcheck with hcreated
      · exact .inr (mem_createdIds.mpr hcreated)
      · obtain ⟨a, ha, -⟩ := bind_eq_ok.mp hcheck
        exact .inl (by rw [okOr_eq_ok.mp ha]; rfl)
    · obtain ⟨a, ha⟩ := Option.isSome_iff_exists.mp hid
      have hcheck := huntouched _ (OrdMap.mem_entries_iff.mpr ha)
      rw [checkUntouchedKeys, if_neg hmem] at hcheck
      obtain ⟨b, hb, -⟩ := bind_eq_ok.mp hcheck
      exact .inl (by rw [okOr_eq_ok.mp hb]; rfl)

/-- **The accounts of an accepted block.** -/
theorem ids_of_accepted (hsystem : verifySystemTransition P w = [])
    (hkeys : verifyKeys P w = .ok ()) (id : ℕ) :
    ((accountsOf w.postState).get? id).isSome = ((accountsOf w.postSystemState).get? id).isSome ∧
      (((accountsOf w.postState).get? id).isSome ↔
        ((accountsOf w.preState).get? id).isSome ∨ id ∈ createdIds w.systemEvents) := by
  obtain ⟨final, hreplay, hagree⟩ := verifySystemTransition_eq_nil_iff.mp hsystem
  have hkeyed := keyedAccounts_of_verifyKeys hkeys
  have hsame : (final.get? id).isSome = ((accountsOf w.postSystemState).get? id).isSome := by
    rcases hagree id with ⟨he, ha⟩ | ⟨expected, actual, he, ha, -⟩
    · rw [he, ha]
    · rw [he, ha]
      rfl
  have hcontains := contains_replay hreplay id
  rw [hsame] at hcontains
  have hboth : ((accountsOf w.postState).get? id).isSome ↔
      ((accountsOf w.postSystemState).get? id).isSome :=
    ⟨fun hpost => hcontains.mpr (hkeyed.post id hpost), hkeyed.system id⟩
  exact ⟨Bool.eq_iff_iff.mpr hboth, hboth.trans hcontains⟩

/-! ### Settlement -/

/-- Accounts stay, with the fields that settlement carries along. -/
def Carries (accounts accounts' : DerivedAccounts) : Prop :=
  ∀ id a, accounts.get? id = some a → ∃ b, accounts'.get? id = some b ∧
    b.lastTradingNonce = a.lastTradingNonce

theorem Carries.refl (accounts : DerivedAccounts) : Carries accounts accounts :=
  fun _ a ha => ⟨a, ha, rfl⟩

theorem Carries.trans {a b c : DerivedAccounts} (h : Carries a b) (h' : Carries b c) :
    Carries a c := by
  intro id x hx
  obtain ⟨y, hy, hxy⟩ := h id x hx
  obtain ⟨z, hz, hyz⟩ := h' id y hy
  exact ⟨z, hz, hyz.trans hxy⟩

theorem carries_insert {accounts : DerivedAccounts} {k : ℕ} {b : DerivedAccountState}
    (hb : b.lastTradingNonce = (entryOrDefault accounts k).lastTradingNonce) :
    Carries accounts (accounts.insert k b) := by
  intro id a ha
  rw [OrdMap.get?_insert]
  split_ifs with hid
  · refine ⟨b, rfl, ?_⟩
    rw [hb, entryOrDefault, ← hid, ha]
    rfl
  · exact ⟨a, ha, rfl⟩

theorem carries_settleFill (height : ℕ) (orders : OrdMap ℕ WitnessOrder) (st : FillSettlement)
    (fill : Fill) : Carries st.accounts (settleFill P height orders st fill).1.accounts := by
  unfold settleFill
  split_ifs
  · exact Carries.refl _
  cases orders.get? fill.orderId with
  | none => exact Carries.refl _
  | some wo =>
    dsimp only [settleOrderFill]
    split_ifs
    · exact Carries.refl _
    · exact Carries.refl _
    · cases computeFillSettlementChecked wo.order fill with
      | error e => exact carries_insert rfl
      | ok delta? =>
        cases delta? with
        | none => exact carries_insert rfl
        | some delta =>
          -- Each of the three ends of a settlement writes the account back with its own nonce.
          dsimp only [settleDelta]
          split
          · exact carries_insert rfl
          · split
            · exact carries_insert rfl
            · exact carries_insert rfl

theorem nonce_adjustMintStep (mint : DerivedAccountState) (adj : MintAdjustment) :
    (adjustMintStep mint adj).1.lastTradingNonce = mint.lastTradingNonce := by
  dsimp only [adjustMintStep]
  split
  · rfl
  · split <;> rfl

theorem carries_adjustMint (height : ℕ) (accounts : DerivedAccounts)
    (adjustments : List MintAdjustment) :
    Carries accounts (adjustMint P height accounts adjustments).1 := by
  have run : ∀ (adjs : List MintAdjustment) (mint : DerivedAccountState),
      (reportLoop adjustMintStep mint adjs).1.lastTradingNonce = mint.lastTradingNonce := by
    intro adjs
    induction adjs with
    | nil => exact fun _ => rfl
    | cons adj adjs ih =>
      intro mint
      rw [reportLoop_cons_fst, ih, nonce_adjustMintStep]
  unfold adjustMint
  split_ifs
  · exact Carries.refl _
  · exact carries_insert (run adjustments _)

/-- The derived accounts have every post-system account, with its nonce. -/
theorem carries_derivePostState (P : Primitives) (w : BlockWitness) :
    Carries (startAccounts w.postSystemState) (derivePostState P w).accounts := by
  have run : ∀ (fills : List Fill) (st : FillSettlement), Carries st.accounts
      (reportLoop (settleFill P w.header.height (witnessOrderMap w.orders)) st
        fills).1.accounts := by
    intro fills
    induction fills with
    | nil => exact fun st => Carries.refl _
    | cons fill fills ih => exact fun st => (carries_settleFill _ _ st fill).trans (ih _)
  exact (run w.fills ⟨startAccounts w.postSystemState, 0⟩).trans (carries_adjustMint _ _ _)

/-- A claimed account has the other fields of the derived one. -/
theorem settled_meta (h : verifySettlement P w = []) {d : DerivedAccountState}
    (ha : (accountsOf w.postState).get? id = some a)
    (hd : (derivePostState P w).accounts.get? id = some d) :
    d.totalDeposited = a.totalDeposited ∧ d.eventsDigest = a.eventsDigest ∧
      d.lastTradingNonce = a.lastTradingNonce := by
  simp only [verifySettlement, List.append_eq_nil_iff, List.flatMap_eq_nil_iff] at h
  have hcompare := h.2 id (mem_unionKeys.mpr (.inl ⟨d, hd⟩))
  simp only [compareSettledAccount, ha, hd, List.append_eq_nil_iff] at hcompare
  simpa [compareDerivedMeta, and_assoc] using hcompare.1.2

/-- **Settlement leaves the nonces alone.** -/
theorem nonce_postState (hsystem : verifySystemTransition P w = [])
    (hkeys : verifyKeys P w = .ok ()) (hsettle : verifySettlement P w = []) (id : ℕ) :
    tradingNonce (accountsOf w.postState) id =
      (noncesOf id (authorizations w.systemEvents)).getLastD
        (tradingNonce (accountsOf w.preState) id) := by
  obtain ⟨final, hreplay, hagree⟩ := verifySystemTransition_eq_nil_iff.mp hsystem
  rw [← (nonces_replay hreplay id).2]
  obtain ⟨hsame, -⟩ := ids_of_accepted hsystem hkeys id
  rcases hagree id with ⟨he, ha⟩ | ⟨expected, actual, he, ha, hvalues⟩
  · rw [ha] at hsame
    have hnone : (accountsOf w.postState).get? id = none := Option.isSome_eq_false_iff.mp hsame
      |> Option.isNone_iff_eq_none.mp
    rw [tradingNonce, tradingNonce, hnone, he]
  · rw [ha] at hsame
    obtain ⟨a, hpost⟩ := Option.isSome_iff_exists.mp hsame
    have hstart : (startAccounts w.postSystemState).get? id = some (derivedOf actual) := by
      rw [get?_startAccounts, ha]
      rfl
    obtain ⟨d, hd, hnonce⟩ := carries_derivePostState P w id _ hstart
    have hmeta := settled_meta hsettle hpost hd
    have hreplayed : expected.lastTradingNonce = actual.lastTradingNonce :=
      (of_decide_eq_true hvalues).2.2.2.2
    rw [tradingNonce_of_get? hpost, tradingNonce_of_get? he, ← hmeta.2.2, hnonce, hreplayed]
    rfl

/-! ### The block -/

theorem getLastD_eq {l : List ℕ} {n d : ℕ} (h : l.getLast? = some n) : l.getLastD d = n := by
  rw [List.getLastD_eq_getLast?, h]
  rfl

theorem universeKept_of_accepted (h : verifyFull P w = []) : UniverseKept w := by
  have haccepted := verifyFull_eq_nil_iff.mp h
  obtain ⟨hpreIds, -, hpostIds⟩ := nodup_of_verifyKeys haccepted.keys
  obtain ⟨final, hreplay, -⟩ := verifySystemTransition_eq_nil_iff.mp haccepted.system
  have hnonce := nonce_postState haccepted.system haccepted.keys haccepted.settlement
  have hpre : ∀ a ∈ w.preState, tradingNonce (accountsOf w.preState) a.id = a.lastTradingNonce :=
    fun a ha => tradingNonce_of_get? (get?_accountsOf_of_mem hpreIds ha)
  have hpost : ∀ a ∈ w.postState, tradingNonce (accountsOf w.postState) a.id = a.lastTradingNonce :=
    fun a ha => tradingNonce_of_get? (get?_accountsOf_of_mem hpostIds ha)
  have hsorted : ∀ id, (tradingNonce (accountsOf w.preState) id ::
      noncesOf id (authorizations w.systemEvents)).Pairwise (· < ·) :=
    fun id => List.isChain_iff_pairwise.mp (nonces_replay hreplay id).1
  exact
    { ids := fun id => by
        rw [← isSome_get?_accountsOf, ← isSome_get?_accountsOf]
        exact (ids_of_accepted haccepted.system haccepted.keys id).2
      fresh := fun id hid => by
        rw [← isSome_get?_accountsOf, fresh_replay hreplay hid]
        exact nofun
      increasing := fun id => (List.pairwise_cons.mp (hsorted id)).2
      above := fun a ha n hn => by
        rw [← hpre a ha]
        exact (List.pairwise_cons.mp (hsorted a.id)).1 n hn
      last := fun a ha n hn => by
        rw [← hpost a ha, hnonce, getLastD_eq hn]
      kept := fun a ha hnone b hb hid => by
        rw [← hpost a ha, hnonce, hnone, ← hpre b hb, hid]
        rfl }

/-! ## 3.  A chain -/

/-- A block starts from the nonces that the block before it committed. -/
theorem Continues.tradingNonce_eq (h : Continues w w') (hkeys : verifyKeys P w = .ok ())
    (hkeys' : verifyKeys P w' = .ok ()) (id : ℕ) :
    tradingNonce (accountsOf w'.preState) id = tradingNonce (accountsOf w.postState) id := by
  have hget := get?_ofList_of_perm (f := committedAccount) (fun _ => rfl)
    (nodup_of_verifyKeys hkeys').1 (nodup_of_verifyKeys hkeys).2.2 h.accounts id
  have hnonces := congrArg (Option.map AccountSnapshot.lastTradingNonce) hget
  rw [Option.map_map, Option.map_map] at hnonces
  exact congrArg (Option.getD · 0) hnonces

theorem isChain_append_of_getLastD {l r : List ℕ} {b : ℕ} (hl : (b :: l).IsChain (· < ·))
    (hr : (l.getLastD b :: r).IsChain (· < ·)) : (b :: (l ++ r)).IsChain (· < ·) := by
  induction l generalizing b with
  | nil => exact hr
  | cons a l ih =>
    rw [List.isChain_cons_cons] at hl
    rw [List.getLastD_cons] at hr
    exact List.isChain_cons_cons.mpr ⟨hl.1, ih hl.2 hr⟩

/-- The authorizations of a chain, in order. -/
def chainAuthorizations (chain : List BlockWitness) : List (ℕ × ℕ) :=
  chain.flatMap fun w => authorizations w.systemEvents

/-- **Nonces along a chain** increase, account by account. -/
theorem nonces_chain {chain : List BlockWitness} (hw : verifyFull P w = [])
    (hchain : (w :: chain).IsChain (Extends P)) (id : ℕ) :
    (tradingNonce (accountsOf w.preState) id ::
      noncesOf id (chainAuthorizations (w :: chain))).IsChain (· < ·) := by
  induction chain generalizing w with
  | nil =>
    obtain ⟨final, hreplay, -⟩ :=
      verifySystemTransition_eq_nil_iff.mp (verifyFull_eq_nil_iff.mp hw).system
    simpa [chainAuthorizations] using (nonces_replay hreplay id).1
  | cons w' chain ih =>
    obtain ⟨⟨hcontinues, hw'⟩, hrest⟩ := List.isChain_cons_cons.mp hchain
    have haccepted := verifyFull_eq_nil_iff.mp hw
    obtain ⟨final, hreplay, -⟩ := verifySystemTransition_eq_nil_iff.mp haccepted.system
    have hnext := ih hw' hrest
    rw [hcontinues.tradingNonce_eq haccepted.keys (verifyFull_eq_nil_iff.mp hw').keys,
      nonce_postState haccepted.system haccepted.keys haccepted.settlement] at hnext
    have hcons : chainAuthorizations (w :: w' :: chain) =
        authorizations w.systemEvents ++ chainAuthorizations (w' :: chain) := rfl
    rw [hcons, noncesOf_append]
    exact isChain_append_of_getLastD (nonces_replay hreplay id).1 hnext

theorem nodup_of_noncesOf {pairs : List (ℕ × ℕ)}
    (h : ∀ id, (noncesOf id pairs).Pairwise (· < ·)) : pairs.Nodup := by
  induction pairs with
  | nil => exact List.nodup_nil
  | cons pair pairs ih =>
    have htail : ∀ id, (noncesOf id pairs).Pairwise (· < ·) := by
      intro id
      have hid := h id
      rw [noncesOf_cons] at hid
      split_ifs at hid
      · exact (List.pairwise_cons.mp hid).2
      · exact hid
    refine List.nodup_cons.mpr ⟨fun hmem => ?_, ih htail⟩
    have hself := h pair.1
    rw [noncesOf_cons, if_pos rfl, List.pairwise_cons] at hself
    refine lt_irrefl pair.2 (hself.1 pair.2 ?_)
    exact List.mem_map.mpr ⟨pair, List.mem_filter.mpr ⟨hmem, by simp⟩, rfl⟩

/-- **Accounts and nonces.**  An accepted block keeps its accounts, adds the ones it creates, and
moves nonces upwards only; over a chain of accepted blocks no nonce of an account is authorized
twice. -/
theorem accounts_and_nonces (P : Primitives) :
    (∀ w, verifyFull P w = [] → UniverseKept w) ∧
      ∀ w chain, verifyFull P w = [] → (w :: chain).IsChain (Extends P) →
        (chainAuthorizations (w :: chain)).Nodup := by
  refine ⟨fun w hw => universeKept_of_accepted hw, fun w chain hw hchain => ?_⟩
  refine nodup_of_noncesOf fun id => ?_
  have hsorted := List.isChain_iff_pairwise.mp (nonces_chain hw hchain id)
  exact (List.pairwise_cons.mp hsorted).2

/-- In the next block the trader cancels the order, with the nonce two. -/
def signedCancel : BlockWitness :=
  nextBlock (separating []) (signedRest (separating [])).header
    { idleContent [trader (separating []) 1]
        [{ trader (separating []) 2 with
          eventsDigest := updateDigest (separating []) 0
            (encodeOrderCancelledEvent 1 [7] .buyYes 1000 3) }]
        (bookSidecar (separating []) 400000000) (oneMarketSidecar (separating []) [])
        [.clientActionAuthorized (.cancel 1 1 2 (.rawP256 traderKey.pubkeySec1 0)),
          .orderCancelled 1 1 [7] .buyYes 1000] with
      accountKeys := [(1, [traderKey])] }

/-- The order and then the cancel: the trader stays, and the nonce goes from zero to two. -/
theorem accounts_and_nonces_signed_order :
    UniverseKept (signedRest (separating [])) ∧ UniverseKept signedCancel ∧
      chainAuthorizations [signedRest (separating []), signedCancel] = [(1, 1), (1, 2)] ∧
      (chainAuthorizations [signedRest (separating []), signedCancel]).Nodup := by
  obtain ⟨hblock, hchain⟩ := accounts_and_nonces (separating [])
  have horder : verifyFull (separating []) (signedRest (separating [])) = [] :=
    List.isEmpty_iff.mp (by decide +kernel)
  have hcancel : verifyFull (separating []) signedCancel = [] :=
    List.isEmpty_iff.mp (by decide +kernel)
  have hcontinues : Continues (signedRest (separating [])) signedCancel :=
    ⟨rfl, rfl, .refl _, .refl _⟩
  exact ⟨hblock _ horder, hblock _ hcancel, rfl,
    hchain _ _ horder (List.isChain_pair.mpr ⟨hcontinues, hcancel⟩)⟩

end Sybil.Verifier
