import Sybil.Verifier.Full
import Sybil.Verifier.SettlementEffects

/-!
# Blocks that a layer accepts

The soundness results read what a silent pass forces.  This file goes the other way
and gives conditions under which the passes that compare digests are silent, so that
acceptance of a block does not depend on what the hash functions return.

* `verifyBlock_assembleWitness`: the header that block production writes;
* `verifySystemTransition_of_replay`: a post-system state obtained by replay;
* `verifySettlement_of_steps`: a post-state obtained by derivation;
* `verifyKeys_of_untouched`: accounts without keys, in a block that touches none;
* `verifyDepositAccumulator_of_idle`: a block without deposits.
-/

namespace Sybil.Verifier

open Engine L1Protocol

variable {P : Primitives} {w : BlockWitness}

variable {a : AccountSnapshot} {preSidecar : StateSidecarSnapshot}
  {snapshots : List AccountSnapshot} {totals : List (MarketId × ℤ × ℤ)}

/-! ## The header -/

/-- The header that block production writes over the content of a block. -/
def assembleHeader (P : Primitives) (lastHeader : Option WitnessBlockHeader)
    (height timestampMs : ℕ) (w : BlockWitness) : WitnessBlockHeader where
  height := height
  parentHash := (lastHeader.map (hashHeader P)).getD 0
  stateRoot := computeStateRootWithSidecar P w.postState w.stateSidecar
  eventsRoot := computeEventsRoot P w
  orderCount := (w.orders.length + w.rejections.length) % 2 ^ 32
  fillCount := w.fills.length % 2 ^ 32
  timestampMs := timestampMs

/-- The witness of a block on top of the last one. -/
def assembleWitness (P : Primitives) (lastHeader : Option WitnessBlockHeader)
    (height timestampMs : ℕ) (w : BlockWitness) : BlockWitness :=
  { w with
    header := assembleHeader P lastHeader height timestampMs w
    previousHeader := lastHeader }

/-- An assembled block passes the header pass when it continues the chain: its pre-state has the
root of the last header. -/
theorem verifyBlock_assembleWitness {lastHeader : Option WitnessBlockHeader}
    {height timestampMs : ℕ}
    (hlast : ∀ last, lastHeader = some last →
      computeStateRootWithSidecar P w.preState w.preStateSidecar = last.stateRoot ∧
        height = last.height + 1)
    (hgenesis : lastHeader = none → height = 1) :
    verifyBlock P (assembleWitness P lastHeader height timestampMs w) = [] := by
  refine verifyBlock_eq_nil_iff.mpr ⟨rfl, rfl, ?_, rfl, rfl⟩
  cases lastHeader with
  | none => exact ⟨rfl, hgenesis rfl⟩
  | some last => exact ⟨(hlast last rfl).1, rfl, (hlast last rfl).2⟩

/-- A hash that tells some byte strings from everything else, and a signature check that passes. -/
def separating (encodings : List Bytes) : Primitives where
  blake3 _ := 0
  sha256 bytes := Fin.ofNat _ (encodings.idxOf bytes)
  keccak256 _ := 0
  stateRootFromLeaves _ := 0
  eventsRootFromEventBytes _ := 0
  verifyP256Prehash _ _ _ := .ok ()
  verifyWebauthnEnvelope _ _ _ := .ok ()

/-- The hash tells the given strings from everything else. -/
theorem separating_inj {encodings : List Bytes} (hlength : encodings.length < 256 ^ 32)
    {bytes encoding : Bytes} (hmem : encoding ∈ encodings)
    (h : (separating encodings).sha256 bytes = (separating encodings).sha256 encoding) :
    bytes = encoding := by
  have hsmall : ∀ bytes, encodings.idxOf bytes < 256 ^ 32 := fun bytes =>
    List.idxOf_le_length.trans_lt hlength
  have hval : encodings.idxOf bytes % 256 ^ 32 = encodings.idxOf encoding % 256 ^ 32 :=
    congrArg Fin.val h
  rw [Nat.mod_eq_of_lt (hsmall _), Nat.mod_eq_of_lt (hsmall _)] at hval
  exact ((List.idxOf_inj hmem).mp hval.symm).symm

/-- The block with the given content on top of a header. -/
def nextBlock (P : Primitives) (last : WitnessBlockHeader) (w : BlockWitness) : BlockWitness :=
  assembleWitness P (some last) (last.height + 1) 0 w

theorem verifyBlock_nextBlock {last : WitnessBlockHeader}
    (hroot : computeStateRootWithSidecar P w.preState w.preStateSidecar = last.stateRoot) :
    verifyBlock P (nextBlock P last w) = [] := by
  refine verifyBlock_assembleWitness (fun last' hlast => ?_) nofun
  obtain rfl := Option.some.inj hlast
  exact ⟨hroot, rfl⟩

/-- The header of a block that committed the given state. -/
def committedHeader (P : Primitives) (accounts : List AccountSnapshot)
    (sidecar : StateSidecarSnapshot) : WitnessBlockHeader where
  height := 1
  parentHash := 0
  stateRoot := computeStateRootWithSidecar P accounts sidecar
  eventsRoot := 0
  orderCount := 0
  fillCount := 0
  timestampMs := 0

/-- The second block of a chain whose first block committed the pre-state. -/
def secondBlock (P : Primitives) (w : BlockWitness) : BlockWitness :=
  nextBlock P (committedHeader P w.preState w.preStateSidecar) w

theorem verifyBlock_secondBlock (P : Primitives) (w : BlockWitness) :
    verifyBlock P (secondBlock P w) = [] :=
  verifyBlock_nextBlock rfl

/-- The content of a block without trades and without deposits. -/
def idleContent (pre post : List AccountSnapshot) (preSidecar sidecar : StateSidecarSnapshot)
    (events : List SystemEventWitness) : BlockWitness where
  header := ⟨0, 0, 0, 0, 0, 0, 0⟩
  previousHeader := none
  genesisHash := 0
  orders := []
  rejections := []
  systemEvents := events
  depositAccumulator := ⟨Vector.replicate 32 0, 0, []⟩
  fills := []
  clearingPrices := ∅
  totalWelfare := 0
  mintingCost := 0
  mmConstraints := []
  marketGroups := []
  preState := pre
  postSystemState := post
  postState := post
  accountKeys := []
  stateSidecar := sidecar
  preStateSidecar := preSidecar
  resolvedMarkets := []

/-! ## System events -/

/-- A post-system state obtained by replay is accepted. -/
theorem verifySystemTransition_of_replay
    (h : replayEvents P w.header.height (accountsOf w.preState) w.systemEvents =
      .ok (accountsOf w.postSystemState)) : verifySystemTransition P w = [] := by
  refine verifySystemTransition_eq_nil_iff.mpr ⟨_, h, fun id => ?_⟩
  cases hget : (accountsOf w.postSystemState).get? id with
  | none => exact Or.inl ⟨rfl, rfl⟩
  | some a => exact Or.inr ⟨a, a, rfl, rfl, by simp [sameSystemValues]⟩

/-! ## Settlement -/

theorem comparePositions_self (id : ℕ) (positions : Positions) :
    comparePositions id positions positions = [] := by
  simp [comparePositions, List.flatMap_eq_nil_iff]

/-- A claimed post-state that is derived step by step is accepted. -/
theorem verifySettlement_of_steps {filled : DerivedAccounts} {delta : ℤ}
    {adjustments : List MintAdjustment} (hfills : settleFills P w = (⟨filled, delta⟩, []))
    (htotals : marketTotals filled = (totals, []))
    (hadjust : postFillAdjustments w.clearingPrices totals = (adjustments, []))
    (hcost : derivedMintingCost delta = (w.mintingCost, []))
    (hmint : adjustMint P w.header.height filled adjustments = (startAccounts w.postState, []))
    (hbalances : (startAccounts w.postState).entries.flatMap negativeBalanceViolations = [])
    (hpositions : (startAccounts w.postState).entries.flatMap negativePositionViolations = []) :
    verifySettlement P w = [] := by
  have hderived : derivePostState P w = ⟨startAccounts w.postState, [], w.mintingCost⟩ := by
    simp only [derivePostState, hfills, htotals, hadjust, hcost, hmint, List.append_nil]
  simp only [verifySettlement, hderived, hbalances, hpositions, List.append_eq_nil_iff,
    reportIf_eq_nil, ne_eq, not_true_eq_false, not_false_eq_true, true_and,
    List.flatMap_eq_nil_iff]
  intro id _
  simp only [compareSettledAccount, entryOrDefault, get?_startAccounts]
  cases (accountsOf w.postState).get? id with
  | none => simp [DerivedAccountState.default, OrdMap.mem_values_iff]
  | some claimed => simp [compareDerivedMeta, derivedOf, comparePositions_self]

/-- Without fills, and with balanced markets, the accounts stay as the system events left
them. -/
theorem verifySettlement_of_no_fills (hfills : w.fills = []) (hcost : w.mintingCost = 0)
    (hstate : w.postState = w.postSystemState)
    (htotals : marketTotals (startAccounts w.postState) = (totals, []))
    (hadjust : postFillAdjustments w.clearingPrices totals = ([], []))
    (hbalances : (startAccounts w.postState).entries.flatMap negativeBalanceViolations = [])
    (hpositions : (startAccounts w.postState).entries.flatMap negativePositionViolations = []) :
    verifySettlement P w = [] := by
  have hsettle : settleFills P w = (⟨startAccounts w.postState, 0⟩, []) := by
    rw [settleFills, hfills, hstate]
    rfl
  refine verifySettlement_of_steps hsettle htotals hadjust ?_ rfl hbalances hpositions
  rw [hcost]
  rfl

/-! ## Deposits -/

/-- A block without deposits keeps cursor and root. -/
theorem verifyDepositAccumulator_of_idle (hnew : w.depositAccumulator.newDeposits = [])
    (hevents : dispositions w.systemEvents = [])
    (hcount : w.depositAccumulator.preCount = w.preStateSidecar.bridge.depositCursor)
    (hcursor : w.stateSidecar.bridge.depositCursor = w.preStateSidecar.bridge.depositCursor)
    (hfrontier : depositRootFromFrontier P w.depositAccumulator.preFrontier.toList
      w.depositAccumulator.preCount = some w.preStateSidecar.bridge.depositRoot)
    (hroot : w.stateSidecar.bridge.depositRoot = w.preStateSidecar.bridge.depositRoot) :
    verifyDepositAccumulator P w = [] := by
  have hcapacity : w.preStateSidecar.bridge.depositCursor ≤ depositTreeCapacity := by
    rw [depositRootFromFrontier, hcount] at hfrontier
    split_ifs at hfrontier with hlt
    exact not_lt.mp hlt
  have hwidth : checkedU64 w.preStateSidecar.bridge.depositCursor =
      some w.preStateSidecar.bridge.depositCursor :=
    checkedU64_eq_some_iff.mpr ⟨hcapacity.trans_lt (by decide), rfl⟩
  have hprefix : depositFrontierPrefixRoots P w.depositAccumulator.preFrontier.toList
      w.preStateSidecar.bridge.depositCursor [] = some [] := by
    simp [depositFrontierPrefixRoots, hwidth, not_lt.mpr hcapacity, prefixRoots]
  rw [hcount] at hfrontier
  simp [verifyDepositAccumulator, verifyPreFrontier, verifyL1DepositEventsMatchDelta, hnew,
    hevents, hcount, hcursor, hfrontier, hroot, hwidth, hprefix]

/-! ## Keys -/

/-- No event of the block sets, changes or uses a key. -/
def KeysUntouched (events : List SystemEventWitness) : Prop :=
  ∀ event ∈ events, keyTouchedAccount event = none ∧
    ∀ action, event ≠ .clientActionAuthorized action

/-- Every account of a section has the digest of an empty key set. -/
def Keyless (P : Primitives) (snapshots : List AccountSnapshot) : Prop :=
  ∀ a ∈ snapshots, a.keysDigest = accountKeysDigest P a.id []

section Untouched

variable {events : List SystemEventWitness} (h : KeysUntouched events)
include h

theorem KeysUntouched.isKeyOp_eq {event : SystemEventWitness} (hevent : event ∈ events) :
    isKeyOp event = false := by
  have hnone := (h event hevent).1
  cases event <;> first | rfl | exact nomatch hnone

theorem KeysUntouched.keyTouchedAccounts_eq : keyTouchedAccounts events = [] := by
  have hnone : events.filterMap keyTouchedAccount = [] :=
    List.filterMap_eq_nil_iff.mpr fun event hevent => (h event hevent).1
  rw [keyTouchedAccounts, hnone]
  rfl

theorem KeysUntouched.verifyKeyEventOrder_eq : verifyKeyEventOrder events = .ok () := by
  have run : ∀ (l : List SystemEventWitness) (seen : List ℕ), (∀ event ∈ l, event ∈ events) →
      ∃ seen', l.foldlM keyEventOrderStep seen = .ok seen' := by
    intro l
    induction l with
    | nil => exact fun seen _ => ⟨seen, rfl⟩
    | cons event l ih =>
      intro seen hl
      have hnone := (h event (hl event List.mem_cons_self)).1
      obtain ⟨next, hnext⟩ : ∃ next, keyEventOrderStep seen event = .ok next := by
        cases event <;> first | exact ⟨_, rfl⟩ | exact nomatch hnone
      obtain ⟨seen', hrest⟩ := ih next fun e he => hl e (List.mem_cons_of_mem _ he)
      exact ⟨seen', foldlM_cons_eq_ok.mpr ⟨next, hnext, hrest⟩⟩
  obtain ⟨seen', hrun⟩ := run events [] fun _ he => he
  rw [verifyKeyEventOrder, hrun]
  rfl

/-- A replay step that ignores such events leaves its state as it was. -/
theorem KeysUntouched.foldlM_eq {σ : Type} {step : σ → SystemEventWitness → Except String σ}
    (hstep : ∀ s, ∀ event, keyTouchedAccount event = none →
      (∀ action, event ≠ .clientActionAuthorized action) → step s event = .ok s)
    {l : List SystemEventWitness} (hl : ∀ event ∈ l, event ∈ events) (s : σ) :
    l.foldlM step s = .ok s := by
  induction l with
  | nil => rfl
  | cons event l ih =>
    obtain ⟨htouch, haction⟩ := h event (hl event List.mem_cons_self)
    exact foldlM_cons_eq_ok.mpr
      ⟨s, hstep s event htouch haction, ih fun e he => hl e (List.mem_cons_of_mem _ he)⟩

end Untouched

theorem reverseKeyStep_of_untouched (keys : KeyUniverse) (event : SystemEventWitness)
    (htouch : keyTouchedAccount event = none) : reverseKeyStep keys event = .ok keys := by
  cases event <;> first | rfl | exact nomatch htouch

theorem forwardKeyStep_of_untouched (st : KeyReplay) (event : SystemEventWitness)
    (htouch : keyTouchedAccount event = none)
    (haction : ∀ action, event ≠ .clientActionAuthorized action) :
    forwardKeyStep P w st event = .ok st := by
  cases event with
  | clientActionAuthorized action => exact absurd rfl (haction action)
  | createAccount => exact nomatch htouch
  | keyRegistered => exact nomatch htouch
  | keyRevoked => exact nomatch htouch
  | _ => rfl

/-- The accounts of a map, each without a key. -/
def noKeys (accounts : Accounts) : KeyUniverse := accounts.mapValues fun _ _ => ∅

theorem get?_noKeys {accounts : Accounts} {id : ℕ} (h : accounts.get? id = some a) :
    (noKeys accounts).get? id = some ∅ := by
  rw [noKeys, OrdMap.get?_mapValues, h]
  rfl

theorem pubkeyOwnerMap_noKeys (accounts : Accounts) : pubkeyOwnerMap (noKeys accounts) = .ok ∅ := by
  rw [pubkeyOwnerMap, List.flatMap_eq_nil_iff.mpr]
  · rfl
  · rintro ⟨id, set⟩ hmem
    obtain ⟨a, -, ha⟩ := List.mem_map.mp hmem
    obtain ⟨-, rfl⟩ := Prod.mk.inj ha
    rfl

theorem ensureGlobalPubkeyUniqueness_noKeys (accounts : Accounts) (context : String) :
    ensureGlobalPubkeyUniqueness (noKeys accounts) context = .ok () := by
  rw [ensureGlobalPubkeyUniqueness, pubkeyOwnerMap_noKeys]
  rfl

/-- A snapshot found by id is in the list under that id. -/
theorem mem_of_get?_accountsOf {id : ℕ} (h : (accountsOf snapshots).get? id = some a) :
    a ∈ snapshots ∧ a.id = id :=
  mem_of_get?_ofList_key h

theorem exists_get?_accountsOf (h : a ∈ snapshots) :
    ∃ b, (accountsOf snapshots).get? a.id = some b :=
  OrdMap.contains_ofList.mpr ⟨a, List.mem_map.mpr ⟨a, h, rfl⟩⟩

theorem weldPostKeys_noKeys {post : List AccountSnapshot} (hkeyless : Keyless P snapshots)
    (hkeep : snapshots.map (fun a => a.id) ⊆ post.map fun a => a.id) (label : String) :
    weldPostKeys P (noKeys (accountsOf post)) (accountsOf snapshots) label = .ok () := by
  rw [weldPostKeys, checkAll_eq_ok]
  rintro ⟨id, a⟩ hmem
  obtain ⟨hsnapshot, rfl⟩ := mem_of_get?_accountsOf (OrdMap.mem_entries_iff.mp hmem)
  obtain ⟨b, hb, hid⟩ := List.mem_map.mp (hkeep (List.mem_map_of_mem hsnapshot))
  obtain ⟨c, hc⟩ := exists_get?_accountsOf hb
  rw [hid] at hc
  refine bind_eq_ok.mpr ⟨∅, okOr_eq_ok.mpr (get?_noKeys hc), ensure_eq_ok.mpr ?_⟩
  exact hkeyless a hsnapshot

/-- **Accounts without keys.**  In a block that touches no key, over accounts that have none and
that persist, the key pass is silent. -/
theorem verifyKeys_of_untouched (h : KeysUntouched w.systemEvents) (hopened : w.accountKeys = [])
    (hpreIds : (w.preState.map fun a => a.id).Nodup)
    (hsystemIds : (w.postSystemState.map fun a => a.id).Nodup)
    (hpostIds : (w.postState.map fun a => a.id).Nodup)
    (hpre : Keyless P w.preState) (hsystem : Keyless P w.postSystemState)
    (hpost : Keyless P w.postState)
    (hkeep : w.postSystemState.map (fun a => a.id) ⊆ w.postState.map fun a => a.id)
    (hold : w.postState.map (fun a => a.id) ⊆ w.preState.map fun a => a.id) :
    verifyKeys P w = .ok () := by
  have hmaps : ∀ {snapshots : List AccountSnapshot} (label : String),
      (snapshots.map fun a => a.id).Nodup →
      accountMap snapshots label = .ok (accountsOf snapshots) :=
    fun label hnd => collectDistinct_eq_ok.mpr ⟨hnd, rfl⟩
  have hopen : normalizedPostKeyMap w (accountsOf w.postState) =
      .ok (noKeys (accountsOf w.postState)) := by
    rw [normalizedPostKeyMap, hopened]
    rfl
  have hops : w.systemEvents.filter isKeyOp = [] :=
    List.filter_eq_nil_iff.mpr fun event hevent => by simp [h.isKeyOp_eq hevent]
  have hreverse := h.foldlM_eq
    (fun s event htouch _ => reverseKeyStep_of_untouched s event htouch)
    (l := w.systemEvents.reverse) (fun event hevent => List.mem_reverse.mp hevent)
    (noKeys (accountsOf w.postState))
  have huntouched : checkAll (checkUntouchedKeys [] (accountsOf w.preState))
      (accountsOf w.postState).entries = .ok () := by
    rw [checkAll_eq_ok]
    rintro ⟨id, a⟩ hmem
    obtain ⟨ha, rfl⟩ := mem_of_get?_accountsOf (OrdMap.mem_entries_iff.mp hmem)
    obtain ⟨b, hb, hid⟩ := List.mem_map.mp (hold (List.mem_map_of_mem ha))
    obtain ⟨c, hc⟩ := exists_get?_accountsOf hb
    rw [hid] at hc
    obtain ⟨hcmem, hcid⟩ := mem_of_get?_accountsOf hc
    rw [checkUntouchedKeys, if_neg List.not_mem_nil]
    refine bind_eq_ok.mpr ⟨c, okOr_eq_ok.mpr hc, ensure_eq_ok.mpr ?_⟩
    rw [hpre c hcmem, hpost a ha, hcid]
  have hrecover : recoverPreKeys P w (accountsOf w.preState) (accountsOf w.postState)
      (noKeys (accountsOf w.postState)) = .ok (noKeys (accountsOf w.postState)) := by
    rw [recoverPreKeys, hreverse, h.keyTouchedAccounts_eq, bind_eq_ok]
    refine ⟨_, rfl, ?_⟩
    rw [ensureGlobalPubkeyUniqueness_noKeys, huntouched]
    rfl
  have hreplay := h.foldlM_eq (forwardKeyStep_of_untouched (P := P) (w := w))
    (l := w.systemEvents) (fun _ hevent => hevent)
    { running := noKeys (accountsOf w.postState)
      pubkeys := ∅
      runningEvents := (accountsOf w.preState).mapValues fun _ account => account.eventsDigest }
  simp only [verifyKeys, bind_eq_ok, hmaps "pre_state" hpreIds,
    hmaps "post_system_state" hsystemIds, hmaps "post_state" hpostIds, Except.ok.injEq,
    exists_eq_left', hopen, weldPostKeys_noKeys hsystem hkeep,
    weldPostKeys_noKeys hpost (List.Subset.refl _), ensureGlobalPubkeyUniqueness_noKeys, hops,
    h.verifyKeyEventOrder_eq, hrecover, replayKeys, pubkeyOwnerMap_noKeys, hreplay, ensure_eq_ok,
    List.length_nil, maxKeyOpsPerBlock, zero_le, exists_const, and_self]

/-! ## Fresh accounts and bridges -/

/-- An account without keys and events. -/
def freshAccount (P : Primitives) (id : ℕ) (balance : ℤ) (positions : List PositionEntry) :
    AccountSnapshot where
  id := id
  balance := balance
  totalDeposited := balance
  positions := positions
  eventsDigest := 0
  keysDigest := accountKeysDigest P id []
  lastTradingNonce := 0

/-- A bridge that has seen no deposit. -/
def freshBridge (P : Primitives) : BridgeStateSnapshot where
  depositCursor := 0
  depositRoot := (depositRootFromFrontier P (Vector.replicate 32 0).toList 0).getD 0
  observedL1Height := 0
  nextWithdrawalId := 0
  withdrawals := []
  quarantine := []

theorem depositRootFromFrontier_fresh (P : Primitives) :
    depositRootFromFrontier P (Vector.replicate 32 0).toList 0 =
      some (freshBridge P).depositRoot := by
  simp only [freshBridge, depositRootFromFrontier, if_neg (Nat.not_lt_zero _), Option.getD_some]

/-! ## Idle blocks -/

/-- A sidecar over a bridge that has seen no deposit. -/
def NoDeposits (P : Primitives) (sidecar : StateSidecarSnapshot) : Prop :=
  sidecar.bridge.depositCursor = 0 ∧ sidecar.bridge.depositRoot = (freshBridge P).depositRoot

section Idle

variable {pre post : List AccountSnapshot} {sidecar : StateSidecarSnapshot}
  {events : List SystemEventWitness} {last : WitnessBlockHeader}

/-- The sidecar passes of an idle block, the deposits apart. -/
structure IdleSidecar (P : Primitives) (w : BlockWitness) : Prop where
  preReservations : verifyRestingOrderReservations "pre" w.preStateSidecar.restingOrders
    w.preStateSidecar.accountReservations = []
  postReservations : verifyRestingOrderReservations "post" w.stateSidecar.restingOrders
    w.stateSidecar.accountReservations = []
  restingOrders : verifyRestingOrderTransition w = []
  withdrawals : verifyWithdrawalTransition w = []
  quarantine : verifyQuarantineTransition P w = []
  markets : verifyMarketTransition w = []
  marketGroups : verifyMarketGroupTransition w = []

theorem sidecarAccepted_idle (hpre : NoDeposits P preSidecar) (hpost : NoDeposits P sidecar)
    (hevents : dispositions events = [])
    (h : IdleSidecar P (nextBlock P last (idleContent pre post preSidecar sidecar events))) :
    SidecarAccepted P (nextBlock P last (idleContent pre post preSidecar sidecar events)) :=
  { h with
    deposits := verifyDepositAccumulator_of_idle rfl hevents hpre.1.symm
      (hpost.1.trans hpre.1.symm)
      ((depositRootFromFrontier_fresh P).trans (congrArg some hpre.2.symm))
      (hpost.2.trans hpre.2.symm) }

/-- What an idle block asks of its accounts: none has keys, none comes or goes, and those after it
are balanced and owe nothing. -/
structure IdleAccounts (P : Primitives) (pre post : List AccountSnapshot)
    (events : List SystemEventWitness) (totals : List (MarketId × ℤ × ℤ)) : Prop where
  untouched : KeysUntouched events
  nodup : (pre.map fun a => a.id).Nodup
  same : (post.map fun a => a.id) = pre.map fun a => a.id
  preKeyless : Keyless P pre
  postKeyless : Keyless P post
  outcomes : marketTotals (startAccounts post) = (totals, [])
  adjust : postFillAdjustments ∅ totals = ([], [])
  balances : (startAccounts post).entries.flatMap negativeBalanceViolations = []
  positions : (startAccounts post).entries.flatMap negativePositionViolations = []

/-- An idle block whose accounts follow by replay is accepted once its sidecar is. -/
theorem verifyFull_nextBlock
    (hroot : computeStateRootWithSidecar P pre preSidecar = last.stateRoot)
    (hreplay : replayEvents P (last.height + 1) (accountsOf pre) events = .ok (accountsOf post))
    (h : IdleAccounts P pre post events totals)
    (hsidecar : SidecarAccepted P
      (nextBlock P last (idleContent pre post preSidecar sidecar events)))
    (hbindings : verifyBindings
      (nextBlock P last (idleContent pre post preSidecar sidecar events)) = .ok ()) :
    verifyFull P (nextBlock P last (idleContent pre post preSidecar sidecar events)) = [] := by
  have hpostIds : (post.map fun a => a.id).Nodup := h.same ▸ h.nodup
  exact verifyFull_eq_nil_iff.mpr
    { match_ := rfl
      system := verifySystemTransition_of_replay hreplay
      keys := verifyKeys_of_untouched h.untouched rfl h.nodup hpostIds hpostIds h.preKeyless
        h.postKeyless h.postKeyless (List.Subset.refl _) (h.same ▸ List.Subset.refl _)
      bindings := hbindings
      settlement := verifySettlement_of_no_fills rfl rfl rfl h.outcomes h.adjust h.balances
        h.positions
      block := verifyBlock_nextBlock hroot
      orders := rfl
      sidecar := hsidecar }

/-- The same for the second block of a chain. -/
theorem verifyFull_idle
    (hreplay : replayEvents P 2 (accountsOf pre) events = .ok (accountsOf post))
    (h : IdleAccounts P pre post events totals)
    (hsidecar : SidecarAccepted P (secondBlock P (idleContent pre post preSidecar sidecar events)))
    (hbindings : verifyBindings (secondBlock P (idleContent pre post preSidecar sidecar events)) =
      .ok ()) :
    verifyFull P (secondBlock P (idleContent pre post preSidecar sidecar events)) = [] :=
  verifyFull_nextBlock rfl hreplay h hsidecar hbindings

end Idle

/-! ## A lone buy

The smallest block that trades: one account buys a share of YES, and MINT takes the other side.
Only the sidecar before the block is left open. -/

/-- A sidecar with one market, last cleared at the given prices. -/
def oneMarketSidecar (P : Primitives) (prices : List Nanos) : StateSidecarSnapshot where
  bridge := freshBridge P
  markets := [⟨7, "rain", 2, .active, 0, "", prices⟩]
  marketGroups := []
  restingOrders := []
  accountReservations := []

/-- A buy of up to one share of YES. -/
def yesBuy (limitPrice : Nanos) : Order :=
  { Order.new 1 with
    markets := (Vector.replicate 5 MarketId.none).set 0 7 Order.firstMarket_lt
    numMarkets := 1
    payoffs := (Vector.replicate 32 0).set 0 1 Order.firstState_lt
    numStates := 2
    limitPrice
    maxFill := 1000 }

/-- A sidecar with that buy resting, its whole cost reserved. -/
def bookSidecar (P : Primitives) (limitPrice : Nanos) : StateSidecarSnapshot :=
  { oneMarketSidecar P [] with
    restingOrders := [⟨yesBuy limitPrice, 1, 0, 10, limitPrice, []⟩]
    accountReservations := [⟨1, limitPrice, []⟩] }

/-- The accounts before a lone buy. -/
def loneBuyAccounts (P : Primitives) : List AccountSnapshot :=
  [freshAccount P 1 2000000000 [], freshAccount P mintId 0 []]

/-- The buyer after the fill. -/
def filledBuyer (P : Primitives) : AccountSnapshot :=
  { freshAccount P 1 2000000000 [] with
    balance := 1500000000
    positions := [(7, 0, 1000)]
    eventsDigest := updateDigest P 0 (encodeFillEvent 1 1000 500000000 2) }

/-- The accounts after the fill. -/
def loneBuyFilled (P : Primitives) : List AccountSnapshot :=
  [filledBuyer P, freshAccount P mintId 0 []]

/-- The accounts after the block: MINT is short one share that it sold for half a dollar. -/
def loneBuyPostAccounts (P : Primitives) : List AccountSnapshot :=
  [filledBuyer P,
    { freshAccount P mintId 0 [] with
      balance := 500000000
      positions := [(7, 0, -1000)]
      eventsDigest := updateDigest P 0 (encodeMintEvent [⟨7, 0, -1000, 500000000⟩] 2) }]

/-- The block, over given sidecars; the buyer may be a market maker. -/
def loneBuyBy (P : Primitives) (isMm : Bool) (mmConstraints : List MmConstraint)
    (preSidecar sidecar : StateSidecarSnapshot) : BlockWitness :=
  secondBlock P
    { idleContent (loneBuyAccounts P) (loneBuyAccounts P) preSidecar sidecar [] with
      orders := [⟨yesBuy 600000000, 1, isMm⟩]
      fills := [⟨1, 1000, 500000000, 1⟩]
      clearingPrices := OrdMap.ofList [(7, [500000000, 500000000])]
      totalWelfare := 100000000
      mintingCost := 500000000
      mmConstraints
      postState := loneBuyPostAccounts P }

/-- The block of an ordinary buyer. -/
def loneBuyOver (P : Primitives) (preSidecar sidecar : StateSidecarSnapshot) : BlockWitness :=
  loneBuyBy P false [] preSidecar sidecar

/-- The block, over a given sidecar. -/
def loneBuy (P : Primitives) (preSidecar : StateSidecarSnapshot) : BlockWitness :=
  loneBuyOver P preSidecar (oneMarketSidecar P [500000000, 500000000])

theorem keyless_pair {b : AccountSnapshot} (ha : a.keysDigest = accountKeysDigest P a.id [])
    (hb : b.keysDigest = accountKeysDigest P b.id []) : Keyless P [a, b] := by
  intro c hc
  rcases List.mem_pair.mp hc with rfl | rfl
  · exact ha
  · exact hb

theorem settleFills_loneBuy (P : Primitives) (isMm : Bool) (mmConstraints : List MmConstraint)
    (preSidecar sidecar : StateSidecarSnapshot) :
    settleFills P (loneBuyBy P isMm mmConstraints preSidecar sidecar) =
      (⟨startAccounts (loneBuyFilled P), -500000000⟩, []) := by
  rfl

theorem marketTotals_loneBuy (P : Primitives) :
    marketTotals (startAccounts (loneBuyFilled P)) = ([(7, 1000, 0)], []) := by
  rfl

theorem postFillAdjustments_loneBuy :
    postFillAdjustments (OrdMap.ofList [(7, [500000000, 500000000])]) [(7, 1000, 0)] =
      ([⟨7, 0, -1000, 500000000⟩], []) := by
  rfl

/-- MINT shorts the share that was bought. -/
theorem mintAdjustmentsOf_loneBuy (P : Primitives) (preSidecar : StateSidecarSnapshot) :
    mintAdjustmentsOf P (loneBuy P preSidecar) = [⟨7, 0, -1000, 500000000⟩] := by
  rw [mintAdjustmentsOf, loneBuy, loneBuyOver, settleFills_loneBuy, marketTotals_loneBuy]
  exact congrArg Prod.fst postFillAdjustments_loneBuy

theorem verifySettlement_loneBuyBy (P : Primitives) (isMm : Bool)
    (mmConstraints : List MmConstraint) (preSidecar sidecar : StateSidecarSnapshot) :
    verifySettlement P (loneBuyBy P isMm mmConstraints preSidecar sidecar) = [] := by
  have hmint : adjustMint P 2 (startAccounts (loneBuyFilled P)) [⟨7, 0, -1000, 500000000⟩] =
      (startAccounts (loneBuyPostAccounts P), []) := rfl
  exact verifySettlement_of_steps (settleFills_loneBuy P isMm mmConstraints preSidecar sidecar)
    (marketTotals_loneBuy P) postFillAdjustments_loneBuy rfl hmint rfl rfl

/-- Whatever the sidecars are, a lone buy that the budgets and the sidecar passes accept is
accepted. -/
theorem verifyFull_loneBuyBy {isMm : Bool} {mmConstraints : List MmConstraint}
    {sidecar : StateSidecarSnapshot}
    (hmatch : verifyMatch (loneBuyBy P isMm mmConstraints preSidecar sidecar) = [])
    (horders : verifyOrders (loneBuyBy P isMm mmConstraints preSidecar sidecar) = [])
    (hbindings : verifyBindings (loneBuyBy P isMm mmConstraints preSidecar sidecar) = .ok ())
    (hsidecar : SidecarAccepted P (loneBuyBy P isMm mmConstraints preSidecar sidecar)) :
    verifyFull P (loneBuyBy P isMm mmConstraints preSidecar sidecar) = [] := by
  have hids : ([1, mintId] : List ℕ).Nodup := by decide
  refine verifyFull_eq_nil_iff.mpr
    { match_ := hmatch
      system := verifySystemTransition_of_replay rfl
      keys := ?_
      bindings := hbindings
      settlement := verifySettlement_loneBuyBy P isMm mmConstraints preSidecar sidecar
      block := verifyBlock_secondBlock P _
      orders := horders
      sidecar := hsidecar }
  exact verifyKeys_of_untouched (fun _ => nofun) rfl hids hids hids (keyless_pair rfl rfl)
    (keyless_pair rfl rfl) (keyless_pair rfl rfl) (List.Subset.refl _) (List.Subset.refl _)

theorem verifyFull_loneBuyOver {sidecar : StateSidecarSnapshot}
    (hsidecar : SidecarAccepted P (loneBuyOver P preSidecar sidecar)) :
    verifyFull P (loneBuyOver P preSidecar sidecar) = [] :=
  verifyFull_loneBuyBy rfl rfl rfl hsidecar

theorem verifyFull_loneBuy (hsidecar : SidecarAccepted P (loneBuy P preSidecar)) :
    verifyFull P (loneBuy P preSidecar) = [] :=
  verifyFull_loneBuyOver hsidecar

/-- Over a market that never cleared. -/
theorem verifyFull_loneBuy_fresh (P : Primitives) :
    verifyFull P (loneBuy P (oneMarketSidecar P [])) = [] :=
  verifyFull_loneBuy
    ⟨rfl, rfl, rfl, rfl, verifyDepositAccumulator_of_idle rfl rfl rfl rfl
      (depositRootFromFrontier_fresh P) rfl, rfl, rfl, rfl⟩

end Sybil.Verifier
