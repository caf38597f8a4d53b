import Sybil.Verifier.Completeness

/-!
# What an authorization guarantees

An accepted block may carry orders and cancellations that nobody signed: the binding
pass goes from authorizations to effects, and orders may enter through an unsigned
internal path.  What it does guarantee is that a signed action cannot be altered.

`authorizedIntent_of_accepted` collects it for every authorization of an accepted
block: the signature verifies under the keys that the account holds at that point,
the nonce is new, the orders are new to the book and authorized once, and the effect
in the block is exactly the signed one.  `unauthorized_accepted` shows both kinds of
effect without an authorization.
-/

namespace Sybil.Verifier

open Engine

variable {P : Primitives} {w : BlockWitness}

variable {accountId index : ℕ} {authorized : Authorized} {ctx : BindingContext}
  {later : List SystemEventWitness}

/-! ## Results of orders -/

/-- Account and order of an accepted order, a rejection, or else a resting order of an id. -/
def resultOf (w : BlockWitness) (orderId : ℕ) : Option (ℕ × Order) :=
  (w.orders.map (fun wo => (wo.accountId, wo.order)) ++
    w.rejections.map (fun r => (r.accountId, r.order)) ++
    w.stateSidecar.restingOrders.map fun r => (r.accountId, r.order)).find? fun result =>
      decide (result.2.id = orderId)

/-- Collecting results keeps the first of each id. -/
theorem get?_orderResults {l : List (ℕ × Order)} {m m' : OrdMap ℕ (ℕ × Order)}
    (h : l.foldlM (fun m result =>
      if m.contains result.2.id then
        .error s!"duplicate order result for authorized order {result.2.id}"
      else Except.ok (ε := String) (m.insert result.2.id result)) m = .ok m') (k : ℕ) :
    m'.get? k = (m.get? k).or (l.find? fun result => decide (result.2.id = k)) := by
  induction l generalizing m with
  | nil =>
    obtain rfl := Except.ok.inj h
    simp
  | cons result l ih =>
    obtain ⟨middle, hstep, hrest⟩ := foldlM_cons_eq_ok.mp h
    split_ifs at hstep with hc
    obtain rfl := Except.ok.inj hstep
    rw [Bool.not_eq_true, OrdMap.contains_eq_false_iff] at hc
    rw [ih hrest, OrdMap.get?_insert, List.find?_cons]
    by_cases hk : k = result.2.id
    · subst hk
      simp [hc]
    · simp [hk, Ne.symm hk]

theorem get?_addRestingResults {l : List RestingOrderSnapshot} {m : OrdMap ℕ (ℕ × Order)}
    (k : ℕ) :
    (addRestingResults m l).get? k = (m.get? k).or
      ((l.map fun r => (r.accountId, r.order)).find? fun result => decide (result.2.id = k)) := by
  induction l generalizing m with
  | nil => simp [addRestingResults]
  | cons r l ih =>
    rw [addRestingResults, List.foldl_cons]
    refine (ih (m := _)).trans ?_
    rw [List.map_cons, List.find?_cons]
    by_cases hk : k = r.order.id
    · subst hk
      cases hc : m.contains r.order.id with
      | true =>
        obtain ⟨v, hv⟩ := OrdMap.contains_iff.mp hc
        simp [hv]
      | false => simp [OrdMap.contains_eq_false_iff.mp hc]
    · cases hc : m.contains r.order.id <;> simp [Ne.symm hk, OrdMap.get?_insert_of_ne hk]

/-- **The lookups of the binding pass**, read from the witness. -/
theorem bindingContext_eq_ok (h : bindingContext w = .ok ctx) :
    ctx.preResting = (w.preStateSidecar.restingOrders.map fun r => r.order.id) ∧
      (∀ k, ctx.orderResults.get? k = resultOf w k) ∧
      ctx.acceptedMm = ((w.orders.filter fun wo => wo.isMm).map fun wo => wo.order.id) ∧
      ctx.rejectedIds = (w.rejections.map fun r => r.order.id) ∧
      ctx.mmConstraints = w.mmConstraints := by
  obtain ⟨results, hresults, h⟩ := bind_eq_ok.mp h
  obtain rfl := Except.ok.inj h
  refine ⟨rfl, fun k => ?_, rfl, rfl, rfl⟩
  change (addRestingResults results _).get? k = _
  rw [get?_addRestingResults, get?_orderResults hresults, resultOf, OrdMap.get?_empty,
    Option.none_or, ← List.find?_append]

theorem resultOf_accepted (hmatch : verifyMatch w = []) {wo : WitnessOrder} (hwo : wo ∈ w.orders) :
    resultOf w wo.order.id = some (wo.accountId, wo.order) := by
  have hfind : w.orders.find? (fun other => decide (other.order.id = wo.order.id)) = some wo :=
    find?_key (nodup_orderIds hmatch) hwo
  rw [resultOf, List.append_assoc, List.find?_append, List.find?_map]
  change ((w.orders.find? fun other => decide (other.order.id = wo.order.id)).map _).or _ = _
  rw [hfind]
  rfl

/-! ## Effects of an action -/

/-- The orders that an action authorizes. -/
def ClientActionWitness.orders : ClientActionWitness → List Order
  | .order _ placed _ _ => [placed]
  | .mmBundle _ _ _ terms _ _ => terms.orders
  | .mmBundleReplace _ _ _ _ terms _ _ => terms.orders
  | .cancel .. => []
  | .mmBundleCancel .. => []

/-- The orders that an event authorizes. -/
def authorizedOrders : SystemEventWitness → List Order
  | .clientActionAuthorized action => action.orders
  | _ => []

/-- The bundle is admitted or rejected as a whole, under its exact budget. -/
structure BundleExecuted (w : BlockWitness) (accountId : ℕ) (terms : MmBundleTerms) : Prop where
  paired : terms.orders ≠ [] ∧ terms.orders.length = terms.orderSides.length
  results : ∀ order ∈ terms.orders, resultOf w order.id = some (accountId, order)
  whole : (∀ order ∈ terms.orders, ∃ wo ∈ w.orders, wo.isMm = true ∧ wo.order.id = order.id) ∨
    ∀ order ∈ terms.orders, ∃ r ∈ w.rejections, r.order.id = order.id
  budget : ∃ constraint ∈ w.mmConstraints, isExactConstraint accountId terms constraint = true

/-- The effect of an action in its block; `later` are the events after it. -/
def Executed (w : BlockWitness) (later : List SystemEventWitness) : ClientActionWitness → Prop
  | .order accountId order _ _ =>
    resultOf w order.id = some (accountId, order) ∨
      (∃ event ∈ later, cancelsOrder accountId order.id event = true) ∨
      ∃ event ∈ later, resolvesMarketOf order event = true
  | .cancel accountId orderId _ _ => ∃ event ∈ later, cancelsOrder accountId orderId event = true
  | .mmBundle accountId _ _ terms _ _ => BundleExecuted w accountId terms
  | .mmBundleReplace accountId _ _ _ terms _ _ => BundleExecuted w accountId terms
  | .mmBundleCancel accountId _ _ _ _ =>
    (∃ event ∈ later, authorizesBundleOf accountId event = true) ∨
      ∀ constraint ∈ w.mmConstraints, constraint.mmId ≠ accountId

/-- What binding an action establishes about its orders. -/
structure BindsOrders (ctx : BindingContext) (authorized next : Authorized)
    (orders : List Order) : Prop where
  fresh : ∀ order ∈ orders, order.id ∉ ctx.preResting
  unseen : ∀ order ∈ orders, authorized.get? order.id = none
  distinct : (orders.map fun order => order.id).Nodup
  recorded : ∀ k, (∃ v, next.get? k = some v) ↔
    (∃ v, authorized.get? k = some v) ∨ k ∈ orders.map fun order => order.id

theorem bindsOrders_nil (ctx : BindingContext) (authorized : Authorized) :
    BindsOrders ctx authorized authorized [] :=
  ⟨nofun, nofun, List.nodup_nil, fun k => by simp⟩

theorem bindsOrders_singleton {order : Order} (hfresh : order.id ∉ ctx.preResting)
    (hunseen : authorized.contains order.id = false) (v : ℕ × ℕ) :
    BindsOrders ctx authorized (authorized.insert order.id v) [order] := by
  refine ⟨?_, ?_, List.nodup_singleton _, fun k => ?_⟩
  · intro other hother
    rw [List.mem_singleton.mp hother]
    exact hfresh
  · intro other hother
    rw [List.mem_singleton.mp hother]
    exact OrdMap.contains_eq_false_iff.mp hunseen
  · rw [OrdMap.get?_insert, List.map_singleton, List.mem_singleton]
    by_cases hk : k = order.id
    · simp [hk]
    · simp [hk]

theorem BindsOrders.append {middle next : Authorized} {orders orders' : List Order}
    (h : BindsOrders ctx authorized middle orders) (h' : BindsOrders ctx middle next orders') :
    BindsOrders ctx authorized next (orders ++ orders') := by
  -- What the second part finds unseen was neither seen before nor recorded by the first.
  have hunseen : ∀ order ∈ orders',
      ¬ ((∃ v, authorized.get? order.id = some v) ∨
        order.id ∈ orders.map fun order => order.id) := by
    intro order horder hseen
    obtain ⟨v, hv⟩ := (h.recorded order.id).mpr hseen
    rw [h'.unseen order horder] at hv
    exact nomatch hv
  refine ⟨?_, ?_, ?_, fun k => ?_⟩
  · exact List.forall_mem_append.mpr ⟨h.fresh, h'.fresh⟩
  · refine List.forall_mem_append.mpr ⟨h.unseen, fun order horder => ?_⟩
    refine Option.eq_none_iff_forall_ne_some.mpr fun v hv => ?_
    exact hunseen order horder (Or.inl ⟨v, hv⟩)
  · rw [List.map_append, List.nodup_append]
    refine ⟨h.distinct, h'.distinct, ?_⟩
    rintro k hk _ hk' rfl
    obtain ⟨order, horder, rfl⟩ := List.mem_map.mp hk'
    exact hunseen order horder (Or.inr hk)
  · rw [h'.recorded, h.recorded, List.map_append, List.mem_append, or_assoc]

theorem bindMmOrders_eq_ok {orders : List Order} {ids ids' : List ℕ} {next : Authorized}
    (h : orders.foldlM (bindMmOrder ctx index accountId) (ids, authorized) = .ok (ids', next)) :
    BindsOrders ctx authorized next orders ∧
      (∀ order ∈ orders, hasResult ctx accountId order = true) ∧
      ∀ k, k ∈ ids' ↔ k ∈ ids ∨ k ∈ orders.map fun order => order.id := by
  induction orders generalizing ids authorized with
  | nil =>
    obtain ⟨rfl, rfl⟩ := Prod.mk.inj (Except.ok.inj h)
    exact ⟨bindsOrders_nil ctx authorized, nofun, fun k => by simp⟩
  | cons order orders ih =>
    obtain ⟨middle, hstep, hrest⟩ := foldlM_cons_eq_ok.mp h
    simp only [bindMmOrder, bind_eq_ok, ensure_eq_ok, exists_const] at hstep
    obtain ⟨hfresh, ⟨-, hunseen⟩, hresult, hstep⟩ := hstep
    obtain rfl := Except.ok.inj hstep
    obtain ⟨hbinds, hresults, hids⟩ := ih hrest
    refine ⟨(bindsOrders_singleton hfresh hunseen _).append hbinds,
      List.forall_mem_cons.mpr ⟨hresult, hresults⟩, fun k => ?_⟩
    rw [hids, List.mem_cons, List.map_cons, List.mem_cons]
    tauto

section Binding

variable (hctx : bindingContext w = .ok ctx)
include hctx

theorem resultOf_of_hasResult {order : Order} (h : hasResult ctx accountId order = true) :
    resultOf w order.id = some (accountId, order) := by
  rw [← (bindingContext_eq_ok hctx).2.1]
  exact of_decide_eq_true h

theorem verifyMmBundleBinding_eq_ok {terms : MmBundleTerms} {next : Authorized}
    (h : verifyMmBundleBinding ctx authorized index accountId terms = .ok next) :
    BindsOrders ctx authorized next terms.orders ∧ BundleExecuted w accountId terms := by
  obtain ⟨-, -, hmm, hrejected, hconstraints⟩ := bindingContext_eq_ok hctx
  simp only [verifyMmBundleBinding, bind_eq_ok, ensure_eq_ok, exists_const] at h
  obtain ⟨hpaired, ⟨ids, after⟩, hrun, hwhole, hbudget, h⟩ := h
  obtain rfl := Except.ok.inj h
  obtain ⟨hbinds, hresults, hids⟩ := bindMmOrders_eq_ok hrun
  have hmem : ∀ order ∈ terms.orders, order.id ∈ ids := fun order horder =>
    (hids order.id).mpr (Or.inr (List.mem_map_of_mem horder))
  refine ⟨hbinds, hpaired,
    fun order horder => resultOf_of_hasResult hctx (hresults order horder), ?_, ?_⟩
  · refine hwhole.imp (fun hall order horder => ?_) fun hall order horder => ?_
    · have hin := List.length_filter_eq_length_iff.mp hall order.id (hmem order horder)
      rw [List.contains_iff_mem, hmm, List.mem_map] at hin
      obtain ⟨wo, hwo, heq⟩ := hin
      exact ⟨wo, List.mem_of_mem_filter hwo, (List.mem_filter.mp hwo).2, heq⟩
    · have hin := List.length_filter_eq_length_iff.mp hall order.id (hmem order horder)
      rw [List.contains_iff_mem, hrejected, List.mem_map] at hin
      exact hin
  · rw [← hconstraints]
    exact List.any_eq_true.mp hbudget

/-- **One action.**  Its orders are new, and its effect is in the block. -/
theorem bindAction_eq_ok {action : ClientActionWitness} {next : Authorized}
    (h : bindAction ctx authorized index later action = .ok next) :
    BindsOrders ctx authorized next action.orders ∧ Executed w later action := by
  cases action with
  | order accountId order nonce authorization =>
    simp only [bindAction, bind_eq_ok, ensure_eq_ok, exists_const] at h
    obtain ⟨hfresh, hunseen, heffect, h⟩ := h
    obtain rfl := Except.ok.inj h
    refine ⟨bindsOrders_singleton hfresh hunseen _, ?_⟩
    exact heffect.imp (resultOf_of_hasResult hctx) (Or.imp List.any_eq_true.mp List.any_eq_true.mp)
  | cancel accountId orderId nonce authorization =>
    simp only [bindAction, bind_eq_ok, ensure_eq_ok, exists_const] at h
    obtain ⟨heffect, h⟩ := h
    obtain rfl := Except.ok.inj h
    exact ⟨bindsOrders_nil ctx _, List.any_eq_true.mp heffect⟩
  | mmBundle accountId bundleId revision terms nonce authorization =>
    simp only [bindAction, bind_eq_ok, ensure_eq_ok, exists_const] at h
    exact verifyMmBundleBinding_eq_ok hctx h.2
  | mmBundleReplace accountId bundleId expected new terms nonce authorization =>
    simp only [bindAction, bind_eq_ok, ensure_eq_ok, exists_const] at h
    obtain ⟨_, -, -, h⟩ := h
    exact verifyMmBundleBinding_eq_ok hctx h
  | mmBundleCancel accountId bundleId expected nonce authorization =>
    simp only [bindAction, bind_eq_ok, ensure_eq_ok, exists_const] at h
    obtain ⟨heffect, h⟩ := h
    obtain rfl := Except.ok.inj h
    refine ⟨bindsOrders_nil ctx _, heffect.imp List.any_eq_true.mp fun hnone => ?_⟩
    rw [(bindingContext_eq_ok hctx).2.2.2.2, List.any_eq_false] at hnone
    intro constraint hconstraint heq
    exact hnone constraint hconstraint (decide_eq_true heq)

/-- **The binding run.**  Each authorization is executed, and no order is authorized twice. -/
theorem bindEvents_eq_ok {events : List SystemEventWitness}
    (h : bindEvents ctx authorized index events = .ok ()) :
    (∀ before action later, events = before ++ .clientActionAuthorized action :: later →
      Executed w later action) ∧
    ∃ next, BindsOrders ctx authorized next (events.flatMap authorizedOrders) := by
  induction events generalizing index authorized with
  | nil =>
    refine ⟨fun before action later hsplit => ?_, authorized, bindsOrders_nil ctx authorized⟩
    simp at hsplit
  | cons event events ih =>
    -- An authorization is bound and passes on what it recorded; other events pass it on.
    have hstep : ∃ middle, BindsOrders ctx authorized middle (authorizedOrders event) ∧
        bindEvents ctx middle (index + 1) events = .ok () ∧
        ∀ action, event = .clientActionAuthorized action → Executed w events action := by
      cases event with
      | clientActionAuthorized action =>
        obtain ⟨middle, hbind, hrest⟩ := bind_eq_ok.mp h
        obtain ⟨hbinds, hexecuted⟩ := bindAction_eq_ok hctx hbind
        refine ⟨middle, hbinds, hrest, fun other heq => ?_⟩
        obtain rfl := SystemEventWitness.clientActionAuthorized.inj heq
        exact hexecuted
      | _ => exact ⟨authorized, bindsOrders_nil ctx authorized, h, nofun⟩
    obtain ⟨middle, hbinds, hrest, hexecuted⟩ := hstep
    obtain ⟨hlater, next, hnext⟩ := ih hrest
    refine ⟨fun before action later hsplit => ?_, next, ?_⟩
    · cases before with
      | nil =>
        obtain ⟨hevent, rfl⟩ := List.cons.inj hsplit
        exact hexecuted action hevent
      | cons first before => exact hlater before action later (List.cons.inj hsplit).2
    · rw [List.flatMap_cons]
      exact hbinds.append hnext

end Binding

/-! ## Signature and nonce -/

/-- State of the key replay after some events, from the key sets recovered for the pre-state. -/
def KeysAt (P : Primitives) (w : BlockWitness) (events : List SystemEventWitness)
    (st : KeyReplay) : Prop :=
  ∃ postKeys preKeys pubkeys,
    normalizedPostKeyMap w (accountsOf w.postState) = .ok postKeys ∧
    recoverPreKeys P w (accountsOf w.preState) (accountsOf w.postState) postKeys = .ok preKeys ∧
    pubkeyOwnerMap preKeys = .ok pubkeys ∧
    events.foldlM (forwardKeyStep P w)
      { running := preKeys
        pubkeys
        runningEvents := (accountsOf w.preState).mapValues fun _ account => account.eventsDigest } =
      .ok st

/-- Every authorization verifies under the keys of its account at that point. -/
theorem signed_of_verifyKeys (h : verifyKeys P w = .ok ()) {before : List SystemEventWitness}
    {action : ClientActionWitness}
    (hsplit : w.systemEvents = before ++ .clientActionAuthorized action :: later) :
    ∃ st, KeysAt P w before st ∧ checkClientAction P w.genesisHash st.running action = .ok () := by
  simp only [verifyKeys, accountMap, bind_eq_ok, collectDistinct_eq_ok] at h
  obtain ⟨_, ⟨-, rfl⟩, _, -, _, ⟨-, rfl⟩, postKeys, hopen, h⟩ := h
  obtain ⟨_, -, _, -, _, -, _, -, _, -, preKeys, hrecover, final, hreplay, -⟩ := h
  simp only [replayKeys, bind_eq_ok] at hreplay
  obtain ⟨pubkeys, howners, hrun⟩ := hreplay
  rw [hsplit, foldlM_append_eq_ok] at hrun
  obtain ⟨st, hbefore, hrest⟩ := hrun
  obtain ⟨next, hstep, -⟩ := foldlM_cons_eq_ok.mp hrest
  obtain ⟨_, hcheck, -⟩ := bind_eq_ok.mp hstep
  exact ⟨st, ⟨postKeys, preKeys, pubkeys, hopen, hrecover, howners, hbefore⟩, hcheck⟩

/-- Every authorization has a nonce above the last one of its account. -/
theorem nonce_of_verifySystemTransition (h : verifySystemTransition P w = [])
    {before : List SystemEventWitness} {action : ClientActionWitness}
    (hsplit : w.systemEvents = before ++ .clientActionAuthorized action :: later) :
    ∃ accounts a, replayEvents P w.header.height (accountsOf w.preState) before = .ok accounts ∧
      accounts.get? action.accountNonce.1 = some a ∧
      a.lastTradingNonce < action.accountNonce.2 := by
  obtain ⟨final, hreplay, -⟩ := verifySystemTransition_eq_nil_iff.mp h
  rw [hsplit, replayEvents, foldlM_append_eq_ok] at hreplay
  obtain ⟨accounts, hbefore, hrest⟩ := hreplay
  obtain ⟨next, hstep, -⟩ := foldlM_cons_eq_ok.mp hrest
  simp only [applyEvent, updateAccount, bind_eq_ok, okOr_eq_ok] at hstep
  obtain ⟨a, ha, a', hadvance, -⟩ := hstep
  refine ⟨accounts, a, hbefore, ha, ?_⟩
  unfold advanceNonce at hadvance
  split_ifs at hadvance with hnonce
  exact not_le.mp hnonce

/-! ## Authorized intent -/

/-- What an authorization of an accepted block guarantees. -/
structure AuthorizedIntent (P : Primitives) (w : BlockWitness) (before : List SystemEventWitness)
    (action : ClientActionWitness) (later : List SystemEventWitness) : Prop where
  /-- It is signed by a key that the account holds at that point. -/
  signed : ∃ st, KeysAt P w before st ∧
    checkClientAction P w.genesisHash st.running action = .ok ()
  /-- Its nonce is above the last one of the account. -/
  nonce : ∃ accounts a,
    replayEvents P w.header.height (accountsOf w.preState) before = .ok accounts ∧
      accounts.get? action.accountNonce.1 = some a ∧ a.lastTradingNonce < action.accountNonce.2
  /-- Its orders were not in the book. -/
  fresh : ∀ order ∈ action.orders, ∀ r ∈ w.preStateSidecar.restingOrders, r.order.id ≠ order.id
  /-- Its effect is in the block. -/
  executed : Executed w later action

/-- **No altered intent.**  In an accepted block every authorization is signed, new and executed as
signed, no order is authorized twice, and the result of an accepted order's id is that order. -/
theorem authorizedIntent_of_accepted (h : verifyFull P w = []) :
    (∀ before action later, w.systemEvents = before ++ .clientActionAuthorized action :: later →
      AuthorizedIntent P w before action later) ∧
    ((w.systemEvents.flatMap authorizedOrders).map fun order => order.id).Nodup ∧
    ∀ wo ∈ w.orders, resultOf w wo.order.id = some (wo.accountId, wo.order) := by
  have haccepted := verifyFull_eq_nil_iff.mp h
  obtain ⟨ctx, hctx, hbind⟩ := bind_eq_ok.mp haccepted.bindings
  obtain ⟨hexecuted, next, hbinds⟩ := bindEvents_eq_ok hctx hbind
  refine ⟨fun before action later hsplit => ?_, hbinds.distinct,
    fun wo hwo => resultOf_accepted haccepted.match_ hwo⟩
  refine
    { signed := signed_of_verifyKeys haccepted.keys hsplit
      nonce := nonce_of_verifySystemTransition haccepted.system hsplit
      fresh := fun order horder r hr heq => ?_
      executed := hexecuted before action later hsplit }
  have hmem : order ∈ w.systemEvents.flatMap authorizedOrders := by
    rw [hsplit, List.mem_flatMap]
    exact ⟨.clientActionAuthorized action, by simp, horder⟩
  refine hbinds.fresh order hmem ?_
  rw [(bindingContext_eq_ok hctx).1, ← heq]
  exact List.mem_map_of_mem hr

/-! ## A signed order -/

/-- A raw P-256 key. -/
def traderKey : KeyRecord where
  authScheme := 0
  pubkeySec1 := ⟨2 * 256 ^ 32, by norm_num⟩
  capabilityMask := KeyRecord.fullCapabilityMask

/-- The key set of account `1` alone. -/
def traderKeys : KeyUniverse := OrdMap.ofList [(1, keySetOf [traderKey])]

/-- A buy at forty cents, signed with that key. -/
def signedOrder : ClientActionWitness :=
  .order 1 (yesBuy 400000000) 1 (.rawP256 traderKey.pubkeySec1 0)

/-- The signature check accepts the signature of the order. -/
def AcceptsSignature (P : Primitives) : Prop :=
  P.verifyP256Prehash traderKey.pubkeySec1 0
    (P.sha256 (Signing.canonicalOrderBytes (yesBuy 400000000) 1 0)) = .ok ()

/-- An account with that key. -/
def trader (P : Primitives) (nonce : ℕ) : AccountSnapshot :=
  { freshAccount P 1 2000000000 [] with
    keysDigest := accountKeysDigest P 1 [traderKey]
    lastTradingNonce := nonce }

/-- The block in which the signed buy enters the book. -/
def signedRest (P : Primitives) : BlockWitness :=
  secondBlock P
    { idleContent [trader P 0] [trader P 1] (oneMarketSidecar P []) (bookSidecar P 400000000)
        [.clientActionAuthorized signedOrder] with
      orders := [⟨yesBuy 400000000, 1, false⟩]
      accountKeys := [(1, [traderKey])] }

theorem normalizedPostKeyMap_signedRest (P : Primitives) :
    normalizedPostKeyMap (signedRest P) (accountsOf [trader P 1]) = .ok traderKeys := by
  rfl

theorem weldPostKeys_trader (P : Primitives) (nonce : ℕ) (label : String) :
    weldPostKeys P traderKeys (accountsOf [trader P nonce]) label = .ok () := by
  rw [weldPostKeys, checkAll_eq_ok]
  rintro ⟨id, a⟩ hmem
  obtain ⟨hsnapshot, rfl⟩ := mem_of_get?_accountsOf (OrdMap.mem_entries_iff.mp hmem)
  obtain rfl := List.mem_singleton.mp hsnapshot
  exact bind_eq_ok.mpr ⟨keySetOf [traderKey], rfl, ensure_eq_ok.mpr rfl⟩

theorem recoverPreKeys_signedRest (P : Primitives) :
    recoverPreKeys P (signedRest P) (accountsOf [trader P 0]) (accountsOf [trader P 1])
      traderKeys = .ok traderKeys := by
  simp only [recoverPreKeys, bind_eq_ok]
  refine ⟨traderKeys, rfl, (), rfl, (), rfl, (), ?_, rfl⟩
  rw [checkAll_eq_ok]
  rintro ⟨id, a⟩ hmem
  obtain ⟨hsnapshot, rfl⟩ := mem_of_get?_accountsOf (OrdMap.mem_entries_iff.mp hmem)
  obtain rfl := List.mem_singleton.mp hsnapshot
  exact bind_eq_ok.mpr ⟨trader P 0, rfl, ensure_eq_ok.mpr rfl⟩

/-- The state of the key replay, before and after the authorization. -/
def traderReplay (P : Primitives) : KeyReplay where
  running := traderKeys
  pubkeys := OrdMap.ofList [(traderKey.pubkeySec1, 1)]
  runningEvents := (accountsOf [trader P 0]).mapValues fun _ account => account.eventsDigest

theorem replayKeys_signedRest (hP : AcceptsSignature P) :
    replayKeys P (signedRest P) (accountsOf [trader P 0]) traderKeys = .ok (traderReplay P) := by
  have hauth : verifyKeyopAuth P (.rawP256 traderKey.pubkeySec1 0) (keySetOf [traderKey]).keys
      (Signing.canonicalOrderBytes (yesBuy 400000000) 1 0) = .ok () :=
    bind_eq_ok.mpr ⟨(), rfl, hP⟩
  have hcheck : checkClientAction P 0 traderKeys signedOrder = .ok () := by
    simp only [checkClientAction, bind_eq_ok]
    refine ⟨_, rfl, keySetOf [traderKey], rfl, ?_⟩
    rw [hauth]
    rfl
  refine bind_eq_ok.mpr ⟨_, rfl, ?_⟩
  exact foldlM_cons_eq_ok.mpr ⟨traderReplay P, bind_eq_ok.mpr ⟨(), hcheck, rfl⟩, rfl⟩

theorem verifyFull_signedRest (hP : AcceptsSignature P) : verifyFull P (signedRest P) = [] := by
  have hkeys : verifyKeys P (signedRest P) = .ok () := by
    simp only [verifyKeys, bind_eq_ok]
    exact ⟨_, rfl, _, rfl, _, rfl, _, normalizedPostKeyMap_signedRest P,
      (), weldPostKeys_trader P 1 _, (), weldPostKeys_trader P 1 _, (), rfl, (), rfl, (), rfl,
      _, recoverPreKeys_signedRest P, _, replayKeys_signedRest hP,
      _, normalizedPostKeyMap_signedRest P, ensure_eq_ok.mpr rfl⟩
  have htotals : marketTotals (startAccounts [trader P 1]) = ([], []) := rfl
  exact verifyFull_eq_nil_iff.mpr
    { match_ := rfl
      system := verifySystemTransition_of_replay rfl
      keys := hkeys
      bindings := rfl
      settlement := verifySettlement_of_no_fills rfl rfl rfl htotals rfl rfl rfl
      block := verifyBlock_secondBlock P _
      orders := rfl
      sidecar := ⟨rfl, rfl, rfl, rfl, verifyDepositAccumulator_of_idle rfl rfl rfl rfl
        (depositRootFromFrontier_fresh P) rfl, rfl, rfl, rfl⟩ }

/-- The signed buy rests in the book as it was signed. -/
theorem authorizedIntent_of_accepted_signed_order :
    (∃ P, AcceptsSignature P) ∧ ∀ P, AcceptsSignature P →
      verifyFull P (signedRest P) = [] ∧ AuthorizedIntent P (signedRest P) [] signedOrder [] ∧
        resultOf (signedRest P) 1 = some (1, yesBuy 400000000) := by
  refine ⟨⟨separating [], rfl⟩, fun P hP => ?_⟩
  have hfull := verifyFull_signedRest hP
  obtain ⟨hintent, -, hresult⟩ := authorizedIntent_of_accepted hfull
  exact ⟨hfull, hintent [] signedOrder [] rfl, hresult _ List.mem_cons_self⟩

/-! ## Unsigned effects -/

/-- The block in which the resting buy is cancelled, without an authorization. -/
def unsignedCancel (P : Primitives) : BlockWitness :=
  secondBlock P (idleContent [freshAccount P 1 2000000000 []]
    [{ freshAccount P 1 2000000000 [] with
        eventsDigest := updateDigest P 0 (encodeOrderCancelledEvent 1 [7] .buyYes 1000 2) }]
    (bookSidecar P 400000000) (oneMarketSidecar P []) [.orderCancelled 1 1 [7] .buyYes 1000])

theorem verifyFull_unsignedCancel (P : Primitives) : verifyFull P (unsignedCancel P) = [] :=
  verifyFull_idle rfl ⟨List.forall_mem_singleton.mpr ⟨rfl, nofun⟩, List.nodup_singleton 1, rfl,
      List.forall_mem_singleton.mpr rfl, List.forall_mem_singleton.mpr rfl, rfl, rfl, rfl, rfl⟩
    (sidecarAccepted_idle ⟨rfl, rfl⟩ ⟨rfl, rfl⟩ rfl ⟨rfl, rfl, rfl, rfl, rfl, rfl, rfl⟩) rfl

/-- **Unsigned effects are accepted.**  Whatever the primitives are, an accepted block may place an
order that no event authorizes, and may cancel a resting order that no event asks to cancel. -/
theorem unauthorized_accepted :
    (¬ ∃ P : Primitives, ∀ w : BlockWitness, w.previousHeader.isSome → verifyFull P w = [] →
      ∀ wo ∈ w.orders, (∀ r ∈ w.preStateSidecar.restingOrders, r.order.id ≠ wo.order.id) →
        ∃ action, .clientActionAuthorized action ∈ w.systemEvents ∧
          action.accountNonce.1 = wo.accountId ∧ wo.order ∈ action.orders) ∧
    ¬ ∃ P : Primitives, ∀ w : BlockWitness, w.previousHeader.isSome → verifyFull P w = [] →
      ∀ r ∈ w.preStateSidecar.restingOrders,
        (∀ leaf ∈ w.stateSidecar.restingOrders, leaf.order.id ≠ r.order.id) →
        ∀ before event later, w.systemEvents = before ++ event :: later →
          cancelledOrderId event = some r.order.id →
          ∃ nonce authorization,
            .clientActionAuthorized (.cancel r.accountId r.order.id nonce authorization) ∈
              before := by
  constructor
  · rintro ⟨P, hclaim⟩
    obtain ⟨action, haction, -⟩ := hclaim _ rfl (verifyFull_loneBuy_fresh P) _ List.mem_cons_self
      fun _ hr => absurd hr List.not_mem_nil
    exact absurd haction List.not_mem_nil
  · rintro ⟨P, hclaim⟩
    obtain ⟨nonce, authorization, hcancel⟩ := hclaim _ rfl (verifyFull_unsignedCancel P) _
      List.mem_cons_self (fun _ hleaf => absurd hleaf List.not_mem_nil) [] _ [] rfl rfl
    exact absurd hcancel List.not_mem_nil

end Sybil.Verifier
