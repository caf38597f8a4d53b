import Sybil.Verifier.Types

/-!
# Binding of client actions to their effects

Every authorized client action must show its effect in the block: an order has a
result under the same account and with the same terms, or is cancelled or resolved
away later; a cancel is followed by its cancellation; a bundle is admitted or
rejected as a whole under the signed budget.

The pass goes from authorizations to effects and not back.  An order or a
cancellation may come without an authorization: the source admits orders through an
unsigned internal path.
-/

namespace Sybil.Verifier

open Engine

/-- What the binding of an action looks up in the witness. -/
structure BindingContext where
  preResting : List ℕ
  /-- Account and order of each result: accepted, rejected or resting. -/
  orderResults : OrdMap ℕ (ℕ × Order)
  acceptedMm : List ℕ
  rejectedIds : List ℕ
  mmConstraints : List MmConstraint

/-- Results of accepted and rejected orders; an order has one result. -/
def orderResultsOf (w : BlockWitness) : Except String (OrdMap ℕ (ℕ × Order)) :=
  (w.orders.map (fun wo => (wo.accountId, wo.order)) ++
    w.rejections.map (fun r => (r.accountId, r.order))).foldlM (fun m result =>
      if m.contains result.2.id then
        .error s!"duplicate order result for authorized order {result.2.id}"
      else .ok (m.insert result.2.id result)) ∅

/-- Add the resting orders that have no other result. -/
def addRestingResults (results : OrdMap ℕ (ℕ × Order)) (resting : List RestingOrderSnapshot) :
    OrdMap ℕ (ℕ × Order) :=
  resting.foldl (fun m r =>
    if m.contains r.order.id then m else m.insert r.order.id (r.accountId, r.order)) results

/-- The lookups of the binding pass. -/
def bindingContext (w : BlockWitness) : Except String BindingContext := do
  let results ← orderResultsOf w
  pure
    { preResting := w.preStateSidecar.restingOrders.map fun r => r.order.id
      orderResults := addRestingResults results w.stateSidecar.restingOrders
      acceptedMm := (w.orders.filter fun wo => wo.isMm).map fun wo => wo.order.id
      rejectedIds := w.rejections.map fun r => r.order.id
      mmConstraints := w.mmConstraints }

/-- Is there a cancellation of this account's order? -/
def cancelsOrder (accountId orderId : ℕ) : SystemEventWitness → Bool
  | .orderCancelled cancelledAccount cancelledOrder _ _ _ =>
    decide (cancelledAccount = accountId ∧ cancelledOrder = orderId)
  | _ => false

/-- Does an event resolve a market of the order? -/
def resolvesMarketOf (order : Order) : SystemEventWitness → Bool
  | .marketResolved marketId _ _ => decide (marketId ∈ order.activeMarkets)
  | _ => false

/-- Does an event authorize another bundle of the account? -/
def authorizesBundleOf (accountId : ℕ) : SystemEventWitness → Bool
  | .clientActionAuthorized (.mmBundle laterAccount _ _ _ _ _) => decide (laterAccount = accountId)
  | .clientActionAuthorized (.mmBundleReplace laterAccount _ _ _ _ _ _) =>
    decide (laterAccount = accountId)
  | _ => false

/-- The order has this result. -/
def hasResult (ctx : BindingContext) (accountId : ℕ) (order : Order) : Bool :=
  decide (ctx.orderResults.get? order.id = some (accountId, order))

/-- Orders authorized so far: event index and account. -/
abbrev Authorized := OrdMap ℕ (ℕ × ℕ)

/-- Bind one order of a bundle. -/
def bindMmOrder (ctx : BindingContext) (index accountId : ℕ) (st : List ℕ × Authorized)
    (order : Order) : Except String (List ℕ × Authorized) := do
  ensure (order.id ∉ ctx.preResting)
    s!"authorized MM order {order.id} already existed in authenticated pre-state"
  ensure (order.id ∉ st.1 ∧ st.2.contains order.id = false)
    s!"MM order {order.id} was authorized more than once"
  ensure (hasResult ctx accountId order = true)
    s!"authorized MM order {order.id} has no matching block result"
  pure (order.id :: st.1, st.2.insert order.id (index, accountId))

/-- The constraint holds exactly the bundle's orders, sides and budget. -/
def isExactConstraint (accountId : ℕ) (terms : MmBundleTerms) (constraint : MmConstraint) : Bool :=
  decide (constraint.mmId = accountId ∧ constraint.maxCapital = terms.maxCapital ∧
    constraint.orderIds.length = terms.orders.length ∧
    constraint.orderSides.size = terms.orders.length) &&
  (terms.orders.zip terms.orderSides).all fun (order, side) =>
    decide (order.id ∈ constraint.orderIds ∧ constraint.orderSides.get? order.id = some side)

/-- Bind a bundle to its orders and its shared budget. -/
def verifyMmBundleBinding (ctx : BindingContext) (authorized : Authorized) (index accountId : ℕ)
    (terms : MmBundleTerms) : Except String Authorized := do
  ensure (terms.orders ≠ [] ∧ terms.orders.length = terms.orderSides.length)
    "authorized MM bundle has empty or mismatched orders/sides"
  let (ids, authorized) ← terms.orders.foldlM (bindMmOrder ctx index accountId) ([], authorized)
  let accepted := (ids.filter fun id => ctx.acceptedMm.contains id).length
  let rejected := (ids.filter fun id => ctx.rejectedIds.contains id).length
  ensure (accepted = ids.length ∨ rejected = ids.length)
    (s!"authorized MM bundle was partially admitted: {accepted} accepted, " ++
      s!"{rejected} rejected")
  ensure (ctx.mmConstraints.any (isExactConstraint accountId terms) = true)
    "authorized MM bundle has no exact shared-budget constraint"
  pure authorized

/-- Bind one action to its effect; `later` are the events after it. -/
def bindAction (ctx : BindingContext) (authorized : Authorized) (index : ℕ)
    (later : List SystemEventWitness) : ClientActionWitness → Except String Authorized
  | .order accountId order _ _ => do
    ensure (order.id ∉ ctx.preResting)
      s!"authorized order {order.id} already existed in authenticated pre-state"
    ensure (authorized.contains order.id = false)
      s!"order {order.id} was authorized more than once"
    ensure (hasResult ctx accountId order = true ∨
        later.any (cancelsOrder accountId order.id) = true ∨
        later.any (resolvesMarketOf order) = true)
      s!"authorized order {order.id} has no matching block or sidecar effect"
    pure (authorized.insert order.id (index, accountId))
  | .cancel accountId orderId _ _ => do
    ensure (later.any (cancelsOrder accountId orderId) = true)
      s!"authorized cancel for order {orderId} has no later cancellation effect"
    pure authorized
  | .mmBundle accountId _ revision terms _ _ => do
    ensure (revision = 0) s!"initial authorized MM bundle has nonzero revision {revision}"
    verifyMmBundleBinding ctx authorized index accountId terms
  | .mmBundleReplace accountId _ expectedRevision newRevision terms _ _ => do
    let next ← okOr (checkedU64 (expectedRevision + 1))
      "authorized MM replacement revision exhausted"
    ensure (newRevision = next)
      "authorized MM replacement revision is not exactly expected plus one"
    verifyMmBundleBinding ctx authorized index accountId terms
  | .mmBundleCancel accountId _ _ _ _ => do
    ensure (later.any (authorizesBundleOf accountId) = true ∨
        ctx.mmConstraints.any (fun c => c.mmId = accountId) = false)
      s!"authorized MM cancellation for account {accountId} retained a bundle constraint"
    pure authorized

/-- Bind the actions of a list of events. -/
def bindEvents (ctx : BindingContext) (authorized : Authorized) (index : ℕ) :
    List SystemEventWitness → Except String Unit
  | [] => .ok ()
  | .clientActionAuthorized action :: later => do
    let authorized ← bindAction ctx authorized index later action
    bindEvents ctx authorized (index + 1) later
  | _ :: later => bindEvents ctx authorized (index + 1) later

/-- Bind every authorization event to the effect it authorized. -/
def verifyBindings (w : BlockWitness) : Except String Unit := do
  let ctx ← bindingContext w
  bindEvents ctx ∅ 0 w.systemEvents

/-- The pass. -/
def verifyClientActionBindings (w : BlockWitness) : List Violation :=
  match verifyBindings w with
  | .ok () => []
  | .error details => [⟨.clientActionMismatch, details⟩]

theorem verifyClientActionBindings_eq_nil {w : BlockWitness} :
    verifyClientActionBindings w = [] ↔ verifyBindings w = .ok () := by
  unfold verifyClientActionBindings
  split <;> simp_all

end Sybil.Verifier
