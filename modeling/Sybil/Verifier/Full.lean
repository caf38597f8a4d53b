import Sybil.Verifier.Block
import Sybil.Verifier.ClientAction
import Sybil.Verifier.KeyTransition
import Sybil.Verifier.Orders
import Sybil.Verifier.Settlement
import Sybil.Verifier.Sidecar.Bridge
import Sybil.Verifier.Sidecar.Markets

/-!
# The whole verifier

`verifyFull` runs every layer on a witness.  A witness is accepted when no layer
reports anything, and `Accepted` names the layers so that a result can say which of
them it uses.
-/

namespace Sybil.Verifier

/-- Layer 5: the state besides the accounts. -/
def verifySidecar (P : Primitives) (w : BlockWitness) : List Violation :=
  verifyRestingOrderReservations "pre" w.preStateSidecar.restingOrders
    w.preStateSidecar.accountReservations ++
  verifyRestingOrderReservations "post" w.stateSidecar.restingOrders
    w.stateSidecar.accountReservations ++
  verifyRestingOrderTransition w ++
  verifyWithdrawalTransition w ++
  verifyDepositAccumulator P w ++
  verifyQuarantineTransition P w ++
  verifyMarketTransition w ++
  verifyMarketGroupTransition w

/-- Replay of the system events, keys and client actions. -/
def verifySystem (P : Primitives) (w : BlockWitness) : List Violation :=
  verifySystemTransition P w ++ verifyKeyTransitions P w ++ verifyClientActionBindings w

/-- Run all layers. -/
def verifyFull (P : Primitives) (w : BlockWitness) : List Violation :=
  verifyMatch w ++ verifySystem P w ++ verifySettlement P w ++ verifyBlock P w ++
    verifyOrders w ++ verifySidecar P w

/-- The parts of a silent sidecar pass. -/
structure SidecarAccepted (P : Primitives) (w : BlockWitness) : Prop where
  preReservations : verifyRestingOrderReservations "pre" w.preStateSidecar.restingOrders
    w.preStateSidecar.accountReservations = []
  postReservations : verifyRestingOrderReservations "post" w.stateSidecar.restingOrders
    w.stateSidecar.accountReservations = []
  restingOrders : verifyRestingOrderTransition w = []
  withdrawals : verifyWithdrawalTransition w = []
  deposits : verifyDepositAccumulator P w = []
  quarantine : verifyQuarantineTransition P w = []
  markets : verifyMarketTransition w = []
  marketGroups : verifyMarketGroupTransition w = []

theorem verifySidecar_eq_nil_iff {P : Primitives} {w : BlockWitness} :
    verifySidecar P w = [] ↔ SidecarAccepted P w := by
  simp only [verifySidecar, List.append_eq_nil_iff]
  constructor
  · rintro ⟨⟨⟨⟨⟨⟨⟨h₁, h₂⟩, h₃⟩, h₄⟩, h₅⟩, h₆⟩, h₇⟩, h₈⟩
    exact ⟨h₁, h₂, h₃, h₄, h₅, h₆, h₇, h₈⟩
  · rintro ⟨h₁, h₂, h₃, h₄, h₅, h₆, h₇, h₈⟩
    exact ⟨⟨⟨⟨⟨⟨⟨h₁, h₂⟩, h₃⟩, h₄⟩, h₅⟩, h₆⟩, h₇⟩, h₈⟩

/-- The layers of an accepted witness. -/
structure Accepted (P : Primitives) (w : BlockWitness) : Prop where
  match_ : verifyMatch w = []
  system : verifySystemTransition P w = []
  keys : verifyKeys P w = .ok ()
  bindings : verifyBindings w = .ok ()
  settlement : verifySettlement P w = []
  block : verifyBlock P w = []
  orders : verifyOrders w = []
  sidecar : SidecarAccepted P w

/-- **Acceptance, layer by layer.** -/
theorem verifyFull_eq_nil_iff {P : Primitives} {w : BlockWitness} :
    verifyFull P w = [] ↔ Accepted P w := by
  simp only [verifyFull, verifySystem, List.append_eq_nil_iff, verifyKeyTransitions_eq_nil,
    verifyClientActionBindings_eq_nil, verifySidecar_eq_nil_iff]
  constructor
  · rintro ⟨⟨⟨⟨⟨h₁, ⟨h₂, h₃⟩, h₄⟩, h₅⟩, h₆⟩, h₇⟩, h₈⟩
    exact ⟨h₁, h₂, h₃, h₄, h₅, h₆, h₇, h₈⟩
  · rintro ⟨h₁, h₂, h₃, h₄, h₅, h₆, h₇, h₈⟩
    exact ⟨⟨⟨⟨⟨h₁, ⟨h₂, h₃⟩, h₄⟩, h₅⟩, h₆⟩, h₇⟩, h₈⟩

end Sybil.Verifier
