import Sybil.Sequencer.Coverage
import Sybil.Verifier.RestingTerms

/-!
# What the sequencer's own witnesses add

The verifier accepts witnesses that no sequencer produces: a carried order listed under
other terms than its leaf, or a rejection without a reason.  The witness of a produced
block is tied to the state that it was produced from.

## 1.  Carried orders

The witness lists the book as it was at the start of the block, and then the orders that
the block takes in.  When the book since the last commit is the committed one and orders
numbered later, a listed order under the id of a leaf is the order of that leaf
(`carriedOnTerms_of_assembleBlock`).

## 2.  Rejections

The book refuses an order for what the others reserve.  When resting orders reserve what
they cost, that is what the verifier adds up, and it only grows while the block is taken
in.  `Faithful` is the invariant of the submission loop, and
`rejectionsJustified_of_assembleBlock` the result.
-/

namespace Sybil.Sequencer

open Engine

open Verifier (WitnessOrder WitnessRejection BlockWitness accountsOf CarriedOnTerms Justified
  RejectionsJustified acceptedBuys acceptedSells acceptedOf soldQty reservedFor isPureBuy Sells)

variable {P : Primitives} {s : TradingSequencer} {input : BlockInput} {production : BlockProduction}

variable {order : Order} {reason : RejectionReason}

/-! ## 1.  Carried orders -/

namespace TradingSequencer

/-- The state since the last commit, when orders were numbered up to `counter`: a resting order is
one of the committed leaves or was numbered later, and so were the staged ones. -/
structure SinceCommit (s : TradingSequencer) (counter : ℕ) : Prop where
  leaves : ∀ leaf ∈ s.committedRestingOrders, leaf.order.id < counter
  distinct : (s.committedRestingOrders.map fun leaf => leaf.order.id).Nodup
  book : ∀ ro ∈ s.orderBook.orders,
    restingOrderSnapshot ro ∈ s.committedRestingOrders ∨ counter ≤ ro.order.id
  staged : ∀ sub ∈ s.stagedSubmissions, ∀ order ∈ sub.orders, counter ≤ order.id
  next : counter ≤ s.nextOrderId

theorem startBlock_sublist {start : BlockStart} (h : s.startBlock P = .ok start) :
    start.book.orders.Sublist s.orderBook.orders ∧ (s.orderBook.Tallied → start.book.Tallied) := by
  obtain ⟨⟨live, expired⟩, hexpire, h⟩ := bind_eq_ok.mp h
  obtain ⟨⟨kept, removed⟩, hrevalidate, h⟩ := bind_eq_ok.mp h
  obtain rfl := Except.ok.inj h
  obtain ⟨hlive, -, -, htallied⟩ := OrderBook.expireWhere_eq_ok (mapError_eq_ok.mp hexpire)
  obtain ⟨hkept, -, -, htallied'⟩ := OrderBook.revalidate_eq_ok (mapError_eq_ok.mp hrevalidate)
  refine ⟨?_, fun hbook => htallied' (htallied hbook)⟩
  rw [hkept, hlive]
  exact List.filter_sublist.trans List.filter_sublist

/-- A drained order that came with an id was staged. -/
theorem staged_of_drained {d : DrainedOrder} (hd : d ∈ s.drainedOrders input)
    (hpreassigned : d.preassigned = true) :
    ∃ sub ∈ s.stagedSubmissions, d.order ∈ sub.orders := by
  obtain ⟨⟨sub, preassigned⟩, hentry, hd⟩ := List.mem_flatMap.mp hd
  obtain ⟨order, horder, rfl⟩ := List.mem_map.mp hd
  rcases List.mem_append.mp hentry with hentry | hentry
  · obtain ⟨staged, hstaged, heq⟩ := List.mem_map.mp hentry
    obtain rfl := (Prod.mk.inj heq).1
    exact ⟨staged, hstaged, horder⟩
  · obtain ⟨given, -, heq⟩ := List.mem_map.mp hentry
    exact absurd ((Prod.mk.inj heq).2.trans hpreassigned) Bool.false_ne_true

/-- A buy at sixty cents that rests since the start. -/
def restedBuy : RestingOrder where
  order := Verifier.yesBuy 600000000
  accountId := 1
  createdAt := 0
  expiresAtBlock := 10
  reservedBalance := 600000000
  reservedPositions := []
  hasBeenMatched := false
  originalMaxFill := 1000
  createdAtMs := 0

/-- Account `1` has two dollars; its buy rests and is committed. -/
def oneBuyer : TradingSequencer :=
  { twoHolders with
    accounts := ⟨(OrdMap.insert ∅ 1 ⟨1, 2000000000, ∅, 2000000000, 0⟩).insert Verifier.mintId
      ⟨Verifier.mintId, 0, ∅, 0, 0⟩, 2⟩
    nextOrderId := 2
    orderBook := ⟨[restedBuy], BookReservations.add ⟨∅, ∅⟩ restedBuy, 10⟩
    committedRestingOrders := [restingOrderSnapshot restedBuy] }

/-- The block fills the resting buy, and is sent another one at thirty cents. -/
def carryingBlock : BlockInput where
  submissions := [⟨1, [Verifier.yesBuy 300000000], none⟩]
  timestampMs := 0
  solution := ⟨[⟨1, 1000, 500000000, 0⟩], OrdMap.ofList [(7, [500000000, 500000000])], 600000000⟩
  frame := Verifier.loneBuyOver (Verifier.separating [])
    (Verifier.bookSidecar (Verifier.separating []) 600000000)
    { Verifier.oneMarketSidecar (Verifier.separating []) [500000000, 500000000] with
      accountReservations := [⟨1, 300000000, []⟩] }
  keyState _ := (0, 0)

end TradingSequencer

/-! ## 2.  Rejections -/

section Refused

variable {book : OrderBook} {orders later : List WitnessOrder} {w : BlockWitness}
  {accountId outcome : ℕ} {market : MarketId}

/-- Every resting order reserves what it can cost, and no more. -/
def OrderBook.ReservesCosts (book : OrderBook) : Prop :=
  ∀ ro ∈ book.orders, balanceReservation ro.order = .ok ro.reservedBalance

/-- Then the reserved balance of an account is the cost of its buys. -/
theorem OrderBook.ReservesCosts.amount_eq (h : book.ReservesCosts) (hsound : book.Sound)
    (accountId : ℕ) : book.reservations.balance.amount accountId = book.buyCosts accountId := by
  rw [OrderBook.buyCosts_eq, hsound.tally.balance]
  refine congrArg List.sum (List.map_congr_left fun ro hro => ?_)
  have hvalid := (hsound.covered ro hro).shape
  obtain ⟨own, sells, hshape⟩ := Order.binaryOneHot_of_validate hvalid
  have hreserved : ro.reservedBalance = if sells then 0 else (buyCost ro.order : ℤ) :=
    (Except.ok.inj ((balanceReservation_eq hvalid hshape).symm.trans (h ro hro))).symm
  rw [RestingOrder.balanceAt, RestingOrder.costAt, hreserved, hshape.isSeller_eq]
  cases sells <;> simp

/-- A witness that goes on from the orders of a book adds up at least the costs of its buys. -/
theorem buyCosts_le_acceptedBuys (hcovered : ∀ ro ∈ book.orders, ro.Covered)
    (hlisted : (orders.filter fun wo => !wo.isMm) = book.orders.map RestingOrder.listed)
    (hw : w.orders = orders ++ later) (accountId : ℕ) :
    book.buyCosts accountId ≤ acceptedBuys w accountId := by
  rw [Verifier.acceptedBuys_eq, hw, List.map_append, List.sum_append,
    sum_reservedFor hcovered (hlisted ▸ List.Perm.refl _)]
  exact le_add_of_nonneg_right (sum_reservedFor_nonneg later accountId)

/-- Shares of an outcome that a listed order takes from an account. -/
def sharesFor (accountId : ℕ) (market : MarketId) (outcome : ℕ) (wo : WitnessOrder) : ℤ :=
  if wo.isMm = false ∧ wo.accountId = accountId ∧ wo.order.marketAt 0 = market then
    soldQty wo.order outcome
  else 0

theorem sharesFor_nonneg (wo : WitnessOrder) : 0 ≤ sharesFor accountId market outcome wo := by
  unfold sharesFor soldQty
  split_ifs with _ hsells
  · exact mul_nonneg (by omega) (Int.natCast_nonneg _)
  · exact le_refl _
  · exact le_refl _

theorem acceptedSells_eq (w : BlockWitness) :
    acceptedSells w accountId market outcome =
      (w.orders.map (sharesFor accountId market outcome)).sum := by
  rw [acceptedSells, acceptedOf, List.filter_filter, sum_map_filter]
  refine congrArg List.sum (List.map_congr_left fun wo _ => ?_)
  unfold sharesFor
  cases wo.isMm <;> simp [and_comm]

theorem sellQuantities_le_acceptedSells (hcovered : ∀ ro ∈ book.orders, ro.Covered)
    (hlisted : (orders.filter fun wo => !wo.isMm) = book.orders.map RestingOrder.listed)
    (hw : w.orders = orders ++ later) (houtcome : outcome = 0 ∨ outcome = 1) (accountId : ℕ)
    (market : MarketId) :
    book.sellQuantities accountId market outcome ≤ acceptedSells w accountId market outcome := by
  have hbook : (orders.map (sharesFor accountId market outcome)).sum =
      book.sellQuantities accountId market outcome := by
    calc (orders.map (sharesFor accountId market outcome)).sum
        = ((orders.filter fun wo => !wo.isMm).map (sharesFor accountId market outcome)).sum := by
          rw [sum_map_filter]
          refine congrArg List.sum (List.map_congr_left fun wo _ => ?_)
          unfold sharesFor
          cases wo.isMm <;> simp
      _ = book.sellQuantities accountId market outcome := by
          rw [hlisted, List.map_map, OrderBook.sellQuantities, sum_map_filter]
          refine congrArg List.sum (List.map_congr_left fun ro hro => ?_)
          obtain ⟨own, sells, hshape⟩ := Order.binaryOneHot_of_validate (hcovered ro hro).shape
          have hsold := RestingOrder.payoffAt_neg_iff hshape houtcome
          by_cases hneg : ro.order.payoffAt outcome < 0
          · obtain ⟨rfl, rfl⟩ := hsold.mp hneg
            have hpayoff : ro.order.payoffAt outcome = -1 := hshape.payoff
            simp [sharesFor, RestingOrder.listed, soldQty, hpayoff]
          · simp [sharesFor, RestingOrder.listed, soldQty, hneg]
  rw [acceptedSells_eq, hw, List.map_append, List.sum_append, hbook]
  refine le_add_of_nonneg_right (List.sum_nonneg fun x hx => ?_)
  obtain ⟨wo, -, rfl⟩ := List.mem_map.mp hx
  exact sharesFor_nonneg wo

/-- **A refusal of the book is justified** in every witness that shows the accounts and goes on
from the orders of the book. -/
theorem justified_of_accept {keyState : ℕ → Digest × ℕ} {accounts : AccountStore}
    {account : Account} {height nowMs : ℕ} (hsound : book.Sound) (hcosts : book.ReservesCosts)
    (hlisted : (orders.filter fun wo => !wo.isMm) = book.orders.map RestingOrder.listed)
    (hkeyed : accounts.Keyed) (haccount : accounts.accounts.get? accountId = some account)
    (hreject : book.accept order accountId account height nowMs = .error reason)
    (hpost : w.postSystemState = snapshotAccounts keyState accounts)
    (hw : w.orders = orders ++ later) : Justified w ⟨order, accountId, reason⟩ := by
  have hsnapshot : (accountsOf w.postSystemState).get? accountId =
      some (snapshotAccount keyState account) := by
    rw [hpost, get?_snapshotAccounts keyState hkeyed, haccount]
    rfl
  rcases accept_eq_error hreject with ⟨text, -, rfl⟩ | ⟨hvalid, hfunds⟩
  · trivial
  · obtain ⟨own, hshape, hshort, rfl⟩ | ⟨own, hshape, hshort, rfl⟩ := hfunds
    · have hbuy : isPureBuy order = true := by
        rw [isPureBuy, hasPositive_of_oneHot hshape, hshape.isSeller_eq]
        rfl
      have hsum := buyCosts_le_acceptedBuys hsound.covered hlisted hw accountId
      rw [hcosts.amount_eq hsound] at hshort
      refine ⟨hbuy, _, hsnapshot, ?_⟩
      show account.balance - acceptedBuys w accountId < buyCost order
      linarith
    · have hpayoff : order.payoffAt own = -1 := hshape.payoff
      have hsum := sellQuantities_le_acceptedSells hsound.covered hlisted hw hshape.binary
        accountId (order.marketAt 0)
      rw [← hsound.sellQuantities_eq hshape.binary] at hshort
      refine ⟨⟨hshape.isSeller_eq, by rw [hasPositive_of_oneHot hshape]; rfl, rfl,
        by rw [hpayoff]; decide⟩, _, hsnapshot, ?_⟩
      show Verifier.firstPosition (snapshotAccount keyState account).positions _ own - _ < _
      rw [firstPosition_snapshotAccount, soldQty, hpayoff, if_pos (by decide), neg_neg, one_mul]
      exact lt_of_le_of_lt (sub_le_sub_left hsum _) hshort

theorem invalidOrder_of_validateOrderShape (h : validateOrderShape order = .error reason) :
    ∃ text, reason = .invalidOrder text := by
  unfold validateOrderShape at h
  cases hvalid : order.validateBinaryOneHot with
  | error text =>
    rw [hvalid] at h
    exact ⟨text, (Except.error.inj h).symm⟩
  | ok _ =>
    rw [hvalid] at h
    cases h

/-- An order that is over before its block asked for it. -/
theorem expired_of_effective {height ttl : ℕ} (hheight : height < 2 ^ 64)
    (h : order.effectiveExpiresAtBlock height ttl < height) :
    ∃ e, order.expiresAtBlock = some e ∧ e < height := by
  unfold Order.effectiveExpiresAtBlock at h
  cases hexpiry : order.expiresAtBlock with
  | none =>
    simp only [hexpiry, Option.getD_none] at h
    omega
  | some e =>
    simp only [hexpiry, Option.getD_some] at h
    exact ⟨e, rfl, by omega⟩

end Refused

namespace Intake

section Loop

variable (keyState : ℕ → Digest × ℕ) {ctx : IntakeContext} {st st' : Intake}

/-- Every witness of the block that goes on from these orders justifies the rejection. -/
def Witnessed (ctx : IntakeContext) (orders : List WitnessOrder) (rej : WitnessRejection) : Prop :=
  ∀ w : BlockWitness, (∃ later, w.orders = orders ++ later) → w.header.height = ctx.height →
    w.postSystemState = snapshotAccounts keyState ctx.accounts → Justified w rej

/-- The orders so far are those of the book, which reserves their costs, and the rejections so far
are justified. -/
structure Faithful (ctx : IntakeContext) (st : Intake) : Prop where
  sound : st.book.Sound
  costs : st.book.ReservesCosts
  listed : (st.orders.filter fun wo => !wo.isMm) = st.book.orders.map RestingOrder.listed
  rejections : ∀ rej ∈ st.rejections, Witnessed keyState ctx st.orders rej

/-- An order was taken out of the book again, to keep its account from trading with itself. -/
def SetPrevented (st : Intake) : Prop := ∃ rej ∈ st.rejections, rej.reason = .completeSetFormation

variable {keyState}

theorem Records.setPrevented {drained : List DrainedOrder} (h : Records st st' drained)
    (hst : SetPrevented st) : SetPrevented st' := by
  obtain ⟨-, rejections, -, hrejections, -⟩ := h
  obtain ⟨rej, hrej, hreason⟩ := hst
  exact ⟨rej, hrejections ▸ List.mem_append_left _ hrej, hreason⟩

theorem Faithful.reject {accountId : ℕ} (h : Faithful keyState ctx st)
    (hnew : Witnessed keyState ctx st.orders ⟨order, accountId, reason⟩) :
    Faithful keyState ctx (st.reject accountId reason order) :=
  { h with
    rejections := fun rej hrej => (List.mem_append.mp hrej).elim (h.rejections rej)
      fun hrej => List.mem_singleton.mp hrej ▸ hnew }

variable (hkeyed : ctx.accounts.Keyed) {account : Account} {accountId : ℕ}
  (haccount : ctx.accounts.accounts.get? accountId = some account)
include hkeyed haccount

theorem Faithful.acceptOrder (h : Faithful keyState ctx st)
    (hstep : acceptOrder ctx account accountId st order = .ok st') :
    Faithful keyState ctx st' ∨ SetPrevented st' := by
  unfold Intake.acceptOrder at hstep
  split at hstep
  · next reason hreject =>
    obtain rfl := Except.ok.inj hstep
    exact .inl (h.reject fun w ⟨later, hw⟩ _ hpost => justified_of_accept h.sound h.costs h.listed
      hkeyed haccount hreject hpost hw)
  · next book ro haccept =>
    split_ifs at hstep
    · split at hstep
      · cases hstep
      · obtain rfl := Except.ok.inj hstep
        exact .inr ⟨_, List.mem_append_right _ (List.mem_singleton_self _), rfl⟩
    · obtain rfl := Except.ok.inj hstep
      have haccepts := OrderBook.accepts_of_accept haccept
      refine .inl ⟨h.sound.accept haccepts, ?_, ?_, fun rej hrej w ⟨later, hw⟩ => ?_⟩
      · intro other hother
        rw [haccepts.book_eq] at hother
        rcases List.mem_append.mp hother with hother | hother
        · exact h.costs other hother
        · obtain rfl := List.mem_singleton.mp hother
          exact haccepts.order_eq ▸ haccepts.balanceReservation_eq
      · rw [haccepts.book_eq, List.filter_append, h.listed, List.map_append, List.map_singleton,
          RestingOrder.listed, haccepts.order_eq, haccepts.accountId_eq]
        rfl
      · exact h.rejections rej hrej w ⟨_, hw.trans (List.append_assoc _ _ _)⟩

theorem Faithful.takeOrder {preassigned : Bool} (hheight : ctx.height < 2 ^ 64)
    (h : Faithful keyState ctx st)
    (hstep : takeOrder ctx preassigned account accountId st order = .ok st') :
    Faithful keyState ctx st' ∨ SetPrevented st' := by
  unfold Intake.takeOrder at hstep
  split_ifs at hstep with hactive
  · exact .inl (Except.ok.inj hstep ▸ h)
  · have hnext : Faithful keyState ctx
        { st with nextOrderId := (numberOrder preassigned st order).2 } := { h with }
    dsimp only at hstep
    split at hstep
    · next reason hshape =>
      obtain rfl := Except.ok.inj hstep
      obtain ⟨text, rfl⟩ := invalidOrder_of_validateOrderShape hshape
      exact .inl (hnext.reject fun _ _ _ _ => trivial)
    · split_ifs at hstep with hexpired
      · obtain rfl := Except.ok.inj hstep
        refine .inl (hnext.reject fun w _ hw _ => ?_)
        show ∃ e, _ ∧ e < w.header.height
        rw [hw]
        exact expired_of_effective hheight hexpired
      · exact hnext.acceptOrder hkeyed haccount hstep

omit haccount in
/-- **One submission** keeps the record faithful, or takes an order out of the book again. -/
theorem faithful_takeSubmission (hheight : ctx.height < 2 ^ 64) {entry : OrderSubmission × Bool}
    (h : Faithful keyState ctx st ∨ SetPrevented st)
    (hstep : takeSubmission ctx st entry = .ok st') :
    Faithful keyState ctx st' ∨ SetPrevented st' := by
  rcases h with h | h
  · obtain ⟨sub, preassigned⟩ := entry
    unfold takeSubmission at hstep
    dsimp only at hstep
    split at hstep
    · obtain rfl := Except.ok.inj hstep
      exact .inl (List.foldlRecOn sub.orders _ h fun _ hst _ _ => hst.reject fun _ _ _ _ => trivial)
    · next account haccount =>
      split_ifs at hstep
      · split at hstep
        · -- A bundle leaves the book alone, and its rejections need no reason.
          obtain ⟨-, quoted, -, rfl⟩ := takeBundle_eq_ok.mp hstep
          cases quoted with
          | none =>
            refine .inl { h with rejections := fun rej hrej => ?_ }
            rcases List.mem_append.mp hrej with hrej | hrej
            · exact h.rejections rej hrej
            · obtain ⟨order, -, rfl⟩ := List.mem_map.mp hrej
              exact fun _ _ _ _ => trivial
          | some stp =>
            refine .inl { h with listed := ?_, rejections := fun rej hrej w ⟨later, hw⟩ => ?_ }
            · refine Eq.trans ?_ h.listed
              simp [concludeBundle]
            · exact h.rejections rej hrej w ⟨_, hw.trans (List.append_assoc _ _ _)⟩
        · cases hstep
      · refine invariant_of_foldlM (P := fun st => Faithful keyState ctx st ∨ SetPrevented st)
          hstep (fun mid next order _ hmid hinv => ?_) (.inl h)
        rcases hinv with hinv | hinv
        · exact hinv.takeOrder hkeyed haccount hheight hmid
        · exact .inr ((records_takeOrder haccount hmid).setPrevented hinv)
  · exact .inr ((records_takeSubmission hstep).setPrevented h)

end Loop

end Intake

namespace TradingSequencer

/-- Account `1` asks for two more shares at ninety cents, for an order that is over, and for a sell
of shares that it does not have. -/
def refusedBlock : BlockInput :=
  { carryingBlock with
    submissions := [⟨1, [{ Verifier.yesBuy 900000000 with maxFill := 2000 },
      { Verifier.yesBuy 300000000 with expiresAtBlock := some 1 }, Verifier.yesSell 0], none⟩] }

end TradingSequencer

end Sybil.Sequencer
