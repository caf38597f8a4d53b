import Sybil.Sequencer.RejectionRecords

/-!
# Where the submitted orders of a block end up

A block drains the staged submissions and those it is given.  The submission loop leaves
an order at one of many places: its account is missing, its bundle is refused as a whole,
its shape or its expiry is wrong, the book refuses it, the account would trade with
itself, or it is accepted.  Each of these leaves one record in the witness, with the
submitting account and the order as it was numbered.

One exit leaves no record.  An order without a budget whose market cannot be traded any
more is skipped.

* `records_takeSubmission` says, for one submission, that the new records are those of
  its orders without the skipped ones.
* `recorded_iff` counts: the witness accounts for every order exactly when none is
  skipped.
-/

namespace Sybil.Sequencer

open Engine

open Verifier (WitnessOrder WitnessRejection)

variable {order : Order}

/-- An order that a block drains. -/
structure DrainedOrder where
  accountId : ℕ
  /-- Is it part of a market maker's bundle? -/
  budgeted : Bool
  /-- Was it numbered when it was admitted? -/
  preassigned : Bool
  order : Order

/-- The orders of one submission. -/
def drainedOf (entry : OrderSubmission × Bool) : List DrainedOrder :=
  entry.1.orders.map fun order =>
    ⟨entry.1.accountId, entry.1.mmConstraint.isSome, entry.2, order⟩

/-- A record of the witness, accepted or rejected: the account and the order. -/
def orderRecords (orders : List WitnessOrder) (rejections : List WitnessRejection) :
    List (ℕ × Order) :=
  orders.map (fun wo => (wo.accountId, wo.order)) ++
    rejections.map fun rejection => (rejection.accountId, rejection.order)

/-- The record is that of the drained order: the account is the submitting one, and only the id of
an order that came without one may differ. -/
structure DrainedOrder.RecordedAs (drained : DrainedOrder) (record : ℕ × Order) : Prop where
  account : record.1 = drained.accountId
  order : record.2 = { drained.order with id := record.2.id }
  id : drained.preassigned = true → record.2.id = drained.order.id

/-- Every drained order has one record, and there is no other record. -/
def AccountsFor (drained : List DrainedOrder) (records : List (ℕ × Order)) : Prop :=
  ∃ placed, List.Forall₂ DrainedOrder.RecordedAs drained placed ∧ records.Perm placed

section AccountsFor

variable {drained drained' : List DrainedOrder} {records records' : List (ℕ × Order)}

theorem AccountsFor.length_eq (h : AccountsFor drained records) :
    records.length = drained.length := by
  obtain ⟨placed, hplaced, hperm⟩ := h
  rw [hperm.length_eq, hplaced.length_eq]

theorem AccountsFor.append (h : AccountsFor drained records) (h' : AccountsFor drained' records') :
    AccountsFor (drained ++ drained') (records ++ records') := by
  obtain ⟨placed, hplaced, hperm⟩ := h
  obtain ⟨placed', hplaced', hperm'⟩ := h'
  exact ⟨placed ++ placed', List.rel_append hplaced hplaced', hperm.append hperm'⟩

theorem AccountsFor.perm (h : AccountsFor drained records) (hperm : records'.Perm records) :
    AccountsFor drained records' := by
  obtain ⟨placed, hplaced, hrecords⟩ := h
  exact ⟨placed, hplaced, hperm.trans hrecords⟩

theorem accountsFor_of_forall₂ (h : List.Forall₂ DrainedOrder.RecordedAs drained records) :
    AccountsFor drained records :=
  ⟨records, h, List.Perm.refl _⟩

/-- Nothing was left out exactly when every drained order is accounted for. -/
theorem accountsFor_iff_of_filter {keep : DrainedOrder → Bool}
    (h : AccountsFor (drained.filter keep) records) :
    AccountsFor drained records ↔ ∀ d ∈ drained, keep d = true := by
  constructor
  · intro hall
    have hlength : (drained.filter keep).length = drained.length := by
      rw [← h.length_eq, hall.length_eq]
    exact List.length_filter_eq_length_iff.mp hlength
  · intro hkeep
    rwa [List.filter_eq_self.mpr hkeep] at h

end AccountsFor

/-! ## The submission loop -/

namespace Intake

variable {ctx : IntakeContext} {st st' st'' : Intake} {drained drained' : List DrainedOrder}

/-- The new orders have ids from the counter on, or those that drained orders came with. -/
def NumberedFrom (next : ℕ) (drained : List DrainedOrder) (orders : List WitnessOrder) : Prop :=
  ∀ wo ∈ orders, next ≤ wo.order.id ∨
    ∃ d ∈ drained, d.preassigned = true ∧ d.order.id = wo.order.id

/-- The loop went from `st` to `st'` and recorded the drained orders. -/
def Records (st st' : Intake) (drained : List DrainedOrder) : Prop :=
  ∃ orders rejections, st'.orders = st.orders ++ orders ∧
    st'.rejections = st.rejections ++ rejections ∧
    AccountsFor drained (orderRecords orders rejections) ∧
    st.nextOrderId ≤ st'.nextOrderId ∧ NumberedFrom st.nextOrderId drained orders

theorem Records.refl (st : Intake) : Records st st [] :=
  ⟨[], [], (List.append_nil _).symm, (List.append_nil _).symm,
    accountsFor_of_forall₂ List.Forall₂.nil, le_rfl, fun _ hwo => absurd hwo List.not_mem_nil⟩

theorem Records.trans (h : Records st st' drained) (h' : Records st' st'' drained') :
    Records st st'' (drained ++ drained') := by
  obtain ⟨orders, rejections, horders, hrejections, hall, hnext, hids⟩ := h
  obtain ⟨orders', rejections', horders', hrejections', hall', hnext', hids'⟩ := h'
  refine ⟨orders ++ orders', rejections ++ rejections', ?_, ?_, (hall.append hall').perm ?_,
    hnext.trans hnext', fun wo hwo => ?_⟩
  · rw [horders', horders, List.append_assoc]
  · rw [hrejections', hrejections, List.append_assoc]
  · -- Both sides hold the accepted orders and the rejections of the two parts.
    simp only [orderRecords, List.map_append, List.append_assoc]
    exact List.Perm.append_left _ (List.perm_append_comm_assoc _ _ _)
  · rcases List.mem_append.mp hwo with hwo | hwo
    · exact (hids wo hwo).imp_right fun ⟨d, hd, h⟩ => ⟨d, List.mem_append_left _ hd, h⟩
    · exact (hids' wo hwo).imp hnext.trans fun ⟨d, hd, h⟩ => ⟨d, List.mem_append_right _ hd, h⟩

/-- A loop whose every turn records what it drains records what the whole list drains. -/
theorem Records.foldlM {α : Type} {step : Intake → α → Except TradingError Intake}
    {drains : α → List DrainedOrder} {l : List α}
    (hstep : ∀ st a st', a ∈ l → step st a = .ok st' → Records st st' (drains a))
    (h : l.foldlM step st = .ok st') : Records st st' (l.flatMap drains) := by
  induction l generalizing st with
  | nil =>
    obtain rfl := Except.ok.inj h
    exact Records.refl st
  | cons a l ih =>
    obtain ⟨mid, hmid, h⟩ := foldlM_cons_eq_ok.mp h
    have hfirst := hstep st a mid List.mem_cons_self hmid
    have hrest := ih (fun st b st' hb => hstep st b st' (List.mem_cons_of_mem a hb)) h
    rw [List.flatMap_cons]
    exact hfirst.trans hrest

theorem records_reject {d : DrainedOrder} (reason : RejectionReason)
    (h : d.RecordedAs (d.accountId, order)) (horders : st'.orders = st.orders)
    (hrejections : st'.rejections = st.rejections) (hnext : st.nextOrderId ≤ st'.nextOrderId) :
    Records st (st'.reject d.accountId reason order) [d] :=
  ⟨[], [⟨order, d.accountId, reason⟩], by rw [List.append_nil]; exact horders,
    by rw [← hrejections]; rfl,
      accountsFor_of_forall₂ (List.Forall₂.cons h List.Forall₂.nil), hnext,
    fun _ hwo => absurd hwo List.not_mem_nil⟩

theorem reject_foldl (accountId : ℕ) (reason : RejectionReason) (orders : List Order) :
    orders.foldl (fun st order => st.reject accountId reason order) st =
      { st with
        rejections := st.rejections ++ orders.map fun order => ⟨order, accountId, reason⟩ } := by
  induction orders generalizing st with
  | nil => rw [List.map_nil, List.append_nil]; rfl
  | cons order orders ih =>
    rw [List.foldl_cons, ih]
    simp only [reject, List.map_cons, List.append_assoc, List.singleton_append]

/-- An order keeps everything but its id when it is numbered. -/
theorem recordedAs_numberOrder (st : Intake) (accountId : ℕ) (budgeted preassigned : Bool)
    (order : Order) :
    DrainedOrder.RecordedAs ⟨accountId, budgeted, preassigned, order⟩
      (accountId, (numberOrder preassigned st order).1) := by
  cases preassigned with
  | true => exact ⟨rfl, rfl, fun _ => rfl⟩
  | false => exact ⟨rfl, rfl, nofun⟩

/-- The orders of a submission that leave no record. -/
def skips (ctx : IntakeContext) (d : DrainedOrder) : Bool :=
  ctx.accounts.accounts.contains d.accountId && !d.budgeted && !ctx.marketsActive d.order

theorem records_acceptOrder {account : Account} {d : DrainedOrder} {next : ℕ}
    (hrecorded : d.RecordedAs (d.accountId, order)) (hnext : st.nextOrderId ≤ next)
    (hid : d.preassigned = false → st.nextOrderId ≤ order.id)
    (h : acceptOrder ctx account d.accountId { st with nextOrderId := next } order = .ok st') :
    Records st st' [d] := by
  unfold acceptOrder at h
  split at h
  · obtain rfl := Except.ok.inj h
    exact records_reject _ hrecorded rfl rfl hnext
  · split_ifs at h
    · split at h
      · cases h
      · obtain rfl := Except.ok.inj h
        exact records_reject _ hrecorded rfl rfl hnext
    · obtain rfl := Except.ok.inj h
      refine ⟨[⟨order, d.accountId, false⟩], [], rfl, (List.append_nil _).symm,
        accountsFor_of_forall₂ (List.Forall₂.cons hrecorded List.Forall₂.nil), hnext,
        List.forall_mem_singleton.mpr ?_⟩
      cases hpre : d.preassigned with
      | false => exact .inl (hid hpre)
      | true => exact .inr ⟨d, List.mem_singleton_self d, hpre, (hrecorded.id hpre).symm⟩

/-- The counter does not go back, and an order that came without an id takes the next one. -/
theorem le_numberOrder (preassigned : Bool) (st : Intake) (order : Order) :
    st.nextOrderId ≤ (numberOrder preassigned st order).2 ∧
      (preassigned = false → st.nextOrderId ≤ (numberOrder preassigned st order).1.id) := by
  cases preassigned with
  | true => exact ⟨le_max_left _ _, nofun⟩
  | false => exact ⟨Nat.le_succ _, fun _ => le_rfl⟩

/-- **One order.**  An order on tradeable markets leaves one record, another none. -/
theorem records_takeOrder {account : Account} {accountId : ℕ} {preassigned : Bool}
    (haccount : ctx.accounts.accounts.get? accountId = some account)
    (h : takeOrder ctx preassigned account accountId st order = .ok st') :
    Records st st' (([⟨accountId, false, preassigned, order⟩] : List DrainedOrder).filter
      fun d => !skips ctx d) := by
  have hcontains : ctx.accounts.accounts.contains accountId = true :=
    OrdMap.contains_iff.mpr ⟨account, haccount⟩
  have hrecorded := recordedAs_numberOrder st accountId false preassigned order
  obtain ⟨hnext, hid⟩ := le_numberOrder preassigned st order
  unfold takeOrder at h
  split_ifs at h with hactive
  · -- The source skips the order here.
    obtain rfl := Except.ok.inj h
    rw [List.filter_cons_of_neg (by simp [skips, hcontains, hactive])]
    exact Records.refl st
  · rw [List.filter_cons_of_pos (by simp [skips, hactive]), List.filter_nil]
    dsimp only at h
    split at h
    · obtain rfl := Except.ok.inj h
      exact records_reject _ hrecorded rfl rfl hnext
    · split_ifs at h
      · obtain rfl := Except.ok.inj h
        exact records_reject _ hrecorded rfl rfl hnext
      · have hrecords := records_acceptOrder hrecorded hnext hid h
        exact hrecords

/-- Numbering a bundle changes the ids of its orders only. -/
theorem recordedAs_numberBundle (st : Intake) (sub : OrderSubmission) (preassigned : Bool) :
    (numberBundle preassigned st sub).1.accountId = sub.accountId ∧
    List.Forall₂ DrainedOrder.RecordedAs (drainedOf (sub, preassigned))
      ((numberBundle preassigned st sub).1.orders.map fun order => (sub.accountId, order)) := by
  cases preassigned with
  | true =>
    refine ⟨rfl, List.forall₂_map_left_iff.mpr (List.forall₂_map_right_iff.mpr ?_)⟩
    exact List.forall₂_same.mpr fun order _ => ⟨rfl, rfl, fun _ => rfl⟩
  | false =>
    refine ⟨rfl, List.forall₂_map_left_iff.mpr (List.forall₂_map_right_iff.mpr ?_)⟩
    show List.Forall₂ _ sub.orders (TradingSequencer.numberOrders st.nextOrderId sub.orders)
    rw [TradingSequencer.numberOrders, List.forall₂_map_right_iff, List.forall₂_iff_get]
    refine ⟨(List.length_zipIdx).symm, fun i hi hi' => ?_⟩
    simp only [List.get_eq_getElem, List.getElem_zipIdx]
    exact ⟨rfl, rfl, nofun⟩

/-- The counter stays ahead of a bundle, and quotes that came without ids are counted on. -/
theorem le_numberBundle (preassigned : Bool) (st : Intake) (sub : OrderSubmission) :
    st.nextOrderId ≤ (numberBundle preassigned st sub).2 ∧
      ∀ order ∈ (numberBundle preassigned st sub).1.orders, st.nextOrderId ≤ order.id ∨
        ∃ d ∈ drainedOf (sub, preassigned), d.preassigned = true ∧ d.order.id = order.id := by
  cases preassigned with
  | true =>
    refine ⟨?_, fun order horder => .inr ⟨_, List.mem_map_of_mem horder, rfl, rfl⟩⟩
    exact List.foldlRecOn sub.orders _ (motive := fun next => st.nextOrderId ≤ next) le_rfl
      fun next hnext _ _ => hnext.trans (le_max_left _ _)
  | false =>
    refine ⟨Nat.le_add_right _ _, fun order horder => .inl ?_⟩
    obtain ⟨⟨placed, i⟩, -, rfl⟩ := List.mem_map.mp horder
    exact Nat.le_add_right _ _

/-- What becomes of a bundle when its quotes were checked. -/
def concludeBundle (sub : OrderSubmission) (constraint : MmConstraint) (st : Intake) :
    Option GroupCoverageTracker → Intake
  | none =>
    { st with
      rejections := st.rejections ++ sub.orders.map fun order =>
        ⟨order, sub.accountId, .atomicBundle⟩
      mmConstraints := st.mmConstraints ++ [constraint] }
  | some stp =>
    { st with
      stp
      orders := st.orders ++ sub.orders.map fun order => ⟨order, sub.accountId, true⟩
      mmConstraints := st.mmConstraints ++ [constraint] }

/-- The quotes of a bundle under its budget. -/
def checkQuotes (ctx : IntakeContext) (account : Account) (sub : OrderSubmission)
    (constraint : MmConstraint) (st : Intake) : Except TradingError (Option GroupCoverageTracker) :=
  if account.balance.toNat < constraint.maxCapital then .ok none
  else quoteBundle ctx st.book.ttl sub.accountId constraint [] st.stp sub.orders

/-- **A bundle as a whole.**  It is well formed, its quotes were checked, and the result is one of
two. -/
theorem takeBundle_eq_ok {account : Account} {sub : OrderSubmission} {constraint : MmConstraint} :
    takeBundle ctx account sub constraint st = .ok st' ↔
      (sub.orders ≠ [] ∧ constraint.maxCapital ≠ 0 ∧
        constraint.orderIds.length = sub.orders.length ∧
        constraint.orderSides.size = sub.orders.length) ∧
      ∃ quoted, checkQuotes ctx account sub constraint st = .ok quoted ∧
        st' = concludeBundle sub constraint st quoted := by
  -- The two ends of the source are the two cases of `concludeBundle`.
  have hend : takeBundle ctx account sub constraint st =
      (ensure (sub.orders ≠ [] ∧ constraint.maxCapital ≠ 0 ∧
          constraint.orderIds.length = sub.orders.length ∧
          constraint.orderSides.size = sub.orders.length)
        (.invalidMmBundle "MM shared constraint does not cover the atomic bundle") >>= fun _ =>
        checkQuotes ctx account sub constraint st >>= fun quoted =>
          .ok (concludeBundle sub constraint st quoted)) := by
    unfold takeBundle checkQuotes
    refine bind_congr fun _ => ?_
    split_ifs
    · show Except.ok _ = Except.ok _
      rw [reject_foldl]
      rfl
    · refine bind_congr fun quoted => ?_
      cases quoted with
      | none =>
        show Except.ok _ = Except.ok _
        rw [reject_foldl]
        rfl
      | some stp => rfl
  simp only [hend, bind_eq_ok, ensure_eq_ok, Except.ok.injEq, exists_const]
  exact and_congr_right fun _ => exists_congr fun quoted => and_congr_right fun _ => eq_comm

/-- **A bundle.**  Every quote is accepted, or every quote is rejected. -/
theorem records_takeBundle {account : Account} {sub : OrderSubmission} {constraint : MmConstraint}
    {next : ℕ} (hrecorded : List.Forall₂ DrainedOrder.RecordedAs drained
      (sub.orders.map fun order => (sub.accountId, order))) (hnext : st.nextOrderId ≤ next)
    (hids : ∀ order ∈ sub.orders, st.nextOrderId ≤ order.id ∨
      ∃ d ∈ drained, d.preassigned = true ∧ d.order.id = order.id)
    (h : takeBundle ctx account sub constraint { st with nextOrderId := next } = .ok st') :
    Records st st' drained := by
  obtain ⟨-, quoted, -, rfl⟩ := takeBundle_eq_ok.mp h
  cases quoted with
  | none =>
    refine ⟨[], _, (List.append_nil _).symm, rfl, accountsFor_of_forall₂ ?_, hnext,
      fun _ hwo => absurd hwo List.not_mem_nil⟩
    rwa [orderRecords, List.map_nil, List.nil_append, List.map_map]
  | some stp =>
    refine ⟨_, [], rfl, (List.append_nil _).symm, accountsFor_of_forall₂ ?_, hnext,
      List.forall_mem_map.mpr hids⟩
    rwa [orderRecords, List.map_nil, List.append_nil, List.map_map]

/-- **One submission.**  Its orders leave one record each, the skipped ones none. -/
theorem records_takeSubmission {entry : OrderSubmission × Bool}
    (h : takeSubmission ctx st entry = .ok st') :
    Records st st' ((drainedOf entry).filter fun d => !skips ctx d) := by
  obtain ⟨sub, preassigned⟩ := entry
  unfold takeSubmission at h
  dsimp only at h
  split at h
  · -- Without its account every order is rejected.
    next hmissing =>
    obtain rfl := Except.ok.inj h
    have hkept : (drainedOf (sub, preassigned)).filter (fun d => !skips ctx d) =
        drainedOf (sub, preassigned) := by
      refine List.filter_eq_self.mpr fun d hd => ?_
      obtain ⟨order, -, rfl⟩ := List.mem_map.mp hd
      simp [skips, OrdMap.contains, hmissing]
    rw [hkept, reject_foldl]
    refine ⟨[], sub.orders.map fun order => ⟨order, sub.accountId, .accountNotFound⟩,
      (List.append_nil _).symm, rfl, accountsFor_of_forall₂ ?_, le_rfl,
      fun _ hwo => absurd hwo List.not_mem_nil⟩
    rw [orderRecords, List.map_nil, List.nil_append, List.map_map, drainedOf]
    refine List.forall₂_map_left_iff.mpr (List.forall₂_map_right_iff.mpr ?_)
    exact List.forall₂_same.mpr fun order _ => ⟨rfl, rfl, fun _ => rfl⟩
  · next account haccount =>
    split_ifs at h with hbudget
    · have hkept : (drainedOf (sub, preassigned)).filter (fun d => !skips ctx d) =
          drainedOf (sub, preassigned) := by
        refine List.filter_eq_self.mpr fun d hd => ?_
        obtain ⟨order, -, rfl⟩ := List.mem_map.mp hd
        simp [skips, hbudget]
      obtain ⟨hid, hrecorded⟩ := recordedAs_numberBundle st sub preassigned
      obtain ⟨hnext, hids⟩ := le_numberBundle preassigned st sub
      rw [hkept]
      split at h
      · rw [← hid] at hrecorded
        have hrecords := records_takeBundle hrecorded hnext hids h
        exact hrecords
      · cases h
    · have hrun : Records st st' (sub.orders.flatMap fun order =>
          ([⟨sub.accountId, false, preassigned, order⟩] : List DrainedOrder).filter
            fun d => !skips ctx d) :=
        Records.foldlM (fun st order st' _ hstep => records_takeOrder haccount hstep) h
      have hdrained : (drainedOf (sub, preassigned)).filter (fun d => !skips ctx d) =
          sub.orders.flatMap fun order =>
            ([⟨sub.accountId, false, preassigned, order⟩] : List DrainedOrder).filter
              fun d => !skips ctx d := by
        rw [drainedOf, List.map_eq_flatMap, List.filter_flatMap, Bool.eq_false_iff.mpr hbudget]
      rwa [hdrained]

end Intake

/-! ## The block -/

namespace TradingSequencer

variable {P : Primitives} {s : TradingSequencer} {input : BlockInput} {production : BlockProduction}

/-- The orders that a block drains. -/
def drainedOrders (s : TradingSequencer) (input : BlockInput) : List DrainedOrder :=
  (s.blockSubmissions input.submissions).flatMap drainedOf

/-- Besides the resting orders, the witness holds one record of each drained order. -/
def Recorded (s : TradingSequencer) (input : BlockInput) (production : BlockProduction) : Prop :=
  ∃ accepted, production.witness.orders =
      (production.start.book.orders.map fun ro => ⟨ro.order, ro.accountId, false⟩) ++ accepted ∧
    AccountsFor (s.drainedOrders input) (orderRecords accepted production.witness.rejections)

/-- No order without a budget names a market that cannot be traded, unless its account is
missing. -/
def NoneSkipped (s : TradingSequencer) (input : BlockInput) : Prop :=
  ∀ entry ∈ s.blockSubmissions input.submissions, (s.account? entry.1.accountId).isSome →
    entry.1.mmConstraint = none → ∀ order ∈ entry.1.orders, ∀ market ∈ order.activeMarkets,
      market ∈ s.activeMarkets

/-- The records of a block are those of the orders that are not skipped. -/
theorem records_of_assembleBlock (h : s.assembleBlock P input = .ok production) :
    ∃ accepted, production.witness.orders =
        (production.start.book.orders.map fun ro => ⟨ro.order, ro.accountId, false⟩) ++ accepted ∧
      AccountsFor ((s.drainedOrders input).filter fun d =>
          !Intake.skips (s.intakeContext P input.timestampMs) d)
        (orderRecords accepted production.witness.rejections) ∧
      Intake.NumberedFrom s.nextOrderId (s.drainedOrders input) accepted := by
  obtain ⟨phases⟩ := assembled_of_assembleBlock h
  obtain ⟨accepted, rejections, horders, hrejections, hall, -, hids⟩ :=
    Intake.Records.foldlM (fun st entry st' _ hstep => Intake.records_takeSubmission hstep)
      phases.takeIn
  refine ⟨accepted, ?_, ?_, fun wo hwo => (hids wo hwo).imp_right fun ⟨d, hd, hid⟩ => ?_⟩
  · rw [phases.witness_eq, phases.start_eq]
    exact horders
  · have hwitness : production.witness.rejections = rejections := by
      rw [phases.witness_eq]
      exact hrejections.trans (List.nil_append _)
    rw [hwitness, drainedOrders, List.filter_flatMap]
    exact hall
  · rw [← List.filter_flatMap] at hd
    exact ⟨d, List.mem_of_mem_filter hd, hid⟩

theorem noneSkipped_iff :
    s.NoneSkipped input ↔ ∀ d ∈ s.drainedOrders input,
      (!Intake.skips (s.intakeContext P input.timestampMs) d) = true := by
  have hskips : ∀ (sub : OrderSubmission) (preassigned : Bool) (order : Order),
      (!Intake.skips (s.intakeContext P input.timestampMs)
        ⟨sub.accountId, sub.mmConstraint.isSome, preassigned, order⟩) = true ↔
      ((s.account? sub.accountId).isSome → sub.mmConstraint = none →
        ∀ market ∈ order.activeMarkets, market ∈ s.activeMarkets) := by
    intro sub preassigned order
    have hcontains :
      (s.intakeContext P input.timestampMs).accounts.accounts.contains sub.accountId =
        (s.account? sub.accountId).isSome := contains_loggedAccounts P s sub.accountId
    have hactive : (s.intakeContext P input.timestampMs).marketsActive order = true ↔
        ∀ market ∈ order.activeMarkets, market ∈ s.activeMarkets := by
      rw [IntakeContext.marketsActive, List.all_eq_true]
      simp only [List.contains_iff_mem]
      rfl
    rw [← hactive, Intake.skips, hcontains]
    cases (s.account? sub.accountId).isSome <;> cases hmm : sub.mmConstraint <;> simp
  constructor
  · intro h d hd
    obtain ⟨⟨sub, preassigned⟩, hentry, hd⟩ := List.mem_flatMap.mp hd
    obtain ⟨order, horder, rfl⟩ := List.mem_map.mp hd
    exact (hskips sub preassigned order).mpr fun haccount hmm =>
      h _ hentry haccount hmm order horder
  · intro h entry hentry haccount hmm order horder
    obtain ⟨sub, preassigned⟩ := entry
    have hd : (⟨sub.accountId, sub.mmConstraint.isSome, preassigned, order⟩ : DrainedOrder) ∈
        s.drainedOrders input :=
      List.mem_flatMap.mpr ⟨_, hentry, List.mem_map.mpr ⟨order, horder, rfl⟩⟩
    exact (hskips sub preassigned order).mp (h _ hd) haccount hmm

/-- **Accounting.**  A block records every drained order once exactly when it skips none. -/
theorem recorded_iff (h : s.assembleBlock P input = .ok production) :
    s.Recorded input production ↔ s.NoneSkipped input := by
  obtain ⟨accepted, horders, hall, -⟩ := records_of_assembleBlock h
  rw [noneSkipped_iff (P := P), ← accountsFor_iff_of_filter hall]
  constructor
  · rintro ⟨accepted', horders', hall'⟩
    rwa [List.append_cancel_left (horders.symm.trans horders')]
  · intro hrecorded
    exact ⟨accepted, horders, hrecorded⟩

/-- A sell that the block is given, on a market that can be traded. -/
theorem recorded_sell :
    ∃ production,
      twoHolders.assembleBlock (Verifier.separating []) (quietBlock [sellSubmission 5000]) =
        .ok production ∧
      twoHolders.Recorded (quietBlock [sellSubmission 5000]) production := by
  have hok : (twoHolders.assembleBlock (Verifier.separating [])
      (quietBlock [sellSubmission 5000])).toOption.isSome = true := by decide +kernel
  obtain ⟨production, hproduction⟩ := Option.isSome_iff_exists.mp hok
  have h := toOption_eq_some.mp hproduction
  refine ⟨production, h, (recorded_iff h).mpr ?_⟩
  unfold NoneSkipped
  decide +kernel

/-! ## Orders without a record -/

/-- Account `1` offers five and four shares at once, so the two sells wait for the block. -/
def sellPair : OrderSubmission where
  accountId := 1
  orders :=
    [{ Verifier.yesSell 0 with maxFill := 5000 }, { Verifier.yesSell 0 with maxFill := 4000 }]
  mmConstraint := none

/-- The pair is staged, then its market is resolved. -/
def resolvedUnderPair : Except TradingError TradingSequencer :=
  (twoHolders.admitOrDefer sellPair 0 false none).1.resolveMarket 7 nanosPerDollar

/-- **Two acknowledged orders vanish.**  The pair was admitted as orders `1` and `2`; the block
after the resolution neither accepts nor rejects them. -/
theorem staged_orders_vanish :
    (twoHolders.admitOrDefer sellPair 0 false none).2.toOption = some [1, 2] ∧
    ∃ s production, resolvedUnderPair = .ok s ∧
      s.prepareBlock (Verifier.separating []) (quietBlock []) = .ok production ∧
      (s.drainedOrders (quietBlock [])).map (fun d => (d.accountId, d.preassigned, d.order.id)) =
        [(1, true, 1), (1, true, 2)] ∧
      production.witness.orders = [] ∧ production.witness.rejections = [] ∧
      ¬ s.Recorded (quietBlock []) production := by
  have hrun : (resolvedUnderPair.toOption.bind fun s =>
      (s.prepareBlock (Verifier.separating []) (quietBlock [])).toOption.map fun production =>
        ((s.drainedOrders (quietBlock [])).map fun d => (d.accountId, d.preassigned, d.order.id),
          production.witness.orders, production.witness.rejections)) =
      some ([(1, true, 1), (1, true, 2)], [], []) := by decide +kernel
  obtain ⟨s, hs, hrun⟩ := Option.bind_eq_some_iff.mp hrun
  obtain ⟨production, hproduction, hrun⟩ := Option.map_eq_some_iff.mp hrun
  obtain ⟨hdrained, horders, hrejections⟩ := Prod.ext_iff.mp hrun |>.imp_right Prod.ext_iff.mp
  refine ⟨by decide +kernel, s, production, toOption_eq_some.mp hs,
    toOption_eq_some.mp hproduction, hdrained, horders, hrejections, ?_⟩
  rintro ⟨accepted, haccepted, hall⟩
  have hnone : accepted = [] := (List.append_eq_nil_iff.mp (haccepted.symm.trans horders)).2
  have hlength := hall.length_eq
  have hcount := congrArg List.length hdrained
  rw [List.length_map] at hcount
  rw [hcount, hnone, show production.witness.rejections = [] from hrejections] at hlength
  exact absurd hlength (by decide)

end TradingSequencer

end Sybil.Sequencer
