import Sybil.Bridge.SinglePayment
import Sybil.Lib.Logs

/-!
# The life of a withdrawal

A withdrawal is opened by a request, moved by what the sequencer hears of L1, and
pruned by the block that carries its end.  Observations arrive repeated, crossed and
late, one call handles an event and a sweep over every leaf, and a call may fail half
way.

Every bridge call is a sequence of turns (`Turn`), and a turn touches one leaf, one
account and at most one event.  The journal of a run keeps all events that were ever
recorded; `Lived` ties a leaf that is still stored to the event that opened it, and what
a turn does to `Lived` and to the journal is all that the results need.

Withdrawal ids saturate at the top of their range, where a request takes the place of
the one before it, so the end of a withdrawal is looked for between its opening and the
next opening under the same id.
-/

namespace Sybil.Sequencer

variable {event : BridgeWithdrawalL1Event}

namespace BridgeEvent

/-- The withdrawal that an event opens. -/
def createdId? : BridgeEvent → Option ℕ
  | .withdrawalCreated _ _ withdrawal => some withdrawal.withdrawalId
  | _ => none

/-- What an event stands for on the balance of `accountId`. -/
def credit (accountId : ℕ) : BridgeEvent → ℤ
  | .withdrawalCreated id amount _ => if id = accountId then -amount else 0
  | .withdrawalRefunded id _ amount _ => if id = accountId then amount else 0
  | .withdrawalFinalized .. => 0
  | .l1BlockObserved _ => 0

/-- The L1 height that is observed after an event. -/
def observedAfter (height : ℕ) : BridgeEvent → ℕ
  | .l1BlockObserved observed => observed
  | _ => height

end BridgeEvent

namespace WithdrawalLeaf

/-- What the state machine of a leaf can do while the sequencer has observed L1 up to
`observed`: an active leaf ends in a terminal one, and it expires only above its expiry. -/
structure Moved (observed : ℕ) (leaf : WithdrawalLeaf)
    (moved : WithdrawalLeaf × WithdrawalTransition) : Prop where
  follows : leaf.Follows moved.1
  finalized : moved.2 = .finalized → leaf.isTerminal = false ∧ moved.1.isTerminal = true
  refunded : ∀ reason, moved.2 = .refunded reason →
    leaf.isTerminal = false ∧ moved.1.isTerminal = true
  expired : ∀ height, moved.2 = .refunded (.l1Expired height) →
    height = observed ∧ leaf.expiryHeight < height

/-- An event finalizes only a leaf that is not terminal, and only when it says so. -/
theorem applyL1Event_finalized {leaf : WithdrawalLeaf}
    (h : (leaf.applyL1Event event).2 = .finalized) :
    leaf.isTerminal = false ∧ event.status = .finalized := by
  by_cases hterm : leaf.isTerminal
  · simp [applyL1Event, hterm] at h
  · unfold applyL1Event at h
    rw [if_neg hterm] at h
    refine ⟨by simpa using hterm, ?_⟩
    split at h
    case h_3 hstatus => exact hstatus
    case h_2 => split at h <;> cases h
    all_goals cases h

theorem moved_applyL1Event (observed : ℕ) (leaf : WithdrawalLeaf)
    (event : BridgeWithdrawalL1Event) : leaf.Moved observed (leaf.applyL1Event event) where
  follows := leaf.follows_applyL1Event event
  finalized h :=
    ⟨(applyL1Event_finalized h).1,
      isTerminal_applyL1Event leaf (.inl (applyL1Event_finalized h).2)⟩
  refunded _ h :=
    ⟨(applyL1Event_refunded h).1,
      isTerminal_applyL1Event leaf (.inr (applyL1Event_refunded h).2.1)⟩
  expired _ h := by cases (applyL1Event_refunded h).2.2

theorem moved_observeL1Height (leaf : WithdrawalLeaf) (l1Height : ℕ) :
    leaf.Moved l1Height (leaf.observeL1Height l1Height) where
  follows := leaf.follows_observeL1Height l1Height
  finalized h := by
    unfold observeL1Height at h
    split_ifs at h
  refunded _ h := by
    refine ⟨(observeL1Height_refunded h).1, ?_⟩
    unfold observeL1Height at h ⊢
    split_ifs at h ⊢
    rfl
  expired height h := by
    obtain ⟨-, hexpiry, hheight⟩ := observeL1Height_refunded h
    cases hheight
    exact ⟨rfl, hexpiry⟩

end WithdrawalLeaf

namespace BlockSequencer

/-- The balance of an account, zero where there is none. -/
def balanceOf (seq : BlockSequencer) (accountId : ℕ) : ℤ :=
  ((seq.accounts.accounts.get? accountId).map Account.balance).getD 0

/-! ## Turns -/

/-- One turn of a bridge call, with the events it records. -/
inductive Turn : BlockSequencer → List BridgeEvent → BlockSequencer → Prop
  /-- A new height; its sweep is a sequence of further turns. -/
  | observed {seq : BlockSequencer} (height : ℕ) :
      Turn seq [.l1BlockObserved height] (seq.noteL1Height height)
  /-- A leaf moves and nothing is recorded, also when its end could not be booked. -/
  | noted {seq : BlockSequencer} {leaf leaf' : WithdrawalLeaf}
      (hleaf : seq.bridge.withdrawals.get? leaf.withdrawalId = some leaf)
      (hfollows : leaf.Follows leaf') :
      Turn seq [] { seq with bridge := seq.bridge.setLeaf leaf' }
  | finalized {seq : BlockSequencer} {leaf leaf' : WithdrawalLeaf}
      (hleaf : seq.bridge.withdrawals.get? leaf.withdrawalId = some leaf)
      (hfollows : leaf.Follows leaf') (hactive : leaf.isTerminal = false)
      (hends : leaf'.isTerminal = true) :
      Turn seq [.withdrawalFinalized leaf.accountId leaf.withdrawalId leaf.amountNanos]
        ({ seq with bridge := seq.bridge.setLeaf leaf' }.recordSystemEvent
          (.withdrawalFinalized leaf.accountId leaf.withdrawalId leaf.amountNanos))
  | refunded {seq : BlockSequencer} {leaf leaf' : WithdrawalLeaf} {account : Account}
      {reason : WithdrawalRefundReason}
      (hleaf : seq.bridge.withdrawals.get? leaf.withdrawalId = some leaf)
      (hfollows : leaf.Follows leaf') (hactive : leaf.isTerminal = false)
      (hends : leaf'.isTerminal = true)
      (haccount : seq.accounts.accounts.get? leaf.accountId = some account)
      (hreason : ∀ height, reason = .l1Expired height →
        height = seq.bridge.observedL1Height ∧ leaf.expiryHeight < height) :
      Turn seq [.withdrawalRefunded leaf.accountId leaf.withdrawalId leaf.amountNanos reason]
        (({ seq with bridge := seq.bridge.setLeaf leaf' }.setBalance account
            (account.balance + leaf.amountNanos) leaf.accountId).recordSystemEvent
          (.withdrawalRefunded leaf.accountId leaf.withdrawalId leaf.amountNanos reason))
  | created {seq : BlockSequencer} {leaf : WithdrawalLeaf} {account : Account}
      (hid : leaf.withdrawalId = seq.bridge.nextWithdrawalId) (hamount : leaf.amountNanos < 2 ^ 63)
      (haccount : seq.accounts.accounts.get? leaf.accountId = some account) :
      Turn seq [.withdrawalCreated leaf.accountId leaf.amountNanos leaf]
        (((seq.setBalance account (account.balance - leaf.amountNanos)
          leaf.accountId).openWithdrawal
            leaf).recordSystemEvent (.withdrawalCreated leaf.accountId leaf.amountNanos leaf))

/-- Turn after turn. -/
inductive Turns : BlockSequencer → List BridgeEvent → BlockSequencer → Prop
  | refl (seq : BlockSequencer) : Turns seq [] seq
  | tail {seq seq' seq'' : BlockSequencer} {new new' : List BridgeEvent}
      (hturns : Turns seq new seq') (hturn : Turn seq' new' seq'') : Turns seq (new ++ new') seq''

section Turns

variable {seq seq' seq'' : BlockSequencer} {new new' : List BridgeEvent}

theorem Turns.single (h : Turn seq new seq') : Turns seq new seq' := .tail (.refl seq) h

theorem Turns.trans (h : Turns seq new seq') (h' : Turns seq' new' seq'') :
    Turns seq (new ++ new') seq'' := by
  induction h' with
  | refl => rwa [List.append_nil]
  | tail _ hturn ih =>
    rw [← List.append_assoc]
    exact ih.tail hturn

theorem Turn.systemEvents_eq (h : Turn seq new seq') :
    seq'.systemEvents = seq.systemEvents ++ new := by
  cases h with
  | noted => exact (List.append_nil _).symm
  | observed | finalized | refunded | created => rfl

theorem Turns.systemEvents_eq (h : Turns seq new seq') :
    seq'.systemEvents = seq.systemEvents ++ new := by
  induction h with
  | refl => exact (List.append_nil _).symm
  | tail _ hturn ih => rw [hturn.systemEvents_eq, ih, List.append_assoc]

/-! ## Every call is a sequence of turns -/

/-- Writing back a leaf that has moved is one turn. -/
theorem turn_moveLeaf {leaf : WithdrawalLeaf} {moved : WithdrawalLeaf × WithdrawalTransition}
    (hleaf : seq.bridge.withdrawals.get? leaf.withdrawalId = some leaf)
    (hmoved : leaf.Moved seq.bridge.observedL1Height moved) :
    ∃ new, Turn seq new (seq.moveLeaf moved).1 := by
  have hquiet : ∃ new, Turn seq new { seq with bridge := seq.bridge.setLeaf moved.1 } :=
    ⟨_, .noted hleaf hmoved.follows⟩
  have hstored : { seq with bridge := seq.bridge.setLeaf moved.1 }.bridge.withdrawals.get?
      moved.1.withdrawalId = some moved.1 := OrdMap.get?_insert_self
  unfold moveLeaf applyWithdrawalTransition
  rw [hstored]
  dsimp only
  rw [hmoved.follows.accountId, hmoved.follows.amountNanos, hmoved.follows.withdrawalId]
  split
  · exact hquiet
  · next amount hamount =>
    obtain ⟨-, rfl⟩ := i64OfU64_eq_some_iff.mp hamount
    split
    · exact hquiet
    · exact hquiet
    · next hfinal =>
      obtain ⟨hactive, hends⟩ := hmoved.finalized hfinal
      exact ⟨_, .finalized hleaf hmoved.follows hactive hends⟩
    · next reason hrefund =>
      obtain ⟨hactive, hends⟩ := hmoved.refunded reason hrefund
      split
      · exact hquiet
      · next account haccount =>
        split
        · exact hquiet
        · next balance hbalance =>
          obtain ⟨-, rfl⟩ := checkedI64_eq_some_iff.mp hbalance
          refine ⟨_, .refunded hleaf hmoved.follows hactive hends haccount fun height hheight => ?_⟩
          exact hmoved.expired height (hheight ▸ hrefund)

theorem observeWithdrawal_fst {l1Height id : ℕ} {leaf : WithdrawalLeaf}
    (hget : seq.bridge.withdrawals.get? id = some leaf) :
    (observeWithdrawal l1Height seq id).1 =
      (seq.moveLeaf (leaf.observeL1Height l1Height)).1 := by
  simp only [observeWithdrawal, hget]
  rcases seq.moveLeaf (leaf.observeL1Height l1Height) with ⟨seq', _ | ⟨⟩⟩
  · rfl
  · dsimp only
    split <;> rfl

/-- A turn of the sweep leaves the observed height alone. -/
theorem turns_observeWithdrawal (seq : BlockSequencer) (id : ℕ) :
    (∃ new, Turns seq new (observeWithdrawal seq.bridge.observedL1Height seq id).1) ∧
      (observeWithdrawal seq.bridge.observedL1Height seq id).1.bridge.observedL1Height =
        seq.bridge.observedL1Height := by
  cases hget : seq.bridge.withdrawals.get? id with
  | none => exact ⟨⟨[], by simpa [observeWithdrawal, hget] using Turns.refl seq⟩,
      by simp [observeWithdrawal, hget]⟩
  | some leaf =>
    have hid : leaf.withdrawalId = id := seq.bridge.keyed id leaf hget
    obtain ⟨new, hturn⟩ := turn_moveLeaf (hid ▸ hget)
      (leaf.moved_observeL1Height seq.bridge.observedL1Height)
    rw [observeWithdrawal_fst hget]
    exact ⟨⟨new, .single hturn⟩,
      (congrArg BridgeState.observedL1Height (bridge_moveLeaf ..)).trans rfl⟩

theorem turns_observeWithdrawals {l1Height : ℕ} (ids : List ℕ) (seq : BlockSequencer)
    (hheight : seq.bridge.observedL1Height = l1Height) :
    ∃ new, Turns seq new (observeWithdrawals l1Height seq ids).1 := by
  induction ids generalizing seq with
  | nil => exact ⟨[], .refl seq⟩
  | cons id ids ih =>
    obtain ⟨⟨new, hfirst⟩, hkeeps⟩ := seq.turns_observeWithdrawal id
    rw [hheight] at hfirst hkeeps
    rw [observeWithdrawals]
    rcases hturn : observeWithdrawal l1Height seq id with ⟨seq', _ | refunded⟩
    · rw [hturn] at hfirst
      exact ⟨new, hfirst⟩
    · rw [hturn] at hfirst hkeeps
      obtain ⟨new', hrest⟩ := ih seq' hkeeps
      dsimp only
      rcases hloop : observeWithdrawals l1Height seq' ids with ⟨seq'', _ | rest⟩ <;>
        rw [hloop] at hrest <;> exact ⟨new ++ new', hfirst.trans hrest⟩

theorem turns_observeBridgeL1Height (seq : BlockSequencer) (l1Height : ℕ) :
    ∃ new, Turns seq new (seq.observeBridgeL1Height l1Height).1 := by
  unfold observeBridgeL1Height
  split_ifs with hold
  · exact ⟨[], .refl seq⟩
  · obtain ⟨new, hsweep⟩ := turns_observeWithdrawals seq.bridge.withdrawals.keys
      (seq.noteL1Height l1Height) rfl
    exact ⟨_, (Turns.single (.observed l1Height)).trans hsweep⟩

/-- Without a stored leaf to name, an event is the observation of its block. -/
theorem applyBridgeWithdrawalL1Event_of_no_target (htarget : seq.target? event = none) :
    (seq.applyBridgeWithdrawalL1Event event).1 =
      (seq.observeBridgeL1Height event.l1BlockHeight).1 := by
  simp only [applyBridgeWithdrawalL1Event, htarget]
  rcases seq.observeBridgeL1Height event.l1BlockHeight with ⟨_, _ | _⟩ <;> rfl

theorem turns_applyBridgeWithdrawalL1Event (seq : BlockSequencer)
    (event : BridgeWithdrawalL1Event) :
    ∃ new, Turns seq new (seq.applyBridgeWithdrawalL1Event event).1 := by
  cases htarget : seq.target? event with
  | none =>
    rw [applyBridgeWithdrawalL1Event_of_no_target htarget]
    exact turns_observeBridgeL1Height seq event.l1BlockHeight
  | some leaf =>
    obtain ⟨new, hturn⟩ := turn_moveLeaf (target?_eq_some htarget).2
      (leaf.moved_applyL1Event seq.bridge.observedL1Height event)
    rcases hmove : seq.moveLeaf (leaf.applyL1Event event) with ⟨seq', e | ⟨⟩⟩
    · rw [hmove] at hturn
      refine ⟨new, ?_⟩
      simpa [applyBridgeWithdrawalL1Event, htarget, hmove] using Turns.single hturn
    · rw [hmove] at hturn
      rw [applyBridgeWithdrawalL1Event_of_target htarget hmove]
      obtain ⟨new', hsweep⟩ := turns_observeBridgeL1Height seq' event.l1BlockHeight
      exact ⟨_, (Turns.single hturn).trans hsweep⟩

theorem turns_requestBridgeWithdrawal (P : Primitives) (seq : BlockSequencer)
    (request : BridgeWithdrawalRequest) :
    ∃ new, Turns seq new (seq.requestBridgeWithdrawal P request).1 := by
  rcases seq.requestBridgeWithdrawal_cases P request with ⟨e, h⟩ | ⟨account, nanos, hget, -,
      hlt, h⟩
  · exact ⟨[], by rw [h]; exact .refl seq⟩
  · let leaf := seq.requestedLeaf P request nanos
    have hturn : Turn seq [.withdrawalCreated leaf.accountId leaf.amountNanos leaf] _ :=
      .created rfl hlt hget
    exact ⟨_, by rw [h]; exact .single hturn⟩

/-! ## Balances -/

theorem balanceOf_setBalance {account : Account} {balance : ℤ} {accountId : ℕ} (a : ℕ)
    (hget : seq.accounts.accounts.get? accountId = some account) :
    (seq.setBalance account balance accountId).balanceOf a =
      seq.balanceOf a + if accountId = a then balance - account.balance else 0 := by
  unfold balanceOf setBalance
  dsimp only
  rw [OrdMap.get?_insert]
  by_cases ha : a = accountId
  · subst ha
    simp [hget]
  · rw [if_neg ha, if_neg (Ne.symm ha), add_zero]

/-- A turn changes the balances by what its events say. -/
theorem Turn.balanceOf_eq (h : Turn seq new seq') (a : ℕ) :
    seq'.balanceOf a = seq.balanceOf a + (new.map (BridgeEvent.credit a)).sum := by
  cases h with
  | observed | noted | finalized =>
    exact (add_zero _).symm
  | @refunded leaf leaf' account _ _ _ _ _ haccount _ =>
    refine (@balanceOf_setBalance { seq with bridge := seq.bridge.setLeaf leaf' } account _ _ a
      haccount).trans ?_
    simp [BridgeEvent.credit, balanceOf]
  | created hid hamount haccount =>
    refine (balanceOf_setBalance a haccount).trans ?_
    simp [BridgeEvent.credit]

theorem Turns.balanceOf_eq (h : Turns seq new seq') (a : ℕ) :
    seq'.balanceOf a = seq.balanceOf a + (new.map (BridgeEvent.credit a)).sum := by
  induction h with
  | refl => simp
  | tail _ hturn ih =>
    rw [hturn.balanceOf_eq, ih, List.map_append, List.sum_append, add_assoc]

end Turns

/-! ## What a log says of a withdrawal -/

/-- The withdrawal of `leaf` is the last one opened under its id; `since` is what has been
recorded after that. -/
def Opened (log : List BridgeEvent) (leaf : WithdrawalLeaf) (since : List BridgeEvent) : Prop :=
  Latest (fun event => event.createdId? = some leaf.withdrawalId) log
    (.withdrawalCreated leaf.accountId leaf.amountNanos leaf) since

/-- The L1 height that is observed after the events of a log. -/
def observedIn (start : BlockSequencer) (log : List BridgeEvent) : ℕ :=
  log.foldl BridgeEvent.observedAfter start.bridge.observedL1Height

/-- How a withdrawal can end: finalized, without a credit, or refunded with its own amount
to its own account; by expiry only when the observed height is above its expiry. -/
def Ends (start : BlockSequencer) (before : List BridgeEvent) (leaf : WithdrawalLeaf)
    (event : BridgeEvent) : Prop :=
  event = .withdrawalFinalized leaf.accountId leaf.withdrawalId leaf.amountNanos ∨
    ∃ reason, event =
        .withdrawalRefunded leaf.accountId leaf.withdrawalId leaf.amountNanos reason ∧
      ∀ height, reason = .l1Expired height →
        height = observedIn start before ∧ leaf.expiryHeight < height

/-- A terminal event ends the withdrawal that was opened last under its id, and is the
first to do so. -/
def EndsOnce (start : BlockSequencer) (before : List BridgeEvent) (event : BridgeEvent) : Prop :=
  ∀ id, event.terminalId? = some id → ∃ leaf since, leaf.withdrawalId = id ∧
    Opened before leaf since ∧ (∀ e ∈ since, e.terminalId? ≠ some id) ∧
    Ends start before leaf event

/-- Below the top of the range an id is given once. -/
def OpensOnce (before : List BridgeEvent) (event : BridgeEvent) : Prop :=
  ∀ id, event.createdId? = some id → id < 2 ^ 64 - 1 → ∀ e ∈ before, e.createdId? ≠ some id

/-! ## What a run preserves -/

/-- A stored leaf is that of the withdrawal opened last under its id, and is terminal once
the log holds the end of that withdrawal. -/
def Stored (log : List BridgeEvent) (id : ℕ) (leaf : WithdrawalLeaf) : Prop :=
  ∃ opened since, opened.Follows leaf ∧ Opened log opened since ∧
    (leaf.isTerminal = false → ∀ e ∈ since, e.terminalId? ≠ some id)

/-- The sequencer after the events of `log`. -/
structure Lived (start : BlockSequencer) (log : List BridgeEvent) (seq : BlockSequencer) :
    Prop where
  observed : seq.bridge.observedL1Height = observedIn start log
  stored : ∀ id leaf, seq.bridge.withdrawals.get? id = some leaf → Stored log id leaf
  amounts : ∀ id leaf, seq.bridge.withdrawals.get? id = some leaf → leaf.amountNanos < 2 ^ 63
  next : seq.bridge.nextWithdrawalId < 2 ^ 64
  ids : ∀ e ∈ log, ∀ id, e.createdId? = some id →
    id < seq.bridge.nextWithdrawalId ∨ id = 2 ^ 64 - 1
  opens : Throughout OpensOnce log
  ends : Throughout (EndsOnce start) log

section Lived

variable {start seq seq' : BlockSequencer} {log new : List BridgeEvent}
  {leaf leaf' : WithdrawalLeaf}

/-- Events that neither open nor end a withdrawal leave its leaf as it is. -/
theorem Stored.append {id : ℕ} (h : Stored log id leaf) (hid : leaf.withdrawalId = id)
    (hnew : ∀ e ∈ new, e.createdId? ≠ some id ∧
      (e.terminalId? = some id → leaf.isTerminal = true)) : Stored (log ++ new) id leaf := by
  obtain ⟨opened, since, hfollows, hopened, hactive⟩ := h
  have hopenedId : opened.withdrawalId = id := hfollows.withdrawalId.symm.trans hid
  refine ⟨opened, since ++ new, hfollows, hopened.append ?_, ?_⟩
  · intro e he
    rw [hopenedId]
    exact (hnew e he).1
  · intro hleaf e he hends
    rcases List.mem_append.mp he with he | he
    · exact hactive hleaf e he hends
    · rw [(hnew e he).2 hends] at hleaf
      cases hleaf

theorem Stored.follow {id : ℕ} (h : Stored log id leaf) (hfollows : leaf.Follows leaf') :
    Stored log id leaf' := by
  obtain ⟨opened, since, hopened, hlatest, hactive⟩ := h
  refine ⟨opened, since, hopened.trans hfollows, hlatest, fun hleaf' => hactive ?_⟩
  by_contra hterm
  rw [hfollows.terminal (by simpa using hterm)] at hleaf'
  exact hterm hleaf'

theorem observedIn_concat (start : BlockSequencer) (log : List BridgeEvent) (event : BridgeEvent) :
    observedIn start (log ++ [event]) = event.observedAfter (observedIn start log) :=
  List.foldl_append

section Moved

variable (h : Lived start log seq)
  (hleaf : seq.bridge.withdrawals.get? leaf.withdrawalId = some leaf)

include h hleaf

/-- A turn that moves one leaf and records at most its end. -/
theorem Lived.stored_setLeaf (hfollows : leaf.Follows leaf')
    (hnew : ∀ e ∈ new, e.createdId? = none ∧
      ∀ id, e.terminalId? = some id → id = leaf.withdrawalId ∧ leaf'.isTerminal = true)
    {id : ℕ} {stored : WithdrawalLeaf}
    (hget : (seq.bridge.setLeaf leaf').withdrawals.get? id = some stored) :
    Stored (log ++ new) id stored := by
  have hkeyed : stored.withdrawalId = id := (seq.bridge.setLeaf leaf').keyed id stored hget
  have hget' : (seq.bridge.withdrawals.insert leaf'.withdrawalId leaf').get? id = some stored :=
    hget
  rw [OrdMap.get?_insert, hfollows.withdrawalId] at hget'
  split_ifs at hget' with hid
  · cases hget'
    refine ((h.stored id leaf (hid ▸ hleaf)).follow hfollows).append hkeyed fun e he => ⟨?_, ?_⟩
    · rw [(hnew e he).1]
      exact (Option.some_ne_none id).symm
    · intro hends
      exact ((hnew e he).2 id hends).2
  · refine (h.stored id stored hget').append hkeyed fun e he => ⟨?_, ?_⟩
    · rw [(hnew e he).1]
      exact (Option.some_ne_none id).symm
    · intro hends
      exact absurd ((hnew e he).2 id hends).1 hid

theorem Lived.amounts_setLeaf (hfollows : leaf.Follows leaf') {id : ℕ} {stored : WithdrawalLeaf}
    (hget : (seq.bridge.setLeaf leaf').withdrawals.get? id = some stored) :
    stored.amountNanos < 2 ^ 63 := by
  have hget' : (seq.bridge.withdrawals.insert leaf'.withdrawalId leaf').get? id = some stored :=
    hget
  rw [OrdMap.get?_insert] at hget'
  split_ifs at hget'
  · cases hget'
    rw [hfollows.amountNanos]
    exact h.amounts _ leaf hleaf
  · exact h.amounts id stored hget'

/-- The end of an active leaf is the first of its withdrawal. -/
theorem Lived.endsOnce (hactive : leaf.isTerminal = false) {event : BridgeEvent}
    (hends : Ends start log leaf event) : EndsOnce start log event := by
  obtain ⟨opened, since, hfollows, hopened, hsince⟩ := h.stored _ leaf hleaf
  intro id hid
  have heventId : id = leaf.withdrawalId := by
    rcases hends with rfl | ⟨reason, rfl, -⟩ <;> exact (Option.some.inj hid).symm
  subst heventId
  refine ⟨opened, since, hfollows.withdrawalId.symm, hopened, hsince hactive, ?_⟩
  rw [Ends, ← hfollows.accountId, ← hfollows.withdrawalId, ← hfollows.amountNanos,
    ← hfollows.expiryHeight]
  exact hends

/-- A turn that moves one leaf and records nothing, or its first end. -/
theorem Lived.setLeaf (hfollows : leaf.Follows leaf') (hactive : leaf.isTerminal = false)
    (hterminal : leaf'.isTerminal = true) {event : BridgeEvent}
    (hends : Ends start log leaf event)
    (hbridge : seq'.bridge = seq.bridge.setLeaf leaf') : Lived start (log ++ [event]) seq' := by
  have hnone : event.createdId? = none ∧
      event.observedAfter (observedIn start log) = observedIn start log ∧
      event.terminalId? = some leaf.withdrawalId := by
    rcases hends with rfl | ⟨reason, rfl, -⟩ <;> exact ⟨rfl, rfl, rfl⟩
  refine ⟨?_, ?_, ?_, ?_, ?_, ?_, ?_⟩
  · rw [observedIn_concat, hnone.2.1, hbridge]
    exact h.observed
  · intro id stored hget
    rw [hbridge] at hget
    refine h.stored_setLeaf hleaf hfollows (fun e he => ?_) hget
    cases List.mem_singleton.mp he
    refine ⟨hnone.1, fun id' hid' => ⟨?_, hterminal⟩⟩
    exact Option.some.inj (hid'.symm.trans hnone.2.2)
  · rw [hbridge]
    exact fun id stored => h.amounts_setLeaf hleaf hfollows
  · rw [hbridge]
    exact h.next
  · rw [hbridge]
    intro e he id hid
    rcases List.mem_append.mp he with he | he
    · exact h.ids e he id hid
    · cases List.mem_singleton.mp he
      rw [hnone.1] at hid
      cases hid
  · refine throughout_concat.mpr ⟨h.opens, fun id hid => ?_⟩
    rw [hnone.1] at hid
    cases hid
  · exact throughout_concat.mpr ⟨h.ends, h.endsOnce hleaf hactive hends⟩

theorem Lived.noted (hfollows : leaf.Follows leaf') :
    Lived start log { seq with bridge := seq.bridge.setLeaf leaf' } := by
  refine ⟨h.observed, fun id stored hget => ?_, fun id stored => h.amounts_setLeaf hleaf hfollows,
    h.next, h.ids, h.opens, h.ends⟩
  have hstored : Stored (log ++ []) id stored :=
    h.stored_setLeaf hleaf hfollows (fun e he => by cases he) hget
  rwa [List.append_nil] at hstored

end Moved

theorem Lived.noteL1Height (h : Lived start log seq) (height : ℕ) :
    Lived start (log ++ [.l1BlockObserved height]) (seq.noteL1Height height) := by
  refine ⟨by rw [observedIn_concat]; rfl, ?_, h.amounts, h.next, ?_, ?_, ?_⟩
  · intro id leaf hget
    refine (h.stored id leaf hget).append (seq.bridge.keyed id leaf hget) fun e he => ?_
    cases List.mem_singleton.mp he
    exact ⟨(Option.some_ne_none id).symm, fun hends => by cases hends⟩
  · intro e he id hid
    rcases List.mem_append.mp he with he | he
    · exact h.ids e he id hid
    · cases List.mem_singleton.mp he
      cases hid
  · exact throughout_concat.mpr ⟨h.opens, fun id hid => by cases hid⟩
  · exact throughout_concat.mpr ⟨h.ends, fun id hid => by cases hid⟩

theorem Lived.created (h : Lived start log seq)
    (hid : leaf.withdrawalId = seq.bridge.nextWithdrawalId) (hamount : leaf.amountNanos < 2 ^ 63)
    (hwithdrawals : seq'.bridge.withdrawals =
      seq.bridge.withdrawals.insert leaf.withdrawalId leaf)
    (hobserved : seq'.bridge.observedL1Height = seq.bridge.observedL1Height)
    (hnext : seq'.bridge.nextWithdrawalId = min (leaf.withdrawalId + 1) (2 ^ 64 - 1)) :
    Lived start (log ++ [.withdrawalCreated leaf.accountId leaf.amountNanos leaf]) seq' := by
  have hlt := h.next
  refine ⟨?_, ?_, ?_, ?_, ?_, ?_, ?_⟩
  · rw [observedIn_concat, hobserved]
    exact h.observed
  · intro id stored hget
    rw [hwithdrawals, OrdMap.get?_insert] at hget
    split_ifs at hget with heq
    · cases hget
      exact ⟨leaf, [], .refl leaf, .concat rfl, fun _ e he => by cases he⟩
    · refine (h.stored id stored hget).append (seq.bridge.keyed id stored hget) fun e he => ?_
      cases List.mem_singleton.mp he
      exact ⟨fun hcreated => heq (Option.some.inj hcreated).symm, fun hends => by cases hends⟩
  · intro id stored hget
    rw [hwithdrawals, OrdMap.get?_insert] at hget
    split_ifs at hget
    · cases hget
      exact hamount
    · exact h.amounts id stored hget
  · rw [hnext]
    omega
  · intro e he id hcreated
    rw [hnext]
    rcases List.mem_append.mp he with he | he
    · rcases h.ids e he id hcreated with hold | htop <;> omega
    · cases List.mem_singleton.mp he
      cases Option.some.inj hcreated
      omega
  · refine throughout_concat.mpr ⟨h.opens, fun id hcreated hbelow e he hsame => ?_⟩
    cases Option.some.inj hcreated
    rcases h.ids e he _ hsame with hold | htop <;> omega
  · exact throughout_concat.mpr ⟨h.ends, fun id hends => by cases hends⟩

theorem Lived.turn (h : Lived start log seq) (hturn : Turn seq new seq') :
    Lived start (log ++ new) seq' := by
  cases hturn with
  | observed height => exact h.noteL1Height height
  | noted hleaf hfollows =>
    rw [List.append_nil]
    exact h.noted hleaf hfollows
  | finalized hleaf hfollows hactive hends =>
    exact h.setLeaf hleaf hfollows hactive hends (.inl rfl) rfl
  | refunded hleaf hfollows hactive hends _ hreason =>
    refine h.setLeaf hleaf hfollows hactive hends (.inr ⟨_, rfl, ?_⟩) rfl
    rw [← h.observed]
    exact hreason
  | created hid hamount _ => exact h.created hid hamount rfl rfl rfl

theorem Lived.turns (h : Lived start log seq) (hturns : Turns seq new seq') :
    Lived start (log ++ new) seq' := by
  induction hturns with
  | refl => rwa [List.append_nil]
  | tail _ hturn ih =>
    rw [← List.append_assoc]
    exact ih.turn hturn

/-- Pruning forgets leaves, and trading does not touch them. -/
theorem Lived.produceBlock (h : Lived start log seq) (accounts : AccountStore)
    (reserved : OrdMap ℕ ℤ) : Lived start log { seq with accounts, reserved }.produceBlock := by
  have hkept : ∀ id leaf, { seq with accounts, reserved }.produceBlock.bridge.withdrawals.get? id =
      some leaf → seq.bridge.withdrawals.get? id = some leaf := by
    intro id leaf hget
    have hget' : (seq.bridge.withdrawals.eraseAll
        (seq.systemEvents.filterMap BridgeEvent.terminalId?)).get? id = some leaf := hget
    rw [OrdMap.get?_eraseAll] at hget'
    split_ifs at hget'
    exact hget'
  exact ⟨h.observed, fun id leaf hget => h.stored id leaf (hkept id leaf hget),
    fun id leaf hget => h.amounts id leaf (hkept id leaf hget), h.next, h.ids, h.opens, h.ends⟩

/-- No two withdrawals of a log share a nullifier. -/
def DistinctNullifiers (log : List BridgeEvent) : Prop :=
  ∀ a n leaf, .withdrawalCreated a n leaf ∈ log → ∀ a' n' leaf',
    .withdrawalCreated a' n' leaf' ∈ log →
    leaf.nullifier = leaf'.nullifier → leaf.withdrawalId = leaf'.withdrawalId

/-- A leaf that the vault event of an ended withdrawal still finds is terminal. -/
theorem Lived.isTerminal_of_ended (h : Lived start log seq) (hdistinct : DistinctNullifiers log)
    {since : List BridgeEvent} (hopened : Opened log leaf since)
    (hended : ∃ e ∈ since, e.terminalId? = some leaf.withdrawalId)
    (hget : seq.bridge.withdrawals.get? leaf'.withdrawalId = some leaf')
    (hnullifier : leaf'.nullifier = leaf.nullifier) : leaf'.isTerminal = true := by
  obtain ⟨opened, since', hfollows, hopened', hactive⟩ := h.stored _ leaf' hget
  have hid : opened.withdrawalId = leaf.withdrawalId :=
    hdistinct _ _ opened hopened'.mem _ _ leaf hopened.mem
      (hfollows.nullifier.symm.trans hnullifier)
  rw [Opened, hid] at hopened'
  obtain ⟨hsame, rfl⟩ := Latest.unique hopened hopened'
  obtain ⟨e, he, hends⟩ := hended
  by_contra hterm
  refine hactive (by simpa using hterm) e he ?_
  rw [hends, hfollows.withdrawalId, hid]

/-- Writing back a leaf that an event did not change. -/
theorem moveLeaf_unchanged (hget : seq.bridge.withdrawals.get? leaf.withdrawalId = some leaf)
    (hamount : leaf.amountNanos < 2 ^ 63) : seq.moveLeaf (leaf, .unchanged) = (seq, .ok ()) := by
  have hbridge : seq.bridge.setLeaf leaf = seq.bridge := by
    unfold BridgeState.setLeaf
    congr 1
    exact OrdMap.insert_of_get? hget
  have hcast : i64OfU64 leaf.amountNanos = some (leaf.amountNanos : ℤ) :=
    i64OfU64_eq_some_iff.mpr ⟨hamount, rfl⟩
  unfold moveLeaf applyWithdrawalTransition
  rw [hbridge, hget]
  dsimp only
  rw [hcast]

/-- Once a withdrawal has ended, a vault event that names it does no more than report the
height of its block. -/
theorem Lived.late_event (h : Lived start log seq) (hdistinct : DistinctNullifiers log)
    {since : List BridgeEvent} (hopened : Opened log leaf since)
    (hended : ∃ e ∈ since, e.terminalId? = some leaf.withdrawalId)
    (hnames : event.nullifier = leaf.nullifier) :
    (seq.applyBridgeWithdrawalL1Event event).1 =
      (seq.observeBridgeL1Height event.l1BlockHeight).1 := by
  cases htarget : seq.target? event with
  | none => exact applyBridgeWithdrawalL1Event_of_no_target htarget
  | some leaf' =>
    obtain ⟨hnullifier, hget⟩ := target?_eq_some htarget
    have hterminal := h.isTerminal_of_ended hdistinct hopened hended hget
      (hnullifier.trans hnames)
    refine applyBridgeWithdrawalL1Event_of_target htarget ?_
    rw [WithdrawalLeaf.applyL1Event, if_pos hterminal]
    exact moveLeaf_unchanged hget (h.amounts _ leaf' hget)

/-- Below the top of the range an id names one withdrawal, so one terminal event at most. -/
theorem Lived.terminal_once (h : Lived start log seq) {before after : List BridgeEvent}
    {event : BridgeEvent} {id : ℕ} (hlog : log = before ++ event :: after)
    (hends : event.terminalId? = some id) (hid : id < 2 ^ 64 - 1) :
    ∀ e ∈ before, e.terminalId? ≠ some id := by
  intro e he hterminal
  obtain ⟨leaf, since, hleaf, hopened, hfirst, -⟩ := h.ends before event after hlog id hends
  obtain ⟨older, hbefore⟩ := hopened.split
  rw [hbefore] at he
  rcases List.mem_append.mp he with he | he
  · -- An earlier end would have an opening of its own.
    obtain ⟨first, rest, rfl⟩ := List.append_of_mem he
    have hlog' : log = first ++ e ::
        (rest ++ .withdrawalCreated leaf.accountId leaf.amountNanos leaf ::
          (since ++ event :: after)) := by
      rw [hlog, hbefore]
      simp
    obtain ⟨leaf', since', hleaf', hopened', -⟩ := h.ends _ _ _ hlog' id hterminal
    refine h.opens (first ++ e :: rest) (.withdrawalCreated leaf.accountId leaf.amountNanos leaf)
      (since ++ event :: after) (by rw [hlog, hbefore]; simp) id (congrArg some hleaf) hid _
      (List.mem_append_left _ hopened'.mem) ?_
    exact hopened'.holds.trans (congrArg some hleaf')
  · rcases List.mem_cons.mp he with rfl | he
    · cases hterminal
    · exact hfirst e he hterminal

end Lived

/-! ## Runs -/

/-- A call of a run.  What the matching of a block does to the accounts and the
reservations is left open. -/
inductive Call where
  | requestBridgeWithdrawal (request : BridgeWithdrawalRequest)
  | applyBridgeWithdrawalL1Event (event : BridgeWithdrawalL1Event)
  | observeBridgeL1Height (l1Height : ℕ)
  | produceBlock (accounts : AccountStore) (reserved : OrdMap ℕ ℤ)

/-- A sequencer with its past. -/
structure Journal where
  sequencer : BlockSequencer
  /-- Every event recorded so far. -/
  log : List BridgeEvent
  /-- What trading has added to the balance of an account. -/
  traded : ℕ → ℤ

/-- A bridge call has left `seq` behind. -/
def Journal.book (journal : Journal) (seq : BlockSequencer) : Journal :=
  { journal with
    sequencer := seq
    log := journal.log ++ seq.systemEvents.drop journal.sequencer.systemEvents.length }

def Journal.exec (P : Primitives) (journal : Journal) : Call → Journal
  | .requestBridgeWithdrawal request =>
    journal.book (journal.sequencer.requestBridgeWithdrawal P request).1
  | .applyBridgeWithdrawalL1Event event =>
    journal.book (journal.sequencer.applyBridgeWithdrawalL1Event event).1
  | .observeBridgeL1Height l1Height =>
    journal.book (journal.sequencer.observeBridgeL1Height l1Height).1
  | .produceBlock accounts reserved =>
    { journal with
      sequencer := { journal.sequencer with accounts, reserved }.produceBlock
      traded := fun accountId => journal.traded accountId +
        ({ journal.sequencer with accounts }.balanceOf accountId -
          journal.sequencer.balanceOf accountId) }

/-- The journal of a run. -/
def journal (P : Primitives) (start : BlockSequencer) (calls : List Call) : Journal :=
  calls.foldl (Journal.exec P) ⟨start, [], fun _ => 0⟩

/-- A sequencer that has not seen a withdrawal. -/
structure Untouched (start : BlockSequencer) : Prop where
  withdrawals : start.bridge.withdrawals = ∅
  next : start.bridge.nextWithdrawalId < 2 ^ 64

/-- The balances are those of the start, of trading and of the events. -/
def Balanced (start : BlockSequencer) (journal : Journal) : Prop :=
  ∀ accountId, journal.sequencer.balanceOf accountId =
    start.balanceOf accountId + journal.traded accountId +
      (journal.log.map (BridgeEvent.credit accountId)).sum

section Runs

variable {P : Primitives} {start : BlockSequencer}

theorem lived_start (h : start.Untouched) : Lived start [] start where
  observed := rfl
  stored id leaf hget := by
    rw [h.withdrawals] at hget
    cases hget
  amounts id leaf hget := by
    rw [h.withdrawals] at hget
    cases hget
  next := h.next
  ids e he := by cases he
  opens := throughout_nil
  ends := throughout_nil

/-- A bridge call is booked with the events of its turns. -/
theorem Journal.book_spec {journal : Journal} {seq : BlockSequencer}
    (hlived : Lived start journal.log journal.sequencer) (hbalanced : Balanced start journal)
    (hturns : ∃ new, Turns journal.sequencer new seq) :
    Lived start (journal.book seq).log (journal.book seq).sequencer ∧
      Balanced start (journal.book seq) := by
  obtain ⟨new, hturns⟩ := hturns
  have hlog : (journal.book seq).log = journal.log ++ new := by
    rw [book, hturns.systemEvents_eq, List.drop_left]
  rw [Balanced, hlog]
  refine ⟨hlived.turns hturns, fun accountId => ?_⟩
  rw [List.map_append, List.sum_append, ← add_assoc]
  exact (hturns.balanceOf_eq accountId).trans (congrArg (· + _) (hbalanced accountId))

theorem Journal.exec_spec {journal : Journal}
    (hlived : Lived start journal.log journal.sequencer) (hbalanced : Balanced start journal)
    (call : Call) :
    Lived start (journal.exec P call).log (journal.exec P call).sequencer ∧
      Balanced start (journal.exec P call) := by
  cases call with
  | requestBridgeWithdrawal request =>
    exact book_spec hlived hbalanced (turns_requestBridgeWithdrawal P _ request)
  | applyBridgeWithdrawalL1Event event =>
    exact book_spec hlived hbalanced (turns_applyBridgeWithdrawalL1Event _ event)
  | observeBridgeL1Height l1Height =>
    exact book_spec hlived hbalanced (turns_observeBridgeL1Height _ l1Height)
  | produceBlock accounts reserved =>
    refine ⟨hlived.produceBlock accounts reserved, fun accountId => ?_⟩
    have hbefore := hbalanced accountId
    have hafter : (journal.exec P (.produceBlock accounts reserved)).sequencer.balanceOf accountId =
        { journal.sequencer with accounts }.balanceOf accountId := rfl
    rw [hafter]
    simp only [exec]
    linarith

theorem journal_spec (hstart : start.Untouched) (calls : List Call) :
    Lived start (journal P start calls).log (journal P start calls).sequencer ∧
      Balanced start (journal P start calls) := by
  refine List.foldlRecOn calls (Journal.exec P)
    (motive := fun j => Lived start j.log j.sequencer ∧ Balanced start j) ?_ ?_
  · exact ⟨lived_start hstart, fun accountId => by simp⟩
  · exact fun j h call _ => j.exec_spec h.1 h.2 call

end Runs

/-- What holds of the withdrawals of a run: `ends` says that a terminal event ends its
withdrawal, once, and what it credits; `terminal` that below the top of the range it is the
only one of its id; `balances` that nothing else is credited; `late` that an event after the
end is a report of its height, and without effect when the height is not new. -/
structure SettledOnce (start : BlockSequencer) (journal : Journal) : Prop where
  ends : Throughout (EndsOnce start) journal.log
  terminal : ∀ id < 2 ^ 64 - 1,
    (journal.log.filter fun event => event.terminalId? = some id).length ≤ 1
  balances : Balanced start journal
  late : ∀ leaf since event, Opened journal.log leaf since →
    (∃ e ∈ since, e.terminalId? = some leaf.withdrawalId) → event.nullifier = leaf.nullifier →
      (journal.sequencer.applyBridgeWithdrawalL1Event event).1 =
          (journal.sequencer.observeBridgeL1Height event.l1BlockHeight).1 ∧
        (event.l1BlockHeight ≤ journal.sequencer.bridge.observedL1Height →
          (journal.sequencer.applyBridgeWithdrawalL1Event event).1 = journal.sequencer)

/-- A withdrawal settles once: in every run of the bridge calls and of block production a
withdrawal ends at most once, is credited by its refund and by nothing else, and is not
moved by what arrives afterwards. -/
theorem withdrawals_settle_once (P : Primitives) {start : BlockSequencer}
    (hstart : start.Untouched) (calls : List Call)
    (hdistinct : DistinctNullifiers (journal P start calls).log) :
    SettledOnce start (journal P start calls) := by
  obtain ⟨hlived, hbalanced⟩ := journal_spec (P := P) hstart calls
  refine ⟨hlived.ends, fun id hid => length_filter_le_one ?_, hbalanced, ?_⟩
  · intro before event after hlog hends e he
    have hnone := hlived.terminal_once hlog (of_decide_eq_true hends) hid e he
    exact decide_eq_false hnone
  · intro leaf since event hopened hended hnames
    have hlate := hlived.late_event hdistinct hopened hended hnames
    refine ⟨hlate, fun hold => ?_⟩
    rw [hlate, observeBridgeL1Height, if_pos hold]

/-! ## A cancellation, repeated and crossed -/

/-- The vault event with which the small withdrawal is cancelled. -/
def smallCancellation (l1BlockHeight : ℕ) : BridgeWithdrawalL1Event :=
  ⟨Bridge.smallNullifier, .cancelled, 1100, some 1100, none, l1BlockHeight⟩

/-- Requested, cancelled, cancelled again, carried by a block, finalized too late, and swept
above its expiry. -/
def cancelledTwice : List Call :=
  [.requestBridgeWithdrawal Bridge.smallRequest,
    .applyBridgeWithdrawalL1Event (smallCancellation 3),
    .applyBridgeWithdrawalL1Event (smallCancellation 3),
    .produceBlock Bridge.smallSystem.sequencer.accounts ∅,
    .applyBridgeWithdrawalL1Event { smallCancellation 4 with status := .finalized },
    .observeBridgeL1Height 11]

def smallLeaf : WithdrawalLeaf :=
  Bridge.smallSystem.sequencer.requestedLeaf Bridge.runPrimitives Bridge.smallRequest 5000

theorem log_cancelledTwice :
    (journal Bridge.runPrimitives Bridge.smallSystem.sequencer cancelledTwice).log =
      [.withdrawalCreated 1 5000 smallLeaf, .withdrawalRefunded 1 1 5000 .l1Cancelled,
        .l1BlockObserved 3, .l1BlockObserved 4, .l1BlockObserved 11] := by
  decide +kernel

theorem withdrawals_settle_once_cancelled :
    SettledOnce Bridge.smallSystem.sequencer
      (journal Bridge.runPrimitives Bridge.smallSystem.sequencer cancelledTwice) := by
  refine withdrawals_settle_once Bridge.runPrimitives ⟨rfl, by decide⟩ cancelledTwice ?_
  intro a n leaf hleaf a' n' leaf' hleaf' _
  rw [log_cancelledTwice] at hleaf hleaf'
  obtain ⟨-, -, rfl⟩ : a = 1 ∧ n = 5000 ∧ leaf = smallLeaf := by simpa using hleaf
  obtain ⟨-, -, rfl⟩ : a' = 1 ∧ n' = 5000 ∧ leaf' = smallLeaf := by simpa using hleaf'
  rfl

end BlockSequencer

end Sybil.Sequencer
