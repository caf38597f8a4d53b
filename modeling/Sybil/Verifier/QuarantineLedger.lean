import Sybil.Verifier.Solvency

/-!
# Conservation in the deposit quarantine

The pass replays the parked and claimed deposits of a block on a running ledger.  A silent
event can do three things to it (`LedgerEdit`), and every statement about whole blocks
follows from these: sums over the ledger change by what is parked and what is claimed, under
one key and in total, and a claim finds under its key what was parked there since the last
claim, whatever events of other keys stand in between.
-/

namespace Sybil.Verifier

variable {P : Primitives} {w : BlockWitness} {ledger ledger' : QuarantineLedger}
  {event : SystemEventWitness}

variable {key : Digest}

/-- The amount that an event parks. -/
def parkAmount : SystemEventWitness → ℤ
  | .depositQuarantined amount _ _ _ => amount
  | _ => 0

/-- The ledger key of a parked or claimed deposit. -/
def quarantineKey : SystemEventWitness → Option Digest
  | .depositQuarantined _ _ _ key => some key
  | .quarantineClaimed _ _ key => some key
  | _ => none

/-- Is the event a claim under the key? -/
def claimsKey (key : Digest) : SystemEventWitness → Bool
  | .quarantineClaimed _ _ key' => decide (key' = key)
  | _ => false

/-- The amount that an event parks under the key. -/
def parkedUnder (key : Digest) (event : SystemEventWitness) : ℤ :=
  if quarantineKey event = some key then parkAmount event else 0

/-- The amount that an event claims under the key. -/
def claimedUnder (key : Digest) (event : SystemEventWitness) : ℤ :=
  if quarantineKey event = some key then claimAmount event else 0

/-- All that is parked. -/
def ledgerTotal (ledger : QuarantineLedger) : ℤ := ledger.sumBy fun _ amount => amount

/-- What is parked under a key. -/
def ledgerBalance (key : Digest) (ledger : QuarantineLedger) : ℤ := (ledger.get? key).getD 0

/-- The running ledger after some events of the block. -/
def ledgerAfter (P : Primitives) (w : BlockWitness) (events : List SystemEventWitness) :
    QuarantineLedger :=
  (reportLoop (quarantineStep P) (preLedger w).1 events).1

/-- **What a silent event does to the ledger.** -/
inductive LedgerEdit (P : Primitives) (ledger : QuarantineLedger) :
    SystemEventWitness → QuarantineLedger → Prop
  | parked {amount : ℤ} {depositId : ℕ} {depositRoot key : Digest} (positive : 0 < amount) :
      LedgerEdit P ledger (.depositQuarantined amount depositId depositRoot key)
        (ledger.insert key (ledgerBalance key ledger + amount))
  | claimed {accountId : ℕ} {amount : ℤ} {key : Digest}
      (key_eq : bridgeAccountKey P accountId = key) (whole : ledger.get? key = some amount) :
      LedgerEdit P ledger (.quarantineClaimed accountId amount key) (ledger.erase key)
  | kept {event : SystemEventWitness} (key : quarantineKey event = none)
      (parks : parkAmount event = 0) (claims : claimAmount event = 0) :
      LedgerEdit P ledger event ledger

theorem ledgerEdit_of_silent (h : (quarantineStep P ledger event).2 = []) :
    LedgerEdit P ledger event (quarantineStep P ledger event).1 := by
  cases event with
  | depositQuarantined amount depositId depositRoot key =>
    simp only [quarantineStep, quarantine] at h ⊢
    split_ifs at h ⊢ with hamount
    cases hsum : checkedI64 ((ledger.get? key).getD 0 + amount) with
    | none =>
      rw [hsum] at h
      cases h
    | some updated =>
      obtain ⟨-, rfl⟩ := checkedI64_eq_some_iff.mp hsum
      exact .parked (not_le.mp hamount)
  | quarantineClaimed accountId amount key =>
    simp only [quarantineStep, claim] at h ⊢
    split_ifs at h ⊢ with hkey
    cases hget : ledger.get? key with
    | none =>
      rw [hget] at h
      cases h
    | some parked =>
      simp only [hget, reportIf_eq_nil, not_not] at h ⊢
      exact .claimed (not_not.mp hkey) (h ▸ hget)
  | _ => exact .kept rfl rfl rfl

namespace LedgerEdit

theorem total (h : LedgerEdit P ledger event ledger') :
    ledgerTotal ledger' = ledgerTotal ledger + (parkAmount event - claimAmount event) := by
  cases h with
  | @parked amount _ _ key positive =>
    have hterm : ledger.term (fun _ amount => amount) key = ledgerBalance key ledger := by
      unfold OrdMap.term ledgerBalance
      cases ledger.get? key <;> rfl
    rw [ledgerTotal, OrdMap.sumBy_insert, hterm]
    simp only [parkAmount, claimAmount, ledgerTotal]
    ring
  | @claimed accountId amount key key_eq whole =>
    rw [ledgerTotal, OrdMap.sumBy_erase, OrdMap.term, whole, Option.elim_some]
    simp only [parkAmount, claimAmount, ledgerTotal]
    ring
  | kept key parks claims => rw [parks, claims, sub_zero, add_zero]

theorem balance (h : LedgerEdit P ledger event ledger') (key : Digest) :
    ledgerBalance key ledger' =
      ledgerBalance key ledger + (parkedUnder key event - claimedUnder key event) := by
  cases h with
  | @parked amount _ _ key' positive =>
    simp only [ledgerBalance, parkedUnder, claimedUnder, quarantineKey, parkAmount, claimAmount,
      OrdMap.get?_insert, Option.some.injEq]
    by_cases hkey : key = key'
    · rw [if_pos hkey, if_pos hkey.symm, if_pos hkey.symm, Option.getD_some, hkey]
      ring
    · rw [if_neg hkey, if_neg (Ne.symm hkey), if_neg (Ne.symm hkey)]
      ring
  | @claimed accountId amount key' key_eq whole =>
    simp only [ledgerBalance, parkedUnder, claimedUnder, quarantineKey, parkAmount, claimAmount,
      OrdMap.get?_erase, Option.some.injEq]
    by_cases hkey : key = key'
    · rw [if_pos hkey, if_pos hkey.symm, if_pos hkey.symm, hkey, whole, Option.getD_none,
        Option.getD_some]
      ring
    · rw [if_neg hkey, if_neg (Ne.symm hkey), if_neg (Ne.symm hkey)]
      ring
  | kept key parks claims =>
    rw [parkedUnder, claimedUnder, key, if_neg (Option.some_ne_none _).symm,
      if_neg (Option.some_ne_none _).symm, sub_zero, add_zero]

end LedgerEdit

/-! ## Along the events -/

section Runs

variable {events : List SystemEventWitness}

/-- A measure of the ledger changes by the sum of what the events change. -/
theorem measure_run {measure : QuarantineLedger → ℤ} {gain loss : SystemEventWitness → ℤ}
    (hstep : ∀ ledger event ledger', LedgerEdit P ledger event ledger' →
      measure ledger' = measure ledger + (gain event - loss event))
    (hsilent : (reportLoop (quarantineStep P) ledger events).2 = []) :
    measure (reportLoop (quarantineStep P) ledger events).1 =
      measure ledger + ((events.map gain).sum - (events.map loss).sum) := by
  induction events generalizing ledger with
  | nil => simp
  | cons event events ih =>
    obtain ⟨hevent, hrest⟩ := silent_cons.mp hsilent
    rw [reportLoop_cons_fst, ih hrest, hstep _ _ _ (ledgerEdit_of_silent hevent)]
    simp only [List.map_cons, List.sum_cons]
    ring

theorem total_run (hsilent : (reportLoop (quarantineStep P) ledger events).2 = []) :
    ledgerTotal (reportLoop (quarantineStep P) ledger events).1 =
      ledgerTotal ledger + ((events.map parkAmount).sum - (events.map claimAmount).sum) :=
  measure_run (fun _ _ _ h => h.total) hsilent

theorem balance_run (key : Digest)
    (hsilent : (reportLoop (quarantineStep P) ledger events).2 = []) :
    ledgerBalance key (reportLoop (quarantineStep P) ledger events).1 =
      ledgerBalance key ledger +
        ((events.map (parkedUnder key)).sum - (events.map (claimedUnder key)).sum) :=
  measure_run (fun _ _ _ h => h.balance key) hsilent

theorem claimedUnder_eq_zero (h : claimsKey key event = false) : claimedUnder key event = 0 := by
  cases event with
  | quarantineClaimed accountId amount key' =>
    exact if_neg fun hkey => of_decide_eq_false h (Option.some.inj hkey)
  | _ => exact ite_self 0

/-- Without a claim, a balance grows by what is parked. -/
theorem balance_run_of_unclaimed (hsilent : (reportLoop (quarantineStep P) ledger events).2 = [])
    (hunclaimed : ∀ event ∈ events, claimsKey key event = false) :
    ledgerBalance key (reportLoop (quarantineStep P) ledger events).1 =
      ledgerBalance key ledger + (events.map (parkedUnder key)).sum := by
  rw [balance_run key hsilent, List.map_congr_left fun event hevent =>
    claimedUnder_eq_zero (hunclaimed event hevent)]
  simp

end Runs

/-! ## Listed ledgers -/

section Listed

variable {entries : List QuarantineEntrySnapshot} {label : String}

/-- What a list has under a key. -/
def listedUnder (key : Digest) (entries : List QuarantineEntrySnapshot) : ℤ :=
  (entries.map fun entry => if entry.sybilAccountKey = key then entry.amount else 0).sum

theorem ledgerStep_eq_ok {entry : QuarantineEntrySnapshot}
    (h : ledgerStep label ledger entry = .ok ledger') :
    0 < entry.amount ∧ ledger.get? entry.sybilAccountKey = none ∧
      ledger' = ledger.insert entry.sybilAccountKey entry.amount := by
  obtain ⟨_, hpositive, h⟩ := bind_eq_ok.mp h
  obtain ⟨_, hnew, h⟩ := bind_eq_ok.mp h
  exact ⟨ensure_eq_ok.mp hpositive, OrdMap.contains_eq_false_iff.mp (ensure_eq_ok.mp hnew),
    (Except.ok.inj h).symm⟩

theorem measure_ledgerMap (measure : QuarantineLedger → ℤ) (value : QuarantineEntrySnapshot → ℤ)
    (hstep : ∀ (ledger : QuarantineLedger) entry, ledger.get? entry.sybilAccountKey = none →
      measure (ledger.insert entry.sybilAccountKey entry.amount) = measure ledger + value entry)
    (h : entries.foldlM (ledgerStep label) ledger = .ok ledger') :
    measure ledger' = measure ledger + (entries.map value).sum := by
  induction entries generalizing ledger with
  | nil =>
    cases h
    simp
  | cons entry entries ih =>
    obtain ⟨next, hnext, h⟩ := foldlM_cons_eq_ok.mp h
    obtain ⟨-, hnew, rfl⟩ := ledgerStep_eq_ok hnext
    rw [ih h, hstep _ _ hnew, List.map_cons, List.sum_cons, add_assoc]

theorem total_ledgerMap (h : ledgerMap entries label = .ok ledger) :
    ledgerTotal ledger = (entries.map fun entry => entry.amount).sum := by
  have htotal :=
    measure_ledgerMap ledgerTotal (fun entry => entry.amount) (fun ledger entry hnew => ?_) h
  · rw [htotal]
    exact zero_add _
  · rw [ledgerTotal, OrdMap.sumBy_insert, OrdMap.term, hnew, Option.elim_none, sub_zero]
    rfl

theorem balance_ledgerMap (key : Digest) (h : ledgerMap entries label = .ok ledger) :
    ledgerBalance key ledger = listedUnder key entries := by
  have hbalance := measure_ledgerMap (ledgerBalance key)
    (fun entry => if entry.sybilAccountKey = key then entry.amount else 0)
    (fun ledger entry hnew => ?_) h
  · rw [hbalance]
    exact zero_add _
  · rw [ledgerBalance, OrdMap.get?_insert, ledgerBalance]
    by_cases hkey : key = entry.sybilAccountKey
    · rw [if_pos hkey, if_pos hkey.symm, hkey, hnew, Option.getD_some, Option.getD_none, zero_add]
    · rw [if_neg hkey, if_neg (Ne.symm hkey), add_zero]

theorem amount_pos_of_ledgerMap (h : ledgerMap entries label = .ok ledger)
    {entry : QuarantineEntrySnapshot} (hentry : entry ∈ entries) : 0 < entry.amount := by
  obtain ⟨before, after, rfl⟩ := List.append_of_mem hentry
  obtain ⟨mid, -, h⟩ := foldlM_append_eq_ok.mp h
  obtain ⟨next, hnext, -⟩ := foldlM_cons_eq_ok.mp h
  exact (ledgerStep_eq_ok hnext).1

end Listed

/-! ## A block -/

/-- Every amount in the quarantine ledger is positive. -/
def PositiveLedger (ledger : QuarantineLedger) : Prop :=
  ∀ key amount, ledger.get? key = some amount → 0 < amount

theorem PositiveLedger.insert (h : PositiveLedger ledger) {amount : ℤ} (hamount : 0 < amount) :
    PositiveLedger (OrdMap.insert ledger key amount) := by
  intro key' amount' hget
  rw [OrdMap.get?_insert] at hget
  split_ifs at hget with hkey
  · exact Option.some.inj hget ▸ hamount
  · exact h key' amount' hget

theorem positiveLedger_ledgerMap {entries : List QuarantineEntrySnapshot} {label : String}
    (h : ledgerMap entries label = .ok ledger) : PositiveLedger ledger := by
  refine invariant_of_foldlM h (fun st st' entry _ hstep hst => ?_) fun _ _ hget => nomatch hget
  obtain ⟨hpositive, -, rfl⟩ := ledgerStep_eq_ok hstep
  exact hst.insert hpositive

theorem positiveLedger_preLedger (w : BlockWitness) : PositiveLedger (preLedger w).1 := by
  rw [preLedger]
  cases hledger : ledgerMap w.preStateSidecar.bridge.quarantine "pre" with
  | ok ledger => exact positiveLedger_ledgerMap hledger
  | error details => exact fun _ _ hget => nomatch hget

theorem LedgerEdit.positive (h : LedgerEdit P ledger event ledger')
    (hledger : PositiveLedger ledger) :
    PositiveLedger ledger' := by
  cases h with
  | @parked amount _ _ key positive =>
    refine hledger.insert ?_
    unfold ledgerBalance
    cases hget : ledger.get? key with
    | none => simpa using positive
    | some parked => exact add_pos (hledger key parked hget) positive
  | claimed key_eq whole =>
    intro key' amount' hget
    rw [OrdMap.get?_erase] at hget
    split_ifs at hget
    exact hledger key' amount' hget
  | kept key parks claims => exact hledger

theorem verifyQuarantineTransition_eq_nil (h : verifyQuarantineTransition P w = []) :
    ledgerMap w.preStateSidecar.bridge.quarantine "pre" = .ok (preLedger w).1 ∧
      (reportLoop (quarantineStep P) (preLedger w).1 w.systemEvents).2 = [] ∧
      ledgerMap w.stateSidecar.bridge.quarantine "post" = .ok (ledgerAfter P w w.systemEvents) := by
  simp only [verifyQuarantineTransition, List.map_eq_nil_iff, List.append_eq_nil_iff] at h
  obtain ⟨⟨⟨hpre, -⟩, hrun⟩, hpost⟩ := h
  refine ⟨?_, hrun, ?_⟩
  · unfold preLedger at hpre ⊢
    cases hledger : ledgerMap w.preStateSidecar.bridge.quarantine "pre" with
    | ok ledger => rfl
    | error details =>
      rw [hledger] at hpre
      cases hpre
  · unfold comparePostLedger at hpost
    cases hledger : ledgerMap w.stateSidecar.bridge.quarantine "post" with
    | ok claimed =>
      simp only [hledger, reportIf_eq_nil, not_not] at hpost
      rw [hpost]
      rfl
    | error details =>
      rw [hledger] at hpost
      cases hpost

/-- What a claim finds under its key, and leaves. -/
theorem whole_of_silent {before after : List SystemEventWitness} {accountId : ℕ} {amount : ℤ}
    (hsilent : (reportLoop (quarantineStep P) (preLedger w).1 w.systemEvents).2 = [])
    (hevents : w.systemEvents = before ++ .quarantineClaimed accountId amount key :: after) :
    bridgeAccountKey P accountId = key ∧ (ledgerAfter P w before).get? key = some amount ∧
      ledgerAfter P w (before ++ [.quarantineClaimed accountId amount key]) =
        (ledgerAfter P w before).erase key := by
  rw [hevents] at hsilent
  have hclaim := (silent_cons.mp (silent_append.mp hsilent).2).1
  have hafter : ledgerAfter P w (before ++ [.quarantineClaimed accountId amount key]) =
      (quarantineStep P (ledgerAfter P w before) (.quarantineClaimed accountId amount key)).1 := by
    rw [ledgerAfter, reportLoop_append_fst]
    rfl
  rw [hafter]
  generalize hnext : (quarantineStep P (ledgerAfter P w before)
    (.quarantineClaimed accountId amount key)).1 = next
  have hedit := ledgerEdit_of_silent hclaim
  change LedgerEdit P _ _ (quarantineStep P (ledgerAfter P w before) _).1 at hedit
  rw [hnext] at hedit
  cases hedit with
  | claimed key_eq whole => exact ⟨key_eq, whole, rfl⟩
  | kept key => cases key

/-- **Quarantine conservation.** -/
structure QuarantineConserved (P : Primitives) (w : BlockWitness) : Prop where
  total : (w.stateSidecar.bridge.quarantine.map fun entry => entry.amount).sum =
    (w.preStateSidecar.bridge.quarantine.map fun entry => entry.amount).sum +
      (w.systemEvents.map parkAmount).sum - (w.systemEvents.map claimAmount).sum
  listed_pos : ∀ entry ∈ w.preStateSidecar.bridge.quarantine ++ w.stateSidecar.bridge.quarantine,
    0 < entry.amount
  /-- The running ledger stays positive. -/
  running_pos : ∀ before after, w.systemEvents = before ++ after →
    PositiveLedger (ledgerAfter P w before)
  /-- A claim takes all that is parked for its account. -/
  whole : ∀ before accountId amount key after,
    w.systemEvents = before ++ .quarantineClaimed accountId amount key :: after →
    bridgeAccountKey P accountId = key ∧ (ledgerAfter P w before).get? key = some amount ∧
      (ledgerAfter P w (before ++ [.quarantineClaimed accountId amount key])).get? key = none
  /-- The first claim of a key takes what was parked before the block and in it so far. -/
  first : ∀ before accountId amount key after,
    w.systemEvents = before ++ .quarantineClaimed accountId amount key :: after →
    (∀ event ∈ before, claimsKey key event = false) →
    amount = listedUnder key w.preStateSidecar.bridge.quarantine +
      (before.map (parkedUnder key)).sum
  /-- A later one takes what was parked since the claim before it, so no amount is claimed twice. -/
  again : ∀ before accountId amount key between accountId' amount' after,
    w.systemEvents = before ++ .quarantineClaimed accountId amount key ::
      (between ++ .quarantineClaimed accountId' amount' key :: after) →
    (∀ event ∈ between, claimsKey key event = false) →
    amount' = (between.map (parkedUnder key)).sum
  /-- Under each key, what is claimed and what is left were parked. -/
  balance : ∀ key, listedUnder key w.stateSidecar.bridge.quarantine +
      (w.systemEvents.map (claimedUnder key)).sum =
    listedUnder key w.preStateSidecar.bridge.quarantine + (w.systemEvents.map (parkedUnder key)).sum

theorem ledgerBalance_of_get? {amount : ℤ} (h : ledger.get? key = some amount) :
    ledgerBalance key ledger = amount := by
  rw [ledgerBalance, h, Option.getD_some]

theorem quarantine_conserved (h : verifyQuarantineTransition P w = []) :
    QuarantineConserved P w := by
  obtain ⟨hpre, hsilent, hpost⟩ := verifyQuarantineTransition_eq_nil h
  refine ⟨?_, ?_, ?_, ?_, ?_, ?_, ?_⟩
  · rw [← total_ledgerMap hpost, ← total_ledgerMap hpre, ledgerAfter, total_run hsilent]
    ring
  · intro entry hentry
    rcases List.mem_append.mp hentry with hentry | hentry
    · exact amount_pos_of_ledgerMap hpre hentry
    · exact amount_pos_of_ledgerMap hpost hentry
  · intro before after hevents
    rw [hevents] at hsilent
    exact invariant_of_silent (silent_append.mp hsilent).1
      (fun ledger event _ hevent hledger => (ledgerEdit_of_silent hevent).positive hledger)
      (positiveLedger_preLedger w)
  · intro before accountId amount key after hevents
    obtain ⟨hkey, hwhole, hafter⟩ := whole_of_silent hsilent hevents
    refine ⟨hkey, hwhole, ?_⟩
    rw [hafter, OrdMap.get?_erase, if_pos rfl]
  · intro before accountId amount key after hevents hunclaimed
    obtain ⟨-, hwhole, -⟩ := whole_of_silent hsilent hevents
    rw [hevents] at hsilent
    rw [← ledgerBalance_of_get? hwhole, ledgerAfter,
      balance_run_of_unclaimed (silent_append.mp hsilent).1 hunclaimed, balance_ledgerMap key hpre]
  · intro before accountId amount key between accountId' amount' after hevents hunclaimed
    obtain ⟨-, -, hfirst⟩ := whole_of_silent hsilent hevents
    -- The second claim, seen from the ledger that the first one leaves.
    have hsplit : w.systemEvents = (before ++ .quarantineClaimed accountId amount key :: between) ++
        .quarantineClaimed accountId' amount' key :: after := by
      rw [hevents, List.append_assoc, List.cons_append]
    obtain ⟨-, hwhole, -⟩ := whole_of_silent hsilent hsplit
    have hrun : ledgerAfter P w (before ++ .quarantineClaimed accountId amount key :: between) =
        (reportLoop (quarantineStep P) ((ledgerAfter P w before).erase key) between).1 := by
      rw [← hfirst, ledgerAfter, ledgerAfter, ← reportLoop_append_fst, List.append_assoc,
        List.singleton_append]
    have hbetween : (reportLoop (quarantineStep P) ((ledgerAfter P w before).erase key)
        between).2 = [] := by
      rw [hevents, List.append_cons] at hsilent
      rw [← hfirst]
      exact (silent_append.mp (silent_append.mp hsilent).2).1
    rw [hrun] at hwhole
    rw [← ledgerBalance_of_get? hwhole, balance_run_of_unclaimed hbetween hunclaimed, ledgerBalance,
      OrdMap.get?_erase, if_pos rfl, Option.getD_none, zero_add]
  · intro key
    rw [← balance_ledgerMap key hpost, ← balance_ledgerMap key hpre, ledgerAfter,
      balance_run key hsilent]
    ring

/-- The sidecar with one parked amount. -/
def parkingSidecar (P : Primitives) (key : Digest) (amount : ℤ) : StateSidecarSnapshot :=
  { oneMarketSidecar P [] with
    bridge := { freshBridge P with quarantine := [⟨key, amount⟩] } }

/-- Account 1 claims twice; in between and afterwards deposits arrive for its key. -/
def claimedTwice (P : Primitives) : BlockWitness :=
  secondBlock P (idleContent [] [] (parkingSidecar P (bridgeAccountKey P 1) 5)
    (parkingSidecar P (bridgeAccountKey P 1) 3)
    [.quarantineClaimed 1 5 (bridgeAccountKey P 1),
      .depositQuarantined 7 1 0 (bridgeAccountKey P 1),
      .quarantineClaimed 1 7 (bridgeAccountKey P 1),
      .depositQuarantined 3 2 0 (bridgeAccountKey P 1)])

/-- The second claim is what was parked after the first one. -/
theorem quarantine_conserved_twice :
    ∃ P : Primitives, verifyQuarantineTransition P (claimedTwice P) = [] ∧
      QuarantineConserved P (claimedTwice P) ∧
      (7 : ℤ) = ([.depositQuarantined 7 1 0 (bridgeAccountKey P 1)].map
        (parkedUnder (bridgeAccountKey P 1))).sum := by
  have hsilent :
    verifyQuarantineTransition (separating []) (claimedTwice (separating [])) = [] := by
    decide +kernel
  refine ⟨_, hsilent, quarantine_conserved hsilent, ?_⟩
  exact (quarantine_conserved hsilent).again [] 1 5 _ _ 1 7 _ rfl (by decide)

end Sybil.Verifier
