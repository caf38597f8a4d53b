import Sybil.Sequencer.Production
import Sybil.Verifier.Orders

/-!
# Snapshots of the account store

A witness shows the accounts of the sequencer as a list of snapshots, with the positions
that are not zero.  The verifier reads the list back by account id and by outcome.  What
it reads is what the store holds, provided that the store files every account under its
own id.
-/

namespace Sybil.Sequencer

open Engine

open Verifier (SystemEventWitness AccountSnapshot accountsOf firstPosition isPosition)

/-- Every account is filed under its own id. -/
def AccountStore.Keyed (accounts : AccountStore) : Prop :=
  ∀ id account, accounts.accounts.get? id = some account → account.id = id

variable {accounts : AccountStore}

theorem AccountStore.keyed_of_entries
    (h : ∀ entry ∈ accounts.accounts.entries, entry.2.id = entry.1) : accounts.Keyed :=
  fun id account hget => h (id, account) (OrdMap.mem_entries_iff.mpr hget)

theorem AccountStore.Keyed.logEvent (h : accounts.Keyed) (P : Primitives) (accountId : ℕ)
    (eventBytes : Bytes) : (logEvent P accounts accountId eventBytes).Keyed := by
  unfold Sequencer.logEvent
  cases haccount : accounts.accounts.get? accountId with
  | none => exact h
  | some account =>
    intro id account' hget
    rw [OrdMap.get?_insert] at hget
    split_ifs at hget with hid
    · cases hget
      exact (h accountId account haccount).trans hid.symm
    · exact h id account' hget

theorem AccountStore.Keyed.foldEventDigest (h : accounts.Keyed) (P : Primitives) (height : ℕ)
    (event : SystemEventWitness) : (foldEventDigest P height accounts event).Keyed := by
  cases event with
  | marketResolved market payout affected =>
    exact List.foldlRecOn affected _ h fun _ h' _ _ => h'.logEvent P _ _
  | _ => first | exact h | exact h.logEvent P _ _

/-- Folding the events into the digests moves no account. -/
theorem AccountStore.Keyed.loggedAccounts {s : TradingSequencer} (h : s.accounts.Keyed)
    (P : Primitives) : (s.loggedAccounts P).Keyed :=
  List.foldlRecOn _ _ h fun _ h' event _ => h'.foldEventDigest P _ event

theorem contains_logEvent (P : Primitives) (accountId : ℕ) (eventBytes : Bytes) (id : ℕ) :
    (logEvent P accounts accountId eventBytes).accounts.contains id =
      accounts.accounts.contains id := by
  unfold logEvent
  cases haccount : accounts.accounts.get? accountId with
  | none => rfl
  | some account =>
    rw [Bool.eq_iff_iff, OrdMap.contains_insert, or_iff_right_iff_imp]
    rintro rfl
    exact OrdMap.contains_iff.mpr ⟨account, haccount⟩

theorem contains_foldEventDigest (P : Primitives) (height : ℕ) (event : SystemEventWitness)
    (id : ℕ) :
    (foldEventDigest P height accounts event).accounts.contains id =
      accounts.accounts.contains id := by
  cases event with
  | marketResolved market payout affected =>
    exact List.foldlRecOn affected _ (motive := fun m : AccountStore =>
      m.accounts.contains id = accounts.accounts.contains id) rfl
      fun m hm accountId _ => (contains_logEvent P accountId _ id).trans hm
  | _ => first | rfl | exact contains_logEvent P _ _ id

/-- Folding the events into the digests adds and removes no account. -/
theorem contains_loggedAccounts (P : Primitives) (s : TradingSequencer) (id : ℕ) :
    (s.loggedAccounts P).accounts.contains id = s.accounts.accounts.contains id :=
  List.foldlRecOn (phasedEvents s.pendingSystemEvents) _ (motive := fun m : AccountStore =>
    m.accounts.contains id = s.accounts.accounts.contains id) rfl
    fun _ hm event _ => (contains_foldEventDigest P _ event id).trans hm

variable (keyState : ℕ → Digest × ℕ)

/-- The snapshots of a keyed store, by account id. -/
theorem get?_snapshotAccounts (h : accounts.Keyed) (id : ℕ) :
    (accountsOf (snapshotAccounts keyState accounts)).get? id =
      (accounts.accounts.get? id).map (snapshotAccount keyState) := by
  have hkeys : (snapshotAccounts keyState accounts).map (fun a => (a.id, a)) =
      (accounts.accounts.mapValues fun _ a => snapshotAccount keyState a).entries := by
    simp only [snapshotAccounts, OrdMap.values, OrdMap.mapValues, List.map_map]
    refine List.map_congr_left fun entry hentry => ?_
    have hid := h entry.1 entry.2 (OrdMap.mem_entries_iff.mp hentry)
    simp only [Function.comp_apply, snapshotAccount, hid]
  rw [accountsOf, hkeys, OrdMap.ofList_entries, OrdMap.get?_mapValues]

theorem firstPosition_snapshotAccount (account : Account) (market : MarketId) (outcome : ℕ) :
    firstPosition (snapshotAccount keyState account).positions market outcome =
      account.position market outcome := by
  have hsearch : (isPosition market outcome ∘ fun entry : PositionKey × ℤ =>
      ((ofLex entry.1).1, (ofLex entry.1).2, entry.2)) =
      fun entry => decide (entry.1 = toLex (market, outcome)) := by
    funext entry
    simp only [Function.comp_apply, isPosition, decide_eq_decide]
    exact ⟨fun h => ofLex.injective (Prod.ext h.1 h.2), fun h => by simp [h]⟩
  have hfound := account.positions.find?_entries_filter (k := toLex (market, outcome))
    (fun q => decide (q ≠ 0))
  rw [firstPosition, snapshotAccount, List.find?_map, hsearch, Option.map_map]
  refine (congrArg (fun found : Option ℤ => found.getD 0) hfound).trans ?_
  rw [Account.position, OrdMap.amount]
  cases account.positions.get? (toLex (market, outcome)) with
  | none => rfl
  | some q => by_cases hq : q = 0 <;> simp [hq, Option.filter]

end Sybil.Sequencer
