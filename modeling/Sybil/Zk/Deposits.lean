import Sybil.Zk.Guest

/-!
# The deposits of a block

The deposits that a block consumes are checked twice: by the sidecar layer against the
bridge state, and by the guest against the public checkpoint.  The two loops are written
separately and stop in different places, but they ask for the same thing, `DepositsConsumed`:
the deposits are numbered from the cursor on, they extend the frontier of the state before
the block, and each of them is disposed of by one event, in order.

* `verifyL1DepositCheckpoint_eq_ok`: the check of the guest;
* `verifyDepositAccumulator_eq_nil_iff`: the check of the sidecar layer.
-/

namespace Sybil.Zk

open Verifier

open L1Protocol (depositRootFromFrontier depositFrontierPrefixRoots
  depositFrontierPrefixRoots_eq_some length_prefixRoots)

/-- The event credits or parks a deposit: a thousand nanos per token unit, for the account that
the deposit names. -/
structure Disposes (P : Primitives) (event : Disposition) (deposit : L1DepositWitness) : Prop where
  depositId : event.depositId = deposit.depositId
  depositRoot : event.depositRoot = deposit.depositRoot
  sybilAccountKey : event.sybilAccountKey = deposit.sybilAccountKey
  account : ∀ accountId, event.accountId = some accountId →
    deposit.sybilAccountKey = bridgeAccountKey P accountId
  amount : event.amount = 1000 * deposit.amountTokenUnits
  fits : deposit.amountTokenUnits * 1000 < 2 ^ 63

/-- The block consumes its deposits, which leads to the given cursor and root. -/
structure DepositsConsumed (P : Primitives) (w : BlockWitness) (count : ℕ) (root : Digest) :
    Prop where
  preCount : w.depositAccumulator.preCount = w.preStateSidecar.bridge.depositCursor
  preRoot : depositRootFromFrontier P w.depositAccumulator.preFrontier.toList
    w.depositAccumulator.preCount = some w.preStateSidecar.bridge.depositRoot
  count : count = w.depositAccumulator.preCount + w.depositAccumulator.newDeposits.length
  ids : ∀ i deposit, w.depositAccumulator.newDeposits[i]? = some deposit →
    deposit.depositId = w.depositAccumulator.preCount + i + 1
  roots : depositFrontierPrefixRoots P w.depositAccumulator.preFrontier.toList
    w.depositAccumulator.preCount (w.depositAccumulator.newDeposits.map depositLeafFromWitness) =
      some (w.depositAccumulator.newDeposits.map fun deposit => deposit.depositRoot)
  root : root = (w.depositAccumulator.newDeposits.map fun deposit =>
    deposit.depositRoot).getLast?.getD w.preStateSidecar.bridge.depositRoot
  disposed : List.Forall₂ (Disposes P) (dispositions w.systemEvents)
    w.depositAccumulator.newDeposits

variable {P : Primitives} {w : BlockWitness}

/-! ## Lists by position -/

section Positions

variable {α β : Type}

theorem forall_mem_zipIdx {l : List α} {p : α × ℕ → Prop} :
    (∀ entry ∈ l.zipIdx, p entry) ↔ ∀ (i : ℕ) (a : α), l[i]? = some a → p (a, i) :=
  ⟨fun h i a ha => h (a, i) (List.mem_zipIdx_iff_getElem?.mpr ha),
    fun h entry hentry => h entry.2 entry.1 (List.mem_zipIdx_iff_getElem?.mp hentry)⟩

theorem forall₂_iff_getElem? {r : α → β → Prop} {l : List α} {m : List β} :
    List.Forall₂ r l m ↔
      l.length = m.length ∧ ∀ (i : ℕ) (a : α), l[i]? = some a → ∃ b, m[i]? = some b ∧ r a b := by
  rw [List.forall₂_iff_get]
  refine and_congr_right fun hlength => ⟨fun h i a ha => ?_, fun h i hi hi' => ?_⟩
  · obtain ⟨hi, rfl⟩ := List.getElem?_eq_some_iff.mp ha
    exact ⟨m[i], List.getElem?_eq_getElem (hlength ▸ hi), h i hi (hlength ▸ hi)⟩
  · obtain ⟨b, hb, hr⟩ := h i l[i] (List.getElem?_eq_getElem hi)
    obtain ⟨_, hget⟩ := List.getElem?_eq_some_iff.mp hb
    rwa [← hget] at hr

/-- A list is the image of another one of its length when it is so pair by pair. -/
theorem forall_mem_zip_iff_map_eq {f : α → β} {l : List α} {m : List β}
    (hlength : m.length = l.length) : (∀ entry ∈ l.zip m, f entry.1 = entry.2) ↔ l.map f = m := by
  induction l generalizing m with
  | nil => simp [List.length_eq_zero_iff.mp hlength]
  | cons a l ih =>
    cases m with
    | nil => exact nomatch hlength
    | cons b m =>
      rw [List.zip_cons_cons, List.forall_mem_cons, List.map_cons, List.cons_eq_cons,
        ih (Nat.succ.inj hlength)]

end Positions

/-! ## The amount -/

theorem depositAmountNanos_eq_some {deposit : L1DepositWitness} {amount : ℤ} :
    depositAmountNanos deposit = some amount ↔
      amount = 1000 * deposit.amountTokenUnits ∧ deposit.amountTokenUnits * 1000 < 2 ^ 63 := by
  simp only [depositAmountNanos, Option.bind_eq_some_iff, checkedU64_eq_some_iff, i64OfU64]
  constructor
  · rintro ⟨raw, ⟨-, rfl⟩, h⟩
    split_ifs at h with hlt
    rw [← Option.some.inj h]
    push_cast
    exact ⟨mul_comm _ _, hlt⟩
  · rintro ⟨rfl, hlt⟩
    refine ⟨_, ⟨hlt.trans (by decide), rfl⟩, ?_⟩
    rw [if_pos hlt]
    push_cast
    rw [mul_comm]

/-! ## The check of the guest -/

theorem checkDisposition_eq_ok {preCount i : ℕ} {newDeposits : List L1DepositWitness}
    {event : Disposition} (hids : ∀ i deposit, newDeposits[i]? = some deposit →
      deposit.depositId = preCount + i + 1) :
    checkDisposition P preCount newDeposits (newDeposits.map fun deposit => deposit.depositRoot)
        (event, i) = .ok () ↔
      ∃ deposit, newDeposits[i]? = some deposit ∧ Disposes P event deposit := by
  simp only [checkDisposition, bind_eq_ok, ensure_eq_ok, okOr_eq_ok, Unique.exists_iff,
    depositAmountNanos_eq_some]
  constructor
  · rintro ⟨hid, deposit, hdeposit, hroot, hkey, haccount, amount, ⟨rfl, hfits⟩, hamount⟩
    refine ⟨deposit, hdeposit, hid.trans (hids i deposit hdeposit).symm, ?_, hkey.symm, ?_, hamount,
      hfits⟩
    · simpa [List.getElem?_map, hdeposit] using hroot
    · intro accountId hsome
      rw [checkDispositionKey, hsome] at haccount
      exact hkey.trans (ensure_eq_ok.mp haccount)
  · rintro ⟨deposit, hdeposit, h⟩
    refine ⟨h.depositId.trans (hids i deposit hdeposit), deposit, hdeposit, ?_,
      h.sybilAccountKey.symm, ?_, _, ⟨rfl, h.fits⟩, h.amount⟩
    · simpa [List.getElem?_map, hdeposit] using h.depositRoot
    · rw [checkDispositionKey]
      cases hsome : event.accountId with
      | none => rfl
      | some accountId =>
        exact ensure_eq_ok.mpr (h.sybilAccountKey.trans (h.account accountId hsome))

/-- **The deposit check of the guest.** -/
theorem verifyL1DepositCheckpoint_eq_ok {inputs : StateTransitionPublicInputs} :
    verifyL1DepositCheckpoint P inputs w = .ok () ↔
      DepositsConsumed P w inputs.depositCount inputs.depositRoot := by
  simp only [verifyL1DepositCheckpoint, bind_eq_ok, ensure_eq_ok, okOr_eq_ok, checkAll_eq_ok,
    Unique.exists_iff, forall_mem_zipIdx, checkedU64_eq_some_iff]
  constructor
  · rintro ⟨hcount, root, hroot, rfl, count, ⟨-, rfl⟩, hpost, hids, roots, hroots, hpostRoot,
      hleafRoots, hlength, hevents⟩
    have hmap := (forall_mem_zip_iff_map_eq
      (by simpa using length_prefixRoots (depositFrontierPrefixRoots_eq_some.mp hroots).2)).mp
      hleafRoots
    subst hmap
    refine ⟨hcount, hroot, hpost.symm, hids, hroots, hpostRoot.symm, ?_⟩
    exact forall₂_iff_getElem?.mpr ⟨hlength, fun i event hevent =>
      (checkDisposition_eq_ok hids).mp (hevents i event hevent)⟩
  · intro h
    have hle := (depositFrontierPrefixRoots_eq_some.mp h.roots).1
    rw [List.length_map] at hle
    obtain ⟨hlength, hevents⟩ := forall₂_iff_getElem?.mp h.disposed
    exact ⟨h.preCount, _, h.preRoot, rfl, _, ⟨hle.trans_lt (by decide), rfl⟩,
      h.count.symm, h.ids, _,
      h.roots, h.root.symm, (forall_mem_zip_iff_map_eq (by simp)).mpr rfl, hlength,
      fun i event hevent => (checkDisposition_eq_ok h.ids).mpr (hevents i event hevent)⟩

/-! ## The check of the sidecar layer -/

theorem verifyPreFrontier_eq_nil_iff {accumulator : DepositAccumulatorWitness} {root : Digest} :
    verifyPreFrontier P accumulator root = [] ↔
      depositRootFromFrontier P accumulator.preFrontier.toList accumulator.preCount =
        some root := by
  rw [verifyPreFrontier]
  cases depositRootFromFrontier P accumulator.preFrontier.toList accumulator.preCount with
  | none => simp
  | some found => simp

theorem verifyDisposition_eq_nil_iff {i : ℕ} {newDeposits : List L1DepositWitness}
    {event : Disposition} {deposit : L1DepositWitness} (hdeposit : newDeposits[i]? = some deposit) :
    verifyDisposition P newDeposits (newDeposits.map fun deposit => deposit.depositRoot)
        (event, i) = [] ↔ Disposes P event deposit := by
  have hroot : ((newDeposits.map fun deposit => deposit.depositRoot)[i]?).getD
      deposit.depositRoot = deposit.depositRoot := by
    simp [List.getElem?_map, hdeposit]
  simp only [verifyDisposition, hdeposit, hroot, List.append_eq_nil_iff, reportIf_eq_nil, not_not,
    ne_eq]
  constructor
  · rintro ⟨⟨⟨⟨hid, hroot⟩, hkey⟩, haccount⟩, hamount⟩
    rw [verifyDispositionAmount] at hamount
    cases hnanos : depositAmountNanos deposit with
    | none =>
      rw [hnanos] at hamount
      exact nomatch hamount
    | some amount =>
      obtain ⟨rfl, hfits⟩ := depositAmountNanos_eq_some.mp hnanos
      rw [hnanos] at hamount
      refine ⟨hid.symm, hroot, hkey.symm, fun accountId hsome => ?_, by simpa using hamount, hfits⟩
      rw [verifyDispositionKey, hsome] at haccount
      exact hkey.trans (by simpa using haccount)
  · intro h
    refine ⟨⟨⟨⟨h.depositId.symm, h.depositRoot⟩, h.sybilAccountKey.symm⟩, ?_⟩, ?_⟩
    · rw [verifyDispositionKey]
      cases hsome : event.accountId with
      | none => rfl
      | some accountId => simp [h.sybilAccountKey, h.account accountId hsome]
    · simp [verifyDispositionAmount, depositAmountNanos_eq_some.mpr ⟨rfl, h.fits⟩, h.amount]

theorem verifyL1DepositEventsMatchDelta_eq_nil_iff :
    verifyL1DepositEventsMatchDelta P w
        (w.depositAccumulator.newDeposits.map fun deposit => deposit.depositRoot) = [] ↔
      List.Forall₂ (Disposes P) (dispositions w.systemEvents)
        w.depositAccumulator.newDeposits := by
  simp only [verifyL1DepositEventsMatchDelta, List.append_eq_nil_iff, reportIf_eq_nil, not_not,
    ne_eq, List.flatMap_eq_nil_iff, forall_mem_zipIdx]
  rw [forall₂_iff_getElem?]
  refine and_congr_right fun hlength => forall₂_congr fun i event => forall_congr' fun hevent => ?_
  have hi : i < w.depositAccumulator.newDeposits.length :=
    hlength ▸ (List.getElem?_eq_some_iff.mp hevent).1
  have hdeposit := List.getElem?_eq_getElem hi
  rw [verifyDisposition_eq_nil_iff hdeposit, hdeposit]
  simp

/-- **The deposit check of the sidecar layer** asks for the same as the guest. -/
theorem verifyDepositAccumulator_eq_nil_iff :
    verifyDepositAccumulator P w = [] ↔
      DepositsConsumed P w w.stateSidecar.bridge.depositCursor
        w.stateSidecar.bridge.depositRoot := by
  simp only [verifyDepositAccumulator, List.append_eq_nil_iff, reportIf_eq_nil, not_not, ne_eq,
    verifyPreFrontier_eq_nil_iff]
  constructor
  · rintro ⟨⟨hcount, hroot⟩, h⟩
    cases hpost : checkedU64 (w.depositAccumulator.preCount +
        w.depositAccumulator.newDeposits.length) with
    | none =>
      rw [hpost] at h
      exact nomatch h
    | some count =>
    obtain ⟨-, rfl⟩ := checkedU64_eq_some_iff.mp hpost
    cases hroots : depositFrontierPrefixRoots P w.depositAccumulator.preFrontier.toList
        w.depositAccumulator.preCount
        (w.depositAccumulator.newDeposits.map depositLeafFromWitness) with
    | none =>
      rw [hpost, hroots] at h
      simp at h
    | some roots =>
    simp only [hpost, hroots, List.append_eq_nil_iff, reportIf_eq_nil, not_not,
      List.flatMap_eq_nil_iff, forall_mem_zipIdx, verifyDepositId, verifyDepositRoot] at h
    obtain ⟨⟨hcursor, hids⟩, ⟨hleafRoots, hpostRoot⟩, hevents⟩ := h
    have hmap := (forall_mem_zip_iff_map_eq
      (by simpa using length_prefixRoots (depositFrontierPrefixRoots_eq_some.mp hroots).2)).mp
      hleafRoots
    subst hmap
    exact ⟨hcount, hroot, hcursor, hids, hroots, hpostRoot,
      verifyL1DepositEventsMatchDelta_eq_nil_iff.mp hevents⟩
  · intro h
    have hle := (depositFrontierPrefixRoots_eq_some.mp h.roots).1
    rw [List.length_map] at hle
    refine ⟨⟨h.preCount, h.preRoot⟩, ?_⟩
    rw [checkedU64_eq_some_iff.mpr ⟨hle.trans_lt (by decide), rfl⟩]
    simp only [h.roots, List.append_eq_nil_iff, reportIf_eq_nil, not_not,
      List.flatMap_eq_nil_iff, forall_mem_zipIdx, verifyDepositId, verifyDepositRoot]
    exact ⟨⟨h.count, h.ids⟩, ⟨(forall_mem_zip_iff_map_eq (by simp)).mpr rfl, h.root⟩,
      verifyL1DepositEventsMatchDelta_eq_nil_iff.mpr h.disposed⟩

end Sybil.Zk
