import Mathlib

/-!
# Logs

A log is a list that grows at its end.  `Throughout p log` says that every entry meets a
condition on the entries before it, and `Latest p log x since` that `x` is the last entry
with a property and `since` is what came after it.  Both are kept up to date by
appending, so that they can be carried as invariants of what writes the log.
-/

namespace Sybil

variable {α : Type*}

/-- Every entry, with the entries before it, meets `p`. -/
def Throughout (p : List α → α → Prop) (log : List α) : Prop :=
  ∀ before x after, log = before ++ x :: after → p before x

section Throughout

variable {p q : List α → α → Prop} {log : List α} {x : α}

theorem throughout_nil : Throughout p [] := by
  intro before x after h
  simp at h

/-- A log meets the condition when its last entry does and the rest did. -/
theorem throughout_concat : Throughout p (log ++ [x]) ↔ Throughout p log ∧ p log x := by
  constructor
  · intro h
    refine ⟨fun before y after hlog => h before y (after ++ [x]) ?_, h log x [] rfl⟩
    rw [hlog, List.append_assoc, List.cons_append]
  · rintro ⟨hlog, hx⟩ before y after heq
    -- The entry is the last one, or it stands in the rest of the log.
    rcases List.eq_nil_or_concat after with rfl | ⟨after', z, rfl⟩
    · obtain ⟨rfl, hxy⟩ := List.append_inj' heq rfl
      cases hxy
      exact hx
    · rw [List.concat_eq_append, ← List.cons_append, ← List.append_assoc] at heq
      exact hlog before y after' (List.append_inj' heq rfl).1

/-- Entries that exclude each other: at most one is in the log. -/
theorem length_filter_le_one {r : α → Bool} {log : List α}
    (h : Throughout (fun before x => r x = true → ∀ y ∈ before, r y = false) log) :
    (log.filter r).length ≤ 1 := by
  induction log using List.reverseRecOn with
  | nil => simp
  | append_singleton log x ih =>
    obtain ⟨hlog, hx⟩ := throughout_concat.mp h
    rw [List.filter_append, List.length_append]
    by_cases hr : r x = true
    · have hnone : log.filter r = [] :=
        List.filter_eq_nil_iff.mpr fun y hy => by simp [hx hr y hy]
      rw [hnone, List.length_nil, Nat.zero_add]
      exact List.length_filter_le r [x]
    · rw [List.filter_cons_of_neg hr]
      exact ih hlog

end Throughout

/-- `x` is the last entry with the property `p`, and `since` is what follows it. -/
structure Latest (p : α → Prop) (log : List α) (x : α) (since : List α) : Prop where
  split : ∃ before, log = before ++ x :: since
  holds : p x
  none_since : ∀ y ∈ since, ¬p y

namespace Latest

variable {p : α → Prop} {log since : List α} {x : α}

theorem concat (hx : p x) : Latest p (log ++ [x]) x [] := ⟨⟨log, rfl⟩, hx, fun _ h => by cases h⟩

theorem append (h : Latest p log x since) {new : List α} (hnew : ∀ y ∈ new, ¬p y) :
    Latest p (log ++ new) x (since ++ new) where
  split := by
    obtain ⟨before, rfl⟩ := h.split
    exact ⟨before, by rw [List.append_assoc, List.cons_append]⟩
  holds := h.holds
  none_since y hy := (List.mem_append.mp hy).elim (h.none_since y) (hnew y)

theorem mem (h : Latest p log x since) : x ∈ log := by
  obtain ⟨before, rfl⟩ := h.split
  exact List.mem_append_right _ List.mem_cons_self

/-- There is one last entry. -/
theorem unique (h : Latest p log x since) {y : α} {since' : List α}
    (h' : Latest p log y since') : x = y ∧ since = since' := by
  obtain ⟨before, hlog⟩ := h.split
  obtain ⟨before', hlog'⟩ := h'.split
  rcases List.append_eq_append_iff.mp (hlog.symm.trans hlog') with ⟨l, -, hl⟩ | ⟨l, -, hl⟩
  · cases l with
    | nil => exact ⟨(List.cons.inj hl).1, (List.cons.inj hl).2⟩
    | cons z l =>
      have hy : y ∈ since := by
        rw [(List.cons.inj hl).2]
        exact List.mem_append_right _ List.mem_cons_self
      exact absurd h'.holds (h.none_since y hy)
  · cases l with
    | nil => exact ⟨(List.cons.inj hl).1.symm, (List.cons.inj hl).2.symm⟩
    | cons z l =>
      have hx : x ∈ since' := by
        rw [(List.cons.inj hl).2]
        exact List.mem_append_right _ List.mem_cons_self
      exact absurd h.holds (h'.none_since x hx)

end Latest

end Sybil
