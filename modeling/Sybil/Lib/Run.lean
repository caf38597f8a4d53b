import Mathlib

/-!
# Runs of a partial step function

A machine is a step function `exec : S → A → Option S`: in a state an action is
either refused or leads to one state.  A run applies a list of actions.  A guard is
a condition on an action and the state it is taken in; `Along` says that a guard
holds at every step of a run, and `invariant_of_run` is induction over such runs.
-/

namespace Sybil.Run

variable {S A : Type*} (exec : S → A → Option S)

/-- Apply actions in order; `none` when one is refused. -/
def run : S → List A → Option S
  | s, [] => some s
  | s, a :: as =>
    match exec s a with
    | none => none
    | some s' => run s' as

/-- The guard holds at every action of the run. -/
def Along (guard : S → A → Prop) : S → List A → Prop
  | _, [] => True
  | s, a :: as =>
    guard s a ∧
      match exec s a with
      | none => True
      | some s' => Along guard s' as

instance Along.decidable (guard : S → A → Prop) [∀ s a, Decidable (guard s a)] :
    (s : S) → (as : List A) → Decidable (Along exec guard s as)
  | _, [] => .isTrue trivial
  | s, a :: as => by
    unfold Along
    cases h : exec s a with
    | none => infer_instance
    | some s' =>
      have := Along.decidable guard s' as
      infer_instance

variable {exec}

theorem run_cons_eq_some {s t : S} {a : A} {as : List A} (h : run exec s (a :: as) = some t) :
    ∃ s', exec s a = some s' ∧ run exec s' as = some t := by
  rw [run] at h
  split at h
  · cases h
  · next s' hs => exact ⟨s', hs, h⟩

/-- A guard that does not look at the state holds along every run. -/
theorem along_of_forall {guard : S → A → Prop} {as : List A}
    (h : ∀ a ∈ as, ∀ s, guard s a) (s : S) :
    Along exec guard s as := by
  induction as generalizing s with
  | nil => trivial
  | cons a as ih =>
    obtain ⟨ha, hrest⟩ := List.forall_mem_cons.mp h
    refine ⟨ha s, ?_⟩
    cases exec s a with
    | none => trivial
    | some s' => exact ih hrest s'

/-- What every guarded step preserves, every guarded run preserves. -/
theorem invariant_of_run {inv : S → Prop} {guard : S → A → Prop}
    (hstep : ∀ s a s', inv s → guard s a → exec s a = some s' → inv s') {s t : S} {as : List A}
    (hs : inv s) (hguard : Along exec guard s as) (hrun : run exec s as = some t) : inv t := by
  induction as generalizing s with
  | nil =>
    cases hrun
    exact hs
  | cons a as ih =>
    obtain ⟨s', hexec, hrest⟩ := run_cons_eq_some hrun
    obtain ⟨ha, hafter⟩ := hguard
    rw [hexec] at hafter
    exact ih (hstep s a s' hs ha hexec) hafter hrest

end Sybil.Run
