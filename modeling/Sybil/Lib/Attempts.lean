import Mathlib

/-!
# Runs in which a call may fail

A component answers a call with an error, and is then as it was before, or with a new
state and a result.  `attempts` makes a list of calls whatever their answers and keeps a
log of those that succeeded.  Statements about a history of calls are statements about
the log: `invariant_of_attempts` is induction over it, and `exists_of_log_eq` cuts a run
where the log is cut.
-/

namespace Sybil

variable {S A B E : Type*} (call : S → A → Except E (S × B))

/-- Make the calls in order: the last state, and the calls that succeeded with their
results. -/
def attempts : S → List A → S × List (A × B)
  | s, [] => (s, [])
  | s, a :: as =>
    match call s a with
    | .error _ => attempts s as
    | .ok (s', b) => ((attempts s' as).1, (a, b) :: (attempts s' as).2)

variable {call} {s s' : S} {a : A} {as bs : List A} {b : B}

@[simp] theorem attempts_nil : attempts call s [] = (s, []) := rfl

theorem attempts_cons_of_error {e : E} (h : call s a = .error e) :
    attempts call s (a :: as) = attempts call s as := by
  rw [attempts, h]

theorem attempts_cons_of_ok (h : call s a = .ok (s', b)) :
    attempts call s (a :: as) =
      ((attempts call s' as).1, (a, b) :: (attempts call s' as).2) := by
  rw [attempts, h]

/-- What every call that succeeds preserves, of the state and the log so far, every run
preserves. -/
theorem invariant_of_attempts {I : S → List (A × B) → Prop}
    (hstep : ∀ s log a s' b, I s log → call s a = .ok (s', b) → I s' (log ++ [(a, b)]))
    {log : List (A × B)} (hs : I s log) (as : List A) :
    I (attempts call s as).1 (log ++ (attempts call s as).2) := by
  induction as generalizing s log with
  | nil => simpa using hs
  | cons a as ih =>
    cases h : call s a with
    | error e =>
      rw [attempts_cons_of_error h]
      exact ih hs
    | ok r =>
      rw [attempts_cons_of_ok h]
      have hrest := ih (hstep s log a r.1 r.2 hs h)
      rwa [List.append_assoc, List.singleton_append] at hrest

/-- Where the log is cut at an entry, the run is cut at the call that made it. -/
theorem exists_of_log_eq {r : A × B} {before after : List (A × B)}
    (h : (attempts call s as).2 = before ++ r :: after) :
    ∃ as₁ as₂ s', as = as₁ ++ r.1 :: as₂ ∧ (attempts call s as₁).2 = before ∧
      call (attempts call s as₁).1 r.1 = .ok (s', r.2) ∧
      attempts call s' as₂ = ((attempts call s as).1, after) := by
  induction as generalizing s before with
  | nil => simp at h
  | cons a as ih =>
    cases hcall : call s a with
    | error e =>
      rw [attempts_cons_of_error hcall] at h
      obtain ⟨as₁, as₂, s', rfl, hbefore, hr, hafter⟩ := ih h
      refine ⟨a :: as₁, as₂, s', rfl, ?_⟩
      rw [attempts_cons_of_error hcall, attempts_cons_of_error hcall]
      exact ⟨hbefore, hr, hafter⟩
    | ok made =>
      rw [attempts_cons_of_ok hcall] at h
      cases before with
      | nil =>
        -- The cut is at this very call.
        obtain ⟨rfl, hafter⟩ := List.cons.inj h
        refine ⟨[], as, made.1, rfl, rfl, hcall, ?_⟩
        rw [attempts_cons_of_ok hcall, ← hafter]
      | cons first before =>
        obtain ⟨rfl, hlog⟩ := List.cons.inj h
        obtain ⟨as₁, as₂, s', rfl, hbefore, hr, hafter⟩ := ih hlog
        refine ⟨a :: as₁, as₂, s', rfl, ?_⟩
        rw [attempts_cons_of_ok hcall, attempts_cons_of_ok hcall]
        exact ⟨by rw [← hbefore], hr, hafter⟩

end Sybil
