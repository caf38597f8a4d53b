import Mathlib

/-!
# Binary search

Search for the least number of an interval at which a predicate holds.  The predicate is
monotone, and it holds at the upper end of the interval.
-/

namespace Sybil.BinarySearch

variable (p : ℕ → Prop) [DecidablePred p]

/-- The least number from `lo` on at which `p` holds; it is at most `hi`. -/
def least (lo hi : ℕ) : ℕ :=
  if lo < hi then
    let mid := lo + (hi - lo) / 2
    if p mid then least lo mid else least (mid + 1) hi
  else lo
termination_by hi - lo

variable {p}

/-- The search ends at the least such number. -/
theorem isLeast_least {lo hi : ℕ} (hle : lo ≤ hi) (hmono : ∀ m n, m ≤ n → p m → p n) (hhi : p hi) :
    IsLeast {n | lo ≤ n ∧ p n} (least p lo hi) := by
  induction lo, hi using least.induct p with
  | case1 lo hi hlt mid hmid ih =>
    rw [least, if_pos hlt, if_pos hmid]
    exact ih (by omega) hmid
  | case2 lo hi hlt mid hmid ih =>
    rw [least, if_pos hlt, if_neg hmid]
    obtain ⟨⟨hge, hp⟩, hleast⟩ := ih (by omega) hhi
    have hlow : lo ≤ mid + 1 := by omega
    refine ⟨⟨hlow.trans hge, hp⟩, fun n hn => hleast ⟨?_, hn.2⟩⟩
    -- Below the middle the predicate fails.
    by_contra hbelow
    exact hmid (hmono n mid (by omega) hn.2)
  | case3 lo hi hnot =>
    rw [least, if_neg hnot]
    obtain rfl : lo = hi := by omega
    exact ⟨⟨le_refl _, hhi⟩, fun n hn => hn.1⟩

end Sybil.BinarySearch
