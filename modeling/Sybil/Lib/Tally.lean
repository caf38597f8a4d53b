import Sybil.Lib.Holdings
import Sybil.Lib.Sums

/-!
# Tallies

A tally is a map of amounts that is kept in step with a list of items: under each key
it holds the sum of what the items weigh there.  The operations on the list are
mirrored by changes of the map, and each rule below says which change of the amounts
mirrors which operation.  The order of the items does not matter.
-/

namespace Sybil.OrdMap

variable {K α : Type*} [LinearOrder K] {m m' : OrdMap K ℤ} {weigh : α → K → ℤ} {l l' : List α}
  {x y : α} {k k' : K}

theorem amount_erase : (m.erase k).amount k' = if k' = k then 0 else m.amount k' := by
  rw [amount, get?_erase]
  split_ifs <;> rfl

/-- Adding a list of changes adds the changes of each key. -/
theorem amount_addAll (changes : List (K × ℤ)) :
    (m.addAll changes).amount k =
      m.amount k + (changes.map fun c => if c.1 = k then c.2 else 0).sum := by
  induction changes generalizing m with
  | nil => simp
  | cons c changes ih =>
    rw [addAll_cons, ih, amount_insert, List.map_cons, List.sum_cons]
    by_cases hk : k = c.1
    · rw [if_pos hk, if_pos hk.symm, hk]
      ring
    · rw [if_neg hk, if_neg (Ne.symm hk)]
      ring

/-- Subtracting from the entries that exist subtracts everywhere, if nothing is to be subtracted
where there is no entry. -/
theorem amount_foldl_sub {entries : List (K × ℤ)}
    (h : ∀ e ∈ entries, m.get? e.1 = none → e.2 = 0) :
    (entries.foldl (fun m e =>
      match m.get? e.1 with
      | some qty => m.insert e.1 (qty - e.2)
      | none => m) m).amount k =
      m.amount k - (entries.map fun e => if e.1 = k then e.2 else 0).sum := by
  induction entries generalizing m with
  | nil => simp
  | cons e entries ih =>
    obtain ⟨he, hrest⟩ := List.forall_mem_cons.mp h
    rw [List.foldl_cons, List.map_cons, List.sum_cons]
    cases hget : m.get? e.1 with
    | none =>
      rw [ih hrest, he hget, ite_self, zero_add]
    | some qty =>
      have hkeep : ∀ e' ∈ entries, (m.insert e.1 (qty - e.2)).get? e'.1 = none → e'.2 = 0 := by
        intro e' he' hnone
        rw [get?_insert] at hnone
        split_ifs at hnone
        exact hrest e' he' hnone
      rw [ih hkeep, amount_insert]
      by_cases hk : k = e.1
      · rw [if_pos hk, if_pos hk.symm, hk, amount, hget, Option.getD_some]
        ring
      · rw [if_neg hk, if_neg (Ne.symm hk), zero_add]

/-- `m` holds, under each key, what the items of `l` weigh there. -/
def Tallies (m : OrdMap K ℤ) (weigh : α → K → ℤ) (l : List α) : Prop :=
  ∀ k, m.amount k = (l.map fun x => weigh x k).sum

namespace Tallies

theorem empty (weigh : α → K → ℤ) : (∅ : OrdMap K ℤ).Tallies weigh [] := fun _ => rfl

theorem perm (h : m.Tallies weigh l) (hl : l.Perm l') : m.Tallies weigh l' :=
  fun k => (h k).trans (hl.map _).sum_eq

theorem concat (h : m.Tallies weigh l) (hm : ∀ k, m'.amount k = m.amount k + weigh x k) :
    m'.Tallies weigh (l ++ [x]) := by
  intro k
  rw [hm, h k, List.map_append, List.sum_append, List.map_singleton, List.sum_singleton]

theorem tail (h : m.Tallies weigh (x :: l)) (hm : ∀ k, m'.amount k = m.amount k - weigh x k) :
    m'.Tallies weigh l := by
  intro k
  rw [hm, h k, List.map_cons, List.sum_cons]
  ring

theorem replace (h : m.Tallies weigh (x :: l))
    (hm : ∀ k, m'.amount k = m.amount k - (weigh x k - weigh y k)) :
    m'.Tallies weigh (y :: l) := by
  intro k
  rw [hm, h k, List.map_cons, List.sum_cons, List.map_cons, List.sum_cons]
  ring

/-- With weights that are not negative, no item outweighs the tally. -/
theorem weigh_le (h : m.Tallies weigh l) (hl : ∀ y ∈ l, 0 ≤ weigh y k) (hx : x ∈ l) :
    weigh x k ≤ m.amount k := by
  rw [h k]
  refine List.single_le_sum (fun z hz => ?_) _ (List.mem_map_of_mem hx)
  obtain ⟨y, hy, rfl⟩ := List.mem_map.mp hz
  exact hl y hy

end Tallies

end Sybil.OrdMap
