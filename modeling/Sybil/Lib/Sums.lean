import Mathlib

/-!
# Sums over lists

A selection of a list weighs what the list weighs with the other members at zero.  Two
comparisons of naturals that a budget argument needs: distinct members of a list weigh at most
as much as the whole list, and a list weighs at most as much as the parts of it that a
family of selections picks out, when every member is picked by some selection.  And a
pigeonhole: where every list of a family has its like in another family of no greater size,
the two families hold the same members.
-/

namespace Sybil

variable {α β γ : Type*}

/-- A selection weighs what the list weighs with the other members at zero. -/
theorem sum_map_filter {M : Type*} [AddCommMonoid M] (p : α → Bool) (f : α → M) (l : List α) :
    ((l.filter p).map f).sum = (l.map fun a => if p a then f a else 0).sum := by
  rw [List.sum_map_ite]
  simp

/-- Distinct members of a list weigh at most as much as the list. -/
theorem sum_map_le_of_subset {l l' : List α} (hl : l.Nodup) (hsub : l ⊆ l') (f : α → ℕ) :
    (l.map f).sum ≤ (l'.map f).sum := by
  obtain ⟨m, hperm, hsublist⟩ := List.subperm_of_subset hl hsub
  calc (l.map f).sum = (m.map f).sum := ((hperm.map f).sum_eq).symm
    _ ≤ (l'.map f).sum := (hsublist.map f).sum_le_sum fun _ _ => Nat.zero_le _

/-- A list weighs at most as much as the parts that cover it. -/
theorem sum_map_le_cover {l : List α} {cover : List γ} {picks : γ → α → Bool}
    (hcover : ∀ a ∈ l, ∃ c ∈ cover, picks c a = true) (f : α → ℕ) :
    (l.map f).sum ≤ (cover.map fun c => ((l.filter (picks c)).map f).sum).sum := by
  induction l with
  | nil => simp
  | cons a l ih =>
    have hrest := ih fun b hb => hcover b (List.mem_cons_of_mem _ hb)
    obtain ⟨c, hc, hpicks⟩ := hcover a List.mem_cons_self
    -- Each selection gains `f a` when it picks `a`, and `c` does.
    have hsplit : ∀ d, (((a :: l).filter (picks d)).map f).sum =
        (if picks d a then f a else 0) + ((l.filter (picks d)).map f).sum := by
      intro d
      rw [List.filter_cons]
      split_ifs <;> simp
    have hgain : f a ≤ (cover.map fun d => if picks d a then f a else 0).sum := by
      have hmem : f a ∈ cover.map fun d => if picks d a then f a else 0 :=
        List.mem_map.mpr ⟨c, hc, if_pos hpicks⟩
      exact List.single_le_sum (fun _ _ => Nat.zero_le _) _ hmem
    rw [List.map_cons, List.sum_cons]
    simp only [hsplit, List.sum_map_add]
    exact add_le_add hgain hrest

/-- Disjoint non-empty lists that each have their like in a family of no greater size are, taken
together, that family. -/
theorem perm_flatMap_of_matched {f : α → List γ} {g : β → List γ} {as : List α} {bs : List β}
    (hnodup : (as.flatMap f).Nodup) (hne : ∀ a ∈ as, f a ≠ [])
    (hmatch : ∀ a ∈ as, ∃ b ∈ bs, (g b).Perm (f a)) (hlength : bs.length ≤ as.length) :
    (bs.flatMap g).Perm (as.flatMap f) := by
  induction as generalizing bs with
  | nil =>
    rw [List.length_eq_zero_iff.mp (Nat.le_zero.mp hlength)]
    rfl
  | cons a as ih =>
    rw [List.flatMap_cons] at hnodup ⊢
    obtain ⟨-, hrest, hdisjoint⟩ := List.nodup_append'.mp hnodup
    obtain ⟨b, hb, hlike⟩ := hmatch a List.mem_cons_self
    obtain ⟨before, later, rfl⟩ := List.append_of_mem hb
    -- The like of another list is not `b`, whose members are those of `a`.
    have hothers : ∀ a' ∈ as, ∃ b' ∈ before ++ later, (g b').Perm (f a') := by
      intro a' ha'
      obtain ⟨b', hb', hlike'⟩ := hmatch a' (List.mem_cons_of_mem _ ha')
      rw [List.mem_append, List.mem_cons] at hb'
      rcases hb' with hbefore | rfl | hlater
      · exact ⟨b', List.mem_append_left _ hbefore, hlike'⟩
      · obtain ⟨x, hx⟩ := List.exists_mem_of_ne_nil _ (hne a' (List.mem_cons_of_mem _ ha'))
        have hxa : x ∈ f a := hlike.mem_iff.mp (hlike'.mem_iff.mpr hx)
        exact absurd (List.mem_flatMap.mpr ⟨a', ha', hx⟩) (hdisjoint hxa)
      · exact ⟨b', List.mem_append_right _ hlater, hlike'⟩
    have hrestPerm := ih hrest (fun a' ha' => hne a' (List.mem_cons_of_mem _ ha')) hothers
      (by simp at hlength ⊢; omega)
    refine (List.perm_middle.flatMap_right g).trans ?_
    rw [List.flatMap_cons]
    exact hlike.append hrestPerm

end Sybil
