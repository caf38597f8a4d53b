import Sybil.Lib.OrdMap

/-!
# Frames of a fold over a map

A loop rewrites a map step by step, and every step touches the entries of its own keys only.
When the keys of two steps never meet, the entries of a step are what that step alone makes of
the map before the loop.
-/

namespace Sybil.OrdMap

variable {K V ι : Type*} [LinearOrder K] {step : OrdMap K V → ι → OrdMap K V}
  {l : List ι}

theorem get?_foldl_of_untouched (keys : ι → K → Prop)
    (hframe : ∀ m i k, ¬ keys i k → (step m i).get? k = m.get? k) {k : K}
    (hk : ∀ i ∈ l, ¬ keys i k) (m : OrdMap K V) : (l.foldl step m).get? k = m.get? k := by
  induction l generalizing m with
  | nil => rfl
  | cons i l ih =>
    obtain ⟨hi, hl⟩ := List.forall_mem_cons.mp hk
    rw [List.foldl_cons, ih hl, hframe m i k hi]

/-- **One step of a loop.**  The entries of a step come from that step, taken at a map with the
entries before the loop. -/
theorem exists_step_of_mem (keys : ι → K → Prop)
    (hframe : ∀ m i k, ¬ keys i k → (step m i).get? k = m.get? k) {i : ι} (hi : i ∈ l)
    (hnodup : l.Nodup) (hdisjoint : ∀ j ∈ l, j ≠ i → ∀ k, keys i k → ¬ keys j k)
    (m : OrdMap K V) :
    ∃ mid, (∀ k, keys i k → mid.get? k = m.get? k) ∧
      ∀ k, keys i k → (l.foldl step m).get? k = (step mid i).get? k := by
  obtain ⟨before, after, rfl⟩ := List.append_of_mem hi
  have hne : ∀ j, j ∈ before ∨ j ∈ after → j ≠ i := by
    obtain ⟨-, htail, hapart⟩ := List.nodup_append.mp hnodup
    rintro j (hj | hj) rfl
    · exact hapart j hj j (List.mem_cons_self ..) rfl
    · exact (List.nodup_cons.mp htail).1 hj
  have huntouched : ∀ j, j ∈ before ∨ j ∈ after → ∀ k, keys i k → ¬ keys j k := by
    intro j hj
    refine hdisjoint j ?_ (hne j hj)
    rw [List.mem_append, List.mem_cons]
    exact hj.imp_right .inr
  refine ⟨before.foldl step m, fun k hk => ?_, fun k hk => ?_⟩
  · exact get?_foldl_of_untouched keys hframe (fun j hj => huntouched j (.inl hj) k hk) m
  · rw [List.foldl_append, List.foldl_cons]
    exact get?_foldl_of_untouched keys hframe (fun j hj => huntouched j (.inr hj) k hk) _

end Sybil.OrdMap
