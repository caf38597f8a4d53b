import Mathlib

/-!
# Cutting a list down to a budget

The items of a list have weights, and `remaining` is their sum minus a fixed offset.  A
greedy loop visits some of the items; while `remaining` is above the budget it cuts the
visited item, either far enough to meet the budget or to weight zero.  When every item that
weighs something is visited, the loop ends within the budget.
-/

namespace Sybil.CutDown

variable {α : Type*} (weight : α → ℕ) (cut : α → ℕ → α) (budget : ℕ)

/-- Visit one item. -/
def step (st : List α × ℕ) (i : ℕ) : List α × ℕ :=
  if st.2 ≤ budget then st
  else
    match st.1[i]? with
    | none => st
    | some a => (st.1.set i (cut a st.2), st.2 - (weight a - weight (cut a st.2)))

/-- Visit the items one after the other. -/
def run (todo : List ℕ) (st : List α × ℕ) : List α × ℕ := todo.foldl (step weight cut budget) st

variable {weight cut budget}

/-- What a cut does to an item of the given kind: it meets the budget or leaves no weight. -/
structure Cuts (weight : α → ℕ) (cut : α → ℕ → α) (budget offset : ℕ) (kind : α → Prop) :
    Prop where
  kept : ∀ a remaining, kind a → kind (cut a remaining)
  le : ∀ a remaining, kind a → budget < remaining → weight a ≤ remaining + offset →
    weight (cut a remaining) ≤ weight a ∧ weight a - weight (cut a remaining) ≤ remaining ∧
      (remaining - (weight a - weight (cut a remaining)) ≤ budget ∨ weight (cut a remaining) = 0)

theorem getElem?_step_of_ne {st : List α × ℕ} {i j : ℕ} (h : j ≠ i) :
    (step weight cut budget st i).1[j]? = st.1[j]? := by
  unfold step
  split_ifs
  · rfl
  · split
    · rfl
    · exact List.getElem?_set_ne (Ne.symm h)

section Sum

variable {l : List α} {i : ℕ} {a : α}

theorem sum_map_set (weight : α → ℕ) (b : α) (h : l[i]? = some a) :
    ((l.set i b).map weight).sum + weight a = (l.map weight).sum + weight b := by
  induction l generalizing i with
  | nil => cases h
  | cons head l ih =>
    cases i with
    | zero =>
      cases h
      simp only [List.set_cons_zero, List.map_cons, List.sum_cons]
      omega
    | succ i =>
      have htail := ih h
      simp only [List.set_cons_succ, List.map_cons, List.sum_cons]
      omega

theorem weight_le_sum (h : l[i]? = some a) : weight a ≤ (l.map weight).sum :=
  List.single_le_sum (fun _ _ => Nat.zero_le _) _ (List.mem_map_of_mem (List.mem_of_getElem? h))

end Sum

variable {offset : ℕ} {kind : α → Prop} {l : List α} {remaining : ℕ}

/-- What holds between two visits. -/
structure Inv (weight : α → ℕ) (budget offset : ℕ) (kind : α → Prop) (todo : List ℕ)
    (st : List α × ℕ) : Prop where
  total : st.2 + offset = (st.1.map weight).sum
  kinds : ∀ i ∈ todo, ∀ a, st.1[i]? = some a → kind a
  left : st.2 ≤ budget ∨ ∀ i a, st.1[i]? = some a → weight a ≠ 0 → i ∈ todo

theorem Inv.step {i : ℕ} {todo : List ℕ} {st : List α × ℕ}
    (hcuts : Cuts weight cut budget offset kind)
      (h : Inv weight budget offset kind (i :: todo) st) :
    Inv weight budget offset kind todo (step weight cut budget st i) := by
  obtain ⟨l, remaining⟩ := st
  have hok : ∀ j ∈ todo, ∀ a, l[j]? = some a → kind a :=
    fun j hj => h.kinds j (List.mem_cons_of_mem i hj)
  unfold CutDown.step
  dsimp only
  split_ifs with hmet
  · exact ⟨h.total, hok, .inl hmet⟩
  · have hleft : ∀ j a, l[j]? = some a → weight a ≠ 0 → j ∈ i :: todo :=
      h.left.resolve_left hmet
    split
    · next hnone =>
      refine ⟨h.total, hok, .inr fun j a hj hweight => ?_⟩
      rcases List.mem_cons.mp (hleft j a hj hweight) with rfl | hmem
      · rw [hnone] at hj
        cases hj
      · exact hmem
    · next a ha =>
      have haok : kind a := h.kinds i (List.mem_cons_self ..) a ha
      have htotal : remaining + offset = (l.map weight).sum := h.total
      have hbound : weight a ≤ remaining + offset := htotal ▸ weight_le_sum ha
      obtain ⟨hle, hroom, hends⟩ := hcuts.le a remaining haok (Nat.lt_of_not_le hmet) hbound
      have hsum := sum_map_set weight (cut a remaining) ha
      have hget : ∀ j b, (l.set i (cut a remaining))[j]? = some b →
          (j = i ∧ b = cut a remaining) ∨ (j ≠ i ∧ l[j]? = some b) := by
        intro j b hj
        rw [List.getElem?_set] at hj
        split_ifs at hj with heq hlt
        · exact .inl ⟨heq.symm, (Option.some.inj hj).symm⟩
        · exact .inr ⟨fun hji => heq hji.symm, hj⟩
      refine ⟨?_, fun j hj b hb => ?_, ?_⟩
      · show remaining - _ + offset = ((l.set i _).map weight).sum
        omega
      · rcases hget j b hb with ⟨-, rfl⟩ | ⟨-, hb⟩
        · exact hcuts.kept a remaining haok
        · exact hok j hj b hb
      · rcases hends with hmeets | hzero
        · exact .inl hmeets
        · refine .inr fun j b hb hweight => ?_
          rcases hget j b hb with ⟨-, rfl⟩ | ⟨hne, hb⟩
          · exact absurd hzero hweight
          · exact (List.mem_cons.mp (hleft j b hb hweight)).resolve_left hne

/-- **Cutting down meets the budget**, and `remaining` keeps track of the sum. -/
theorem run_spec {todo : List ℕ} (hcuts : Cuts weight cut budget offset kind)
    (htotal : remaining + offset = (l.map weight).sum)
    (hok : ∀ i ∈ todo, ∀ a, l[i]? = some a → kind a)
    (hall : ∀ i a, l[i]? = some a → weight a ≠ 0 → i ∈ todo) :
    (run weight cut budget todo (l, remaining)).2 + offset =
        ((run weight cut budget todo (l, remaining)).1.map weight).sum ∧
      (((run weight cut budget todo (l, remaining)).1.map weight).sum ≤ budget + offset) := by
  have hinv : Inv weight budget offset kind [] (run weight cut budget todo (l, remaining)) := by
    have hrun : ∀ (todo : List ℕ) (st : List α × ℕ), Inv weight budget offset kind todo st →
        Inv weight budget offset kind [] (run weight cut budget todo st) := by
      intro todo
      induction todo with
      | nil => exact fun st h => h
      | cons i todo ih => exact fun st h => ih _ (h.step hcuts)
    exact hrun todo (l, remaining) ⟨htotal, hok, .inr hall⟩
  refine ⟨hinv.total, ?_⟩
  rcases hinv.left with hmet | hnone
  · rw [← hinv.total]
    omega
  · -- No item weighs anything.
    have hzero : ((run weight cut budget todo (l, remaining)).1.map weight).sum = 0 := by
      refine List.sum_eq_zero fun w hw => ?_
      obtain ⟨a, ha, rfl⟩ := List.mem_map.mp hw
      obtain ⟨i, hi⟩ := List.mem_iff_getElem?.mp ha
      by_contra hweight
      cases hnone i a hi hweight
    omega

section Relation

variable {R : α → α → Prop}

theorem forall₂_set (hrefl : ∀ a, R a a) {i : ℕ} {a b : α} (h : l[i]? = some a) (hab : R a b) :
    List.Forall₂ R l (l.set i b) := by
  induction l generalizing i with
  | nil => cases h
  | cons head l ih =>
    cases i with
    | zero =>
      cases h
      exact .cons hab (List.forall₂_same.mpr fun item _ => hrefl item)
    | succ i => exact .cons (hrefl head) (ih h)

theorem forall₂_comp {S T : α → α → Prop} (hcomp : ∀ a b c, R a b → S b c → T a c) {m n : List α}
    (h : List.Forall₂ R l m) (h' : List.Forall₂ S m n) : List.Forall₂ T l n := by
  induction h generalizing n with
  | nil =>
    cases h'
    exact .nil
  | cons hab _ ih =>
    cases h' with
    | cons hbc hrest => exact .cons (hcomp _ _ _ hab hbc) (ih hrest)

/-- Every item stays or is cut, once or several times. -/
theorem forall₂_run (hrefl : ∀ a, R a a) (htrans : ∀ a b c, R a b → R b c → R a c)
    (hcut : ∀ a remaining, R a (cut a remaining)) (todo : List ℕ) (st : List α × ℕ) :
    List.Forall₂ R st.1 (run weight cut budget todo st).1 := by
  induction todo generalizing st with
  | nil => exact List.forall₂_same.mpr fun item _ => hrefl item
  | cons i todo ih =>
    have hstep : List.Forall₂ R st.1 (step weight cut budget st i).1 := by
      unfold step
      split_ifs
      · exact List.forall₂_same.mpr fun item _ => hrefl item
      · split
        · exact List.forall₂_same.mpr fun item _ => hrefl item
        · next a ha => exact forall₂_set hrefl ha (hcut a st.2)
    exact forall₂_comp htrans hstep (ih _)

theorem map_eq_of_forall₂ {β : Type*} {f : α → β} (heq : ∀ a b, R a b → f b = f a) {m : List α}
    (h : List.Forall₂ R l m) : m.map f = l.map f := by
  induction h with
  | nil => rfl
  | cons hab _ ih => rw [List.map_cons, List.map_cons, heq _ _ hab, ih]

theorem exists_of_forall₂_right {m : List α} (h : List.Forall₂ R l m) {b : α} (hb : b ∈ m) :
    ∃ a ∈ l, R a b := by
  induction h with
  | nil => cases hb
  | cons hab _ ih =>
    rcases List.mem_cons.mp hb with rfl | hb
    · exact ⟨_, List.mem_cons_self .., hab⟩
    · obtain ⟨a, ha, hrel⟩ := ih hb
      exact ⟨a, List.mem_cons_of_mem _ ha, hrel⟩

theorem exists_of_forall₂_left {m : List α} (h : List.Forall₂ R l m) {a : α} (ha : a ∈ l) :
    ∃ b ∈ m, R a b := by
  induction h with
  | nil => cases ha
  | cons hab _ ih =>
    rcases List.mem_cons.mp ha with rfl | ha
    · exact ⟨_, List.mem_cons_self .., hab⟩
    · obtain ⟨b, hb, hrel⟩ := ih ha
      exact ⟨b, List.mem_cons_of_mem _ hb, hrel⟩

end Relation

end Sybil.CutDown
