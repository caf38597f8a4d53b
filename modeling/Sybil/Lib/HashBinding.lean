import Mathlib

/-!
# Hashes without collisions among some inputs

No hash function is injective, so what a digest binds is said relative to the strings that were
hashed: `Separates` compares the strings of two computations.  A chain that absorbs one value
after the other then determines its start and its values.
-/

namespace Sybil.HashBinding

variable {A D X : Type*}

section Separates

variable (hash : A → D)

/-- Strings of two lists with the same hash are the same. -/
def Separates (xs ys : List A) : Prop := ∀ x ∈ xs, ∀ y ∈ ys, hash x = hash y → x = y

/-- No two different strings of a list have the same hash. -/
def CollisionFree (xs : List A) : Prop := Separates hash xs xs

variable {hash} {xs xs' ys ys' : List A} {x y : A}

theorem Separates.mono (h : Separates hash xs ys) (hxs : xs' ⊆ xs) (hys : ys' ⊆ ys) :
    Separates hash xs' ys' :=
  fun x hx y hy => h x (hxs hx) y (hys hy)

theorem Separates.append_left (h : Separates hash (xs ++ xs') (ys ++ ys')) : Separates hash xs ys :=
  h.mono (List.subset_append_left _ _) (List.subset_append_left _ _)

theorem Separates.append_right (h : Separates hash (xs ++ xs') (ys ++ ys')) :
    Separates hash xs' ys' :=
  h.mono (List.subset_append_right _ _) (List.subset_append_right _ _)

theorem Separates.tail (h : Separates hash (x :: xs) (y :: ys)) : Separates hash xs ys :=
  h.mono (List.subset_cons_self _ _) (List.subset_cons_self _ _)

theorem Separates.head (h : Separates hash (x :: xs) (y :: ys)) (heq : hash x = hash y) : x = y :=
  h x List.mem_cons_self y List.mem_cons_self heq

theorem CollisionFree.separates (h : CollisionFree hash (xs ++ ys)) : Separates hash xs ys :=
  h.mono (List.subset_append_left _ _) (List.subset_append_right _ _)

end Separates

section Chain

variable (hash : A → D) (encode : D → X → A)

/-- Absorb values one after the other. -/
def chain (acc : D) (values : List X) : D := values.foldl (fun acc x => hash (encode acc x)) acc

/-- The strings that a chain hashes. -/
def chainInputs : D → List X → List A
  | _, [] => []
  | acc, x :: values => encode acc x :: chainInputs (hash (encode acc x)) values

variable {hash encode}

/-- A chain determines its start and, with their number, its values. -/
theorem chain_inj (hencode : ∀ {acc acc' x x'}, encode acc x = encode acc' x' → acc = acc' ∧ x = x')
    {acc acc' : D} {values values' : List X} (hlength : values.length = values'.length)
    (hsep : Separates hash (chainInputs hash encode acc values)
      (chainInputs hash encode acc' values'))
    (h : chain hash encode acc values = chain hash encode acc' values') :
    acc = acc' ∧ values = values' := by
  induction values generalizing acc acc' values' with
  | nil =>
    obtain rfl : values' = [] := List.eq_nil_of_length_eq_zero hlength.symm
    exact ⟨h, rfl⟩
  | cons x values ih =>
    cases values' with
    | nil => simp at hlength
    | cons x' values' =>
      obtain ⟨hhash, hvalues⟩ := ih (Nat.succ.inj hlength) hsep.tail h
      obtain ⟨hacc, hx⟩ := hencode (hsep.head hhash)
      exact ⟨hacc, by rw [hx, hvalues]⟩

end Chain

end Sybil.HashBinding
