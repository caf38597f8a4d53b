import Mathlib

/-!
# Binary Merkle trees and their frontiers

The root of a complete binary tree over a sequence of leaves, for any way to combine two
nodes.  A tree is read from above (`root`) and level by level from below (`root_succ`).

A tree that is filled from the left can be continued from its *frontier*: one node a level,
of which those count whose bit is set in the number of leaves (`Valid`).  `padded` is the
tree in the making: the leaves so far, the node that is being inserted, and zeros.
-/

namespace Sybil.Merkle

variable {D : Type*} (node : D → D → D)

/-- Root of the tree of a depth over the first leaves of a sequence. -/
def root : ℕ → (ℕ → D) → D
  | 0, leaves => leaves 0
  | depth + 1, leaves => node (root depth leaves) (root depth fun i => leaves (2 ^ depth + i))

/-- The level above the leaves. -/
def parents (leaves : ℕ → D) (i : ℕ) : D := node (leaves (2 * i)) (leaves (2 * i + 1))

/-- **Level by level**: the root over the leaves is the root over their parents. -/
theorem root_succ (depth : ℕ) (leaves : ℕ → D) :
    root node (depth + 1) leaves = root node depth (parents node leaves) := by
  induction depth generalizing leaves with
  | zero => rfl
  | succ depth ih =>
    have hshift : (parents node fun i => leaves (2 ^ (depth + 1) + i)) =
        fun i => parents node leaves (2 ^ depth + i) := by
      funext i
      have hleft : 2 ^ (depth + 1) + 2 * i = 2 * (2 ^ depth + i) := by ring
      have hright : 2 ^ (depth + 1) + (2 * i + 1) = 2 * (2 ^ depth + i) + 1 := by ring
      simp only [parents, hleft, hright]
    rw [root, ih, ih, hshift]
    rfl

/-- Only the leaves of the tree count. -/
theorem root_congr {depth : ℕ} {leaves leaves' : ℕ → D}
    (h : ∀ i < 2 ^ depth, leaves i = leaves' i) :
    root node depth leaves = root node depth leaves' := by
  induction depth generalizing leaves leaves' with
  | zero => exact h 0 Nat.one_pos
  | succ depth ih =>
    have hpow : 2 ^ (depth + 1) = 2 ^ depth + 2 ^ depth := by ring
    rw [root, root, ih fun i hi => h i (by omega),
      ih fun i hi => h (2 ^ depth + i) (by omega)]

/-- The root over equal leaves that are their own parents. -/
theorem root_const {d : D} (h : node d d = d) (depth : ℕ) : root node depth (fun _ => d) = d := by
  induction depth with
  | zero => rfl
  | succ depth ih => rw [root, ih, h]

/-! ## A tree in the making -/

/-- The leaves before a position, a node there, and zeros. -/
def padded (zero last : D) (count : ℕ) (leaves : ℕ → D) (i : ℕ) : D :=
  if i < count then leaves i else if i = count then last else zero

/-- The first leaves, and zeros. -/
def truncated (zero : D) (count : ℕ) (leaves : ℕ → D) (i : ℕ) : D :=
  if i < count then leaves i else zero

theorem padded_next (zero : D) (count : ℕ) (leaves : ℕ → D) :
    padded zero (leaves count) count leaves = truncated zero (count + 1) leaves := by
  funext i
  unfold padded truncated
  rcases Nat.lt_trichotomy i count with hlt | rfl | hgt
  · rw [if_pos hlt, if_pos (by omega)]
  · rw [if_neg (Nat.lt_irrefl _), if_pos rfl, if_pos (by omega)]
  · rw [if_neg (by omega), if_neg (by omega), if_neg (by omega)]

/-- A node inserted at an even position is paired with a zero. -/
theorem parents_padded_even {zero last : D} {count : ℕ} {leaves : ℕ → D} (h : count % 2 = 0) :
    parents node (padded zero last count leaves) =
      padded (node zero zero) (node last zero) (count / 2) (parents node leaves) := by
  funext i
  unfold parents padded
  have hleft : 2 * i < count ↔ i < count / 2 := by omega
  have hright : 2 * i + 1 < count ↔ i < count / 2 := by omega
  have hat : 2 * i = count ↔ i = count / 2 := by omega
  have hnext : 2 * i + 1 ≠ count := by omega
  simp only [hleft, hright, hat, hnext, if_false]
  split_ifs <;> rfl

/-- A node inserted at an odd position is paired with the leaf before it. -/
theorem parents_padded_odd {zero last : D} {count : ℕ} {leaves : ℕ → D} (h : count % 2 = 1) :
    parents node (padded zero last count leaves) =
      padded (node zero zero) (node (leaves (count - 1)) last) (count / 2)
        (parents node leaves) := by
  funext i
  unfold parents padded
  by_cases hi : i = count / 2
  · have hlt : 2 * i < count := by omega
    have hpos : 2 * i = count - 1 := by omega
    have hat : 2 * i + 1 = count := by omega
    have hnot : ¬ i < count / 2 := by omega
    rw [if_pos hlt, if_neg hat.not_lt, if_pos hat, if_neg hnot, if_pos hi, hpos]
  · have hleft : 2 * i < count ↔ i < count / 2 := by omega
    have hright : 2 * i + 1 < count ↔ i < count / 2 := by omega
    have hnext : 2 * i ≠ count := by omega
    have hat : 2 * i + 1 ≠ count := by omega
    simp only [hleft, hright, hat, hnext, hi, if_false]
    split_ifs <;> rfl

/-! ## Frontiers -/

/-- A frontier holds, at each level whose bit is set in the number of leaves, the last node that
is complete there. -/
def Valid : (ℕ → D) → ℕ → List D → Prop
  | _, _, [] => True
  | leaves, count, left :: frontier =>
    (count % 2 = 1 → left = leaves (count - 1)) ∧ Valid (parents node leaves) (count / 2) frontier

/-- Without leaves every frontier will do. -/
theorem valid_zero (leaves : ℕ → D) (frontier : List D) : Valid node leaves 0 frontier := by
  induction frontier generalizing leaves with
  | nil => exact trivial
  | cons left frontier ih => exact ⟨fun h => absurd h (by decide), ih _⟩

end Sybil.Merkle
