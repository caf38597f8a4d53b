import Mathlib
import Sybil.Verifier.Full

/-!
# Chains of blocks

A block continues another one when it names its header and starts from the state that
the header commits.  The state root commits to leaves, and a leaf of an account lists
its positions in order and without zeros (`committedAccount`), so the two witnesses
need not list the same accounts in the same order: they agree *as sets of leaves*.

The header pass checks this agreement through the roots.  What it means is asked of
the witnesses themselves here, so that no statement about chains depends on a property
of the hash.
-/

namespace Sybil.Verifier

open Engine

/-! ## What a leaf carries -/

/-- The entries of the positions that a leaf lists. -/
def committedPositions (positions : List PositionEntry) : List PositionEntry :=
  (sortByKey (fun entry => toLex (entry.1, entry.2.1)) positions).filter
    fun entry => entry.2.2 ≠ 0

/-- What the leaf of an account carries. -/
def committedAccount (account : AccountSnapshot) : AccountSnapshot :=
  { account with positions := committedPositions account.positions }

/-! ## Continuing a block -/

/-- `w'` continues `w`: it names its header and starts from what `w` committed. -/
structure Continues (w w' : BlockWitness) : Prop where
  header : w'.previousHeader = some w.header
  genesis : w'.genesisHash = w.genesisHash
  accounts : (w'.preState.map committedAccount).Perm (w.postState.map committedAccount)
  markets : w'.preStateSidecar.markets.Perm w.stateSidecar.markets

/-- `w'` continues `w` and is accepted. -/
def Extends (P : Primitives) (w w' : BlockWitness) : Prop := Continues w w' ∧ verifyFull P w' = []

/-- Lists that agree up to order have the same members under each key. -/
theorem get?_ofList_of_perm {α K : Type} [LinearOrder K] {key : α → K} {f : α → α}
    {l l' : List α} (hkey : ∀ a, key (f a) = key a) (hl : (l.map key).Nodup)
    (hl' : (l'.map key).Nodup) (hperm : (l.map f).Perm (l'.map f)) (k : K) :
    ((OrdMap.ofList (l.map fun a => (key a, a))).get? k).map f =
      ((OrdMap.ofList (l'.map fun a => (key a, a))).get? k).map f := by
  have hget : ∀ {l : List α}, (l.map key).Nodup → ∀ b,
      ((OrdMap.ofList (l.map fun a => (key a, a))).get? k).map f = some b ↔
        b ∈ l.map f ∧ key b = k := by
    intro l hl b
    simp only [Option.map_eq_some_iff, get?_ofList_key hl, List.mem_map]
    constructor
    · rintro ⟨a, ⟨ha, hk⟩, rfl⟩
      exact ⟨⟨a, ha, rfl⟩, (hkey a).trans hk⟩
    · rintro ⟨⟨a, ha, rfl⟩, hk⟩
      exact ⟨a, ⟨ha, (hkey a).symm.trans hk⟩, rfl⟩
  ext b
  rw [hget hl, hget hl', hperm.mem_iff]

end Sybil.Verifier
