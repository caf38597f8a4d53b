import Sybil.Lib.Machine

/-!
# The order of byte strings

Byte strings are compared byte by byte, as `List` does it.  Mathlib's order of lists is
another instance, so the laws of this one are collected here.
-/

namespace Sybil

instance : LinearOrder Bytes where
  le_refl := List.le_refl
  le_trans _ _ _ := List.le_trans
  le_antisymm _ _ := List.le_antisymm
  le_total := List.le_total
  lt_iff_le_not_ge _ _ := ⟨fun h => ⟨List.le_of_lt h, not_not.mpr h⟩, fun h => not_not.mp h.2⟩
  toDecidableLE := inferInstance
  toOrd := ⟨fun a b => compareOfLessAndEq a b⟩
  compare_eq_compareOfLessAndEq _ _ := rfl

end Sybil
