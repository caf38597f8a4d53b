import Mathlib

/-!
# Fixed-width integers and byte strings

Machine integers are `ℕ` and `ℤ`; what the width does is written at the operation.
`checkedU64` and `checkedI64` are the overflow test that every checked operation
ends with, and their `_eq_some_iff` lemmas are the only facts about them that a
proof needs.

A byte array `[u8; n]` is a number below `256 ^ n`, read big-endian, so that the
order of the numbers is the lexicographic order of the arrays.
-/

namespace Sybil

variable {n w : ℕ} {x : ℤ}

/-! ## Widths -/

/-- An unsigned 64-bit result, or overflow. -/
def checkedU64 (n : ℕ) : Option ℕ := if n < 2 ^ 64 then some n else none

/-- A signed 64-bit result, or overflow. -/
def checkedI64 (x : ℤ) : Option ℤ := if -2 ^ 63 ≤ x ∧ x < 2 ^ 63 then some x else none

/-- Unsigned subtraction, or underflow. -/
def checkedSubU64 (a b : ℕ) : Option ℕ := if b ≤ a then some (a - b) else none

/-- Conversion of an unsigned word to a signed one. -/
def i64OfU64 (n : ℕ) : Option ℤ := if n < 2 ^ 63 then some (n : ℤ) else none

/-- Conversion of a signed word to an unsigned one. -/
def u64OfI64 (x : ℤ) : Option ℕ := if 0 ≤ x then some x.toNat else none

@[simp] theorem checkedU64_eq_some_iff {m : ℕ} : checkedU64 n = some m ↔ n < 2 ^ 64 ∧ n = m := by
  rw [checkedU64, Option.ite_none_right_eq_some, Option.some.injEq]

@[simp] theorem checkedI64_eq_some_iff {y : ℤ} :
    checkedI64 x = some y ↔ (-2 ^ 63 ≤ x ∧ x < 2 ^ 63) ∧ x = y := by
  rw [checkedI64, Option.ite_none_right_eq_some, Option.some.injEq]

@[simp] theorem checkedSubU64_eq_some_iff {a b c : ℕ} :
    checkedSubU64 a b = some c ↔ b ≤ a ∧ a - b = c := by
  rw [checkedSubU64, Option.ite_none_right_eq_some, Option.some.injEq]

@[simp] theorem i64OfU64_eq_some_iff : i64OfU64 n = some x ↔ n < 2 ^ 63 ∧ (n : ℤ) = x := by
  rw [i64OfU64, Option.ite_none_right_eq_some, Option.some.injEq]

@[simp] theorem u64OfI64_eq_some_iff : u64OfI64 x = some n ↔ 0 ≤ x ∧ x.toNat = n := by
  rw [u64OfI64, Option.ite_none_right_eq_some, Option.some.injEq]

/-! ## Byte strings -/

/-- A byte string. -/
abbrev Bytes := List UInt8

/-- The array type `[u8; n]`. -/
abbrev FixedBytes (n : ℕ) := Fin (256 ^ n)

-- Numerals of the widths in use: by name, so that every module spells a zero digest alike.
instance FixedBytes.neZero20 : NeZero (256 ^ 20) := inferInstance

instance FixedBytes.neZero32 : NeZero (256 ^ 32) := inferInstance

instance FixedBytes.neZero33 : NeZero (256 ^ 33) := inferInstance

instance FixedBytes.neZero64 : NeZero (256 ^ 64) := inferInstance

/-- The lowest `w` bytes of a number, least significant first. -/
def leBytes : ℕ → ℕ → Bytes
  | 0, _ => []
  | w + 1, n => UInt8.ofNat (n % 256) :: leBytes w (n / 256)

/-- The lowest `w` bytes of a number, most significant first. -/
def beBytes (w n : ℕ) : Bytes := (leBytes w n).reverse

/-- The two's complement of a signed number, least significant byte first. -/
def leBytesInt (w : ℕ) (x : ℤ) : Bytes := leBytes w (x % (256 ^ w : ℤ)).toNat

/-- The bytes of an array, in index order. -/
def FixedBytes.toBytes {n : ℕ} (b : FixedBytes n) : Bytes := beBytes n b.val

/-- The bytes of a text. -/
def utf8 (s : String) : Bytes := s.toUTF8.toList

@[simp] theorem length_leBytes (w n : ℕ) : (leBytes w n).length = w := by
  induction w generalizing n with
  | zero => rfl
  | succ w ih => simp [leBytes, ih]

@[simp] theorem length_beBytes (w n : ℕ) : (beBytes w n).length = w := by
  simp [beBytes]

/-- `w` bytes determine a number below `256 ^ w`. -/
theorem leBytes_inj {m : ℕ} (hn : n < 256 ^ w) (hm : m < 256 ^ w) (h : leBytes w n = leBytes w m) :
    n = m := by
  induction w generalizing n m with
  | zero => omega
  | succ w ih =>
    simp only [leBytes, List.cons.injEq] at h
    obtain ⟨hlow, hhigh⟩ := h
    have hdiv : n / 256 = m / 256 :=
      ih (Nat.div_lt_of_lt_mul (by rw [pow_succ] at hn; omega))
        (Nat.div_lt_of_lt_mul (by rw [pow_succ] at hm; omega)) hhigh
    have hmod : n % 256 = m % 256 := by
      have := congrArg UInt8.toNat hlow
      simpa using this
    omega

theorem beBytes_inj {m : ℕ} (hn : n < 256 ^ w) (hm : m < 256 ^ w) (h : beBytes w n = beBytes w m) :
    n = m :=
  leBytes_inj hn hm (List.reverse_injective h)

/-- The bytes above a small number are zero. -/
theorem leBytes_add (hn : n < 256 ^ w) (k : ℕ) :
    leBytes (w + k) n = leBytes w n ++ List.replicate k 0 := by
  induction w generalizing n with
  | zero =>
    obtain rfl : n = 0 := by simpa using hn
    rw [Nat.zero_add, leBytes, List.nil_append]
    induction k with
    | zero => rfl
    | succ k ih => exact congrArg (List.cons 0) ih
  | succ w ih =>
    have hdiv : n / 256 < 256 ^ w := by
      rw [Nat.pow_succ] at hn
      omega
    rw [Nat.succ_add, leBytes, leBytes, ih hdiv, List.cons_append]

theorem beBytes_add (hn : n < 256 ^ w) (k : ℕ) :
    beBytes (w + k) n = List.replicate k 0 ++ beBytes w n := by
  rw [beBytes, leBytes_add hn, List.reverse_append, List.reverse_replicate, beBytes]

/-- Records of one width determine the list that they are written from. -/
theorem flatMap_inj_of_length {α β : Type*} {f : α → List β} {width : ℕ} (hwidth : 0 < width)
    (hlength : ∀ a, (f a).length = width) {l l' : List α}
    (hinj : ∀ a ∈ l, ∀ a' ∈ l', f a = f a' → a = a') (h : l.flatMap f = l'.flatMap f) : l = l' := by
  have hne : ∀ a (l : List α), f a ++ l.flatMap f ≠ [] := fun a l hnil => by
    have := congrArg List.length hnil
    simp only [List.length_append, hlength, List.length_nil] at this
    omega
  induction l generalizing l' with
  | nil =>
    cases l' with
    | nil => rfl
    | cons a' l' => exact absurd h.symm (hne a' l')
  | cons a l ih =>
    cases l' with
    | nil => exact absurd h (hne a l)
    | cons a' l' =>
      rw [List.flatMap_cons, List.flatMap_cons] at h
      obtain ⟨hhead, htail⟩ := List.append_inj h ((hlength a).trans (hlength a').symm)
      obtain rfl := hinj a List.mem_cons_self a' List.mem_cons_self hhead
      rw [ih (fun b hb b' hb' => hinj b (List.mem_cons_of_mem _ hb) b'
        (List.mem_cons_of_mem _ hb')) htail]

end Sybil
