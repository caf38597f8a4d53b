import Sybil.Lib.Machine

/-!
# Numbers and texts read back from bytes

The inverses of `leBytes`, `beBytes`, `leBytesInt`, `FixedBytes.toBytes` and `utf8`.
Each comes with the two laws a decoder needs: reading what was written gives the
number back, and writing what was read gives the bytes back.
-/

namespace Sybil

variable {n w : ℕ}

/-! ## Unsigned numbers -/

/-- The number with the given bytes, least significant first. -/
def fromLeBytes : Bytes → ℕ
  | [] => 0
  | byte :: bytes => byte.toNat + 256 * fromLeBytes bytes

/-- The number with the given bytes, most significant first. -/
def fromBeBytes (bytes : Bytes) : ℕ := fromLeBytes bytes.reverse

theorem fromLeBytes_lt (bytes : Bytes) : fromLeBytes bytes < 256 ^ bytes.length := by
  induction bytes with
  | nil => simp [fromLeBytes]
  | cons byte bytes ih =>
    have hbyte : byte.toNat < 256 := byte.toNat_lt
    rw [fromLeBytes, List.length_cons, pow_succ]
    omega

theorem fromLeBytes_leBytes (h : n < 256 ^ w) : fromLeBytes (leBytes w n) = n := by
  induction w generalizing n with
  | zero => simpa [leBytes, fromLeBytes, eq_comm] using h
  | succ w ih =>
    have hdiv : n / 256 < 256 ^ w := by
      rw [pow_succ] at h
      omega
    have hlow : (UInt8.ofNat (n % 256)).toNat = n % 256 := by simp
    rw [leBytes, fromLeBytes, ih hdiv, hlow]
    omega

theorem leBytes_fromLeBytes (bytes : Bytes) :
    leBytes bytes.length (fromLeBytes bytes) = bytes := by
  induction bytes with
  | nil => rfl
  | cons byte bytes ih =>
    have hbyte : byte.toNat < 256 := byte.toNat_lt
    have hmod : (byte.toNat + 256 * fromLeBytes bytes) % 256 = byte.toNat := by omega
    have hdiv : (byte.toNat + 256 * fromLeBytes bytes) / 256 = fromLeBytes bytes := by omega
    rw [fromLeBytes, List.length_cons, leBytes, hmod, hdiv, ih, UInt8.ofNat_toNat]

theorem fromBeBytes_lt (bytes : Bytes) : fromBeBytes bytes < 256 ^ bytes.length := by
  simpa [fromBeBytes] using fromLeBytes_lt bytes.reverse

theorem fromBeBytes_beBytes (h : n < 256 ^ w) : fromBeBytes (beBytes w n) = n := by
  rw [fromBeBytes, beBytes, List.reverse_reverse, fromLeBytes_leBytes h]

theorem beBytes_fromBeBytes (bytes : Bytes) :
    beBytes bytes.length (fromBeBytes bytes) = bytes := by
  have h := leBytes_fromLeBytes bytes.reverse
  rw [List.length_reverse] at h
  rw [beBytes, fromBeBytes, h, List.reverse_reverse]

/-! ## Arrays -/

/-- The array with the given bytes; only the last `n` of them count. -/
def FixedBytes.ofBytes (n : ℕ) (bytes : Bytes) : FixedBytes n :=
  ⟨fromBeBytes bytes % 256 ^ n, Nat.mod_lt _ (by positivity)⟩

@[simp] theorem FixedBytes.length_toBytes (b : FixedBytes n) : b.toBytes.length = n :=
  length_beBytes n b.val

@[simp] theorem FixedBytes.ofBytes_toBytes (b : FixedBytes n) :
    FixedBytes.ofBytes n b.toBytes = b := by
  apply Fin.ext
  show fromBeBytes (beBytes n b.val) % 256 ^ n = b.val
  rw [fromBeBytes_beBytes b.isLt, Nat.mod_eq_of_lt b.isLt]

theorem FixedBytes.toBytes_ofBytes {bytes : Bytes} (h : bytes.length = n) :
    (FixedBytes.ofBytes n bytes).toBytes = bytes := by
  subst h
  show beBytes bytes.length (fromBeBytes bytes % 256 ^ bytes.length) = bytes
  rw [Nat.mod_eq_of_lt (fromBeBytes_lt bytes), beBytes_fromBeBytes]

/-! ## Signed numbers -/

/-- The number with the given two's complement of width `w`, least significant byte first. -/
def fromLeBytesInt (w : ℕ) (bytes : Bytes) : ℤ :=
  if 2 * fromLeBytes bytes < 256 ^ w then fromLeBytes bytes
  else fromLeBytes bytes - (256 ^ w : ℕ)

theorem fromLeBytesInt_leBytesInt {x : ℤ} (hlow : -(256 ^ w : ℕ) ≤ 2 * x)
    (hhigh : 2 * x < (256 ^ w : ℕ)) : fromLeBytesInt w (leBytesInt w x) = x := by
  have hpos : (0 : ℤ) < (256 ^ w : ℕ) := by positivity
  have hcast : ((256 : ℤ) ^ w) = ((256 ^ w : ℕ) : ℤ) := by push_cast; rfl
  have hmod : 0 ≤ x % (256 ^ w : ℕ) ∧ x % (256 ^ w : ℕ) < (256 ^ w : ℕ) :=
    ⟨Int.emod_nonneg x hpos.ne', Int.emod_lt_of_pos x hpos⟩
  have hlt : (x % (256 ^ w : ℕ)).toNat < 256 ^ w := by omega
  rw [fromLeBytesInt, leBytesInt, hcast, fromLeBytes_leBytes hlt, Int.toNat_of_nonneg hmod.1]
  by_cases hneg : x < 0
  · -- A negative number is stored as its complement.
    have hx : x % (256 ^ w : ℕ) = x + (256 ^ w : ℕ) := by
      rw [← Int.add_emod_right, Int.emod_eq_of_lt (by omega) (by omega)]
    rw [if_neg (by omega), hx]
    omega
  · have hx : x % (256 ^ w : ℕ) = x := Int.emod_eq_of_lt (by omega) (by omega)
    rw [if_pos (by omega), hx]

/-! ## Texts -/

/-- The text with the given UTF-8 bytes. -/
def fromUtf8 (bytes : Bytes) : Option String := String.fromUTF8? bytes.toByteArray

/-- The loop of `ByteArray.toList` prepends the bytes from an index on. -/
theorem toList_loop_byteArray (bytes : ByteArray) (i : ℕ) (done : Bytes) :
    ByteArray.toList.loop bytes i done = done.reverse ++ bytes.data.toList.drop i := by
  fun_induction ByteArray.toList.loop bytes i done with
  | case1 i done hlt ih =>
    have hi : i < bytes.data.toList.length := by simpa using hlt
    have hget : bytes.get! i = bytes.data.toList[i] := by
      rw [ByteArray.get!, Array.getElem_toList]
      exact getElem!_pos bytes.data i hlt
    rw [ih, List.reverse_cons, hget, List.append_assoc, List.singleton_append,
      List.cons_getElem_drop_succ]
  | case2 i done hge =>
    have hi : bytes.data.toList.length ≤ i := by simpa using hge
    rw [List.drop_eq_nil_of_le hi, List.append_nil]

theorem toByteArray_utf8 (s : String) : (utf8 s).toByteArray = s.toUTF8 := by
  apply ByteArray.ext
  rw [List.data_toByteArray, utf8, ByteArray.toList, toList_loop_byteArray, List.reverse_nil,
    List.nil_append, List.drop_zero, Array.toArray_toList]

@[simp] theorem fromUtf8_utf8 (s : String) : fromUtf8 (utf8 s) = some s := by
  rw [fromUtf8, toByteArray_utf8, String.fromUTF8?, String.toUTF8_eq_toByteArray,
    dif_pos s.isValidUTF8]
  rfl

theorem utf8_injective : Function.Injective utf8 := by
  intro s t h
  have hst : some s = some t := by rw [← fromUtf8_utf8 s, h, fromUtf8_utf8]
  exact Option.some.inj hst

end Sybil
