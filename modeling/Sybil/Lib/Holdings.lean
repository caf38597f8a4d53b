import Mathlib
import Sybil.Lib.OrdMap

/-!
# Holdings and their value

A holding is a finite map from assets to signed amounts, and a price list values it
linearly.  Changing one amount changes the value by price times change
(`value_insert`), so a ledger argument never has to look at the other entries.

The second half is about assets that come in pairs `(m, 0)` and `(m, 1)`, the two
outcomes of a market: the value of a holding regroups into one term per market
(`value_eq_sum_markets`).
-/

namespace Sybil.OrdMap

variable {K ι : Type*} [LinearOrder K] {h : OrdMap K ℤ} {k k' : K} {q : ℤ}

variable {V : Type*}

/-- The amount held of an asset. -/
def amount (h : OrdMap K ℤ) (k : K) : ℤ := (h.get? k).getD 0

/-- The value of a holding at a price list. -/
def value (h : OrdMap K ℤ) (price : K → ℤ) : ℤ := h.sumBy fun k q => price k * q

@[simp] theorem amount_empty : (∅ : OrdMap K ℤ).amount k = 0 := rfl

@[simp] theorem value_empty (price : K → ℤ) : (∅ : OrdMap K ℤ).value price = 0 := rfl

theorem amount_insert : (h.insert k q).amount k' = if k' = k then q else h.amount k' := by
  rw [amount, get?_insert]
  split_ifs <;> rfl

/-- Changing one amount changes the value by price times change. -/
theorem value_insert (price : K → ℤ) :
    (h.insert k q).value price = h.value price + price k * (q - h.amount k) := by
  have hterm : h.term (fun k q => price k * q) k = price k * h.amount k := by
    rw [term, amount]
    cases h.get? k <;> simp
  rw [value, sumBy_insert, hterm, value]
  ring

/-- Price lists that agree on the assets held value a holding equally. -/
theorem value_congr {p p' : K → ℤ} (hp : ∀ k, h.amount k ≠ 0 → p k = p' k) :
    h.value p = h.value p' := by
  refine sumBy_congr fun k q hq => ?_
  by_cases hzero : q = 0
  · simp [hzero]
  · rw [hp k (by simpa [amount, hq] using hzero)]

theorem sumBy_le_sumBy {m : OrdMap K V} {f g : K → V → ℤ}
    (hle : ∀ k v, m.get? k = some v → f k v ≤ g k v) : m.sumBy f ≤ m.sumBy g :=
  List.sum_le_sum fun e he => hle e.1 e.2 (mem_entries_iff.mp he)

/-- Prices between zero and `b` bound the value from below. -/
theorem neg_sumBy_le_value {p : K → ℤ} {b : ℤ} (hp : ∀ k, 0 ≤ p k ∧ p k ≤ b) :
    -(h.sumBy fun _ q => b * |q|) ≤ h.value p := by
  have hterms : ∀ e ∈ h.entries, -(p e.1 * e.2) ≤ b * |e.2| := by
    intro e _
    obtain ⟨hlow, hhigh⟩ := hp e.1
    calc -(p e.1 * e.2) ≤ |p e.1 * e.2| := neg_le_abs _
      _ = p e.1 * |e.2| := by rw [abs_mul, abs_of_nonneg hlow]
      _ ≤ b * |e.2| := mul_le_mul_of_nonneg_right hhigh (abs_nonneg _)
  have hsum := List.sum_le_sum hterms
  have hneg : (h.entries.map fun e => -(p e.1 * e.2)).sum = -h.value p := by
    rw [value, sumBy, List.sum_neg, List.map_map]
    rfl
  rw [hneg] at hsum
  exact neg_le.mp hsum

/-- A sum over a map is a sum over any finite set of keys that has the bound ones; an unbound
key contributes nothing. -/
theorem sumBy_eq_sum_of_subset {m : OrdMap K V} {S : Finset K} (hS : ∀ k ∈ m.keys, k ∈ S)
    (f : K → V → ℤ) : m.sumBy f = ∑ k ∈ S, m.term f k := by
  rw [sumBy_eq_sum_keys, ← List.sum_toFinset _ m.nodup_keys]
  refine Finset.sum_subset (fun k hk => hS k (List.mem_toFinset.mp hk)) fun k _ hk => ?_
  have hnone : m.get? k = none := by
    rw [List.mem_toFinset, mem_keys_iff, not_exists] at hk
    exact Option.eq_none_iff_forall_ne_some.mpr hk
  simp [term, hnone]

theorem value_eq_of_amount {h' : OrdMap K ℤ} (ha : ∀ k, h.amount k = h'.amount k) (p : K → ℤ) :
    h.value p = h'.value p := by
  classical
  -- Both values are sums over the assets that either holding mentions.
  have hterm : ∀ (g : OrdMap K ℤ) k, g.term (fun k q => p k * q) k = p k * g.amount k := by
    intro g k
    rw [term, amount]
    cases g.get? k <;> simp
  have hsubset : ∀ k, k ∈ h.keys ∨ k ∈ h'.keys → k ∈ (h.keys ++ h'.keys).toFinset := by
    intro k hk
    rwa [List.mem_toFinset, List.mem_append]
  rw [value, value, sumBy_eq_sum_of_subset fun k hk => hsubset k (.inl hk),
    sumBy_eq_sum_of_subset fun k hk => hsubset k (.inr hk)]
  exact Finset.sum_congr rfl fun k _ => by rw [hterm, hterm, ha k]

/-! ## Adding a list of changes -/

/-- Add each change to the amount of its asset. -/
def addAll (h : OrdMap K ℤ) (changes : List (K × ℤ)) : OrdMap K ℤ :=
  changes.foldl (fun h c => h.insert c.1 (h.amount c.1 + c.2)) h

@[simp] theorem addAll_nil : h.addAll [] = h := rfl

theorem addAll_cons {c : K × ℤ} {changes : List (K × ℤ)} :
    h.addAll (c :: changes) = (h.insert c.1 (h.amount c.1 + c.2)).addAll changes := rfl

/-- The value changes by price times change, added up. -/
theorem value_addAll (p : K → ℤ) (changes : List (K × ℤ)) :
    (h.addAll changes).value p = h.value p + (changes.map fun c => p c.1 * c.2).sum := by
  induction changes generalizing h with
  | nil => simp
  | cons c changes ih =>
    rw [addAll_cons, ih, value_insert, List.map_cons, List.sum_cons]
    ring

theorem value_add (p p' : K → ℤ) :
    (h.value fun k => p k + p' k) = h.value p + h.value p' := by
  simp only [value, add_mul]
  exact sumBy_add _ _

theorem value_const_mul (c : ℤ) (p : K → ℤ) : (h.value fun k => c * p k) = c * h.value p := by
  simp only [value, mul_assoc]
  exact sumBy_mul_left _ _

/-- A sum over a finite set of terms, taken entry by entry. -/
theorem sumBy_sum {m : OrdMap K V} (S : Finset ι) (f : ι → K → V → ℤ) :
    (m.sumBy fun k v => ∑ i ∈ S, f i k v) = ∑ i ∈ S, m.sumBy (f i) := by
  classical
  induction S using Finset.induction_on with
  | empty =>
    simp only [Finset.sum_empty]
    exact List.sum_eq_zero (by simp)
  | insert i S hi ih => simp only [Finset.sum_insert hi, sumBy_add, ih]

theorem value_sum (S : Finset ι) (p : ι → K → ℤ) :
    (h.value fun k => ∑ i ∈ S, p i k) = ∑ i ∈ S, h.value (p i) := by
  simp only [value, Finset.sum_mul]
  exact sumBy_sum S _

/-- Valuing one unit of a single asset reads off its amount. -/
theorem value_indicator (k : K) : (h.value fun k' => if k' = k then 1 else 0) = h.amount k := by
  simp only [value, ite_mul, one_mul, zero_mul]
  rw [sumBy_ite_key (fun q => q), amount]
  cases h.get? k <;> rfl

/-! ## Assets in pairs -/

variable {M : Type*} [LinearOrder M]

/-- **Regrouping by market.**  A price list that gives nothing for what is held beyond the two
outcomes values a holding market by market. -/
theorem value_eq_sum_markets {h : OrdMap (M ×ₗ ℕ) ℤ} {price : M ×ₗ ℕ → ℤ} {S : Finset M}
    (hprice : ∀ m o, 2 ≤ o → h.amount (toLex (m, o)) ≠ 0 → price (toLex (m, o)) = 0)
    (hS : ∀ m o, h.amount (toLex (m, o)) ≠ 0 → m ∈ S) :
    h.value price = ∑ m ∈ S, (price (toLex (m, 0)) * h.amount (toLex (m, 0)) +
      price (toLex (m, 1)) * h.amount (toLex (m, 1))) := by
  have hsplit : h.value price = h.value fun k => ∑ m ∈ S,
      (price (toLex (m, 0)) * (if k = toLex (m, 0) then 1 else 0) +
        price (toLex (m, 1)) * (if k = toLex (m, 1) then 1 else 0)) := by
    refine value_congr fun k hk => ?_
    obtain ⟨⟨m, o⟩, rfl⟩ := toLex.surjective k
    have hm := hS m o hk
    match o with
    | 0 => simp [hm]
    | 1 => simp [hm]
    | o + 2 => simp [hprice m (o + 2) (by omega) hk]
  rw [hsplit, value_sum]
  refine Finset.sum_congr rfl fun m _ => ?_
  rw [value_add, value_const_mul, value_const_mul, value_indicator, value_indicator]

end Sybil.OrdMap
