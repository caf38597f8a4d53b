import Mathlib

/-!
# Ordered finite maps

A finite map is kept as the list of its entries in strictly increasing key order,
together with the proof that the order holds.  Two maps with the same lookups are
then equal, so a map can be compared, iterated in key order and summed over, and
no quotient is needed.

The lemmas are of three kinds.  Lookups after an update (`get?_insert`,
`get?_erase`, `get?_filterKeys`) describe a map by its `get?`.  `mem_entries_iff`
and `ext_get?` pass between lookups and entries.  Sums over the entries
(`sumBy_insert`, `sumBy_erase`) change by the one entry that an update replaces,
which is all that a conservation argument needs.
-/

namespace Sybil

/-- A finite map from `K` to `V`: its entries in strictly increasing key order. -/
structure OrdMap (K V : Type*) [LinearOrder K] where
  /-- The entries, in key order. -/
  entries : List (K × V)
  /-- Keys strictly increase along the list. -/
  sorted : entries.Pairwise fun a b => a.1 < b.1

namespace OrdMap

variable {K V W : Type*} [LinearOrder K]

/-! ## Entry lists -/

/-- First value stored under `k`. -/
def lookup (k : K) : List (K × V) → Option V
  | [] => none
  | e :: l => if k = e.1 then some e.2 else lookup k l

/-- Insert into a list sorted by key, replacing the value of an equal key. -/
def insertEntry (k : K) (v : V) : List (K × V) → List (K × V)
  | [] => [(k, v)]
  | e :: l =>
    if k < e.1 then (k, v) :: e :: l
    else if k = e.1 then (k, v) :: l
    else e :: insertEntry k v l

theorem mem_insertEntry {k : K} {v : V} {l : List (K × V)} {e : K × V}
    (h : e ∈ insertEntry k v l) : e = (k, v) ∨ e ∈ l := by
  induction l with
  | nil => simpa [insertEntry] using h
  | cons a l ih =>
    simp only [insertEntry] at h
    split_ifs at h with h₁ h₂
    · simpa using h
    · rcases List.mem_cons.mp h with h | h
      · exact Or.inl h
      · exact Or.inr (List.mem_cons_of_mem _ h)
    · rcases List.mem_cons.mp h with h | h
      · exact Or.inr (h ▸ List.mem_cons_self)
      · exact (ih h).imp id (List.mem_cons_of_mem _)

theorem sorted_insertEntry {k : K} {v : V} {l : List (K × V)}
    (h : l.Pairwise fun a b => a.1 < b.1) :
    (insertEntry k v l).Pairwise fun a b => a.1 < b.1 := by
  induction l with
  | nil => simp [insertEntry]
  | cons a l ih =>
    obtain ⟨ha, hl⟩ := List.pairwise_cons.mp h
    simp only [insertEntry]
    split_ifs with h₁ h₂
    · refine List.pairwise_cons.mpr ⟨fun b hb => ?_, h⟩
      rcases List.mem_cons.mp hb with rfl | hb
      · exact h₁
      · exact h₁.trans (ha b hb)
    · exact List.pairwise_cons.mpr ⟨fun b hb => h₂ ▸ ha b hb, hl⟩
    · refine List.pairwise_cons.mpr ⟨fun b hb => ?_, ih hl⟩
      rcases mem_insertEntry hb with rfl | hb
      · exact lt_of_le_of_ne (not_lt.mp h₁) (Ne.symm h₂)
      · exact ha b hb

theorem lookup_insertEntry (k k' : K) (v : V) (l : List (K × V)) :
    lookup k' (insertEntry k v l) = if k' = k then some v else lookup k' l := by
  induction l with
  | nil => simp [insertEntry, lookup]
  | cons a l ih =>
    simp only [insertEntry]
    by_cases hk : k' = k
    · subst hk
      rw [if_pos rfl] at ih ⊢
      split_ifs with h₁ h₂
      · simp [lookup]
      · simp [lookup]
      · simp [lookup, h₂, ih]
    · rw [if_neg hk] at ih ⊢
      split_ifs with h₁ h₂
      · simp [lookup, hk]
      · simp [lookup, hk, h₂ ▸ hk]
      · simp [lookup, ih]

theorem lookup_eq_none_of_forall_ne {k : K} {l : List (K × V)}
    (h : ∀ e ∈ l, k ≠ e.1) : lookup k l = none := by
  induction l with
  | nil => rfl
  | cons a l ih =>
    rw [lookup, if_neg (h a List.mem_cons_self)]
    exact ih fun e he => h e (List.mem_cons_of_mem _ he)

theorem mem_of_lookup {k : K} {v : V} {l : List (K × V)} (h : lookup k l = some v) :
    (k, v) ∈ l := by
  induction l with
  | nil => simp [lookup] at h
  | cons a l ih =>
    rw [lookup] at h
    split_ifs at h with hk
    · obtain rfl := Option.some.inj h
      exact hk ▸ List.mem_cons_self
    · exact List.mem_cons_of_mem _ (ih h)

theorem lookup_of_mem {k : K} {v : V} {l : List (K × V)}
    (hs : l.Pairwise fun a b => a.1 < b.1) (h : (k, v) ∈ l) : lookup k l = some v := by
  induction l with
  | nil => simp at h
  | cons a l ih =>
    obtain ⟨ha, hl⟩ := List.pairwise_cons.mp hs
    rcases List.mem_cons.mp h with rfl | h
    · simp [lookup]
    · rw [lookup, if_neg (ha _ h).ne']
      exact ih hl h

theorem lookup_filter (p : K → Bool) (k : K) (l : List (K × V)) :
    lookup k (l.filter fun e => p e.1) = if p k then lookup k l else none := by
  induction l with
  | nil => simp [lookup]
  | cons a l ih =>
    by_cases hp : p a.1
    · rw [List.filter_cons_of_pos (by simpa using hp), lookup, lookup, ih]
      by_cases hk : k = a.1
      · simp [hk, hp]
      · simp [hk]
    · rw [List.filter_cons_of_neg (by simpa using hp), ih, lookup]
      by_cases hk : k = a.1
      · simp [hk, hp]
      · simp [hk]

/-! ## Maps -/

/-- The empty map. -/
def empty : OrdMap K V := ⟨[], List.Pairwise.nil⟩

instance : EmptyCollection (OrdMap K V) := ⟨empty⟩

instance : Inhabited (OrdMap K V) := ⟨empty⟩

instance [DecidableEq V] : DecidableEq (OrdMap K V) := fun m m' =>
  decidable_of_iff (m.entries = m'.entries) (by cases m; cases m'; simp)

instance [Repr K] [Repr V] : Repr (OrdMap K V) := ⟨fun m n => reprPrec m.entries n⟩

/-- The value stored under a key. -/
def get? (m : OrdMap K V) (k : K) : Option V := lookup k m.entries

/-- Is the key bound? -/
def contains (m : OrdMap K V) (k : K) : Bool := (m.get? k).isSome

/-- Bind a key, replacing an earlier binding. -/
def insert (m : OrdMap K V) (k : K) (v : V) : OrdMap K V :=
  ⟨insertEntry k v m.entries, sorted_insertEntry m.sorted⟩

/-- Keep the bindings whose key passes the test. -/
def filterKeys (m : OrdMap K V) (p : K → Bool) : OrdMap K V :=
  ⟨m.entries.filter fun e => p e.1, m.sorted.filter _⟩

/-- Unbind a key. -/
def erase (m : OrdMap K V) (k : K) : OrdMap K V := m.filterKeys fun k' => k' != k

/-- Unbind every key of a list. -/
def eraseAll (m : OrdMap K V) (ks : List K) : OrdMap K V :=
  m.filterKeys fun k => !ks.contains k

/-- The keys, in order. -/
def keys (m : OrdMap K V) : List K := m.entries.map Prod.fst

/-- The values, in key order. -/
def values (m : OrdMap K V) : List V := m.entries.map Prod.snd

/-- Rewrite every value. -/
def mapValues (m : OrdMap K V) (f : K → V → W) : OrdMap K W :=
  ⟨m.entries.map fun e => (e.1, f e.1 e.2), List.pairwise_map.mpr m.sorted⟩

/-- Insert the entries of a list one after the other; the last binding of a key stays. -/
def ofList (l : List (K × V)) : OrdMap K V :=
  l.foldl (fun m e => m.insert e.1 e.2) empty

/-- Number of bindings. -/
def size (m : OrdMap K V) : ℕ := m.entries.length

variable {m m' : OrdMap K V} {k k' : K} {v v' : V}

@[simp] theorem get?_empty : (∅ : OrdMap K V).get? k = none := rfl

theorem get?_insert : (m.insert k v).get? k' = if k' = k then some v else m.get? k' :=
  lookup_insertEntry k k' v m.entries

@[simp] theorem get?_insert_self : (m.insert k v).get? k = some v := by
  simp [get?_insert]

theorem get?_insert_of_ne (h : k' ≠ k) : (m.insert k v).get? k' = m.get? k' := by
  simp [get?_insert, h]

theorem get?_filterKeys (p : K → Bool) :
    (m.filterKeys p).get? k = if p k then m.get? k else none :=
  lookup_filter p k m.entries

theorem get?_erase : (m.erase k).get? k' = if k' = k then none else m.get? k' := by
  rw [erase, get?_filterKeys]
  by_cases h : k' = k <;> simp [h]

theorem get?_eraseAll (ks : List K) :
    (m.eraseAll ks).get? k = if k ∈ ks then none else m.get? k := by
  rw [eraseAll, get?_filterKeys]
  by_cases h : k ∈ ks <;> simp [h]

theorem mem_entries_iff : (k, v) ∈ m.entries ↔ m.get? k = some v :=
  ⟨lookup_of_mem m.sorted, mem_of_lookup⟩

theorem contains_iff : m.contains k = true ↔ ∃ v, m.get? k = some v :=
  Option.isSome_iff_exists

theorem contains_eq_false_iff : m.contains k = false ↔ m.get? k = none := by
  simp [contains]

theorem mem_keys_iff : k ∈ m.keys ↔ ∃ v, m.get? k = some v := by
  simp only [keys, List.mem_map, Prod.exists, exists_eq_right, exists_and_right, mem_entries_iff]

theorem contains_iff_mem_keys : m.contains k = true ↔ k ∈ m.keys := by
  rw [contains_iff, mem_keys_iff]

theorem contains_insert : (m.insert k v).contains k' = true ↔ k' = k ∨ m.contains k' = true := by
  rw [contains, get?_insert]
  split_ifs with h <;> simp [h, contains]

theorem contains_erase : (m.erase k).contains k' = true ↔ k' ≠ k ∧ m.contains k' = true := by
  rw [contains, get?_erase]
  split_ifs with h <;> simp [h, contains]

theorem mem_values_iff : v ∈ m.values ↔ ∃ k, m.get? k = some v := by
  simp only [values, List.mem_map, Prod.exists, exists_eq_right, mem_entries_iff]

theorem pairwise_keys (m : OrdMap K V) : m.keys.Pairwise (· < ·) := List.pairwise_map.mpr m.sorted

theorem nodup_keys (m : OrdMap K V) : m.keys.Nodup := m.pairwise_keys.imp fun h => h.ne

/-- A sorted list of entries is determined by its members. -/
theorem ext_get? (h : ∀ k, m.get? k = m'.get? k) : m = m' := by
  have hmem : ∀ e, e ∈ m.entries ↔ e ∈ m'.entries := fun e => by
    rw [← Prod.mk.eta (p := e), mem_entries_iff, mem_entries_iff, h]
  have hnd : ∀ n : OrdMap K V, n.entries.Nodup := fun n =>
    n.sorted.imp fun hlt heq => hlt.ne (congrArg Prod.fst heq)
  have hperm : m.entries.Perm m'.entries :=
    (List.perm_ext_iff_of_nodup (hnd m) (hnd m')).mpr hmem
  have heq : m.entries = m'.entries :=
    hperm.eq_of_pairwise (fun a b _ _ hab hba => absurd hab hba.asymm) m.sorted m'.sorted
  cases m
  cases m'
  simpa using heq

theorem insert_of_get? (h : m.get? k = some v) : m.insert k v = m := by
  refine ext_get? fun k' => ?_
  rw [get?_insert]
  split_ifs with hk
  · rw [hk, h]
  · rfl

theorem get?_mapValues (f : K → V → W) :
    (m.mapValues f).get? k = (m.get? k).map (f k) := by
  change lookup k (m.entries.map _) = (lookup k m.entries).map (f k)
  induction m.entries with
  | nil => rfl
  | cons a l ih =>
    by_cases hk : k = a.1
    · simp [lookup, hk]
    · simp [lookup, hk, ih]

theorem length_keys (m : OrdMap K V) : m.keys.length = m.size := List.length_map _

theorem size_insert_le : (m.insert k v).size ≤ m.size + 1 := by
  have hsub : (m.insert k v).keys ⊆ k :: m.keys := fun k' hk' => by
    rw [← contains_iff_mem_keys, contains_insert] at hk'
    rw [List.mem_cons, ← contains_iff_mem_keys]
    exact hk'
  have hle := (List.subperm_of_subset (nodup_keys _) hsub).length_le
  rwa [List.length_cons, length_keys, length_keys] at hle

theorem size_erase_le : (m.erase k).size ≤ m.size := List.length_filter_le _ _

/-- A map with two keys has one that differs from a given one. -/
theorem exists_contains_ne (h : 1 < m.size) (k : K) : ∃ k', k' ≠ k ∧ m.contains k' = true := by
  by_contra hnone
  push Not at hnone
  have hsub : m.keys ⊆ [k] := fun k' hk' => by
    by_contra hne
    rw [List.mem_singleton] at hne
    exact hnone k' hne (contains_iff_mem_keys.mpr hk')
  have hle := (List.subperm_of_subset m.nodup_keys hsub).length_le
  rw [length_keys, List.length_singleton] at hle
  omega

/-! ## Maps from lists -/

theorem ofList_append_singleton (l : List (K × V)) (e : K × V) :
    ofList (l ++ [e]) = (ofList l).insert e.1 e.2 := by
  simp [ofList, List.foldl_append]

@[simp] theorem ofList_nil : ofList ([] : List (K × V)) = ∅ := rfl

/-- Mapping the listed values maps the values that are found. -/
theorem get?_ofList_map {α : Type*} (key : α → K) (f : α → V) (g : V → W) (l : List α) :
    (ofList (l.map fun a => (key a, g (f a)))).get? k =
      ((ofList (l.map fun a => (key a, f a))).get? k).map g := by
  induction l using List.reverseRecOn with
  | nil => rfl
  | append_singleton l a ih =>
    simp only [List.map_append, List.map_cons, List.map_nil, ofList_append_singleton, get?_insert]
    split_ifs
    · rfl
    · exact ih

/-- A binding of `ofList l` is one of the listed ones. -/
theorem mem_of_get?_ofList {l : List (K × V)} (h : (ofList l).get? k = some v) :
    (k, v) ∈ l := by
  induction l using List.reverseRecOn with
  | nil => simp at h
  | append_singleton l e ih =>
    rw [ofList_append_singleton, get?_insert] at h
    split_ifs at h with hk
    · obtain rfl := Option.some.inj h
      simp [hk]
    · exact List.mem_append_left _ (ih h)

theorem contains_ofList {l : List (K × V)} :
    (∃ v, (ofList l).get? k = some v) ↔ ∃ v, (k, v) ∈ l := by
  constructor
  · exact fun ⟨v, h⟩ => ⟨v, mem_of_get?_ofList h⟩
  · rintro ⟨v, h⟩
    induction l using List.reverseRecOn with
    | nil => simp at h
    | append_singleton l e ih =>
      rw [ofList_append_singleton]
      by_cases hk : k = e.1
      · exact ⟨e.2, by simp [hk]⟩
      · rw [get?_insert_of_ne hk]
        refine ih ((List.mem_append.mp h).resolve_right fun he => hk ?_)
        rw [← List.mem_singleton.mp he]

/-- With distinct keys the map holds exactly the listed bindings. -/
theorem get?_ofList_iff {l : List (K × V)} (hl : (l.map Prod.fst).Nodup) :
    (ofList l).get? k = some v ↔ (k, v) ∈ l := by
  refine ⟨mem_of_get?_ofList, fun h => ?_⟩
  obtain ⟨v', hv'⟩ := contains_ofList.mpr ⟨v, h⟩
  have := List.inj_on_of_nodup_map hl h (mem_of_get?_ofList hv') rfl
  rw [hv', (Prod.mk.inj this).2]

theorem ofList_entries (m : OrdMap K V) : ofList m.entries = m := by
  refine ext_get? fun k => Option.ext fun v => ?_
  rw [get?_ofList_iff m.nodup_keys, mem_entries_iff]

/-- Searching the entries that pass a test is a lookup. -/
theorem find?_entries_filter (p : V → Bool) :
    ((m.entries.filter fun e => p e.2).find? fun e => decide (e.1 = k)).map Prod.snd =
      (m.get? k).filter p := by
  refine Option.ext fun v => ?_
  rw [Option.map_eq_some_iff, Option.filter_eq_some_iff]
  have hfound : ∀ e, (m.entries.filter fun e => p e.2).find? (fun e => decide (e.1 = k)) = some e →
      m.get? k = some e.2 ∧ p e.2 = true := by
    intro e he
    obtain ⟨hmem, hp⟩ := List.mem_filter.mp (List.mem_of_find?_eq_some he)
    have hk : e.1 = k := by simpa using List.find?_some he
    exact ⟨hk ▸ mem_entries_iff.mp hmem, hp⟩
  constructor
  · rintro ⟨e, he, rfl⟩
    exact hfound e he
  · rintro ⟨hget, hp⟩
    cases he : (m.entries.filter fun e => p e.2).find? (fun e => decide (e.1 = k)) with
    | none =>
      have hmem : (k, v) ∈ m.entries.filter fun e => p e.2 :=
        List.mem_filter.mpr ⟨mem_entries_iff.mpr hget, hp⟩
      simpa using List.find?_eq_none.mp he _ hmem
    | some e =>
      refine ⟨e, rfl, ?_⟩
      rw [hget] at hfound
      exact (Option.some.inj (hfound e he).1).symm

theorem size_ofList_le (l : List (K × V)) : (ofList l).size ≤ l.length := by
  have hsub : (ofList l).keys ⊆ l.map Prod.fst := fun k hk => by
    obtain ⟨v, hv⟩ := mem_keys_iff.mp hk
    exact List.mem_map_of_mem (f := Prod.fst) (mem_of_get?_ofList hv)
  have hle := (List.subperm_of_subset (nodup_keys _) hsub).length_le
  rwa [length_keys, List.length_map] at hle

/-! ## Rewriting every value -/

/-- The entries are rewritten one after the other, and the other keys stay. -/
theorem foldlM_insert_eq_some_aux {f : V → Option V} {l : List (K × V)} {acc res : OrdMap K V}
    (hl : (l.map Prod.fst).Nodup)
    (h : l.foldlM (fun acc e => (f e.2).map fun v => acc.insert e.1 v) acc = some res) :
    (∀ e ∈ l, ∃ v, f e.2 = some v ∧ res.get? e.1 = some v) ∧
      ∀ k, k ∉ l.map Prod.fst → res.get? k = acc.get? k := by
  induction l generalizing acc with
  | nil =>
    cases h
    exact ⟨nofun, fun _ _ => rfl⟩
  | cons e l ih =>
    obtain ⟨hfresh, hl⟩ := List.nodup_cons.mp hl
    rw [List.foldlM_cons] at h
    obtain ⟨_, hstep, h⟩ := Option.bind_eq_some_iff.mp h
    obtain ⟨v, hv, rfl⟩ := Option.map_eq_some_iff.mp hstep
    obtain ⟨hall, hother⟩ := ih hl h
    refine ⟨fun e' he' => ?_, fun k hk => ?_⟩
    · rcases List.mem_cons.mp he' with rfl | he'
      · exact ⟨v, hv, by rw [hother _ hfresh, get?_insert_self]⟩
      · exact hall e' he'
    · obtain ⟨hne, hk⟩ := not_or.mp (mt List.mem_cons.mpr hk)
      rw [hother k hk, get?_insert_of_ne hne]

/-- A pass that rewrites every value has rewritten each of them, and adds no key. -/
theorem foldlM_insert_eq_some {f : V → Option V}
    (h : m.entries.foldlM (fun acc e => (f e.2).map fun v => acc.insert e.1 v) m = some m')
    (k : K) :
    (∀ v, m.get? k = some v → ∃ v', f v = some v' ∧ m'.get? k = some v') ∧
      (m.get? k = none → m'.get? k = none) := by
  obtain ⟨hall, hother⟩ := foldlM_insert_eq_some_aux m.nodup_keys h
  refine ⟨fun v hv => hall (k, v) (mem_entries_iff.mpr hv), fun hnone => ?_⟩
  have hk : k ∉ m.keys := fun hmem => by
    obtain ⟨v, hv⟩ := mem_keys_iff.mp hmem
    exact absurd (hnone.symm.trans hv) nofun
  rw [hother k hk, hnone]

/-- A pass whose step never fails maps the values. -/
theorem foldlM_insert_of_forall {f : V → Option V} {g : V → V}
    (hf : ∀ k v, m.get? k = some v → f v = some (g v)) :
    m.entries.foldlM (fun acc e => (f e.2).map fun v => acc.insert e.1 v) m =
      some (m.mapValues fun _ => g) := by
  have htotal : ∀ (l : List (K × V)) (acc : OrdMap K V), (∀ e ∈ l, f e.2 = some (g e.2)) →
      ∃ res, l.foldlM (fun acc e => (f e.2).map fun v => acc.insert e.1 v) acc = some res := by
    intro l
    induction l with
    | nil => exact fun acc _ => ⟨acc, rfl⟩
    | cons e l ih =>
      intro acc hl
      obtain ⟨he, hl⟩ := List.forall_mem_cons.mp hl
      rw [List.foldlM_cons, he]
      exact ih _ hl
  obtain ⟨res, hres⟩ := htotal m.entries m fun e he => hf e.1 e.2 (mem_entries_iff.mp he)
  rw [hres]
  congr 1
  refine ext_get? fun k => ?_
  obtain ⟨hsome, hnone⟩ := foldlM_insert_eq_some hres k
  rw [get?_mapValues]
  cases hk : m.get? k with
  | none => exact hnone hk
  | some v =>
    obtain ⟨v', hv', hget⟩ := hsome v hk
    rw [hget, ← hv', hf k v hk]
    rfl

/-! ## Sums over the entries -/

/-- Sum of `f` over the bindings. -/
def sumBy (m : OrdMap K V) (f : K → V → ℤ) : ℤ := (m.entries.map fun e => f e.1 e.2).sum

@[simp] theorem sumBy_empty (f : K → V → ℤ) : (∅ : OrdMap K V).sumBy f = 0 := rfl

/-- What a key contributes to a sum: nothing when it is not bound. -/
def term (m : OrdMap K V) (f : K → V → ℤ) (k : K) : ℤ := (m.get? k).elim 0 (f k)

theorem sum_insertEntry (f : K → V → ℤ) (k : K) (v : V) {l : List (K × V)}
    (hs : l.Pairwise fun a b => a.1 < b.1) :
    ((insertEntry k v l).map fun e => f e.1 e.2).sum =
      (l.map fun e => f e.1 e.2).sum - (lookup k l).elim 0 (f k) + f k v := by
  induction l with
  | nil => simp [insertEntry, lookup]
  | cons a l ih =>
    obtain ⟨ha, hl⟩ := List.pairwise_cons.mp hs
    simp only [insertEntry]
    split_ifs with h₁ h₂
    · have hnone : lookup k (a :: l) = none :=
        lookup_eq_none_of_forall_ne fun e he => by
          rcases List.mem_cons.mp he with rfl | he
          · exact h₁.ne
          · exact (h₁.trans (ha e he)).ne
      rw [hnone]
      simp only [List.map_cons, List.sum_cons, Option.elim_none]
      ring
    · subst h₂
      simp only [List.map_cons, List.sum_cons, lookup, if_true, Option.elim_some]
      ring
    · simp only [List.map_cons, List.sum_cons, lookup, if_neg h₂, ih hl]
      ring

/-- An insertion changes a sum by the binding it replaces. -/
theorem sumBy_insert (f : K → V → ℤ) :
    (m.insert k v).sumBy f = m.sumBy f - m.term f k + f k v :=
  sum_insertEntry f k v m.sorted

theorem sumBy_erase (f : K → V → ℤ) : (m.erase k).sumBy f = m.sumBy f - m.term f k := by
  have hgone : (m.erase k).get? k = none := by rw [get?_erase, if_pos rfl]
  cases hget : m.get? k with
  | none =>
    have hsame : m.erase k = m := ext_get? fun k' => by
      rw [get?_erase]
      split_ifs with h
      · rw [h, hget]
      · rfl
    rw [hsame, term, hget, Option.elim_none, sub_zero]
  | some v =>
    have hback : (m.erase k).insert k v = m := ext_get? fun k' => by
      rw [get?_insert, get?_erase]
      split_ifs with h
      · rw [h, hget]
      · rfl
    have hsum := (m.erase k).sumBy_insert (k := k) (v := v) f
    rw [hback, term, hgone, Option.elim_none] at hsum
    rw [term, hget, Option.elim_some]
    omega

theorem sumBy_eq_sum_keys (f : K → V → ℤ) :
    m.sumBy f = (m.keys.map fun k => m.term f k).sum := by
  rw [sumBy, keys, List.map_map]
  refine congrArg List.sum (List.map_congr_left fun e he => ?_)
  have : m.get? e.1 = some e.2 := mem_entries_iff.mp he
  simp [term, this]

theorem sumBy_ite_key (f : V → ℤ) (k : K) :
    (m.sumBy fun k' v => if k' = k then f v else 0) = (m.get? k).elim 0 f := by
  have hterm : ∀ k', m.term (fun k' v => if k' = k then f v else 0) k' =
      if k' = k then (m.get? k).elim 0 f else 0 := fun k' => by
    rw [term]
    split_ifs with hk
    · rw [hk]
    · cases m.get? k' <;> rfl
  simp only [sumBy_eq_sum_keys, hterm]
  by_cases hk : k ∈ m.keys
  · rw [List.sum_map_ite_eq, List.count_eq_one_of_mem m.nodup_keys hk]
    simp
  · have hnone : m.get? k = none := by
      rw [Option.eq_none_iff_forall_ne_some]
      exact fun v hv => hk (mem_keys_iff.mpr ⟨v, hv⟩)
    rw [List.sum_map_ite_eq, List.count_eq_zero_of_not_mem hk, hnone]
    simp

/-- Two sums agree when every bound key contributes the same. -/
theorem sumBy_congr {f g : K → V → ℤ} (h : ∀ k v, m.get? k = some v → f k v = g k v) :
    m.sumBy f = m.sumBy g :=
  congrArg List.sum (List.map_congr_left fun e he => h e.1 e.2 (mem_entries_iff.mp he))

theorem sumBy_add (f g : K → V → ℤ) :
    (m.sumBy fun k v => f k v + g k v) = m.sumBy f + m.sumBy g := by
  simp only [sumBy]
  induction m.entries with
  | nil => rfl
  | cons a l ih =>
    simp only [List.map_cons, List.sum_cons, ih]
    ring

theorem sumBy_mul_left (c : ℤ) (f : K → V → ℤ) :
    (m.sumBy fun k v => c * f k v) = c * m.sumBy f :=
  List.sum_map_mul_left ..

theorem sumBy_mapValues (f : K → V → W) (g : K → W → ℤ) :
    (m.mapValues f).sumBy g = m.sumBy fun k v => g k (f k v) := by
  simp only [sumBy, mapValues, List.map_map]
  rfl

/-- Two maps whose bindings contribute the same have the same sum. -/
theorem sumBy_eq_of_get? {f : K → V → ℤ} {m' : OrdMap K W} {g : K → W → ℤ}
    (h : ∀ k, (m.get? k).map (f k) = (m'.get? k).map (g k)) : m.sumBy f = m'.sumBy g := by
  have hmaps : m.mapValues f = m'.mapValues g :=
    ext_get? fun k => by rw [get?_mapValues, get?_mapValues, h]
  have hsums := congrArg (fun n => n.sumBy fun _ x => x) hmaps
  simpa only [sumBy_mapValues] using hsums

end OrdMap

end Sybil
