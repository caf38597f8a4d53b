import Mathlib

/-!
# Cyclic successors

The keys of an ordered set form a ring: behind each key comes the least greater one, and behind
the greatest the least of all.  A sorted list whose members follow each other around that ring is
the whole set, and the span from a key to its successor holds no other key.
-/

namespace Sybil.CyclicOrder

variable {K : Type*} [LinearOrder K] {keys : Set K}

/-- A key of the set that comes next in cyclic order. -/
structure IsSuccessor (keys : Set K) (key next : K) : Prop where
  mem : next ∈ keys
  nearest : (key < next ∧ ∀ other ∈ keys, key < other → next ≤ other) ∨
    ((∀ other ∈ keys, other ≤ key) ∧ ∀ other ∈ keys, next ≤ other)

/-- A greater successor is the least greater key. -/
theorem IsSuccessor.le_of_lt {key next other : K} (h : IsSuccessor keys key next) (hlt : key < next)
    (hother : other ∈ keys) (hkey : key < other) : next ≤ other := by
  obtain ⟨-, hleast⟩ | ⟨hgreatest, -⟩ := h.nearest
  · exact hleast other hother hkey
  · exact absurd hlt (hgreatest next h.mem).not_gt

/-- A successor that is not greater wraps around: the key is the greatest, the successor the
least. -/
theorem IsSuccessor.wraps {key next : K} (h : IsSuccessor keys key next) (hle : next ≤ key) :
    (∀ other ∈ keys, other ≤ key) ∧ ∀ other ∈ keys, next ≤ other := by
  obtain ⟨hlt, -⟩ | hwraps := h.nearest
  · exact absurd hlt hle.not_gt
  · exact hwraps

/-- The half-open span from a key to another one, around the ring when it has to. -/
def InSpan (start stop key : K) : Prop :=
  if stop ≤ start then start ≤ key ∨ key < stop else start ≤ key ∧ key < stop

/-- **Between a key and its successor there is no other key.** -/
theorem IsSuccessor.not_inSpan {start stop key : K} (h : IsSuccessor keys start stop)
    (hkey : key ∈ keys) (hne : key ≠ start) : ¬ InSpan start stop key := by
  intro hspan
  rw [InSpan] at hspan
  split_ifs at hspan with hwrap
  · obtain ⟨hgreatest, hleast⟩ := h.wraps hwrap
    rcases hspan with habove | hbelow
    · exact hne (le_antisymm (hgreatest key hkey) habove)
    · exact hbelow.not_ge (hleast key hkey)
  · obtain ⟨hle, hlt⟩ := hspan
    exact hlt.not_ge (h.le_of_lt (not_le.mp hwrap) hkey (lt_of_le_of_ne hle hne.symm))

/-- **A sorted walk around the ring meets every key.** -/
theorem mem_of_ring {ring : List K} (hne : ring ≠ []) (hsorted : ring.Pairwise (· < ·))
    (hring : ∀ i key next, ring[i]? = some key → ring[(i + 1) % ring.length]? = some next →
      IsSuccessor keys key next) {key : K} (hkey : key ∈ keys) : key ∈ ring := by
  by_contra habsent
  have hpos : 0 < ring.length := List.length_pos_of_ne_nil hne
  obtain ⟨n, hn⟩ : ∃ n, ring.length = n + 1 := ⟨_, (Nat.succ_pred_eq_of_pos hpos).symm⟩
  have hget : ∀ i, i < ring.length → ∃ k ∈ ring, ring[i]? = some k := fun i hi =>
    ⟨ring[i], List.getElem_mem hi, List.getElem?_eq_getElem hi⟩
  have hlt : ∀ {i j : ℕ} {a b : K}, i < j → ring[i]? = some a → ring[j]? = some b → a < b := by
    intro i j a b hij ha hb
    obtain ⟨hi, rfl⟩ := List.getElem?_eq_some_iff.mp ha
    obtain ⟨hj, rfl⟩ := List.getElem?_eq_some_iff.mp hb
    exact List.pairwise_iff_getElem.mp hsorted i j hi hj hij
  -- The last member wraps around to the first.
  obtain ⟨first, hfirstMem, hfirst⟩ := hget 0 hpos
  obtain ⟨last, hlastMem, hlast⟩ := hget n (by omega)
  have hback : ring[(n + 1) % ring.length]? = some first := by
    rw [hn, Nat.mod_self, hfirst]
  have hle : first ≤ last := by
    rcases Nat.eq_zero_or_pos n with rfl | hn
    · exact (Option.some.inj (hfirst.symm.trans hlast)).le
    · exact (hlt hn hfirst hlast).le
  obtain ⟨hgreatest, hleast⟩ := (hring n last first hlast hback).wraps hle
  -- From member to member the missing key stays ahead.
  have hahead : ∀ (i : ℕ) (k : K), ring[i]? = some k → k < key := by
    intro i
    induction i with
    | zero =>
      intro k hk
      obtain rfl := Option.some.inj (hfirst.symm.trans hk)
      exact lt_of_le_of_ne (hleast key hkey) fun heq => habsent (heq ▸ hfirstMem)
    | succ i ih =>
      intro k hk
      obtain ⟨hi, -⟩ := List.getElem?_eq_some_iff.mp hk
      obtain ⟨previous, -, hprevious⟩ := hget i (by omega)
      have hnext : ring[(i + 1) % ring.length]? = some k := by rwa [Nat.mod_eq_of_lt hi]
      have hstep := (hring i previous k hprevious hnext).le_of_lt
        (hlt i.lt_succ_self hprevious hk) hkey (ih previous hprevious)
      exact lt_of_le_of_ne hstep fun heq => habsent (heq ▸ List.mem_of_getElem? hk)
  exact (hahead n last hlast).not_ge (hgreatest key hkey)

end Sybil.CyclicOrder
