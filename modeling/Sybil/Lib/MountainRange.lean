import Mathlib

/-!
# Merkle mountain ranges

A mountain range over `n` leaves is the forest of complete binary trees that the binary digits
of `n` describe.  Its nodes are numbered in the order they are made: a parent follows its two
subtrees.  So a range over `n` leaves has `nodes n = n + n / 2 + n / 4 + ⋯` nodes, the next leaf
takes that number, and the tree of height `h` over the leaves from `start` on has its root at
`summit h start`.

Everything rests on one fact: behind an aligned start the numbering begins anew (`nodes_add`).
-/

namespace Sybil.MountainRange

variable {g loc n : ℕ} {node : ℕ × ℕ}

/-- Number of nodes of the range over `n` leaves: the leaves, and the range over their parents. -/
def nodes (n : ℕ) : ℕ := if n = 0 then 0 else n + nodes (n / 2)
termination_by n
decreasing_by exact Nat.div_lt_self (Nat.pos_of_ne_zero ‹_›) Nat.one_lt_two

@[simp]
theorem nodes_zero : nodes 0 = 0 := by
  rw [nodes]
  exact if_pos rfl

theorem nodes_eq (n : ℕ) : nodes n = n + nodes (n / 2) := by
  rcases Nat.eq_zero_or_pos n with rfl | hn
  · simp
  · rw [nodes]
    exact if_neg hn.ne'

theorem nodes_mono {m : ℕ} (h : m ≤ n) : nodes m ≤ nodes n := by
  induction n using Nat.strongRecOn generalizing m with
  | ind n ih =>
    rcases Nat.eq_zero_or_pos n with rfl | hn
    · rw [Nat.le_zero.mp h]
    · have hhalf := ih (n / 2) (Nat.div_lt_self hn Nat.one_lt_two)
        (Nat.div_le_div_right h : m / 2 ≤ _)
      rw [nodes_eq m, nodes_eq n]
      omega

theorem le_nodes (n : ℕ) : n ≤ nodes n := by
  rw [nodes_eq]
  exact Nat.le_add_right _ _

/-- A range has fewer inner nodes than leaves. -/
theorem nodes_lt (hn : 0 < n) : nodes n < 2 * n := by
  induction n using Nat.strongRecOn with
  | ind n ih =>
    rw [nodes_eq]
    rcases Nat.eq_zero_or_pos (n / 2) with hhalf | hhalf
    · rw [hhalf, nodes_zero]
      omega
    · have := ih (n / 2) (Nat.div_lt_self hn Nat.one_lt_two) hhalf
      omega

theorem nodes_two_pow (h : ℕ) : nodes (2 ^ h) + 1 = 2 ^ (h + 1) := by
  induction h with
  | zero =>
    rw [nodes_eq]
    simp
  | succ h ih =>
    have hhalf : 2 ^ (h + 1) / 2 = 2 ^ h := by
      rw [pow_succ]
      omega
    rw [nodes_eq, hhalf, add_assoc, ih]
    ring

/-- **Behind an aligned start the numbering begins anew.** -/
theorem nodes_add {h start m : ℕ} (hstart : 2 ^ h ∣ start) (hm : m < 2 ^ h) :
    nodes (start + m) = nodes start + nodes m := by
  induction h generalizing start m with
  | zero =>
    obtain rfl : m = 0 := by simpa using hm
    simp
  | succ h ih =>
    obtain ⟨a, rfl⟩ := hstart
    have hpow : 2 ^ (h + 1) * a = 2 * (2 ^ h * a) := by ring
    have hm' : m / 2 < 2 ^ h := by
      rw [pow_succ] at hm
      omega
    have hsum : (2 ^ (h + 1) * a + m) / 2 = 2 ^ h * a + m / 2 := by omega
    have hhalf : 2 ^ (h + 1) * a / 2 = 2 ^ h * a := by omega
    rw [nodes_eq, nodes_eq (2 ^ (h + 1) * a), nodes_eq m, hsum, hhalf, ih ⟨a, rfl⟩ hm']
    omega

theorem nodes_add_two_pow {h start : ℕ} (hstart : 2 ^ (h + 1) ∣ start) :
    nodes (start + 2 ^ h) + 1 = nodes start + 2 ^ (h + 1) := by
  rw [nodes_add hstart (Nat.pow_lt_pow_right Nat.one_lt_two h.lt_succ_self), add_assoc,
    nodes_two_pow]

/-- Fewer leaves than a complete tree end before its root. -/
theorem nodes_add_two_le {h m : ℕ} (hm : m < 2 ^ h) : nodes m + 2 ≤ 2 ^ (h + 1) := by
  have hpow : 2 ^ (h + 1) = 2 * 2 ^ h := by ring
  rcases Nat.eq_zero_or_pos m with rfl | hpos
  · rw [nodes_zero]
    have := Nat.two_pow_pos h
    omega
  · have := nodes_lt hpos
    omega

/-- As many leaves as a complete tree reach behind its root. -/
theorem two_pow_le_nodes {h m : ℕ} (hm : 2 ^ h ≤ m) : 2 ^ (h + 1) ≤ nodes m + 1 :=
  (nodes_two_pow h).symm.le.trans (Nat.add_le_add_right (nodes_mono hm) 1)

/-! ## Bits -/

/-- Number of set bits among the lowest `w`. -/
def ones (w n : ℕ) : ℕ := ((List.range w).filter fun i => n.testBit i).length

theorem ones_succ (w n : ℕ) : ones (w + 1) n = n % 2 + ones w (n / 2) := by
  have htail : ((List.range w).map Nat.succ).filter (fun i => n.testBit i) =
      ((List.range w).filter fun i => (n / 2).testBit i).map Nat.succ := by
    rw [List.filter_map]
    congr 1
    refine List.filter_congr fun i _ => ?_
    simp [Nat.testBit_succ]
  rw [ones, ones, List.range_succ_eq_map, List.filter_cons, htail]
  rcases Nat.mod_two_eq_zero_or_one n with hn | hn
  · simp [Nat.testBit_zero, hn]
  · simp [Nat.testBit_zero, hn]
    omega

/-- The number of nodes, by the set bits of the number of leaves. -/
theorem nodes_add_ones {w : ℕ} (hn : n < 2 ^ w) : nodes n + ones w n = 2 * n := by
  induction w generalizing n with
  | zero =>
    obtain rfl : n = 0 := by simpa using hn
    simp [ones]
  | succ w ih =>
    have hhalf := ih (n := n / 2) (by
      rw [pow_succ] at hn
      omega)
    rw [nodes_eq, ones_succ]
    omega

/-! ## Trees of a range -/

/-- Number of the root of the tree of height `h` over the leaves from `start` on. -/
def summit (h start : ℕ) : ℕ := nodes start + (2 ^ (h + 1) - 2)

theorem summit_zero (start : ℕ) : summit 0 start = nodes start := by simp [summit]

theorem summit_add_two (h start : ℕ) : summit h start + 2 = nodes start + 2 ^ (h + 1) := by
  have : 2 ≤ 2 ^ (h + 1) := Nat.le_self_pow h.succ_ne_zero 2
  rw [summit]
  omega

/-- The left subtree has its own number of nodes less, and the root. -/
theorem summit_left (h start : ℕ) : summit h start + 2 ^ (h + 1) = summit (h + 1) start := by
  have hroot := summit_add_two h start
  have hroot' := summit_add_two (h + 1) start
  have hpow : 2 ^ (h + 2) = 2 ^ (h + 1) + 2 ^ (h + 1) := by ring
  omega

/-- The right subtree ends right before the root. -/
theorem summit_right {h start : ℕ} (hstart : 2 ^ (h + 1) ∣ start) :
    summit h (start + 2 ^ h) + 1 = summit (h + 1) start := by
  have hroot := summit_add_two h (start + 2 ^ h)
  have hroot' := summit_add_two (h + 1) start
  have hnodes := nodes_add_two_pow hstart
  have hpow : 2 ^ (h + 2) = 2 ^ (h + 1) + 2 ^ (h + 1) := by ring
  omega

/-- A range reaches behind a root exactly when it has all leaves of the tree. -/
theorem summit_lt_nodes_iff {h start m : ℕ} (hstart : 2 ^ (h + 1) ∣ start) (hm : m < 2 ^ (h + 1)) :
    summit h start < nodes (start + m) ↔ 2 ^ h ≤ m := by
  have hroot := summit_add_two h start
  rw [nodes_add hstart hm]
  constructor
  · intro hlt
    by_contra hshort
    have := nodes_add_two_le (not_le.mp hshort)
    omega
  · intro hle
    have := two_pow_le_nodes hle
    omega

theorem dvd_of_dvd_succ {h start : ℕ} (hstart : 2 ^ (h + 1) ∣ start) : 2 ^ h ∣ start :=
  (pow_dvd_pow 2 h.le_succ).trans hstart

theorem dvd_add_two_pow {h start : ℕ} (hstart : 2 ^ (h + 1) ∣ start) : 2 ^ h ∣ start + 2 ^ h :=
  Nat.dvd_add (dvd_of_dvd_succ hstart) (Nat.dvd_refl _)

/-! ## Peaks -/

/-- Heights and starts of the trees over `m` leaves from `start` on, the highest first. -/
def peaks : ℕ → ℕ → ℕ → List (ℕ × ℕ)
  | 0, _, _ => []
  | h + 1, start, m =>
    if 2 ^ h ≤ m then (h, start) :: peaks h (start + 2 ^ h) (m - 2 ^ h) else peaks h start m

theorem length_peaks_le (h start m : ℕ) : (peaks h start m).length ≤ h := by
  induction h generalizing start m with
  | zero => exact Nat.le_refl _
  | succ h ih =>
    rw [peaks]
    split_ifs
    · exact Nat.succ_le_succ (ih _ _)
    · exact (ih _ _).trans h.le_succ

/-- **Every leaf is under a peak**, and one in front of the last incomplete group of `2 ^ g` under
a peak at least that high. -/
theorem exists_peak {h start m : ℕ} (hstart : 2 ^ h ∣ start) (hm : m < 2 ^ h) (hle : start ≤ loc)
    (hlt : loc < start + m / 2 ^ g * 2 ^ g) :
    ∃ peak ∈ peaks h start m, g ≤ peak.1 ∧ 2 ^ peak.1 ∣ peak.2 ∧ peak.2 ≤ loc ∧
      loc < peak.2 + 2 ^ peak.1 := by
  induction h generalizing start m with
  | zero =>
    obtain rfl : m = 0 := by simpa using hm
    simp at hlt
    omega
  | succ h ih =>
    have hpow := Nat.two_pow_succ h
    -- A whole group fits, so a group is no larger than the tree.
    have hg : g ≤ h := by
      by_contra hgh
      have hlarge : 2 ^ (h + 1) ≤ 2 ^ g := Nat.pow_le_pow_right Nat.two_pos (by omega)
      rw [Nat.div_eq_of_lt (hm.trans_le hlarge)] at hlt
      omega
    rw [peaks]
    split_ifs with hfull
    · by_cases hhere : loc < start + 2 ^ h
      · exact ⟨(h, start), List.mem_cons_self, hg, dvd_of_dvd_succ hstart, hle, hhere⟩
      · obtain ⟨d, rfl⟩ := Nat.exists_eq_add_of_le hg
        have hgroups : (m - 2 ^ (g + d)) / 2 ^ g * 2 ^ g + 2 ^ (g + d) = m / 2 ^ g * 2 ^ g := by
          obtain ⟨rest, rfl⟩ := Nat.exists_eq_add_of_le hfull
          rw [Nat.add_sub_cancel_left, pow_add, Nat.mul_add_div (Nat.two_pow_pos g)]
          ring
        obtain ⟨peak, hpeak, hrest⟩ := ih (m := m - 2 ^ (g + d)) (dvd_add_two_pow hstart) (by omega)
          (by omega) (by omega)
        exact ⟨peak, List.mem_cons_of_mem _ hpeak, hrest⟩
    · exact ih (dvd_of_dvd_succ hstart) (by omega) hle hlt

theorem fst_lt_of_mem_peaks {h start m : ℕ} {peak : ℕ × ℕ} (hpeak : peak ∈ peaks h start m) :
    peak.1 < h := by
  induction h generalizing start m with
  | zero => cases hpeak
  | succ h ih =>
    rw [peaks] at hpeak
    split_ifs at hpeak
    · rcases List.mem_cons.mp hpeak with rfl | hpeak
      · exact h.lt_succ_self
      · exact (ih hpeak).trans h.lt_succ_self
    · exact (ih hpeak).trans h.lt_succ_self

theorem pairwise_peaks (h start m : ℕ) : (peaks h start m).Pairwise fun a b => b.1 < a.1 := by
  induction h generalizing start m with
  | zero => exact .nil
  | succ h ih =>
    rw [peaks]
    split_ifs
    · exact List.pairwise_cons.mpr ⟨fun peak hpeak => fst_lt_of_mem_peaks hpeak, ih _ _⟩
    · exact ih _ _

/-- **One tree for each set bit.** -/
theorem exists_mem_peaks_iff {h start m : ℕ} (hm : m < 2 ^ h) :
    (∃ peak ∈ peaks h start m, peak.1 = g) ↔ m.testBit g = true := by
  induction h generalizing start m with
  | zero =>
    obtain rfl : m = 0 := by simpa using hm
    simp [peaks]
  | succ h ih =>
    have hpow := Nat.two_pow_succ h
    rw [peaks]
    split_ifs with hfull
    · obtain ⟨rest, rfl⟩ := Nat.exists_eq_add_of_le hfull
      have hrest : rest < 2 ^ h := by omega
      rw [Nat.add_sub_cancel_left, List.exists_mem_cons_iff, ih hrest]
      rcases Nat.lt_trichotomy g h with hlt | rfl | hgt
      · rw [Nat.testBit_two_pow_add_gt hlt]
        exact or_iff_right hlt.ne'
      · rw [Nat.testBit_two_pow_add_eq, Nat.testBit_lt_two_pow hrest]
        simp
      · have hlarge : 2 ^ h + rest < 2 ^ g :=
          hm.trans_le (Nat.pow_le_pow_right Nat.two_pos hgt)
        rw [Nat.testBit_lt_two_pow hlarge,
          Nat.testBit_lt_two_pow ((Nat.le_add_left _ _).trans_lt hlarge)]
        exact or_iff_right hgt.ne
    · exact ih (not_le.mp hfull)

theorem sum_two_pow_peaks {h start m : ℕ} (hm : m < 2 ^ h) :
    ((peaks h start m).map fun peak => 2 ^ peak.1).sum = m := by
  induction h generalizing start m with
  | zero =>
    obtain rfl : m = 0 := by simpa using hm
    rfl
  | succ h ih =>
    have hpow := Nat.two_pow_succ h
    rw [peaks]
    split_ifs with hfull
    · rw [List.map_cons, List.sum_cons, ih (by omega)]
      exact Nat.add_sub_cancel' hfull
    · exact ih (not_le.mp hfull)

/-- A leaf is under one tree; the trees in front of that tree end at its first leaf. -/
theorem exists_split {h start m : ℕ} (hm : m < 2 ^ h) (hle : start ≤ loc) (hlt : loc < start + m) :
    ∃ before peak after, peaks h start m = before ++ peak :: after ∧
      peak.2 = start + (before.map fun peak => 2 ^ peak.1).sum ∧ peak.2 ≤ loc ∧
      loc < peak.2 + 2 ^ peak.1 := by
  induction h generalizing start m with
  | zero =>
    obtain rfl : m = 0 := by simpa using hm
    omega
  | succ h ih =>
    have hpow := Nat.two_pow_succ h
    rw [peaks]
    split_ifs with hfull
    · by_cases hhere : loc < start + 2 ^ h
      · exact ⟨[], (h, start), _, rfl, rfl, hle, hhere⟩
      · have hrest : m - 2 ^ h < 2 ^ h := by omega
        obtain ⟨before, peak, after, hpeaks, hstart, hunder⟩ :=
          @ih (start + 2 ^ h) (m - 2 ^ h) hrest (not_lt.mp hhere) (by omega)
        refine ⟨(h, start) :: before, peak, after, by rw [hpeaks]; rfl, ?_, hunder⟩
        rw [hstart, List.map_cons, List.sum_cons, Nat.add_assoc]
    · exact ih (not_le.mp hfull) hle hlt

/-- A height that is too large finds the same trees. -/
theorem peaks_of_le {h h' start m : ℕ} (hm : m < 2 ^ h) (hle : h ≤ h') :
    peaks h' start m = peaks h start m := by
  induction h', hle using Nat.le_induction with
  | base => rfl
  | succ h' hle ih =>
    have hlarge : ¬ 2 ^ h' ≤ m := (hm.trans_le (Nat.pow_le_pow_right Nat.two_pos hle)).not_ge
    rw [peaks, if_neg hlarge, ih]

/-! ## Node by node

The range as the list of its nodes in the order in which they are made, each with its height and
the first leaf under it. -/

/-- A complete tree: its subtrees, and its root. -/
def tree : ℕ → ℕ → List (ℕ × ℕ)
  | 0, start => [(0, start)]
  | h + 1, start => tree h start ++ tree h (start + 2 ^ h) ++ [(h + 1, start)]

/-- The trees over `m` leaves from `start` on. -/
def forestFrom (h start m : ℕ) : List (ℕ × ℕ) :=
  (peaks h start m).flatMap fun peak => tree peak.1 peak.2

/-- The range over `n` leaves. -/
def forest (n : ℕ) : List (ℕ × ℕ) := forestFrom n 0 n

theorem length_tree (h start : ℕ) : (tree h start).length + 1 = 2 ^ (h + 1) := by
  induction h generalizing start with
  | zero => rfl
  | succ h ih =>
    have hleft := ih start
    have hright := ih (start + 2 ^ h)
    have hpow : 2 ^ (h + 1 + 1) = 2 ^ (h + 1) + 2 ^ (h + 1) := by ring
    simp only [tree, List.length_append, List.length_singleton]
    omega

/-- A node of a range: it stands at its number, over aligned leaves from `start` to `stop`. -/
structure NodeAt (start stop offset : ℕ) (node : ℕ × ℕ) : Prop where
  position : summit node.1 node.2 = nodes start + offset
  aligned : 2 ^ node.1 ∣ node.2
  start_le : start ≤ node.2
  le_stop : node.2 + 2 ^ node.1 ≤ stop

/-- **Every node of a tree stands at its number.** -/
theorem nodeAt_tree {h start i : ℕ} (hstart : 2 ^ h ∣ start)
    (hnode : (tree h start)[i]? = some node) : NodeAt start (start + 2 ^ h) i node := by
  induction h generalizing start i with
  | zero =>
    obtain ⟨hi, rfl⟩ := List.getElem?_eq_some_iff.mp hnode
    obtain rfl : i = 0 := Nat.lt_one_iff.mp hi
    exact ⟨summit_zero start, hstart, le_refl _, le_refl _⟩
  | succ h ih =>
    have hpow := Nat.two_pow_succ h
    have hnext := nodes_add_two_pow hstart
    have hleft := length_tree h start
    have hright := length_tree h (start + 2 ^ h)
    rw [tree, List.append_assoc, List.getElem?_append] at hnode
    split_ifs at hnode with hin
    · obtain ⟨hposition, haligned, hle, hstop⟩ := ih (dvd_of_dvd_succ hstart) hnode
      exact ⟨hposition, haligned, hle, by omega⟩
    rw [List.getElem?_append] at hnode
    split_ifs at hnode with hin'
    · obtain ⟨hposition, haligned, hle, hstop⟩ := ih (dvd_add_two_pow hstart) hnode
      exact ⟨by omega, haligned, by omega, by omega⟩
    · -- The root comes behind both subtrees.
      rw [List.getElem?_singleton] at hnode
      split_ifs at hnode with hlast
      obtain rfl := Option.some.inj hnode
      have hroot := summit_add_two (h + 1) start
      have hpow' : 2 ^ (h + 1 + 1) = 2 ^ (h + 1) + 2 ^ (h + 1) := by ring
      refine ⟨?_, hstart, le_refl _, le_refl _⟩
      show summit (h + 1) start = _
      omega

/-- Every aligned interval under a tree has a node. -/
theorem mem_tree {h start s : ℕ} (hstart : 2 ^ h ∣ start) (haligned : 2 ^ g ∣ s) (hle : start ≤ s)
    (hstop : s + 2 ^ g ≤ start + 2 ^ h) : (g, s) ∈ tree h start := by
  induction h generalizing start with
  | zero =>
    have hg : g = 0 := by
      by_contra hg
      have : 2 ≤ 2 ^ g := Nat.le_self_pow hg 2
      omega
    subst hg
    obtain rfl : s = start := by omega
    exact List.mem_singleton.mpr rfl
  | succ h ih =>
    have hpow := Nat.two_pow_succ h
    rw [tree]
    rcases Nat.lt_or_ge h g with hgt | hle'
    · -- An interval as large as the tree is the tree's.
      obtain rfl : g = h + 1 := by
        by_contra hne
        have : 2 ^ (h + 1 + 1) ≤ 2 ^ g := Nat.pow_le_pow_right Nat.two_pos (by omega)
        have hpow' : 2 ^ (h + 1 + 1) = 2 ^ (h + 1) + 2 ^ (h + 1) := by ring
        have := Nat.two_pow_pos h
        omega
      obtain rfl : s = start := by omega
      simp
    · obtain ⟨d, rfl⟩ := Nat.exists_eq_add_of_le hle'
      have hmiddle : 2 ^ g ∣ start + 2 ^ (g + d) :=
        Nat.dvd_add (((pow_dvd_pow 2 (by omega)).trans hstart)) (pow_dvd_pow 2 (by omega))
      rcases Nat.lt_or_ge s (start + 2 ^ (g + d)) with hlt | hge
      · -- Aligned intervals do not cross the middle.
        obtain ⟨a, rfl⟩ := haligned
        obtain ⟨b, hb⟩ := hmiddle
        have hab : a + 1 ≤ b := by
          rw [hb] at hlt
          exact lt_of_mul_lt_mul_left hlt (Nat.zero_le _)
        have hends : 2 ^ g * a + 2 ^ g ≤ start + 2 ^ (g + d) := by
          rw [hb, ← Nat.mul_succ]
          exact Nat.mul_le_mul_left _ hab
        exact List.mem_append_left _ (List.mem_append_left _
          (ih (dvd_of_dvd_succ hstart) hle hends))
      · exact List.mem_append_left _ (List.mem_append_right _
          (ih (dvd_add_two_pow hstart) hge (by omega)))

theorem length_forestFrom {h start m : ℕ} (hstart : 2 ^ h ∣ start) (hm : m < 2 ^ h) :
    nodes (start + m) = nodes start + (forestFrom h start m).length := by
  induction h generalizing start m with
  | zero =>
    obtain rfl : m = 0 := by simpa using hm
    rfl
  | succ h ih =>
    have hpow := Nat.two_pow_succ h
    rw [forestFrom, peaks]
    split_ifs with hfull
    · obtain ⟨rest, rfl⟩ := Nat.exists_eq_add_of_le hfull
      have hrest := ih (dvd_add_two_pow hstart) (show rest < 2 ^ h by omega)
      have hnext := nodes_add_two_pow hstart
      have hlength := length_tree h start
      rw [forestFrom] at hrest
      rw [Nat.add_sub_cancel_left, List.flatMap_cons, List.length_append, ← Nat.add_assoc, hrest]
      show _ = nodes start + ((tree h start).length + _)
      omega
    · exact ih (dvd_of_dvd_succ hstart) (not_le.mp hfull)

/-- **Every node of a range stands at its number.** -/
theorem nodeAt_forestFrom {h start m i : ℕ} (hstart : 2 ^ h ∣ start) (hm : m < 2 ^ h)
    (hnode : (forestFrom h start m)[i]? = some node) : NodeAt start (start + m) i node := by
  induction h generalizing start m i with
  | zero => cases hnode
  | succ h ih =>
    have hpow := Nat.two_pow_succ h
    rw [forestFrom, peaks] at hnode
    split_ifs at hnode with hfull
    · have hnext := nodes_add_two_pow hstart
      have hlength := length_tree h start
      rw [List.flatMap_cons, List.getElem?_append] at hnode
      simp only at hnode
      split_ifs at hnode with hin
      · obtain ⟨hposition, haligned, hle, hstop⟩ := nodeAt_tree (dvd_of_dvd_succ hstart) hnode
        exact ⟨hposition, haligned, hle, by omega⟩
      · obtain ⟨hposition, haligned, hle, hstop⟩ := ih (dvd_add_two_pow hstart) (by omega) hnode
        exact ⟨by omega, haligned, by omega, by omega⟩
    · exact ih (dvd_of_dvd_succ hstart) (not_le.mp hfull) hnode

theorem forest_eq {h : ℕ} (hn : n < 2 ^ h) : forest n = forestFrom h 0 n := by
  rw [forest, forestFrom, forestFrom]
  rcases Nat.le_total h n with hle | hle
  · rw [peaks_of_le hn hle]
  · rw [peaks_of_le Nat.lt_two_pow_self hle]

theorem length_forest (n : ℕ) : (forest n).length = nodes n := by
  have hlength := length_forestFrom (dvd_zero (2 ^ n)) (Nat.lt_two_pow_self (n := n))
  rw [nodes_zero, Nat.zero_add, Nat.zero_add] at hlength
  exact hlength.symm

theorem nodeAt_forest {i : ℕ} (hnode : (forest n)[i]? = some node) : NodeAt 0 n i node := by
  have := nodeAt_forestFrom (dvd_zero (2 ^ n)) Nat.lt_two_pow_self hnode
  rwa [Nat.zero_add] at this

theorem getElem?_forest_of_mem (hnode : node ∈ forest n) :
    (forest n)[summit node.1 node.2]? = some node := by
  obtain ⟨i, hi⟩ := List.getElem?_of_mem hnode
  have hposition := (nodeAt_forest hi).position
  rw [nodes_zero, Nat.zero_add] at hposition
  rw [hposition, hi]

theorem mem_forest_of_peak {h : ℕ} (hn : n < 2 ^ h) {peak : ℕ × ℕ} (hpeak : peak ∈ peaks h 0 n) :
    peak ∈ forest n := by
  rw [forest_eq hn]
  refine List.mem_flatMap.mpr ⟨peak, hpeak, ?_⟩
  cases hheight : peak.1 with
  | zero => exact List.mem_singleton.mpr (Prod.ext hheight rfl)
  | succ height =>
    rw [tree]
    exact List.mem_append_right _ (List.mem_singleton.mpr (Prod.ext hheight rfl))

theorem leaf_mem_forest (hloc : loc < n) : (0, loc) ∈ forest n := by
  have hn : n < 2 ^ n := Nat.lt_two_pow_self
  have hbefore : loc < 0 + n / 2 ^ 0 * 2 ^ 0 := by simpa using hloc
  obtain ⟨peak, hpeak, -, haligned, hle, hlt⟩ :=
    exists_peak (dvd_zero (2 ^ n)) hn (Nat.zero_le loc) hbefore
  rw [forest_eq hn]
  exact List.mem_flatMap.mpr ⟨peak, hpeak, mem_tree haligned (one_dvd _) hle hlt⟩

end Sybil.MountainRange
