import Sybil.Lib.MountainRange
import Sybil.Zk.Qmdb

/-!
# Positions of the guest's mountain range

The guest computes positions with bit tricks: a leaf stands at twice its number less the set
bits, peaks are found by walking over the node numbers of a perfect tree, and the leftmost leaf
under a node by descending from a tree that is surely high enough.  Within the bounds of the
guest these are the positions of `MountainRange`.
-/

namespace Sybil.Zk

open MountainRange

variable {loc n pos : ℕ}

/-! ## Leaves -/

/-- A leaf stands behind the nodes of the leaves before it. -/
theorem mmrLocationToPosition_eq (h : loc ≤ maxMmrLeaves) :
    mmrLocationToPosition loc = some (nodes loc) := by
  have hbound : loc < 2 ^ 64 := h.trans_lt (by norm_num [maxMmrLeaves])
  have hnodes : nodes loc + countOnes loc = 2 * loc := nodes_add_ones hbound
  rw [mmrLocationToPosition, if_neg h.not_gt, checkedSubU64_eq_some_iff]
  omega

theorem nodes_lt_of_le_max (h : n ≤ maxMmrLeaves) : nodes n < 2 ^ 63 := by
  rcases Nat.eq_zero_or_pos n with rfl | hpos
  · simp
  · have := nodes_lt hpos
    have hmax : maxMmrLeaves = 2 ^ 62 := by norm_num [maxMmrLeaves]
    omega

theorem lt_two_pow_bitLength (n : ℕ) : n < 2 ^ bitLength n := by
  rw [bitLength]
  split_ifs with h
  · simp [h]
  · exact Nat.lt_log2_self

theorem bitLength_le {k : ℕ} (h : n < 2 ^ k) : bitLength n ≤ k := by
  rw [bitLength]
  split_ifs with hn
  · exact Nat.zero_le _
  · exact (Nat.log2_lt hn).mpr h

/-! ## From positions back to leaves -/

/-- The descent finds a leaf under the tree that it starts from. -/
theorem leafLocation_eq {h start m : ℕ} (hstart : 2 ^ h ∣ start) (hm : m < 2 ^ h) :
    leafLocation (nodes (start + m)) h (summit h start) start = some (start + m) := by
  induction h generalizing start m with
  | zero =>
    obtain rfl : m = 0 := by simpa using hm
    rfl
  | succ h ih =>
    have hleft := summit_left h start
    have hright := summit_right hstart
    have hpow : 2 ^ (h + 1) = 2 ^ h + 2 ^ h := by ring
    have hturn := summit_lt_nodes_iff hstart hm
    -- A leaf under a tree comes before its root.
    have hroot : summit (h + 1) start ≠ nodes (start + m) := by
      have hsummit := summit_add_two (h + 1) start
      have hpos := Nat.two_pow_pos h
      rw [nodes_add hstart hm]
      rcases Nat.eq_zero_or_pos m with rfl | hmpos
      · have hpow' : 2 ^ (h + 1 + 1) = 2 * 2 ^ (h + 1) := by ring
        rw [nodes_zero]
        omega
      · have hpow' : 2 ^ (h + 1 + 1) = 2 * 2 ^ (h + 1) := by ring
        have := nodes_lt hmpos
        omega
    have hsub : checkedSubU64 (summit (h + 1) start) (2 ^ (h + 1)) = some (summit h start) := by
      rw [checkedSubU64_eq_some_iff]
      omega
    rw [leafLocation, if_neg hroot, hsub]
    by_cases hgo : 2 ^ h ≤ m
    · obtain ⟨rest, rfl⟩ := Nat.exists_eq_add_of_le hgo
      have hdown : summit (h + 1) start - 1 = summit h (start + 2 ^ h) := by omega
      show (if summit h start < _ then _ else _) = _
      rw [if_pos (hturn.mpr hgo), hdown, ← Nat.add_assoc]
      exact ih (dvd_add_two_pow hstart) (by omega)
    · show (if summit h start < _ then _ else _) = _
      rw [if_neg (mt hturn.mp hgo)]
      exact ih (dvd_of_dvd_succ hstart) (not_le.mp hgo)

theorem mmrPositionToLocation_nodes (h : loc ≤ maxMmrLeaves) :
    mmrPositionToLocation (nodes loc) = some loc := by
  have hmax : ¬ maxMmrNodes < nodes loc := by
    have := nodes_lt_of_le_max h
    norm_num [maxMmrNodes]
    omega
  rw [mmrPositionToLocation, if_neg hmax]
  split_ifs with hzero
  · have := le_nodes loc
    rw [show loc = 0 by omega]
  · obtain ⟨height, hheight⟩ : ∃ height, bitLength (nodes loc + 1) = height + 1 := by
      refine Nat.exists_eq_succ_of_ne_zero fun hnil => ?_
      have := lt_two_pow_bitLength (nodes loc + 1)
      rw [hnil] at this
      omega
    have hlt : nodes loc + 1 < 2 ^ (height + 1) := hheight ▸ lt_two_pow_bitLength _
    have hloc : loc < 2 ^ height := by
      by_contra hge
      have := two_pow_le_nodes (not_lt.mp hge)
      omega
    have hroot : 2 ^ (height + 1) - 1 - 1 = summit height 0 := by
      rw [summit, nodes_zero, Nat.zero_add]
      rfl
    have := leafLocation_eq (dvd_zero (2 ^ height)) hloc
    simpa only [hheight, Nat.add_sub_cancel, hroot, Nat.zero_add] using this

theorem mmrLeftmostLeaf_summit {h start : ℕ} (hstart : start ≤ maxMmrLeaves) (hh : h ≤ 62) :
    mmrLeftmostLeaf (summit h start) h = some start := by
  have hroot := summit_add_two h start
  have hnodes := nodes_lt_of_le_max hstart
  have hpow : 2 ^ (h + 1) ≤ 2 ^ 63 := Nat.pow_le_pow_right Nat.two_pos (by omega)
  have hadd : checkedU64 (summit h start + 2) = some (nodes start + 2 ^ (h + 1)) := by
    rw [checkedU64_eq_some_iff]
    omega
  have hsub : checkedSubU64 (nodes start + 2 ^ (h + 1)) (2 ^ (h + 1)) = some (nodes start) := by
    rw [checkedSubU64_eq_some_iff]
    omega
  rw [mmrLeftmostLeaf, if_neg (by omega)]
  simp only [bind, hadd, hsub, Option.bind_some, mmrPositionToLocation_nodes hstart]

/-- The descent ends at a leaf only from the position of a leaf. -/
theorem eq_nodes_of_leafLocation {h start : ℕ} (hstart : 2 ^ h ∣ start) (hge : nodes start ≤ pos)
    (hle : pos ≤ summit h start) (hloc : leafLocation pos h (summit h start) start = some loc) :
    pos = nodes loc := by
  induction h generalizing start with
  | zero =>
    rw [summit_zero] at hle
    obtain rfl : start = loc := Option.some.inj hloc
    exact le_antisymm hle hge
  | succ h ih =>
    have hleft := summit_left h start
    have hright := summit_right hstart
    have hsub : checkedSubU64 (summit (h + 1) start) (2 ^ (h + 1)) = some (summit h start) := by
      rw [checkedSubU64_eq_some_iff]
      omega
    rw [leafLocation, hsub] at hloc
    by_cases hroot : summit (h + 1) start = pos
    · rw [if_pos hroot] at hloc
      cases hloc
    rw [if_neg hroot] at hloc
    change (if summit h start < pos then _ else _) = _ at hloc
    by_cases hgo : summit h start < pos
    · have hdown : summit (h + 1) start - 1 = summit h (start + 2 ^ h) := by omega
      rw [if_pos hgo, hdown] at hloc
      -- The right subtree begins right behind the left one.
      have hnext := nodes_add_two_pow hstart
      have htop := summit_add_two h start
      exact ih (dvd_add_two_pow hstart) (by omega) (by omega) hloc
    · rw [if_neg hgo] at hloc
      exact ih (dvd_of_dvd_succ hstart) hge (not_lt.mp hgo) hloc

/-- **Only positions of leaves have a location.** -/
theorem mmrLocationToPosition_of_mmrPositionToLocation (h : mmrPositionToLocation pos = some loc) :
    mmrLocationToPosition loc = some pos := by
  rw [mmrPositionToLocation] at h
  split_ifs at h with hmax hzero
  · obtain rfl : 0 = loc := Option.some.inj h
    rw [hzero, mmrLocationToPosition_eq (Nat.zero_le _), nodes_zero]
  · obtain ⟨height, hheight⟩ : ∃ height, bitLength (pos + 1) = height + 1 := by
      refine Nat.exists_eq_succ_of_ne_zero fun hnil => ?_
      have := lt_two_pow_bitLength (pos + 1)
      rw [hnil] at this
      omega
    have hlt : pos + 1 < 2 ^ (height + 1) := hheight ▸ lt_two_pow_bitLength _
    have hroot : 2 ^ (height + 1) - 1 - 1 = summit height 0 := by
      rw [summit, nodes_zero, Nat.zero_add]
      rfl
    simp only [hheight, Nat.add_sub_cancel, hroot] at h
    have hpos : pos = nodes loc := eq_nodes_of_leafLocation (dvd_zero _) (by simp) (by omega) h
    -- A leaf behind the last location would be behind the last node.
    have hloc : loc ≤ maxMmrLeaves := by
      by_contra hbig
      have hmono : nodes (maxMmrLeaves + 1) ≤ nodes loc := nodes_mono (not_le.mp hbig)
      have hlast : nodes (maxMmrLeaves + 1) = maxMmrNodes + 1 := by
        have hmaxLeaves : maxMmrLeaves = 2 ^ 62 := by norm_num [maxMmrLeaves]
        have hmaxNodes : maxMmrNodes + 1 = 2 ^ 63 := by norm_num [maxMmrNodes]
        have hone : nodes 1 = 1 := by rw [nodes_eq]; simp
        rw [hmaxLeaves, nodes_add (dvd_refl (2 ^ 62)) (by norm_num), hone, nodes_two_pow, hmaxNodes]
      omega
    rw [mmrLocationToPosition_eq hloc, hpos]

/-! ## Peaks -/

/-- Position and height of a tree, as the guest lists peaks. -/
def peakNode (peak : ℕ × ℕ) : ℕ × ℕ := (summit peak.1 peak.2, peak.1)

/-- The walk finds the trees over the rest of the leaves.  A height takes one pass, and one more
when it has a peak. -/
theorem mmrPeaksLoop_eq {h fuel start m : ℕ} (hstart : 2 ^ h ∣ start) (hm : m < 2 ^ h)
    (hpos : 0 < start + m) (hfuel : 2 * h ≤ fuel) (hpow : pos + 2 = nodes start + 2 ^ h ∨ h = 0) :
    mmrPeaksLoop (nodes (start + m)) fuel pos h = some ((peaks h start m).map peakNode) := by
  induction h generalizing fuel start m pos with
  | zero => cases fuel <;> rfl
  | succ h ih =>
    obtain ⟨fuel, rfl⟩ : ∃ f, fuel = f + 2 := ⟨fuel - 2, by omega⟩
    obtain rfl : pos = summit h start := by
      have := summit_add_two h start
      omega
    have hdouble : 2 ^ (h + 1) = 2 ^ h + 2 ^ h := by ring
    have hone := Nat.two_pow_pos h
    -- Below a height the walk is left of the trees that remain.
    have hlower : ∀ {fuel start m pos}, 2 ^ h ∣ start → m < 2 ^ h → 0 < start + m → 2 * h ≤ fuel →
        pos = summit h start → (checkedSubU64 pos (2 ^ h)).bind
          (fun pos => mmrPeaksLoop (nodes (start + m)) fuel pos h) =
            some ((peaks h start m).map peakNode) := by
      intro fuel start m pos hstart hm hpos hfuel hsummit
      have htop := summit_add_two h start
      have hsome : 2 ^ h ≤ pos := by
        rcases Nat.eq_zero_or_pos h with rfl | hh
        · have := le_nodes start
          simp only [Nat.pow_zero] at *
          omega
        · have : 2 ≤ 2 ^ h := Nat.le_self_pow hh.ne' 2
          omega
      rw [show checkedSubU64 pos (2 ^ h) = some (pos - 2 ^ h) from if_pos hsome, Option.bind_some]
      exact ih hstart hm hpos hfuel (by omega)
    rw [mmrPeaksLoop, peaks]
    by_cases hpeak : 2 ^ h ≤ m
    · obtain ⟨rest, rfl⟩ := Nat.exists_eq_add_of_le hpeak
      have hnext := nodes_add_two_pow hstart
      have hat := summit_add_two h start
      have hat' := summit_add_two h (start + 2 ^ h)
      have hbehind : ¬ summit h start + (2 ^ (h + 1) - 1) < nodes (start + (2 ^ h + rest)) := by
        rw [← Nat.add_assoc, nodes_add (dvd_add_two_pow hstart) (by omega)]
        have := nodes_add_two_le (show rest < 2 ^ h by omega)
        omega
      rw [if_pos ((summit_lt_nodes_iff hstart hm).mpr hpeak), if_pos hpeak, mmrPeaksLoop,
        if_neg hbehind, Nat.add_sub_cancel_left, List.map_cons, ← Nat.add_assoc,
        hlower (dvd_add_two_pow hstart) (by omega) (by omega) (by omega) (by omega)]
      rfl
    · rw [if_neg (mt (summit_lt_nodes_iff hstart hm).mp hpeak), if_neg hpeak]
      exact hlower (dvd_of_dvd_succ hstart) (not_le.mp hpeak) hpos (by omega) rfl

/-- **The peaks of a range** are the trees that its leaves form. -/
theorem exists_mmrPeaks_eq (hn : n ≤ maxMmrLeaves) (hpos : 0 < n) :
    ∃ h ≤ 63, n < 2 ^ h ∧ mmrPeaks (nodes n) = (peaks h 0 n).map peakNode := by
  have hnodes := le_nodes n
  have hbits : bitLength (nodes n) ≤ 63 := bitLength_le (nodes_lt_of_le_max hn)
  have hlt : n < 2 ^ bitLength (nodes n) := hnodes.trans_lt (lt_two_pow_bitLength _)
  have hbig : 2 ≤ 2 ^ bitLength (nodes n) := by
    have := lt_two_pow_bitLength (nodes n)
    omega
  have hloop : mmrPeaksLoop (nodes n) 192 (2 ^ bitLength (nodes n) - 1 - 1) (bitLength (nodes n)) =
      some ((peaks (bitLength (nodes n)) 0 n).map peakNode) := by
    have hroot : 2 ^ bitLength (nodes n) - 1 - 1 + 2 = nodes 0 + 2 ^ bitLength (nodes n) := by
      rw [nodes_zero]
      omega
    have hfuel : 2 * bitLength (nodes n) ≤ 192 := by omega
    simpa only [Nat.zero_add] using
      mmrPeaksLoop_eq (dvd_zero _) hlt (hpos.trans_eq n.zero_add.symm) hfuel (.inl hroot)
  refine ⟨bitLength (nodes n), hbits, hlt, ?_⟩
  rw [mmrPeaks, if_neg (by omega)]
  simp only [if_neg (show bitLength (nodes n) ≠ 64 by omega), hloop, Option.getD_some]

/-- Peaks with their first leaves. -/
def placed : ℕ → List (ℕ × ℕ) → List (ℕ × ℕ × ℕ)
  | _, [] => []
  | cursor, peak :: peaks => (peak.1, peak.2, cursor) :: placed (cursor + 2 ^ peak.2) peaks

theorem placed_peaks {h start m : ℕ} :
    placed start ((peaks h start m).map peakNode) =
      (peaks h start m).map fun peak => (summit peak.1 peak.2, peak.1, peak.2) := by
  induction h generalizing start m with
  | zero => rfl
  | succ h ih =>
    rw [peaks]
    split_ifs
    · simp only [List.map_cons, placed, peakNode]
      exact congrArg _ ih
    · exact ih

/-! ## The arithmetic of positions -/

/-- The guest's range is the forest of its leaves. -/
theorem exists_forest (hn : n ≤ maxMmrLeaves) :
    ∃ h, n < 2 ^ h ∧ mmrPeaks (nodes n) = (peaks h 0 n).map peakNode := by
  rcases Nat.eq_zero_or_pos n with rfl | hpos
  · exact ⟨0, Nat.one_pos, by simp [mmrPeaks, peaks]⟩
  · obtain ⟨h, -, hlt, hpeaks⟩ := exists_mmrPeaks_eq hn hpos
    exact ⟨h, hlt, hpeaks⟩

theorem mmrLeftmostLeaf_forest {height leaf : ℕ} (hn : n ≤ maxMmrLeaves)
    (hnode : (forest n)[pos]? = some (height, leaf)) : mmrLeftmostLeaf pos height = some leaf := by
  obtain ⟨hposition, -, -, hstop⟩ := nodeAt_forest hnode
  simp only [nodes_zero, Nat.zero_add] at hposition hstop
  have hheight : height ≤ 62 := by
    by_contra hbig
    have hpow : 2 ^ 63 ≤ 2 ^ height := Nat.pow_le_pow_right Nat.two_pos (by omega)
    have hmaxLeaves : maxMmrLeaves = 2 ^ 62 := by norm_num [maxMmrLeaves]
    omega
  rw [← hposition]
  exact mmrLeftmostLeaf_summit ((Nat.le_of_add_right_le hstop).trans hn) hheight

/-- **The position arithmetic of the guest is that of the mountain range.**  For every number of
leaves that the guest allows: the peaks are the trees of the set bits, from high to low, with widths
that sum to the leaves and each at the position of the root over its leaves; positions of leaves and
locations are inverse, other positions have no location; and the leftmost leaf of a node is the
first of its leaves. -/
theorem mmr_positions_are_the_forest :
    (∀ n ≤ maxMmrLeaves, ∃ size, mmrLocationToPosition n = some size ∧
      size = (forest n).length ∧
      (∀ height, height ∈ (mmrPeaks size).map Prod.snd ↔ n.testBit height = true) ∧
      ((mmrPeaks size).map Prod.snd).Pairwise (· > ·) ∧
      ((mmrPeaks size).map fun peak => 2 ^ peak.2).sum = n ∧
      ∀ peak ∈ placed 0 (mmrPeaks size), (forest n)[peak.1]? = some (peak.2.1, peak.2.2)) ∧
    (∀ loc < maxMmrLeaves, ∃ pos, mmrLocationToPosition loc = some pos ∧
      (∀ n, loc < n → (forest n)[pos]? = some (0, loc)) ∧ mmrPositionToLocation pos = some loc) ∧
    (∀ pos, (∀ loc, mmrLocationToPosition loc ≠ some pos) → mmrPositionToLocation pos = none) ∧
    ∀ n ≤ maxMmrLeaves, ∀ pos height leaf, (forest n)[pos]? = some (height, leaf) →
      mmrLeftmostLeaf pos height = some leaf := by
  refine ⟨fun n hn => ?_, fun loc hloc => ?_, fun pos hpos => ?_, fun n hn pos height leaf hnode =>
    mmrLeftmostLeaf_forest hn hnode⟩
  · obtain ⟨h, hlt, hpeaks⟩ := exists_forest hn
    have hheights : (mmrPeaks (nodes n)).map Prod.snd = (peaks h 0 n).map Prod.fst := by
      rw [hpeaks, List.map_map]
      rfl
    refine ⟨nodes n, mmrLocationToPosition_eq hn, (length_forest n).symm, fun height => ?_, ?_, ?_,
      fun peak hpeak => ?_⟩
    · rw [hheights, List.mem_map]
      exact exists_mem_peaks_iff hlt
    · rw [hheights, List.pairwise_map]
      exact pairwise_peaks h 0 n
    · rw [hpeaks, List.map_map]
      exact sum_two_pow_peaks hlt
    · rw [hpeaks, placed_peaks] at hpeak
      obtain ⟨tree, htree, rfl⟩ := List.mem_map.mp hpeak
      exact getElem?_forest_of_mem (mem_forest_of_peak hlt htree)
  · refine ⟨nodes loc, mmrLocationToPosition_eq hloc.le, fun n hn => ?_,
      mmrPositionToLocation_nodes hloc.le⟩
    rw [← summit_zero]
    exact getElem?_forest_of_mem (leaf_mem_forest hn)
  · refine Option.eq_none_iff_forall_ne_some.mpr fun loc hloc => ?_
    exact hpos loc (mmrLocationToPosition_of_mmrPositionToLocation hloc)

/-- Seven leaves form trees of four, two and one; node 5 has leaves from 2 on, and no location. -/
theorem mmr_positions_of_seven_leaves :
    mmrPeaks 11 = [(6, 2), (9, 1), (10, 0)] ∧ mmrLocationToPosition 7 = some 11 ∧
      (forest 7)[6]? = some (2, 0) ∧ mmrPositionToLocation 8 = some 5 ∧
      mmrPositionToLocation 5 = none ∧ mmrLeftmostLeaf 5 1 = some 2 := by
  obtain ⟨hpeaks, hlocations, hothers, hleftmost⟩ := mmr_positions_are_the_forest
  have hmax : 7 < maxMmrLeaves := by decide
  obtain ⟨size, hsize, -, -, -, -, hroots⟩ := hpeaks 7 hmax.le
  obtain rfl : 11 = size :=
    Option.some.inj ((by decide : some 11 = mmrLocationToPosition 7).trans hsize)
  obtain ⟨pos, hpos, -, hloc⟩ := hlocations 5 (by decide)
  obtain rfl : 8 = pos :=
    Option.some.inj ((by decide : some 8 = mmrLocationToPosition 5).trans hpos)
  have hfive : ∀ loc, mmrLocationToPosition loc ≠ some 5 := by
    intro loc h
    have hle : loc ≤ maxMmrLeaves := by
      by_contra hbig
      rw [mmrLocationToPosition, if_pos (not_le.mp hbig)] at h
      cases h
    rw [mmrLocationToPosition_eq hle, Option.some.injEq] at h
    have hsmall : loc ≤ 5 := h ▸ le_nodes loc
    rw [← Option.some.injEq, ← mmrLocationToPosition_eq hle] at h
    revert h
    interval_cases loc <;> decide
  have hnode : (forest 7)[5]? = some (1, 2) := by decide
  exact ⟨by decide, hsize, hroots (6, 2, 0) (by decide), hloc, hothers 5 hfive,
    hleftmost 7 hmax.le 5 1 2 hnode⟩

end Sybil.Zk
