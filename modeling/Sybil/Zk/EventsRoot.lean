import Sybil.Verifier.Completeness
import Sybil.Zk.OperationBinding
import Sybil.Zk.RootBinding

/-!
# The root over the events

The guest computes the events root bottom-up, from the whole list of event strings, as the root of
a mountain range; operation proofs of the state rebuild a root top-down, from one operation and
siblings.  Both are the same function of the elements.

Without collisions among the strings that it hashes, an events root determines the events: the
string of the root fixes the number of leaves, hence the shape, and then each tree determines its
elements.
-/

namespace Sybil.Zk

open HashBinding MountainRange

variable {P : Primitives}

variable {elements events events' operations : List Bytes} {height pos : ℕ}

/-! ## Trees -/

section Trees

variable (P)

/-- What the digest of a complete tree hashes. -/
def treeInputs : ℕ → ℕ → List Bytes → List Bytes
  | 0, pos, ops => [beBytes 8 pos ++ ops.headD []]
  | height + 1, pos, ops =>
    let leftPos := pos - 2 ^ (height + 1)
    let left := ops.take (2 ^ height)
    let right := ops.drop (2 ^ height)
    treeInputs height leftPos left ++
      (treeInputs height (pos - 1) right ++
        [mmrNodeInput pos (treeDigest P height leftPos left) (treeDigest P height (pos - 1) right)])

/-- Digests of trees over consecutive elements. -/
def peaksDigests : List (ℕ × ℕ) → List Bytes → List Digest
  | [], _ => []
  | peak :: peaks, elements =>
    treeDigest P peak.2 peak.1 (elements.take (2 ^ peak.2)) ::
      peaksDigests peaks (elements.drop (2 ^ peak.2))

/-- What the digests of trees over consecutive elements hash. -/
def peaksInputs : List (ℕ × ℕ) → List Bytes → List Bytes
  | [], _ => []
  | peak :: peaks, elements =>
    treeInputs P peak.2 peak.1 (elements.take (2 ^ peak.2)) ++
      peaksInputs peaks (elements.drop (2 ^ peak.2))

end Trees

/-- Elements under a list of peaks. -/
def width (peaks : List (ℕ × ℕ)) : ℕ := (peaks.map fun peak => 2 ^ peak.2).sum

theorem width_cons (peak : ℕ × ℕ) (peaks : List (ℕ × ℕ)) :
    width (peak :: peaks) = 2 ^ peak.2 + width peaks := rfl

/-- The trees have room for their nodes. -/
def Rooted (peaks : List (ℕ × ℕ)) : Prop := ∀ peak ∈ peaks, 2 ^ (peak.2 + 1) - 2 ≤ peak.1

theorem rooted_peakNode (peaks : List (ℕ × ℕ)) : Rooted (peaks.map peakNode) := by
  intro peak hpeak
  obtain ⟨node, -, rfl⟩ := List.mem_map.mp hpeak
  show 2 ^ (node.1 + 1) - 2 ≤ nodes node.2 + (2 ^ (node.1 + 1) - 2)
  omega

theorem computeMmrPeakFromElements_eq (hlength : elements.length = 2 ^ height)
    (hpos : 2 ^ (height + 1) - 2 ≤ pos) :
    computeMmrPeakFromElements P height pos elements = some (treeDigest P height pos elements) := by
  induction height generalizing pos elements with
  | zero =>
    obtain ⟨element, rfl⟩ := List.length_eq_one_iff.mp hlength
    rfl
  | succ height ih =>
    have hpow : 2 ^ (height + 1 + 1) = 2 ^ (height + 1) + 2 ^ (height + 1) := by ring
    have hhalf : 2 ^ (height + 1) = 2 ^ height + 2 ^ height := by ring
    have hone := Nat.two_pow_pos height
    have hleftPos : checkedSubU64 pos (2 ^ (height + 1)) = some (pos - 2 ^ (height + 1)) :=
      if_pos (by omega)
    have hrightPos : checkedSubU64 pos 1 = some (pos - 1) := if_pos (by omega)
    have hleft := @ih (elements.take (2 ^ height)) (pos - 2 ^ (height + 1))
      (by simp [hlength, hhalf]) (by omega)
    have hright := @ih (elements.drop (2 ^ height)) (pos - 1) (by simp [hlength, hhalf]) (by omega)
    simp only [computeMmrPeakFromElements, hleftPos, hrightPos, hleft, hright, bind,
      Option.bind_some]
    rfl

theorem peakDigestsFromElements_eq {peaks : List (ℕ × ℕ)} (hrooted : Rooted peaks)
    (hlength : elements.length = width peaks) :
    peakDigestsFromElements P peaks elements = some (peaksDigests P peaks elements, []) := by
  induction peaks generalizing elements with
  | nil =>
    obtain rfl := List.eq_nil_of_length_eq_zero hlength
    rfl
  | cons peak peaks ih =>
    rw [width_cons] at hlength
    have hpeak : computeMmrPeakFromElements P peak.2 peak.1 (elements.take (2 ^ peak.2)) = _ :=
      computeMmrPeakFromElements_eq (by rw [List.length_take]; omega)
        (hrooted peak List.mem_cons_self)
    have hrest := ih (fun other hother => hrooted other (List.mem_cons_of_mem _ hother))
      (show (elements.drop (2 ^ peak.2)).length = width peaks by rw [List.length_drop]; omega)
    rw [peakDigestsFromElements, if_neg (by omega), hpeak]
    simp only [bind, Option.bind_some, hrest]
    rfl

theorem length_peaksDigests (peaks : List (ℕ × ℕ)) (elements : List Bytes) :
    (peaksDigests P peaks elements).length = peaks.length := by
  induction peaks generalizing elements with
  | nil => rfl
  | cons peak peaks ih => exact congrArg Nat.succ (ih _)

/-- **The root of a list of elements**, as the root over the digests of its trees. -/
theorem computeMmrRootFromElements_eq (hlength : elements.length ≤ maxMmrLeaves) :
    computeMmrRootFromElements P elements =
      mmrRoot P elements.length 0 0
        (peaksDigests P (mmrPeaks (nodes elements.length)) elements) := by
  obtain ⟨h, hlt, hpeaks⟩ := exists_forest hlength
  have hwidth : width (mmrPeaks (nodes elements.length)) = elements.length := by
    rw [hpeaks, width, List.map_map]
    exact sum_two_pow_peaks hlt
  have hdigests := peakDigestsFromElements_eq (P := P) (hpeaks ▸ rooted_peakNode _) hwidth.symm
  rw [computeMmrRootFromElements, mmrLocationToPosition_eq hlength]
  simp only [bind, Option.bind_some, hdigests]
  rfl

/-! ## A root determines its elements -/

theorem treeDigest_inj {ops ops' : List Bytes} (hlength : ops.length = 2 ^ height)
    (hlength' : ops'.length = 2 ^ height)
    (hsep : Separates P.sha256 (treeInputs P height pos ops) (treeInputs P height pos ops'))
    (h : treeDigest P height pos ops = treeDigest P height pos ops') : ops = ops' := by
  induction height generalizing pos ops ops' with
  | zero =>
    obtain ⟨op, rfl⟩ := List.length_eq_one_iff.mp hlength
    obtain ⟨op', rfl⟩ := List.length_eq_one_iff.mp hlength'
    obtain rfl := List.append_cancel_left (hsep.head h)
    rfl
  | succ height ih =>
    have hhalf : 2 ^ (height + 1) = 2 ^ height + 2 ^ height := by ring
    obtain ⟨hleft, hright⟩ := mmrNodeInput_inj (hsep.append_right.append_right.head h)
    have htake := ih (by simp [hlength, hhalf]) (by simp [hlength', hhalf]) hsep.append_left hleft
    have hdrop := ih (by simp [hlength, hhalf]) (by simp [hlength', hhalf])
      hsep.append_right.append_left hright
    rw [← List.take_append_drop (2 ^ height) ops, htake, hdrop, List.take_append_drop]

theorem peaksDigests_inj {peaks : List (ℕ × ℕ)} {elements' : List Bytes}
    (hlength : elements.length = width peaks) (hlength' : elements'.length = width peaks)
    (hsep : Separates P.sha256 (peaksInputs P peaks elements) (peaksInputs P peaks elements'))
    (h : peaksDigests P peaks elements = peaksDigests P peaks elements') :
    elements = elements' := by
  induction peaks generalizing elements elements' with
  | nil =>
    rw [List.eq_nil_of_length_eq_zero hlength, List.eq_nil_of_length_eq_zero hlength']
  | cons peak peaks ih =>
    rw [width_cons] at hlength hlength'
    obtain ⟨hfirst, hrest⟩ := List.cons.inj h
    have htake := treeDigest_inj (by rw [List.length_take]; omega) (by rw [List.length_take]; omega)
      hsep.append_left hfirst
    have hdrop := ih (by rw [List.length_drop]; omega) (by rw [List.length_drop]; omega)
      hsep.append_right hrest
    rw [← List.take_append_drop (2 ^ peak.2) elements, htake, hdrop, List.take_append_drop]

section Inputs

variable (P)

/-- What `computeMmrRootFromElements` hashes. -/
def computeMmrRootInputs (elements : List Bytes) : List Bytes :=
  let peaks := mmrPeaks ((mmrLocationToPosition elements.length).getD 0)
  peaksInputs P peaks elements ++
    mmrRootInputs P elements.length 0 0 (peaksDigests P peaks elements)

/-- The operations of an event list: a commit, the events, and a commit of their number. -/
def eventOperations (events : List Bytes) : Option (List Bytes) := do
  let first ← encodeKeylessCommitOperation none
  let appends ← events.mapM encodeKeylessAppendOperation
  let last ← encodeKeylessCommitOperation (some (leBytes 8 events.length))
  pure ([first] ++ appends ++ [last])

/-- What `eventsRootFromEventBytes` hashes. -/
def eventsRootInputs (events : List Bytes) : List Bytes :=
  ((eventOperations events).map (computeMmrRootInputs P)).getD []

end Inputs

/-- A root is computed within the bounds of the guest only. -/
theorem length_le_of_computeMmrRoot {root : Digest}
    (h : computeMmrRootFromElements P elements = some root) : elements.length ≤ maxMmrLeaves := by
  by_contra hlarge
  rw [computeMmrRootFromElements, mmrLocationToPosition, if_pos (not_le.mp hlarge)] at h
  cases h

/-- **A root determines a list of elements.** -/
theorem computeMmrRootFromElements_inj {elements' : List Bytes} {root : Digest}
    (hne : elements ≠ []) (hne' : elements' ≠ [])
    (h : computeMmrRootFromElements P elements = some root)
    (h' : computeMmrRootFromElements P elements' = some root)
    (hsep : Separates P.sha256 (computeMmrRootInputs P elements)
      (computeMmrRootInputs P elements')) :
    elements = elements' := by
  have hmax := length_le_of_computeMmrRoot h
  have hmax' := length_le_of_computeMmrRoot h'
  have hword : maxMmrLeaves < 2 ^ 64 := by norm_num [maxMmrLeaves]
  rw [computeMmrRootFromElements_eq hmax] at h
  rw [computeMmrRootFromElements_eq hmax'] at h'
  simp only [computeMmrRootInputs, mmrLocationToPosition_eq hmax, mmrLocationToPosition_eq hmax',
    Option.getD_some] at hsep
  have hshape : ∀ {l : List Bytes}, l ≠ [] → l.length ≤ maxMmrLeaves →
      width (mmrPeaks (nodes l.length)) = l.length ∧
        peaksDigests P (mmrPeaks (nodes l.length)) l ≠ [] := by
    intro l hl hle
    obtain ⟨height, hlt, hpeaks⟩ := exists_forest hle
    have hwidth : width (mmrPeaks (nodes l.length)) = l.length := by
      rw [hpeaks, width, List.map_map]
      exact sum_two_pow_peaks hlt
    refine ⟨hwidth, List.ne_nil_of_length_pos ?_⟩
    rw [length_peaksDigests]
    refine List.length_pos_of_ne_nil fun hnil => hl (List.eq_nil_of_length_eq_zero ?_)
    rw [← hwidth, hnil]
    rfl
  obtain ⟨hwidth, hdigests⟩ := hshape hne hmax
  obtain ⟨hwidth', hdigests'⟩ := hshape hne' hmax'
  obtain ⟨hleaves, -⟩ := mmrRoot_size hdigests hdigests' (hmax.trans_lt hword)
    (hmax'.trans_lt hword) (by norm_num) (by norm_num) h h' hsep.append_right
  rw [← hleaves] at h' hsep hwidth' hdigests'
  have hpeaks := mmrRoot_inj (by rw [length_peaksDigests, length_peaksDigests])
    (hmax.trans_lt hword) (by norm_num) h h' hsep.append_right
  exact peaksDigests_inj hwidth.symm (hleaves.symm.trans hwidth'.symm) hsep.append_left hpeaks

/-! ## From below and from above -/

section Bags

variable (P)

/-- Peaks bagged from the right. -/
def bag (digests : List Digest) : Digest :=
  match digests.reverse with
  | [] => 0
  | last :: peaks => chain P.sha256 bagString last peaks

end Bags

theorem bag_append {front back : List Digest} (hback : back ≠ []) :
    bag P (front ++ back) = bag P (front ++ [bag P back]) := by
  obtain ⟨last, peaks, hreverse⟩ := List.exists_cons_of_ne_nil (List.reverse_ne_nil_iff.mpr hback)
  simp only [bag, List.reverse_append, hreverse, List.reverse_singleton, List.cons_append]
  exact List.foldl_append

theorem mmrRoot_zero {leaves : ℕ} {digests : List Digest} (hne : digests ≠ []) :
    mmrRoot P leaves 0 0 digests = some (P.sha256 (rangeRootInput leaves 0 (bag P digests))) := by
  obtain ⟨first, rest, rfl⟩ := List.exists_cons_of_ne_nil hne
  obtain ⟨last, peaks, hreverse⟩ :=
    List.exists_cons_of_ne_nil (List.reverse_ne_nil_iff.mpr (List.cons_ne_nil first rest))
  rw [mmrRoot, if_neg (Nat.not_lt_zero _), Nat.zero_sub, foldInactive]
  simp only [bind, Option.bind_some, hreverse, if_true, bag, rangeRootInput]
  rfl

theorem peaksDigests_append {front back : List (ℕ × ℕ)} :
    peaksDigests P (front ++ back) elements =
      peaksDigests P front elements ++ peaksDigests P back (elements.drop (width front)) := by
  induction front generalizing elements with
  | nil => rfl
  | cons peak front ih =>
    rw [List.cons_append, peaksDigests, ih, List.drop_drop, peaksDigests,
      List.cons_append, width_cons]

section Layouts

variable {startLoc : ℕ} {layout : PeakLayout}

theorem foldl_layoutStep_before {peaks : List (ℕ × ℕ)}
    (h : layout.leafCursor + width peaks ≤ startLoc) :
    peaks.foldl (layoutStep 0 startLoc) layout =
      { layout with
        prefixActive := layout.prefixActive + peaks.length
        leafCursor := layout.leafCursor + width peaks
        peakCount := layout.peakCount + peaks.length } := by
  induction peaks generalizing layout with
  | nil => rfl
  | cons peak peaks ih =>
    rw [width_cons] at h
    have hstep : layoutStep 0 startLoc layout peak =
        { layout with
          prefixActive := layout.prefixActive + 1
          leafCursor := layout.leafCursor + 2 ^ peak.2
          peakCount := layout.peakCount + 1 } := by
      rw [layoutStep]
      simp only [if_pos (show layout.leafCursor + 2 ^ peak.2 ≤ startLoc by omega),
        if_neg (Nat.not_lt_zero layout.peakCount)]
    rw [List.foldl_cons, hstep, ih (by simp only; omega)]
    simp only [List.length_cons, width_cons, PeakLayout.mk.injEq, true_and]
    omega

theorem foldl_layoutStep_after {peaks : List (ℕ × ℕ)} (h : startLoc < layout.leafCursor) :
    peaks.foldl (layoutStep 0 startLoc) layout =
      { layout with
        suffixActive := layout.suffixActive + peaks.length
        leafCursor := layout.leafCursor + width peaks
        peakCount := layout.peakCount + peaks.length } := by
  induction peaks generalizing layout with
  | nil => rfl
  | cons peak peaks ih =>
    have hstep : layoutStep 0 startLoc layout peak =
        { layout with
          suffixActive := layout.suffixActive + 1
          leafCursor := layout.leafCursor + 2 ^ peak.2
          peakCount := layout.peakCount + 1 } := by
      rw [layoutStep]
      have hpos := Nat.two_pow_pos peak.2
      simp only [if_neg (show ¬ layout.leafCursor + 2 ^ peak.2 ≤ startLoc by omega),
        if_pos (show startLoc + 1 ≤ layout.leafCursor from h),
          if_pos (Nat.zero_le layout.peakCount)]
    rw [List.foldl_cons, hstep, ih (Nat.lt_add_right _ h)]
    simp only [List.length_cons, width_cons, PeakLayout.mk.injEq, true_and]
    omega

/-- The layout of a location, without inactive peaks. -/
theorem foldl_layoutStep_split {before after : List (ℕ × ℕ)} {peak : ℕ × ℕ}
    (hunder : Under startLoc peak.2 (width before)) :
    (before ++ peak :: after).foldl (layoutStep 0 startLoc) ⟨0, 0, 0, 0, [], 0, 0⟩ =
      ⟨0, before.length, 0, after.length, [(peak.1, peak.2, width before)],
        width (before ++ peak :: after), (before ++ peak :: after).length⟩ := by
  obtain ⟨hle, hlt⟩ := hunder
  have hwidth : width (before ++ peak :: after) = width before + (2 ^ peak.2 + width after) := by
    rw [width, List.map_append, List.sum_append]
    rfl
  have hstep :
    layoutStep 0 startLoc ⟨0, before.length, 0, 0, [], width before, before.length⟩ peak =
      ⟨0, before.length, 0, 0, [(peak.1, peak.2, width before)], width before + 2 ^ peak.2,
        before.length + 1⟩ := by
    rw [layoutStep]
    simp only [if_neg (not_le.mpr hlt), if_neg (show ¬ startLoc + 1 ≤ width before by omega)]
    rfl
  have hbefore : before.foldl (layoutStep 0 startLoc) ⟨0, 0, 0, 0, [], 0, 0⟩ =
      ⟨0, before.length, 0, 0, [], width before, before.length⟩ := by
    rw [foldl_layoutStep_before (by simpa using hle)]
    simp only [Nat.zero_add]
  rw [List.foldl_append, List.foldl_cons, hbefore, hstep, foldl_layoutStep_after hlt, hwidth,
    List.length_append, List.length_cons]
  simp only [Nat.zero_add, PeakLayout.mk.injEq, true_and]
  omega

end Layouts

/-- The reconstruction from a layout with one tree over the location. -/
theorem reconstruct_of_layout {leaves i b a leafStart count : ℕ} {element : Bytes}
    {front tail siblings : List Digest} {digest : Digest} (hleaves : leaves ≤ maxMmrLeaves)
    (hi : i < leaves)
    (hlayout : peakLayout leaves 0 i = ⟨0, b, 0, a, [(pos, height, leafStart)], leaves, count⟩)
    (hfront : front.length = b) (htail : tail.length = if a = 0 then 0 else 1)
    (hpeak : reconstructPeak P i (i / qmdbChunkBits) 0 height pos leafStart
      ⟨some element, false, siblings⟩ = some (digest, ⟨none, true, []⟩)) :
    reconstructQmdbMmrRoot P leaves 0 (front ++ (tail ++ siblings)) i element 0 =
      mmrRoot P leaves 0 0 (front ++ digest :: tail) := by
  have hstart : (peakLayout leaves 0 i).start (front ++ (tail ++ siblings)) element =
      ⟨some element, false, siblings⟩ := by
    simp only [PeakLayout.start, PeakLayout.siblingsStart, PeakLayout.afterStart,
      PeakLayout.suffixCount, hlayout, if_true, Nat.zero_add, Nat.add_zero, ← hfront, ← htail]
    rw [← List.drop_drop, List.drop_left, List.drop_left]
  have hpeaks : reconstructPeaks P i 0 (peakLayout leaves 0 i).rangePeaks
      ((peakLayout leaves 0 i).start (front ++ (tail ++ siblings)) element) =
      some ([digest], ⟨none, true, []⟩) := by
    rw [hstart, hlayout]
    simp only [reconstructPeaks, hpeak, bind, Option.bind_some]
    rfl
  have hbagged : (peakLayout leaves 0 i).bagged (front ++ (tail ++ siblings)) [digest] =
      front ++ digest :: tail := by
    simp only [PeakLayout.bagged, PeakLayout.afterStart, PeakLayout.suffixCount, hlayout, if_true,
      Nat.zero_add, ← hfront, ← htail]
    rw [List.take_left, List.drop_left, List.take_left, List.append_assoc]
    rfl
  have hshape : ¬ ((peakLayout leaves 0 i).rangePeaks = [] ∨
      (peakLayout leaves 0 i).leafCursor ≠ leaves ∨ (peakLayout leaves 0 i).peakCount < 0) := by
    simp [hlayout]
  have henough : ¬ (front ++ (tail ++ siblings)).length <
    (peakLayout leaves 0 i).siblingsStart := by
    simp only [PeakLayout.siblingsStart, PeakLayout.afterStart, PeakLayout.suffixCount, hlayout,
      if_true, ← htail, List.length_append]
    omega
  have hfold : (peakLayout leaves 0 i).inactiveToFold 0 = some 0 := by
    rw [PeakLayout.inactiveToFold, hlayout]
    rfl
  rw [reconstructQmdbMmrRoot_eq hleaves hi]
  simp only [if_neg hshape, if_neg henough, hpeaks, Option.bind_some, hfold, hbagged]
  simp

/-- **The two computations of a root agree**: for every element there are digests with which the
reconstruction from that element, without inactive peaks and without a chunk, is the root of the
list. -/
theorem exists_reconstruct_eq_compute {i : ℕ} {element : Bytes}
    (hlength : elements.length ≤ maxMmrLeaves) (helement : elements[i]? = some element) :
    ∃ digests root, reconstructQmdbMmrRoot P elements.length 0 digests i element 0 = some root ∧
      computeMmrRootFromElements P elements = some root := by
  obtain ⟨hi, -⟩ := List.getElem?_eq_some_iff.mp helement
  obtain ⟨h, hlt, hpeaks⟩ := exists_forest hlength
  obtain ⟨before, peak, after, hsplit, hstart, hle, hend⟩ :=
    exists_split hlt (Nat.zero_le i) ((Nat.zero_add _).symm ▸ hi)
  have hpeaks' : mmrPeaks (nodes elements.length) =
      before.map peakNode ++ peakNode peak :: after.map peakNode := by
    rw [hpeaks, hsplit, List.map_append, List.map_cons]
  have hwidth : width (before.map peakNode) = peak.2 := by
    rw [hstart, Nat.zero_add, width, List.map_map]
    rfl
  have htotal : width (before.map peakNode ++ peakNode peak :: after.map peakNode) =
      elements.length := by
    rw [← hpeaks', hpeaks, width, List.map_map]
    exact sum_two_pow_peaks hlt
  have hlayout : peakLayout elements.length 0 i =
      ⟨0, before.length, 0, after.length, [(summit peak.1 peak.2, peak.1, peak.2)], elements.length,
        (before.map peakNode ++ peakNode peak :: after.map peakNode).length⟩ := by
    have hunder : Under i (peakNode peak).2 (width (before.map peakNode)) := by
      rw [hwidth]
      exact ⟨hle, hend⟩
    rw [peakLayout_eq hlength, hpeaks', foldl_layoutStep_split hunder, htotal, hwidth,
      List.length_map, List.length_map]
    rfl
  -- The digests of the trees, and the tree over the element.
  let ops := (elements.drop peak.2).take (2 ^ peak.1)
  let front := peaksDigests P (before.map peakNode) elements
  let back := peaksDigests P (after.map peakNode) ((elements.drop peak.2).drop (2 ^ peak.1))
  let digest := treeDigest P peak.1 (summit peak.1 peak.2) ops
  let siblings := treeSiblings P peak.1 (summit peak.1 peak.2) ops (i - peak.2)
  have hdigests : peaksDigests P (mmrPeaks (nodes elements.length)) elements =
      front ++ digest :: back := by
    rw [hpeaks', peaksDigests_append, hwidth]
    rfl
  have hfront : front.length = before.length := by
    rw [length_peaksDigests, List.length_map]
  have hback : back.length = after.length := by
    rw [length_peaksDigests, List.length_map]
  have hops : ops.length = 2 ^ peak.1 := by
    have hpeakWidth : width (before.map peakNode ++ peakNode peak :: after.map peakNode) =
        width (before.map peakNode) + (2 ^ peak.1 + width (after.map peakNode)) := by
      rw [width, List.map_append, List.sum_append]
      rfl
    simp only [ops, List.length_take, List.length_drop]
    omega
  have hop : ops[i - peak.2]? = some element := by
    rw [List.getElem?_take_of_lt (by omega), List.getElem?_drop, Nat.add_sub_cancel' hle, helement]
  -- The trees behind the element come as one digest, or not at all.
  obtain ⟨tail, htail, hbag⟩ : ∃ tail : List Digest,
      tail.length = (if after.length = 0 then 0 else 1) ∧
        bag P (front ++ digest :: back) = bag P (front ++ digest :: tail) := by
    by_cases hafter : after.length = 0
    · have hnil : back = [] := List.eq_nil_of_length_eq_zero (hback.trans hafter)
      exact ⟨[], by rw [if_pos hafter]; rfl, by rw [hnil]⟩
    · have hne : back ≠ [] := List.ne_nil_of_length_pos (by omega)
      refine ⟨[bag P back], by rw [if_neg hafter]; rfl, ?_⟩
      have happend := @bag_append P (front ++ [digest]) back hne
      rwa [List.append_assoc, List.append_assoc] at happend
  refine ⟨front ++ (tail ++ siblings),
    P.sha256 (rangeRootInput elements.length 0 (bag P (front ++ digest :: back))), ?_, ?_⟩
  · have hpeak : reconstructPeak P i (i / qmdbChunkBits) 0 peak.1 (summit peak.1 peak.2) peak.2
        ⟨some element, false, siblings⟩ = some (digest, ⟨none, true, []⟩) := by
      have htree := @reconstructPeak_tree P peak.1 (summit peak.1 peak.2) element i
        (i / qmdbChunkBits) 0 peak.2 (i - peak.2) ops [] (.inr rfl) (Nat.le_add_left _ _) hops
          hop (by omega)
      rwa [List.append_nil] at htree
    rw [reconstruct_of_layout hlength hi hlayout hfront htail hpeak, mmrRoot_zero (by simp), hbag]
  · rw [computeMmrRootFromElements_eq hlength, hdigests, mmrRoot_zero (by simp)]

/-! ## Events -/

theorem encodeKeylessAppendOperation_inj {event event' operation : Bytes}
    (h : encodeKeylessAppendOperation event = some operation)
    (h' : encodeKeylessAppendOperation event' = some operation) : event = event' := by
  simp only [encodeKeylessAppendOperation, bind, Option.bind_eq_some_iff, pure, Option.some.injEq]
    at h h'
  obtain ⟨bytes, hbytes, rfl⟩ := h
  obtain ⟨bytes', hbytes', heq⟩ := h'
  have hcat : bytes ++ [] = bytes' ++ [] := by rw [(List.cons.inj heq).2]
  exact (lenPrefixedBytes_append_inj hbytes hbytes' hcat).1

theorem mapM_append_inj (h : events.mapM encodeKeylessAppendOperation = some operations)
    (h' : events'.mapM encodeKeylessAppendOperation = some operations) : events = events' := by
  induction events generalizing events' operations with
  | nil =>
    rw [List.mapM_nil] at h
    cases h
    cases events' with
    | nil => rfl
    | cons event' events' => simp [List.mapM_cons, Option.bind_eq_some_iff] at h'
  | cons event events ih =>
    simp only [List.mapM_cons, bind, Option.bind_eq_some_iff, pure, Option.some.injEq] at h
    obtain ⟨operation, hoperation, rest, hrest, rfl⟩ := h
    cases events' with
    | nil => simp at h'
    | cons event' events' =>
      simp only [List.mapM_cons, bind, Option.bind_eq_some_iff, pure, Option.some.injEq] at h'
      obtain ⟨operation', hoperation', rest', hrest', heq⟩ := h'
      obtain ⟨rfl, rfl⟩ := List.cons.inj heq
      rw [encodeKeylessAppendOperation_inj hoperation hoperation', ih hrest hrest']

theorem eventsRootFromEventBytes_eq_some {root : Digest} :
    eventsRootFromEventBytes P events = some root ↔ ∃ operations,
      eventOperations events = some operations ∧
        computeMmrRootFromElements P operations = some root := by
  simp only [eventsRootFromEventBytes, eventOperations, bind, Option.bind_eq_some_iff, pure]
  constructor
  · rintro ⟨first, hfirst, appends, happends, last, hlast, hroot⟩
    exact ⟨_, ⟨first, hfirst, appends, happends, last, hlast, rfl⟩, hroot⟩
  · rintro ⟨operations, ⟨first, hfirst, appends, happends, last, hlast, heq⟩, hroot⟩
    rw [Option.some.injEq] at heq
    exact ⟨first, hfirst, appends, happends, last, hlast, heq ▸ hroot⟩

theorem eventOperations_inj (h : eventOperations events = some operations)
    (h' : eventOperations events' = some operations) : events = events' := by
  simp only [eventOperations, bind, Option.bind_eq_some_iff, pure, Option.some.injEq] at h h'
  obtain ⟨first, hfirst, appends, happends, last, hlast, rfl⟩ := h
  obtain ⟨first', hfirst', appends', happends', last', hlast', heq⟩ := h'
  -- The commit in front and the commit behind take one operation each.
  have hmiddle := (List.cons.inj heq).2
  obtain ⟨rfl, -⟩ := List.append_inj' hmiddle rfl
  exact mapM_append_inj happends happends'

theorem eventOperations_ne_nil (h : eventOperations events = some operations) :
    operations ≠ [] := by
  simp only [eventOperations, bind, Option.bind_eq_some_iff, pure, Option.some.injEq] at h
  obtain ⟨first, -, appends, -, last, -, rfl⟩ := h
  simp

/-- **An events root determines the events.** -/
theorem eventsRootFromEventBytes_inj {root : Digest}
    (h : eventsRootFromEventBytes P events = some root)
    (h' : eventsRootFromEventBytes P events' = some root)
    (hsep : Separates P.sha256 (eventsRootInputs P events) (eventsRootInputs P events')) :
    events = events' := by
  obtain ⟨operations, hoperations, hroot⟩ := eventsRootFromEventBytes_eq_some.mp h
  obtain ⟨operations', hoperations', hroot'⟩ := eventsRootFromEventBytes_eq_some.mp h'
  simp only [eventsRootInputs, hoperations, hoperations', Option.map_some, Option.getD_some] at hsep
  obtain rfl := computeMmrRootFromElements_inj (eventOperations_ne_nil hoperations)
    (eventOperations_ne_nil hoperations') hroot hroot' hsep
  exact eventOperations_inj hoperations hoperations'

/-- **The events root determines the event list**, as long as the strings of two computations do
not collide; and for every element of a list there are digests from which the reconstruction finds
the root that is computed from the whole list. -/
theorem events_root_determines_events (P : Primitives) :
    (∀ (events events' : List Bytes) (root : Digest),
      eventsRootFromEventBytes P events = some root →
      eventsRootFromEventBytes P events' = some root →
      CollisionFree P.sha256 (eventsRootInputs P events ++ eventsRootInputs P events') →
      events = events') ∧
    ∀ (elements : List Bytes) (i : ℕ) (element : Bytes), elements[i]? = some element →
      ∃ digests, reconstructQmdbMmrRoot P elements.length 0 digests i element 0 =
          computeMmrRootFromElements P elements ∧
        (elements.length ≤ maxMmrLeaves →
          (computeMmrRootFromElements P elements).isSome = true) := by
  refine ⟨fun events events' root h h' hfree => eventsRootFromEventBytes_inj h h' hfree.separates,
    fun elements i element helement => ?_⟩
  by_cases hlength : elements.length ≤ maxMmrLeaves
  · obtain ⟨digests, root, hreconstruct, hcompute⟩ :=
      @exists_reconstruct_eq_compute P elements i element hlength helement
    exact ⟨digests, hreconstruct.trans hcompute.symm, fun _ => hcompute ▸ rfl⟩
  · -- Neither function accepts so many leaves.
    have hmany := not_le.mp hlength
    refine ⟨[], ?_, fun hle => absurd hle hlength⟩
    rw [reconstructQmdbMmrRoot, if_pos (.inl hmany), computeMmrRootFromElements,
      mmrLocationToPosition, if_pos hmany]
    rfl

/-- The operations of three events, between the two commits. -/
def threeOperations : List Bytes :=
  [[0, 0, 0], [1, 1, 1], [1, 2, 2, 2], [1, 1, 3], [0, 1, 8, 3, 0, 0, 0, 0, 0, 0, 0, 0]]

/-- Strings of the root over them: five leaves, a peak over four of them, and the root. -/
def threeStrings : List Bytes :=
  [beBytes 8 0 ++ [0, 0, 0], beBytes 8 1 ++ [1, 1, 1], mmrNodeInput 2 0 1,
    beBytes 8 3 ++ [1, 2, 2, 2], beBytes 8 4 ++ [1, 1, 3], mmrNodeInput 5 3 4, mmrNodeInput 6 2 5,
    beBytes 8 7 ++ [0, 1, 8, 3, 0, 0, 0, 0, 0, 0, 0, 0], bagString 7 6, rangeRootInput 5 0 8]

/-- No other list with these strings has the root of the three events, and the second of them is
reconstructed. -/
theorem events_root_determines_three_events :
    eventsRootFromEventBytes (Verifier.separating threeStrings) [[1], [2, 2], [3]] = some 9 ∧
      (∀ events, eventsRootFromEventBytes (Verifier.separating threeStrings) events = some 9 →
        eventsRootInputs (Verifier.separating threeStrings) events ⊆ threeStrings →
        events = [[1], [2, 2], [3]]) ∧
      ∃ digests, reconstructQmdbMmrRoot (Verifier.separating threeStrings) 5 0 digests 2
          [1, 2, 2, 2] 0 = some 9 := by
  obtain ⟨hevents, helements⟩ := events_root_determines_events (Verifier.separating threeStrings)
  have hroot : eventsRootFromEventBytes (Verifier.separating threeStrings) [[1], [2, 2], [3]] =
      some 9 := by decide +kernel
  have hinputs : eventsRootInputs (Verifier.separating threeStrings) [[1], [2, 2], [3]] ⊆
      threeStrings := by decide +kernel
  have hfree : CollisionFree (Verifier.separating threeStrings).sha256 threeStrings :=
    fun x _ y hy h => Verifier.separating_inj (by decide) hy h
  refine ⟨hroot, fun events hroot' hinputs' => ?_, ?_⟩
  · have hsubset := List.append_subset.mpr ⟨hinputs', hinputs⟩
    exact hevents events [[1], [2, 2], [3]] 9 hroot' hroot (hfree.mono hsubset hsubset)
  · obtain ⟨digests, hdigests, -⟩ := helements threeOperations 2 [1, 2, 2, 2] rfl
    exact ⟨digests, hdigests.trans hroot⟩

end Sybil.Zk
