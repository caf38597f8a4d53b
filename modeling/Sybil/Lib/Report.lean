import Sybil.Lib.OrdMap

/-!
# Loops that report

A checker walks a list, updates a state and appends what it finds wrong to a list
of reports.  `reportLoop` is that loop.  It is *silent* when nothing was reported,
and a silent loop is the only one a later proof has to look at: `silent_cons`
peels one step off, `silent_append` cuts a run in two, and `invariant_of_silent`
is the induction, so that a fact about every accepted run needs only one fact about
one accepted step.

The second half treats fallible loops in the same way: a successful
`foldlM` in `Except` or `Option` is a chain of successful steps.
-/

namespace Sybil

variable {σ α ε K : Type*}

variable {β : Type}

/-! ## Single checks -/

/-- Report `e` when the check fails. -/
def reportIf (bad : Prop) [Decidable bad] (e : ε) : List ε := if bad then [e] else []

@[simp] theorem reportIf_eq_nil {bad : Prop} [Decidable bad] {e : ε} :
    reportIf bad e = [] ↔ ¬ bad := by
  unfold reportIf
  split_ifs with h <;> simp [h]

/-! ## Loops with a state -/

/-- Run `step` along a list, threading the state and collecting the reports. -/
def reportLoop (step : σ → α → σ × List ε) : σ → List α → σ × List ε
  | s, [] => (s, [])
  | s, a :: l =>
    ((reportLoop step (step s a).1 l).1, (step s a).2 ++ (reportLoop step (step s a).1 l).2)

section ReportLoop

variable {step : σ → α → σ × List ε} {s : σ} {a : α} {l l' : List α}

@[simp] theorem reportLoop_nil : reportLoop step s [] = (s, []) := rfl

theorem reportLoop_cons_fst :
    (reportLoop step s (a :: l)).1 = (reportLoop step (step s a).1 l).1 := rfl

theorem silent_cons :
    (reportLoop step s (a :: l)).2 = [] ↔
      (step s a).2 = [] ∧ (reportLoop step (step s a).1 l).2 = [] :=
  List.append_eq_nil_iff

theorem reportLoop_append_fst :
    (reportLoop step s (l ++ l')).1 = (reportLoop step (reportLoop step s l).1 l').1 := by
  induction l generalizing s with
  | nil => rfl
  | cons a l ih => simpa only [List.cons_append, reportLoop_cons_fst] using ih

theorem silent_append :
    (reportLoop step s (l ++ l')).2 = [] ↔
      (reportLoop step s l).2 = [] ∧ (reportLoop step (reportLoop step s l).1 l').2 = [] := by
  induction l generalizing s with
  | nil => simp
  | cons a l ih => simp only [List.cons_append, silent_cons, reportLoop_cons_fst, ih, and_assoc]

/-- **The invariant rule.**  What every silent step preserves, a silent run preserves. -/
theorem invariant_of_silent {P : σ → Prop} (hsilent : (reportLoop step s l).2 = [])
    (hstep : ∀ t, ∀ a ∈ l, (step t a).2 = [] → P t → P (step t a).1) (h : P s) :
    P (reportLoop step s l).1 := by
  induction l generalizing s with
  | nil => exact h
  | cons a l ih =>
    obtain ⟨ha, hl⟩ := silent_cons.mp hsilent
    exact ih hl (fun t b hb => hstep t b (List.mem_cons_of_mem _ hb))
      (hstep s a List.mem_cons_self ha h)

/-- Each element of a silent run was silent at some state of the run; what the steps preserve
holds there. -/
theorem exists_silent_at {P : σ → Prop} (hsilent : (reportLoop step s l).2 = [])
    (hstep : ∀ t, ∀ a ∈ l, (step t a).2 = [] → P t → P (step t a).1) (h : P s)
    (ha : a ∈ l) : ∃ t, P t ∧ (step t a).2 = [] := by
  obtain ⟨l₁, l₂, rfl⟩ := List.append_of_mem ha
  obtain ⟨h₁, h₂⟩ := silent_append.mp hsilent
  refine ⟨(reportLoop step s l₁).1, ?_, (silent_cons.mp h₂).1⟩
  exact invariant_of_silent h₁ (fun t b hb => hstep t b (List.mem_append_left _ hb)) h

theorem exists_of_mem_reportLoop {e : ε} (h : e ∈ (reportLoop step s l).2) :
    ∃ t a, a ∈ l ∧ e ∈ (step t a).2 := by
  induction l generalizing s with
  | nil => cases h
  | cons a l ih =>
    rcases List.mem_append.mp h with hstep | hrest
    · exact ⟨s, a, List.mem_cons_self .., hstep⟩
    · obtain ⟨t, b, hb, hstep⟩ := ih hrest
      exact ⟨t, b, List.mem_cons_of_mem a hb, hstep⟩

end ReportLoop

/-! ## Collecting a list under distinct keys -/

section CollectKeyed

variable [LinearOrder K] {key : α → K} {dup : α → ε} {l : List α} {k : K} {a : α}

/-- Collect a list into a map, reporting each key that was already present. -/
def collectKeyed (key : α → K) (dup : α → ε) (l : List α) : OrdMap K α × List ε :=
  reportLoop (fun m a => (m.insert (key a) a, reportIf (m.contains (key a) = true) (dup a))) ∅ l

theorem collectKeyed_fst_aux (m : OrdMap K α) :
    (reportLoop (fun m a => (m.insert (key a) a, reportIf (m.contains (key a) = true) (dup a)))
      m l).1 = (l.map fun a => (key a, a)).foldl (fun m e => m.insert e.1 e.2) m := by
  induction l generalizing m with
  | nil => rfl
  | cons a l ih => exact ih _

/-- The collected map does not depend on the reports. -/
theorem collectKeyed_fst :
    (collectKeyed key dup l).1 = OrdMap.ofList (l.map fun a => (key a, a)) :=
  collectKeyed_fst_aux ∅

theorem collectKeyed_silent_aux (m : OrdMap K α) :
    (reportLoop (fun m a => (m.insert (key a) a, reportIf (m.contains (key a) = true) (dup a)))
      m l).2 = [] ↔ (l.map key).Nodup ∧ ∀ a ∈ l, m.get? (key a) = none := by
  induction l generalizing m with
  | nil => simp
  | cons a l ih =>
    rw [silent_cons, ih]
    simp only [reportIf_eq_nil, Bool.not_eq_true, OrdMap.contains_eq_false_iff, List.map_cons,
      List.nodup_cons, List.mem_cons, forall_eq_or_imp, OrdMap.get?_insert, List.mem_map,
      not_exists, not_and]
    constructor
    · rintro ⟨hm, hnd, hl⟩
      refine ⟨⟨fun b hb hk => ?_, hnd⟩, hm, fun b hb => ?_⟩
      · simpa [hk] using hl b hb
      · have := hl b hb
        split_ifs at this
        exact this
    · rintro ⟨⟨hk, hnd⟩, hm, hl⟩
      exact ⟨hm, hnd, fun b hb => by rw [if_neg (hk b hb), hl b hb]⟩

/-- Nothing is reported exactly when the keys are distinct. -/
theorem collectKeyed_silent : (collectKeyed key dup l).2 = [] ↔ (l.map key).Nodup := by
  rw [collectKeyed, collectKeyed_silent_aux]
  simp

/-- The map collected from a list with distinct keys holds its members and nothing else. -/
theorem get?_ofList_key (hl : (l.map key).Nodup) :
    (OrdMap.ofList (l.map fun a => (key a, a))).get? k = some a ↔ a ∈ l ∧ key a = k := by
  rw [OrdMap.get?_ofList_iff (by simpa [List.map_map, Function.comp_def] using hl)]
  simp only [List.mem_map, Prod.mk.injEq]
  constructor
  · rintro ⟨b, hb, rfl, rfl⟩
    exact ⟨hb, rfl⟩
  · rintro ⟨ha, rfl⟩
    exact ⟨a, ha, rfl, rfl⟩

/-- A silent collection holds the members of the list and nothing else. -/
theorem collectKeyed_get? (hsilent : (collectKeyed key dup l).2 = []) :
    (collectKeyed key dup l).1.get? k = some a ↔ a ∈ l ∧ key a = k := by
  rw [collectKeyed_fst]
  exact get?_ofList_key (collectKeyed_silent.mp hsilent)

theorem collectKeyed_contains (hsilent : (collectKeyed key dup l).2 = []) :
    (collectKeyed key dup l).1.contains k = true ↔ k ∈ l.map key := by
  simp only [OrdMap.contains_iff, collectKeyed_get? hsilent, List.mem_map]

theorem collectKeyed_get?_eq_none (hsilent : (collectKeyed key dup l).2 = []) :
    (collectKeyed key dup l).1.get? k = none ↔ ∀ a ∈ l, key a ≠ k := by
  rw [← OrdMap.contains_eq_false_iff, ← Bool.not_eq_true, collectKeyed_contains hsilent,
    List.mem_map]
  push Not
  rfl

omit [LinearOrder K] in
/-- With distinct keys a search by key finds the member. -/
theorem find?_key [DecidableEq K] (hl : (l.map key).Nodup) (ha : a ∈ l) :
    l.find? (fun b => decide (key b = key a)) = some a := by
  induction l with
  | nil => exact absurd ha List.not_mem_nil
  | cons b l ih =>
    rw [List.map_cons, List.nodup_cons] at hl
    rw [List.find?_cons]
    rcases List.mem_cons.mp ha with rfl | ha
    · simp
    · have hne : key b ≠ key a := fun heq => hl.1 (heq ▸ List.mem_map_of_mem ha)
      simp [hne, ih hl.2 ha]

theorem mem_of_get?_ofList_key
    (h : (OrdMap.ofList (l.map fun a => (key a, a))).get? k = some a) : a ∈ l ∧ key a = k := by
  obtain ⟨b, hb, heq⟩ := List.mem_map.mp (OrdMap.mem_of_get?_ofList h)
  obtain ⟨rfl, rfl⟩ := Prod.mk.inj heq
  exact ⟨hb, rfl⟩

end CollectKeyed

/-! ## Fallible steps -/

/-- Take the value of an option, or fail. -/
def okOr {ε α : Type} (x : Option α) (err : ε) : Except ε α :=
  match x with
  | some a => .ok a
  | none => .error err

/-- Go on when a condition holds, or fail. -/
def ensure {ε : Type} (ok : Prop) [Decidable ok] (err : ε) : Except ε Unit :=
  if ok then .ok () else .error err

/-- Run a check on every element, in order. -/
def checkAll {ε α : Type} (check : α → Except ε Unit) : List α → Except ε Unit
  | [] => .ok ()
  | a :: l => do
    check a
    checkAll check l

@[simp] theorem okOr_eq_ok {ε α : Type} {x : Option α} {err : ε} {a : α} :
    okOr x err = .ok a ↔ x = some a := by
  cases x <;> simp [okOr]

@[simp] theorem ensure_eq_ok {ε : Type} {ok : Prop} [Decidable ok] {err : ε} {u : Unit} :
    ensure ok err = .ok u ↔ ok := by
  unfold ensure
  split_ifs with h <;> simp [h]

theorem bind_eq_ok {α : Type} {x : Except ε α} {f : α → Except ε β} {b : β} :
    x >>= f = .ok b ↔ ∃ a, x = .ok a ∧ f a = .ok b := by
  cases x with
  | error e => simp [bind, Except.bind]
  | ok a => simp [bind, Except.bind]

/-- Behind a check whose result nobody reads. -/
theorem eq_ok_of_bind {α : Type} {x : Except ε α} {y : Except ε β} {b : β}
    (h : (x >>= fun _ => y) = .ok b) : y = .ok b := by
  obtain ⟨_, -, h⟩ := bind_eq_ok.mp h
  exact h

@[simp] theorem mapError_eq_ok {ε ε' α : Type} {x : Except ε α} {f : ε → ε'} {a : α} :
    x.mapError f = .ok a ↔ x = .ok a := by
  cases x <;> simp [Except.mapError]

@[simp] theorem toOption_eq_some {ε α : Type} {x : Except ε α} {a : α} :
    x.toOption = some a ↔ x = .ok a := by
  cases x <;> simp [Except.toOption]

@[simp] theorem checkAll_eq_ok {ε α : Type} {check : α → Except ε Unit} {l : List α} {u : Unit} :
    checkAll check l = .ok u ↔ ∀ a ∈ l, check a = .ok () := by
  induction l with
  | nil => simp [checkAll]
  | cons a l ih =>
    rw [checkAll, bind_eq_ok, ih]
    simp only [exists_and_right, List.mem_cons, forall_eq_or_imp]
    exact and_congr_left fun _ => ⟨fun ⟨_, h⟩ => h, fun h => ⟨(), h⟩⟩

/-! ## Fallible loops -/

theorem foldlM_cons_eq_ok {step : β → α → Except ε β} {b b' : β} {a : α} {l : List α} :
    (a :: l).foldlM step b = .ok b' ↔ ∃ c, step b a = .ok c ∧ l.foldlM step c = .ok b' := by
  rw [List.foldlM_cons, bind_eq_ok]

theorem foldlM_append_eq_ok {step : β → α → Except ε β} {b b' : β} {l l' : List α} :
    (l ++ l').foldlM step b = .ok b' ↔
      ∃ c, l.foldlM step b = .ok c ∧ l'.foldlM step c = .ok b' := by
  rw [List.foldlM_append, bind_eq_ok]

/-- What every successful step preserves, a successful loop preserves. -/
theorem invariant_of_foldlM {step : β → α → Except ε β} {b b' : β} {l : List α} {P : β → Prop}
    (hrun : l.foldlM step b = .ok b') (hstep : ∀ c c', ∀ a ∈ l, step c a = .ok c' → P c → P c')
    (h : P b) : P b' := by
  induction l generalizing b with
  | nil =>
    obtain rfl : b = b' := by simpa [pure, Except.pure] using hrun
    exact h
  | cons a l ih =>
    obtain ⟨c, hc, hl⟩ := foldlM_cons_eq_ok.mp hrun
    exact ih hl (fun c c' x hx => hstep c c' x (List.mem_cons_of_mem _ hx))
      (hstep b c a List.mem_cons_self hc h)

theorem foldlM_cons_eq_some {step : β → α → Option β} {b b' : β} {a : α} {l : List α} :
    (a :: l).foldlM step b = some b' ↔ ∃ c, step b a = some c ∧ l.foldlM step c = some b' := by
  rw [List.foldlM_cons, Option.bind_eq_bind, Option.bind_eq_some_iff]

theorem mapM_eq_some_map {f : α → Option β} {g : α → β} {l : List α}
    (h : ∀ a ∈ l, f a = some (g a)) : l.mapM f = some (l.map g) := by
  induction l with
  | nil => rfl
  | cons a l ih =>
    obtain ⟨ha, hl⟩ := List.forall_mem_cons.mp h
    rw [List.mapM_cons, ha, ih hl]
    rfl

/-- A successful `mapM` succeeds on every element. -/
theorem mapM_eq_ok {ε α : Type} {f : α → Except ε β} {l : List α} {r : List β} :
    l.mapM f = .ok r ↔ l.map f = r.map .ok := by
  induction l generalizing r with
  | nil =>
    rw [List.mapM_nil, List.map_nil, eq_comm (a := []), List.map_eq_nil_iff]
    simp [pure, Except.pure, eq_comm]
  | cons a l ih =>
    rw [List.mapM_cons, bind_eq_ok]
    cases r with
    | nil => simp [bind_eq_ok, pure, Except.pure]
    | cons b r =>
      simp only [bind_eq_ok, ih, pure, Except.pure, Except.ok.injEq, List.cons.injEq,
        List.map_cons]
      constructor
      · rintro ⟨b, hb, r, hr, rfl, rfl⟩
        exact ⟨hb, hr⟩
      · rintro ⟨hb, hr⟩
        exact ⟨b, hb, r, hr, rfl, rfl⟩

section CollectDistinct

variable {ε α K : Type} [LinearOrder K] {key : α → K} {dup : α → ε} {l : List α}

/-- Insert under a fresh key, or fail. -/
def insertDistinct (key : α → K) (dup : α → ε) (m : OrdMap K α) (a : α) :
    Except ε (OrdMap K α) :=
  if m.contains (key a) then .error (dup a) else .ok (m.insert (key a) a)

/-- Collect a list into a map, failing at the first key that is already present. -/
def collectDistinct (key : α → K) (dup : α → ε) (l : List α) : Except ε (OrdMap K α) :=
  l.foldlM (insertDistinct key dup) ∅

theorem collectDistinct_aux (m₀ m : OrdMap K α) :
    l.foldlM (insertDistinct key dup) m₀ = .ok m ↔
      reportLoop (fun m a => (m.insert (key a) a, reportIf (m.contains (key a) = true) (dup a)))
        m₀ l = (m, []) := by
  induction l generalizing m₀ with
  | nil => simp [pure, Except.pure]
  | cons a l ih =>
    rw [foldlM_cons_eq_ok]
    by_cases hc : m₀.contains (key a) = true
    · simp [insertDistinct, reportLoop, reportIf, hc]
    · simp [insertDistinct, reportLoop, reportIf, hc, ih]

/-- The collection succeeds exactly on distinct keys, and then holds the list. -/
theorem collectDistinct_eq_ok {m : OrdMap K α} :
    collectDistinct key dup l = .ok m ↔
      (l.map key).Nodup ∧ m = OrdMap.ofList (l.map fun a => (key a, a)) := by
  rw [collectDistinct, collectDistinct_aux]
  change collectKeyed key dup l = (m, []) ↔ _
  rw [Prod.ext_iff, collectKeyed_fst, collectKeyed_silent, and_comm, eq_comm]

end CollectDistinct

end Sybil
