import Sybil.Lib.FromBytes

/-!
# Self-delimiting encodings

An encoding is self-delimiting when a reader who sees it at the front of a longer string
knows where it ends and what was encoded.  Records written as the concatenation of such
fields need no framing: the fields are peeled off one by one.

A value may be determined only up to something the encoder does not write, the order of a
list that it sorts or the slots that it skips.  The `view` of a value is what is left.
-/

namespace Sybil

/-- None of the strings is a front of another. -/
def PrefixFree {ι β : Type*} (front : ι → List β) : Prop :=
  ∀ ⦃i j : ι⦄, front i <+: front j → i = j

/-- What stands in front can be read off the string. -/
theorem PrefixFree.eq_of_append {ι β : Type*} {front : ι → List β} (h : PrefixFree front) {i j : ι}
    {s t : List β} (heq : front i ++ s = front j ++ t) : i = j := by
  have hs : front i <+: front j ++ t := ⟨s, heq⟩
  have ht : front j <+: front j ++ t := List.prefix_append _ _
  rcases List.prefix_or_prefix_of_prefix hs ht with hij | hji
  · exact h hij
  · exact (h hji).symm

/-- The encodings of two good values, each followed by anything, agree only if the values have
the same view and the same is followed. -/
def SelfDelimiting {α β γ : Type*} (ok : α → Prop) (view : α → γ) (encode : α → List β) : Prop :=
  ∀ ⦃a a' : α⦄ ⦃s t : List β⦄, ok a → ok a' → encode a ++ s = encode a' ++ t →
    view a = view a' ∧ s = t

namespace SelfDelimiting

variable {α β γ : Type*} {ok : α → Prop} {view : α → γ} {encode : α → List β}

/-- The rule for fields that are written in full: a field and what follows it. -/
theorem split {encode : α → List β} (h : SelfDelimiting ok id encode) {a a' : α} {s t : List β}
    (ha : ok a) (ha' : ok a') (heq : encode a ++ s = encode a' ++ t) : a = a' ∧ s = t :=
  h ha ha' heq

/-- Encodings of one width. -/
theorem of_width {w : ℕ} (hwidth : ∀ a, (encode a).length = w)
    (hinj : ∀ ⦃a a'⦄, ok a → ok a' → encode a = encode a' → view a = view a') :
    SelfDelimiting ok view encode := by
  intro a a' s t ha ha' h
  obtain ⟨hencode, hrest⟩ := List.append_inj h (by rw [hwidth, hwidth])
  exact ⟨hinj ha ha' hencode, hrest⟩

theorem flatMap (h : SelfDelimiting ok view encode) {l l' : List α} {s t : List β}
    (hl : ∀ a ∈ l, ok a) (hl' : ∀ a ∈ l', ok a) (hlength : l.length = l'.length)
    (heq : l.flatMap encode ++ s = l'.flatMap encode ++ t) :
    l.map view = l'.map view ∧ s = t := by
  induction l generalizing l' with
  | nil =>
    obtain rfl := List.length_eq_zero_iff.mp hlength.symm
    exact ⟨rfl, heq⟩
  | cons a l ih =>
    cases l' with
    | nil => cases hlength
    | cons a' l' =>
      rw [List.flatMap_cons, List.flatMap_cons, List.append_assoc, List.append_assoc] at heq
      obtain ⟨hview, heq⟩ := h (hl a List.mem_cons_self) (hl' a' List.mem_cons_self) heq
      obtain ⟨hviews, hrest⟩ := ih (fun x hx => hl x (List.mem_cons_of_mem _ hx))
        (fun x hx => hl' x (List.mem_cons_of_mem _ hx)) (Nat.succ.inj hlength) heq
      exact ⟨by rw [List.map_cons, List.map_cons, hview, hviews], hrest⟩

theorem counted (h : SelfDelimiting ok view encode) {count : ℕ → List β} {fits : ℕ → Prop}
    (hcount : SelfDelimiting fits id count) :
    SelfDelimiting (fun l : List α => fits l.length ∧ ∀ a ∈ l, ok a) (List.map view)
      (fun l => count l.length ++ l.flatMap encode) := by
  rintro l l' s t ⟨hfits, hl⟩ ⟨hfits', hl'⟩ heq
  rw [List.append_assoc, List.append_assoc] at heq
  obtain ⟨hlength, heq⟩ := hcount hfits hfits' heq
  exact h.flatMap hl hl' hlength heq

end SelfDelimiting

/-! ## Numbers, arrays and texts -/

theorem leBytes_selfDelimiting (w : ℕ) : SelfDelimiting (· < 256 ^ w) id (leBytes w) :=
  .of_width (length_leBytes w) fun _ _ => leBytes_inj

theorem leBytesInt_selfDelimiting (w : ℕ) :
    SelfDelimiting (fun x : ℤ => -(256 ^ w : ℕ) ≤ 2 * x ∧ 2 * x < (256 ^ w : ℕ)) id
      (leBytesInt w) := by
  refine .of_width (fun x => length_leBytes w _) fun x y hx hy h => ?_
  have hread := congrArg (fromLeBytesInt w) h
  rwa [fromLeBytesInt_leBytesInt hx.1 hx.2, fromLeBytesInt_leBytesInt hy.1 hy.2] at hread

theorem toBytes_selfDelimiting (n : ℕ) :
    SelfDelimiting (fun _ : FixedBytes n => True) id FixedBytes.toBytes :=
  .of_width FixedBytes.length_toBytes fun a b _ _ h => by
    rw [← FixedBytes.ofBytes_toBytes a, h, FixedBytes.ofBytes_toBytes]

theorem u8_selfDelimiting : SelfDelimiting (· < 2 ^ 8) id (leBytes 1) :=
  leBytes_selfDelimiting 1

theorem u32_selfDelimiting : SelfDelimiting (· < 2 ^ 32) id (leBytes 4) :=
  leBytes_selfDelimiting 4

theorem u64_selfDelimiting : SelfDelimiting (· < 2 ^ 64) id (leBytes 8) :=
  leBytes_selfDelimiting 8

theorem i8_selfDelimiting :
    SelfDelimiting (fun x : ℤ => -2 ^ 7 ≤ x ∧ x < 2 ^ 7) id (leBytesInt 1) :=
  fun _ _ _ _ hx hy => leBytesInt_selfDelimiting 1 (by omega) (by omega)

theorem sized_selfDelimiting (w : ℕ) :
    SelfDelimiting (fun bytes : Bytes => bytes.length < 256 ^ w) id
      (fun bytes => leBytes w bytes.length ++ bytes) := by
  intro a b s t ha hb h
  rw [List.append_assoc, List.append_assoc] at h
  obtain ⟨hlength, h⟩ := leBytes_selfDelimiting w ha hb h
  exact List.append_inj h hlength

theorem text_selfDelimiting (w : ℕ) :
    SelfDelimiting (fun s : String => (utf8 s).length < 256 ^ w) id
      (fun s => leBytes w (utf8 s).length ++ utf8 s) := by
  intro a b s t ha hb h
  obtain ⟨hbytes, hrest⟩ := sized_selfDelimiting w ha hb h
  exact ⟨utf8_injective hbytes, hrest⟩

end Sybil
