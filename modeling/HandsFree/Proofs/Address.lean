import HandsFree.Address
import Mathlib.Data.List.Basic
import Mathlib.Data.List.TakeWhile

/-! Addresses taken apart. Before the first `#` of an address stands a scheme with its `:` and what follows it, or
    an address without scheme. A scheme is not empty and is free of `:`, `/` and `?`, so an address has at most
    one. The part that is shown as a number is what follows the scheme, or all that stands before the `#`. -/

namespace HandsFree.Address

/-- A fragment starts with `#`. It can be missing. -/
def IsFragment (f : String) : Prop := ∀ c ∈ f.toList.head?, c = '#'

/-- The text `w` is `u` up to its first `#`, or all of `u`. -/
structure BeforeFragment (u w : String) : Prop where
  cut : ∃ f, IsFragment f ∧ u = w ++ f
  free : '#' ∉ w.toList

/-- What can stand before the `:` of a scheme. -/
structure IsScheme (s : String) : Prop where
  nonempty : s ≠ ""
  colon : ':' ∉ s.toList
  slash : '/' ∉ s.toList
  question : '?' ∉ s.toList

/-! ### The fragment -/

theorem withoutFragment_append {w f : List Char} (hw : '#' ∉ w) (hf : ∀ c ∈ f.head?, c = '#') :
    withoutFragment (w ++ f) = w := by
  have hfree : ∀ c ∈ w, (c != '#') = true := by
    intro c hc
    rw [bne_iff_ne]
    rintro rfl
    exact hw hc
  have hnone : f.takeWhile (· != '#') = [] := by
    cases f with
    | nil => rfl
    | cons c f =>
      rw [hf c rfl]
      rfl
  rw [withoutFragment, List.takeWhile_append_of_pos hfree, hnone, List.append_nil]

theorem not_mem_withoutFragment (u : List Char) : '#' ∉ withoutFragment u := by
  intro h
  have hne : ('#' != '#') = true := List.mem_takeWhile_imp (p := (· != '#')) h
  cases hne

theorem beforeFragment_iff {u w : String} : BeforeFragment u w ↔ withoutFragment u.toList = w.toList := by
  constructor
  · rintro ⟨⟨f, hf, rfl⟩, hfree⟩
    rw [String.toList_append, withoutFragment_append hfree hf]
  · intro hw
    refine ⟨⟨String.ofList (u.toList.dropWhile (· != '#')), fun c hc => ?_, ?_⟩, hw ▸ not_mem_withoutFragment u.toList⟩
    · rw [String.toList_ofList] at hc
      have hdrop := List.head?_dropWhile_not (· != '#') u.toList
      rw [Option.mem_def.mp hc] at hdrop
      simpa using hdrop
    · rw [← String.toList_inj, String.toList_append, String.toList_ofList, ← hw, withoutFragment,
        List.takeWhile_append_dropWhile]

/-! ### The scheme -/

theorem isScheme_iff {s : String} : IsScheme s ↔ s.toList ≠ [] ∧ ∀ c ∈ s.toList, endsScheme c = false := by
  have hends : ∀ c, endsScheme c = false ↔ c ≠ ':' ∧ c ≠ '/' ∧ c ≠ '?' := fun c => by simp [endsScheme, and_assoc]
  simp only [hends]
  constructor
  · intro h
    refine ⟨fun hnil => h.nonempty (String.toList_eq_nil_iff.mp hnil), fun c hc => ⟨?_, ?_, ?_⟩⟩
    · rintro rfl
      exact h.colon hc
    · rintro rfl
      exact h.slash hc
    · rintro rfl
      exact h.question hc
  · rintro ⟨hne, hfree⟩
    exact ⟨fun heq => hne (String.toList_eq_nil_iff.mpr heq), fun hc => (hfree _ hc).1 rfl,
      fun hc => (hfree _ hc).2.1 rfl, fun hc => (hfree _ hc).2.2 rfl⟩

theorem afterScheme_append {s r : List Char} (hne : s ≠ []) (hs : ∀ c ∈ s, endsScheme c = false) :
    afterScheme (s ++ ':' :: r) = r := by
  have hfree : ∀ c ∈ s, (!endsScheme c) = true := fun c hc => by rw [hs c hc, Bool.not_false]
  have htake : (s ++ ':' :: r).takeWhile (!endsScheme ·) = s := by
    rw [List.takeWhile_append_of_pos hfree, List.takeWhile_cons_of_neg (by decide), List.append_nil]
  have hdrop : (s ++ ':' :: r).dropWhile (!endsScheme ·) = ':' :: r := by
    rw [List.dropWhile_append_of_pos hfree, List.dropWhile_cons_of_neg (by decide)]
  unfold afterScheme
  rw [htake, hdrop]
  cases s with
  | nil => exact absurd rfl hne
  | cons c s => rfl

theorem afterScheme_eq_self {w : List Char}
    (h : ∀ s r, s ≠ [] → (∀ c ∈ s, endsScheme c = false) → w ≠ s ++ ':' :: r) : afterScheme w = w := by
  unfold afterScheme
  split
  · rename_i c s r htake hdrop
    refine absurd ?_ (h (c :: s) r (List.cons_ne_nil c s) fun d hd => ?_)
    · rw [← htake, ← hdrop, List.takeWhile_append_dropWhile]
    · rw [← htake] at hd
      exact (Bool.not_eq_true' _).mp (List.mem_takeWhile_imp (p := (!endsScheme ·)) hd)
  · rfl

theorem afterScheme_suffix (w : List Char) : afterScheme w <:+ w := by
  by_cases h : ∃ s r, s ≠ [] ∧ (∀ c ∈ s, endsScheme c = false) ∧ w = s ++ ':' :: r
  · obtain ⟨s, r, hne, hs, rfl⟩ := h
    rw [afterScheme_append hne hs]
    exact (List.suffix_cons ':' r).trans (List.suffix_append s _)
  · exact ⟨[], afterScheme_eq_self fun s r hne hs hw => h ⟨s, r, hne, hs, hw⟩⟩

/-! ### The part after the scheme -/

variable {u w s r : String}

theorem toList_append_colon (s r : String) : (s ++ ":" ++ r).toList = s.toList ++ ':' :: r.toList := by
  rw [String.toList_append, String.toList_append, List.append_assoc]
  rfl

theorem toList_schemeSpecificPart (h : BeforeFragment u w) : (schemeSpecificPart u).toList = afterScheme w.toList := by
  rw [schemeSpecificPart, String.toList_ofList, beforeFragment_iff.mp h]

theorem schemeSpecificPart_of_scheme (h : BeforeFragment u (s ++ ":" ++ r)) (hs : IsScheme s) :
    schemeSpecificPart u = r := by
  obtain ⟨hne, hfree⟩ := isScheme_iff.mp hs
  rw [← String.toList_inj, toList_schemeSpecificPart h, toList_append_colon, afterScheme_append hne hfree]

theorem schemeSpecificPart_of_no_scheme (h : BeforeFragment u w) (hno : ∀ s r, IsScheme s → w ≠ s ++ ":" ++ r) :
    schemeSpecificPart u = w := by
  rw [← String.toList_inj, toList_schemeSpecificPart h]
  refine afterScheme_eq_self fun s r hne hs hw => hno (String.ofList s) (String.ofList r) ?_ ?_
  · rw [isScheme_iff, String.toList_ofList]
    exact ⟨hne, hs⟩
  · rw [← String.toList_inj, hw, toList_append_colon, String.toList_ofList, String.toList_ofList]

/-- What follows the scheme ends the text before the fragment. -/
theorem exists_append_schemeSpecificPart (h : BeforeFragment u w) : ∃ before, w = before ++ schemeSpecificPart u := by
  obtain ⟨before, hbefore⟩ := afterScheme_suffix w.toList
  refine ⟨String.ofList before, ?_⟩
  rw [← String.toList_inj, String.toList_append, String.toList_ofList, toList_schemeSpecificPart h, hbefore]

theorem exists_beforeFragment (u : String) : ∃ w, BeforeFragment u w :=
  ⟨String.ofList (withoutFragment u.toList), beforeFragment_iff.mpr String.toList_ofList.symm⟩

/-- Every address is taken apart at the end of its scheme and at the start of its fragment. -/
theorem schemeSpecificPart_exact (u : String) :
    (∃ w, BeforeFragment u w) ∧
    (∀ w, BeforeFragment u w →
      (∀ s r, IsScheme s → w = s ++ ":" ++ r → schemeSpecificPart u = r) ∧
      ((∀ s r, IsScheme s → w ≠ s ++ ":" ++ r) → schemeSpecificPart u = w)) ∧
    '#' ∉ (schemeSpecificPart u).toList ∧
    (∃ before after, u = before ++ schemeSpecificPart u ++ after) ∧
    (':' ∉ u.toList → '#' ∉ u.toList → schemeSpecificPart u = u) ∧
    ∀ s r f, IsScheme s → '#' ∉ s.toList → '#' ∉ r.toList → IsFragment f →
      schemeSpecificPart (s ++ ":" ++ r ++ f) = r := by
  obtain ⟨w, hw⟩ := exists_beforeFragment u
  obtain ⟨before, hbefore⟩ := exists_append_schemeSpecificPart hw
  refine ⟨⟨w, hw⟩, fun w hw => ⟨?_, fun hno => schemeSpecificPart_of_no_scheme hw hno⟩, ?_, ?_, ?_, ?_⟩
  · rintro s r hs rfl
    exact schemeSpecificPart_of_scheme hw hs
  · intro hmem
    refine hw.free ?_
    rw [hbefore, String.toList_append]
    exact List.mem_append_right _ hmem
  · obtain ⟨f, -, hcut⟩ := hw.cut
    exact ⟨before, f, hbefore ▸ hcut⟩
  · intro hcolon hfree
    have hall : BeforeFragment u u := ⟨⟨"", nofun, String.append_empty.symm⟩, hfree⟩
    refine schemeSpecificPart_of_no_scheme hall fun s r _ heq => hcolon ?_
    rw [heq, toList_append_colon]
    exact List.mem_append_right _ List.mem_cons_self
  · intro s r f hs hsfree hrfree hf
    refine schemeSpecificPart_of_scheme ⟨⟨f, hf, rfl⟩, ?_⟩ hs
    rw [toList_append_colon, List.mem_append, List.mem_cons, not_or, not_or]
    exact ⟨hsfree, by decide, hrfree⟩

/-- Neither a second colon nor one in the fragment ends a scheme. -/
theorem schemeSpecificPart_exact_sip : IsScheme "sip" ∧ IsFragment "#x:y" ∧
    schemeSpecificPart ("sip" ++ ":" ++ "a?b:c" ++ "#x:y") = "a?b:c" := by
  have hs : IsScheme "sip" := ⟨by decide, by decide, by decide, by decide⟩
  have hf : IsFragment "#x:y" := by
    rintro c ⟨⟩
    rfl
  obtain ⟨-, -, -, -, -, hparts⟩ := schemeSpecificPart_exact ("sip" ++ ":" ++ "a?b:c" ++ "#x:y")
  exact ⟨hs, hf, hparts "sip" "a?b:c" "#x:y" hs (by decide) (by decide) hf⟩

end HandsFree.Address
