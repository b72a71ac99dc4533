import HandsFree.AtCommand
import HandsFree.Proofs.Text
import Mathlib.Data.List.Infix

/-! The parts of an AT command and the text that is cut into them. The delimiters are looked for one after the other,
    and each of them anywhere in the text. So a text is cut into parts if and only if they make up the text, the
    delimiter of their kind stands at the end of the name for the first time, and no delimiter that is looked for
    earlier stands anywhere. -/

namespace HandsFree.AtCommand
variable {b n w : List Char}

namespace Parts
variable {p : Parts}

/-- The text that the parts make up. -/
def text (p : Parts) : List Char := p.name ++ (p.kind.delimiter ++ p.arguments)

/-- The parts are those that their text is cut into. -/
def Fits (p : Parts) : Prop :=
  match p.kind with
  | .test => ¬['=', '?'] <:+: p.name
  | .query => '?' ∉ p.name ∧ ¬['=', '?'] <:+: p.text
  | .set => '=' ∉ p.name ∧ '?' ∉ p.text
  | .execute => '=' ∉ p.name ∧ '?' ∉ p.name ∧ p.arguments = []

/-! ### One delimiter -/

theorem ofKind?_eq_none_iff {k : AtKind} (hk : k.delimiter ≠ []) : ofKind? k b = none ↔ ¬k.delimiter <:+: b := by
  rw [ofKind?, Option.map_eq_none_iff, Text.cutAt?_eq_none_iff hk]

theorem ofKind?_eq_some_iff {k : AtKind} (hk : k.delimiter ≠ []) :
    ofKind? k b = some p ↔ p.kind = k ∧ p.text = b ∧ ¬k.delimiter <:+: p.name ++ k.delimiter.dropLast := by
  rw [ofKind?, Option.map_eq_some_iff]
  constructor
  · rintro ⟨⟨n, w⟩, hcut, rfl⟩
    obtain ⟨rfl, hfirst⟩ := (Text.cutAt?_eq_some_iff hk).mp hcut
    exact ⟨rfl, (List.append_assoc _ _ _).symm, hfirst⟩
  · rintro ⟨rfl, rfl, hfirst⟩
    exact ⟨(p.name, p.arguments), (Text.cutAt?_eq_some_iff hk).mpr ⟨(List.append_assoc _ _ _).symm, hfirst⟩, rfl⟩

theorem test_infix_concat_iff : ['=', '?'] <:+: n ++ ['='] ↔ ['=', '?'] <:+: n := by
  rw [List.infix_concat_iff, List.suffix_concat_iff]
  refine or_iff_right ?_
  rintro (h | ⟨r, hr, -⟩)
  · cases h
  · have hlast := congrArg List.getLast? hr
    rw [List.getLast?_concat] at hlast
    cases hlast

theorem ofKind?_test_eq_some_iff :
    ofKind? .test b = some p ↔ p.kind = .test ∧ p.text = b ∧ ¬['=', '?'] <:+: p.name := by
  rw [ofKind?_eq_some_iff (by decide), ← test_infix_concat_iff]
  rfl

theorem ofKind?_single_eq_some_iff {k : AtKind} {x : Char} (hk : k.delimiter = [x]) :
    ofKind? k b = some p ↔ p.kind = k ∧ p.text = b ∧ x ∉ p.name := by
  rw [ofKind?_eq_some_iff (hk ▸ List.cons_ne_nil x []), hk, List.dropLast_singleton, List.append_nil,
    List.singleton_infix_iff]

theorem not_test_of_not_query (h : '?' ∉ b) : ¬['=', '?'] <:+: b := fun ht => h (ht.subset (by decide))

theorem ofKind?_test_of_not_query (h : '?' ∉ b) : ofKind? .test b = none :=
  (ofKind?_eq_none_iff (by decide)).mpr (not_test_of_not_query h)

theorem ofKind?_single_eq_none_iff {k : AtKind} {x : Char} (hk : k.delimiter = [x]) :
    ofKind? k b = none ↔ x ∉ b := by
  rw [ofKind?_eq_none_iff (hk ▸ List.cons_ne_nil x []), hk, List.singleton_infix_iff]

/-- A name without the start of `=?` leaves the delimiter of a test to what follows the question mark. -/
theorem test_infix_query_iff (hn : '=' ∉ n) : ['=', '?'] <:+: n ++ '?' :: w ↔ ['=', '?'] <:+: w := by
  rw [Text.infix_append_iff hn, List.infix_cons_iff]
  refine or_iff_right fun hp => ?_
  cases (List.cons_prefix_cons.mp hp).1

/-! ### The whole text -/

/-- The text of parts that fit is cut into them again. -/
theorem ofBody_text (h : p.Fits) : ofBody p.text = p := by
  obtain ⟨k, n, w⟩ := p
  cases k with
  | test =>
    have ht : ofKind? .test (text ⟨.test, n, w⟩) = some ⟨.test, n, w⟩ := ofKind?_test_eq_some_iff.mpr ⟨rfl, rfl, h⟩
    rw [ofBody, ht]
    rfl
  | query =>
    have ht : ofKind? .test (text ⟨.query, n, w⟩) = none := (ofKind?_eq_none_iff (by decide)).mpr h.2
    have hq : ofKind? .query (text ⟨.query, n, w⟩) = some ⟨.query, n, w⟩ :=
      (ofKind?_single_eq_some_iff rfl).mpr ⟨rfl, rfl, h.1⟩
    rw [ofBody, ht, hq]
    rfl
  | set =>
    have hs : ofKind? .set (text ⟨.set, n, w⟩) = some ⟨.set, n, w⟩ :=
      (ofKind?_single_eq_some_iff rfl).mpr ⟨rfl, rfl, h.1⟩
    rw [ofBody, ofKind?_test_of_not_query h.2, (ofKind?_single_eq_none_iff rfl).mpr h.2, hs]
    rfl
  | execute =>
    obtain ⟨hset, hquery, hw⟩ := h
    obtain rfl : w = [] := hw
    have htext : text ⟨.execute, n, []⟩ = n := List.append_nil n
    rw [htext, ofBody, ofKind?_test_of_not_query hquery, (ofKind?_single_eq_none_iff rfl).mpr hquery,
      (ofKind?_single_eq_none_iff rfl).mpr hset]
    rfl

/-- Every text is cut into parts that fit and make it up again. -/
theorem text_ofBody (b : List Char) : (ofBody b).text = b ∧ (ofBody b).Fits := by
  unfold ofBody
  cases ht : ofKind? .test b with
  | some p =>
    obtain ⟨k, n, w⟩ := p
    obtain ⟨rfl, htext, hname⟩ := ofKind?_test_eq_some_iff.mp ht
    exact ⟨htext, hname⟩
  | none =>
    have htest : ¬['=', '?'] <:+: b := (ofKind?_eq_none_iff (by decide)).mp ht
    cases hq : ofKind? .query b with
    | some p =>
      obtain ⟨k, n, w⟩ := p
      obtain ⟨rfl, rfl, hname⟩ := (ofKind?_single_eq_some_iff rfl).mp hq
      exact ⟨rfl, hname, htest⟩
    | none =>
      have hquery : '?' ∉ b := (ofKind?_single_eq_none_iff rfl).mp hq
      cases hs : ofKind? .set b with
      | some p =>
        obtain ⟨k, n, w⟩ := p
        obtain ⟨rfl, rfl, hname⟩ := (ofKind?_single_eq_some_iff rfl).mp hs
        exact ⟨rfl, hname, hquery⟩
      | none =>
        exact ⟨List.append_nil b, (ofKind?_single_eq_none_iff rfl).mp hs, hquery, rfl⟩

theorem ofBody_eq_iff : ofBody b = p ↔ p.text = b ∧ p.Fits := by
  constructor
  · rintro rfl
    exact text_ofBody b
  · rintro ⟨rfl, h⟩
    exact ofBody_text h

/-- The kind of a command, by the first of the delimiters that stands anywhere in its text. -/
def kindOf (b : List Char) : AtKind :=
  if ['=', '?'] <:+: b then .test else if '?' ∈ b then .query else if '=' ∈ b then .set else .execute

theorem Fits.kind_eq (h : p.Fits) : p.kind = kindOf p.text := by
  obtain ⟨k, n, w⟩ := p
  cases k with
  | test =>
    have htest : ['=', '?'] <:+: text ⟨.test, n, w⟩ := ⟨n, w, List.append_assoc n _ w⟩
    rw [kindOf, if_pos htest]
  | query =>
    have hquery : '?' ∈ text ⟨.query, n, w⟩ := List.mem_append_right n List.mem_cons_self
    rw [kindOf, if_neg h.2, if_pos hquery]
  | set =>
    have hset : '=' ∈ text ⟨.set, n, w⟩ := List.mem_append_right n List.mem_cons_self
    rw [kindOf, if_neg (not_test_of_not_query h.2), if_neg h.2, if_pos hset]
  | execute =>
    obtain ⟨hset, hquery, hw⟩ := h
    obtain rfl : w = [] := hw
    have htext : text ⟨.execute, n, []⟩ = n := List.append_nil n
    rw [htext, kindOf, if_neg (not_test_of_not_query hquery), if_neg hquery, if_neg hset]

end Parts

/-! ### Arguments -/

theorem arguments_of_ne_nil (h : w ≠ []) :
    arguments w = some ((w.splitOn ',').map fun piece => String.ofList (Text.trim piece)) :=
  if_neg fun hempty => h (List.isEmpty_iff.mp hempty)

theorem arguments_eq_none_iff : arguments w = none ↔ w = [] := by
  rw [arguments, ite_eq_left_iff, List.isEmpty_iff]
  simp

/-- Pieces without a comma are read from the text that joins them by commas. -/
theorem arguments_intercalate {pieces : List (List Char)} (h : ∀ piece ∈ pieces, ',' ∉ piece)
    (hne : [','].intercalate pieces ≠ []) :
    arguments ([','].intercalate pieces) = some (pieces.map fun piece => String.ofList (Text.trim piece)) := by
  have hpieces : pieces ≠ [] := by
    rintro rfl
    exact hne rfl
  rw [arguments_of_ne_nil hne, List.splitOn_intercalate ',' h hpieces]

/-! ### The start of a text -/

/-- What may stand before the command `b`: one `AT` and one `+`, and where either of them is missing, the command
    does not start with it. After a `+` that stands alone it may start with anything. -/
inductive Start : List Char → List Char → Prop
  | whole (b : List Char) : Start "AT+".toList b
  | plus (b : List Char) : Start "+".toList b
  | letters {b : List Char} (plus : ¬"+".toList <+: b) : Start "AT".toList b
  | none {b : List Char} (letters : ¬"AT".toList <+: b) (plus : ¬"+".toList <+: b) : Start [] b

theorem body_eq_iff_trim {s b : List Char} : body s = b ↔ ∃ start, Start start b ∧ Text.trim s = start ++ b := by
  rw [body, Text.dropStart_eq_iff, Text.dropStart_eq_iff, Text.dropStart_eq_iff]
  constructor
  · rintro ((hs | ⟨-, hs⟩) | ⟨hplus, hs | ⟨hletters, hs⟩⟩)
    · exact ⟨_, .whole b, hs⟩
    · exact ⟨_, .plus b, hs⟩
    · exact ⟨_, .letters hplus, hs⟩
    · exact ⟨_, .none hletters hplus, hs⟩
  · rintro ⟨start, hstart, hs⟩
    cases hstart with
    | whole => exact Or.inl (Or.inl hs)
    | plus =>
      refine Or.inl (Or.inr ⟨fun hletters => ?_, hs⟩)
      cases (List.cons_prefix_cons.mp hletters).1
    | letters hplus => exact Or.inr ⟨hplus, Or.inl hs⟩
    | none hletters hplus => exact Or.inr ⟨hplus, Or.inr ⟨hletters, hs⟩⟩

/-- A command is what is left of a text between white space at its ends, one `AT` and one `+`. -/
theorem body_eq_iff {s b : List Char} :
    body s = b ↔ ∃ start, Start start b ∧ Text.Trimmed (start ++ b) ∧
      ∃ u v, s = u ++ (start ++ b) ++ v ∧ (∀ c ∈ u, Text.isBlank c = true) ∧ ∀ c ∈ v, Text.isBlank c = true := by
  simp only [body_eq_iff_trim, Text.trim_eq_iff]

/-- The texts that hold no command. -/
def emptyTexts : List (List Char) := ["AT+".toList, "+".toList, "AT".toList, "".toList]

theorem start_nil_iff {start : List Char} : Start start [] ↔ start ∈ emptyTexts := by
  constructor
  · rintro (_ | _ | _ | _) <;> decide
  · intro h
    simp only [emptyTexts, List.mem_cons, List.not_mem_nil, or_false] at h
    rcases h with rfl | rfl | rfl | rfl
    · exact .whole []
    · exact .plus []
    · exact .letters (by decide)
    · exact .none (by decide) (by decide)

theorem body_eq_nil_iff {s : List Char} : body s = [] ↔ Text.trim s ∈ emptyTexts := by
  simp only [body_eq_iff_trim, List.append_nil, start_nil_iff, exists_eq_right']

/-! ### Reading -/

variable {text : String}

theorem ofText_of_body_eq_nil (h : body text.toList = []) : ofText text = .error (.malformed "empty AT command") := by
  rw [ofText, h]

theorem ofText_of_body_ne_nil (h : body text.toList ≠ []) :
    ofText text =
      let p := Parts.ofBody (body text.toList)
      .ok ⟨text, p.kind, String.ofList p.name, arguments p.arguments⟩ := by
  unfold ofText
  cases hb : body text.toList with
  | nil => exact absurd hb h
  | cons x r => rfl

theorem ofText_of_fits {p : Parts} (h : p.Fits) (hb : body text.toList = p.text) (hne : p.text ≠ []) :
    ofText text = .ok ⟨text, p.kind, String.ofList p.name, arguments p.arguments⟩ := by
  rw [ofText_of_body_ne_nil (hb ▸ hne), Parts.ofBody_eq_iff.mpr ⟨hb.symm, h⟩]

end HandsFree.AtCommand
