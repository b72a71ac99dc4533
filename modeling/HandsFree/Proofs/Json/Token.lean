import HandsFree.Proofs.Json.Grammar

/-! Reading white space, fixed words and numerals. A numeral has no end of its own, so it is read whole only where
    the text after it could not be a part of it. -/

namespace HandsFree.Json
variable {c : Char} {p q : Char → Bool} {r s u w ds fraction exponent rest : List Char}

/-- The text does not start with a character of which `p` holds. -/
def Stops (p : Char → Bool) (s : List Char) : Prop := ∀ c ∈ s.head?, p c = false

theorem stops_cons (h : p c = false) : Stops p (c :: s) := by
  intro d hd
  cases hd
  exact h

theorem Stops.mono (h : Stops p s) (hpq : ∀ c, q c = true → p c = true) : Stops q s := by
  intro c hc
  rw [← Bool.not_eq_true]
  exact fun hq => absurd (hpq c hq) (Bool.eq_false_iff.mp (h c hc))

theorem Stops.append (hs : Stops p s) (hu : ∀ c ∈ u.head?, p c = false) : Stops p (u ++ s) := by
  cases u with
  | nil => exact hs
  | cons c u => exact hu

/-! ### White space and words -/

theorem isBlank_iff : isBlank c = true ↔ c ∈ [' ', '\t', '\n', '\r'] := by simp [isBlank, or_assoc]

theorem skipBlank_append (hu : Blanks u) (hs : Stops isBlank s) : skipBlank (u ++ s) = s :=
  Text.dropWhile_append_of_head (fun c hc => isBlank_iff.mpr (hu c hc)) hs

theorem skipBlank_cons (hu : Blanks u) (hc : isBlank c = false) (s : List Char) : skipBlank (u ++ c :: s) = c :: s :=
  skipBlank_append hu (stops_cons hc)

theorem readWord_append (w rest : List Char) : readWord w (w ++ rest) = .ok rest := by
  induction w with
  | nil => rfl
  | cons c w ih => rw [List.cons_append, readWord, if_pos rfl, ih]

theorem readToken_append (hu : Blanks u) (hc : isBlank c = false) (rest : List Char) :
    readToken c (u ++ c :: rest) = .ok rest := by
  rw [readToken, skipBlank_cons hu hc]
  exact readWord_append [c] rest

/-! ### Numerals -/

/-- The digits after a decimal point, or that point itself. -/
def extendsFraction (c : Char) : Bool := c.isDigit || c == '.'

def extendsNumeral (c : Char) : Bool := extendsFraction c || c == 'e' || c == 'E'

theorem Stops.ofNumeral (hs : Stops extendsNumeral s) : Stops extendsFraction s :=
  hs.mono fun c hc => by simp [extendsNumeral, hc]

theorem Stops.ofFraction (hs : Stops extendsFraction s) : Stops Char.isDigit s :=
  hs.mono fun c hc => by simp [extendsFraction, hc]

/-- White space ends a numeral. -/
theorem stops_blanks (hu : Blanks u) (hs : Stops extendsNumeral s) : Stops extendsNumeral (u ++ s) := by
  have hblank : ([' ', '\t', '\n', '\r'].all (!extendsNumeral ·)) = true := by decide
  exact hs.append fun c hc => (Bool.not_eq_true' _).mp (List.all_eq_true.mp hblank c (hu c (List.mem_of_mem_head? hc)))

theorem readDigits_append (atEnd : Fault) (h : Text.IsDigits ds) (hrest : Stops Char.isDigit rest) :
    readDigits atEnd (ds ++ rest) = .ok (ds, rest) := by
  have htake : (ds ++ rest).takeWhile Char.isDigit = ds := by
    have hnone : rest.takeWhile Char.isDigit = [] := by
      cases rest with
      | nil => rfl
      | cons c rest => exact List.takeWhile_cons_of_neg (Bool.eq_false_iff.mp (hrest c rfl))
    rw [List.takeWhile_append_of_pos h.2, hnone, List.append_nil]
  have hdrop : (ds ++ rest).dropWhile Char.isDigit = rest := Text.dropWhile_append_of_head h.2 hrest
  obtain ⟨d, ds, rfl, hd⟩ := h.exists_cons
  rw [List.cons_append] at htake hdrop ⊢
  rw [readDigits, if_pos hd, htake, hdrop]

theorem readWhole_append (atEnd : Fault) (h : Text.IsDigits ds) (hzero : ds.head? = some '0' → ds = ['0'])
    (hrest : Stops Char.isDigit rest) : readWhole atEnd (ds ++ rest) = .ok (ds, rest) := by
  rw [readWhole, readDigits_append atEnd h hrest]
  split
  · rename_i hds
    cases hds
    cases hzero rfl
  · rfl

theorem readFraction_append (atEnd : Fault) (h : IsFraction fraction) (hrest : Stops extendsFraction rest) :
    ∃ ds, readFraction atEnd (fraction ++ rest) = .ok (ds, rest) := by
  cases h with
  | none =>
    refine ⟨[], ?_⟩
    rw [List.nil_append, readFraction]
    rintro s rfl
    exact absurd (hrest '.' rfl) (by decide)
  | digits h => exact ⟨_, readDigits_append atEnd h hrest.ofFraction⟩

theorem readSign_append {sign : List Char} (hs : sign = [] ∨ sign = ['+'] ∨ sign = ['-']) (h : Text.IsDigits ds) :
    (readSign (sign ++ (ds ++ rest))).2 = ds ++ rest := by
  rcases hs with rfl | rfl | rfl
  · obtain ⟨d, ds, rfl, hd⟩ := h.exists_cons
    rw [List.nil_append, List.cons_append]
    unfold readSign
    split
    · rename_i hminus
      cases hminus
      cases hd
    · rename_i hplus
      cases hplus
      cases hd
    · rfl
  · rfl
  · rfl

theorem readExponent_append (atEnd : Fault) (h : IsExponent exponent) (hrest : Stops extendsNumeral rest) :
    ∃ lowers ds, readExponent atEnd (exponent ++ rest) = .ok (lowers, ds, rest) := by
  cases h with
  | none =>
    refine ⟨false, [], ?_⟩
    cases rest with
    | nil => rfl
    | cons c rest =>
      have hc : ¬(c = 'e' || c = 'E') = true := by
        have hstop := hrest c rfl
        simp only [extendsNumeral, Bool.or_eq_false_iff, beq_eq_false_iff_ne] at hstop
        simp [hstop]
      rw [List.nil_append, readExponent, if_neg hc]
  | @digits e sign ds he hs h =>
    have he' : (e = 'e' || e = 'E') = true := by simpa using he
    refine ⟨(readSign (sign ++ (ds ++ rest))).1, ds, ?_⟩
    rw [List.append_assoc, List.cons_append, readExponent, if_pos he', readSign_append hs h,
      readDigits_append atEnd h hrest.ofNumeral.ofFraction]
    rfl

theorem IsFraction.stops (h : IsFraction fraction) (hrest : Stops Char.isDigit rest) :
    Stops Char.isDigit (fraction ++ rest) := by
  cases h with
  | none => exact hrest
  | digits => exact stops_cons rfl

theorem IsExponent.stops (h : IsExponent exponent) (hrest : Stops extendsNumeral rest) :
    Stops extendsFraction (exponent ++ rest) := by
  cases h with
  | none => exact hrest.ofNumeral
  | digits he =>
    refine stops_cons ?_
    rcases he with rfl | rfl <;> rfl

theorem dropMinus_append {sign : List Char} (hs : sign = [] ∨ sign = ['-']) (h : Text.IsDigits ds) :
    dropMinus (sign ++ (ds ++ rest)) = ds ++ rest := by
  rcases hs with rfl | rfl
  · obtain ⟨d, ds, rfl, hd⟩ := h.exists_cons
    rw [List.nil_append, List.cons_append]
    unfold dropMinus
    split
    · rename_i hminus
      cases hminus
      cases hd
    · rfl
  · rfl

theorem readNumeral_append (atEnd : Fault) (h : IsNumeral w) (hrest : Stops extendsNumeral rest) :
    ∃ n, readNumeral atEnd (w ++ rest) = .ok (n, rest) := by
  rcases h with @⟨sign, whole, fraction, exponent, hs, hw, hzero, hf, he⟩
  obtain ⟨ds, hfraction⟩ := readFraction_append atEnd hf (he.stops hrest)
  obtain ⟨lowers, es, hexponent⟩ := readExponent_append atEnd he hrest
  have hwhole := readWhole_append atEnd hw hzero (hf.stops (he.stops hrest).ofFraction)
  refine ⟨⟨whole, ds, lowers, es⟩, ?_⟩
  simp only [List.append_assoc, readNumeral, dropMinus_append hs hw, hwhole, hfraction, hexponent, bind, Except.bind]

theorem isDigit_or_minus (h : IsNumeral w) : ∃ c r, w = c :: r ∧ (c = '-' || c.isDigit) = true := by
  obtain ⟨hs, hw, -, -, -⟩ := h
  rcases hs with rfl | rfl
  · obtain ⟨d, ds, rfl, hd⟩ := hw.exists_cons
    exact ⟨d, _, rfl, by simp [hd]⟩
  · exact ⟨'-', _, rfl, rfl⟩

end HandsFree.Json
