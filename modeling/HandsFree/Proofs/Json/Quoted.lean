import HandsFree.Proofs.Json.Grammar

/-! Reading a text in quotes: every spelling of a text is read as that text, and every text of the grammar can be
    passed over. -/

namespace HandsFree.Json
variable {c letter : Char} {s u v w done rest : List Char} {n : Nat}

/-! ### Escapes -/

theorem hexValue?_of_mem_hexDigits : ∀ x ∈ hexDigits, hexValue? x.1 = some x.2 := by decide

theorem shortEscape?_of_mem_shortEscapes : ∀ e ∈ shortEscapes, e.1 ≠ 'u' ∧ shortEscape? e.1 = some e.2 := by decide

theorem readUnit_append (h : IsUnit n u) (rest : List Char) : readUnit (u ++ rest) = .ok (n, rest) := by
  rcases h with ⟨ha, hb, hc, hd⟩
  have hi := hexValue?_of_mem_hexDigits _ ha
  have hj := hexValue?_of_mem_hexDigits _ hb
  have hk := hexValue?_of_mem_hexDigits _ hc
  have hl := hexValue?_of_mem_hexDigits _ hd
  dsimp only at hi hj hk hl
  simp only [List.cons_append, List.nil_append, readUnit, hi, hj, hk, hl]
  congr 2
  omega

theorem isLowSurrogate_iff : isLowSurrogate n = true ↔ 0xDC00 ≤ n ∧ n < 0xE000 := by simp [isLowSurrogate]

theorem isHighSurrogate_iff : isHighSurrogate n = true ↔ 0xD800 ≤ n ∧ n < 0xDC00 := by simp [isHighSurrogate]

/-- No character is a surrogate. -/
theorem not_isSurrogate (c : Char) : isLowSurrogate c.toNat = false ∧ isHighSurrogate c.toNat = false := by
  have hvalid := c.valid
  change c.toNat < 0xD800 ∨ 0xDFFF < c.toNat ∧ c.toNat < 0x110000 at hvalid
  rw [← Bool.not_eq_true, ← Bool.not_eq_true, isLowSurrogate_iff, isHighSurrogate_iff]
  omega

theorem readUnicode_unit (h : IsUnit c.toNat u) (rest : List Char) : readUnicode (u ++ rest) = .ok (c, rest) := by
  obtain ⟨hlow, hhigh⟩ := not_isSurrogate c
  simp only [readUnicode, readUnit_append h, bind, Except.bind, hlow, hhigh, Bool.false_eq_true, if_false,
    Char.ofNat_toNat]

theorem readUnicode_pair {high low : Nat} (hhigh : 0xD800 ≤ high ∧ high < 0xDC00)
    (hlow : 0xDC00 ≤ low ∧ low < 0xE000) (hu : IsUnit high u) (hv : IsUnit low v)
    (hc : c.toNat = 0x10000 + (high - 0xD800) * 0x400 + (low - 0xDC00)) (rest : List Char) :
    readUnicode (u ++ '\\' :: 'u' :: v ++ rest) = .ok (c, rest) := by
  have hfirst : readUnit (u ++ ('\\' :: 'u' :: v ++ rest)) = .ok (high, '\\' :: 'u' :: (v ++ rest)) :=
    readUnit_append hu _
  have hnotLow : isLowSurrogate high = false := by
    rw [← Bool.not_eq_true, isLowSurrogate_iff]
    omega
  have hchar : pairChar high low = c := by rw [pairChar, ← hc, Char.ofNat_toNat]
  rw [List.append_assoc, readUnicode, hfirst]
  simp only [bind, Except.bind, hnotLow, isHighSurrogate_iff.mpr hhigh, readWord, Bool.false_eq_true, if_false,
    if_true, readUnit_append hv, isLowSurrogate_iff.mpr hlow, hchar]

theorem readEscape_unicode (h : readUnicode s = .ok (c, rest)) : readEscape ('u' :: s) = .ok (c, rest) := by
  rw [readEscape, if_pos rfl, h]

theorem readEscape_short (h : (letter, c) ∈ shortEscapes) (rest : List Char) :
    readEscape (letter :: rest) = .ok (c, rest) := by
  obtain ⟨hne, hescape⟩ := shortEscape?_of_mem_shortEscapes _ h
  rw [readEscape, if_neg hne, hescape]

theorem skipEscape_short {e : Char × Char} (h : e ∈ shortEscapes) (rest : List Char) :
    skipEscape (e.1 :: rest) = .ok rest := by
  obtain ⟨hne, hescape⟩ := shortEscape?_of_mem_shortEscapes _ h
  rw [skipEscape, if_neg hne, hescape, Option.isSome_some, if_pos rfl]

theorem skipEscape_unit (h : IsUnit n u) (rest : List Char) : skipEscape ('u' :: (u ++ rest)) = .ok rest := by
  rw [skipEscape, if_pos rfl, readUnit_append h]
  rfl

theorem not_isControl (h : IsPlain c) : isControl c = false := by
  have hcontrol := h.2.2
  rw [isControl, decide_eq_false_iff_not]
  omega

/-! ### Texts that are wanted -/

theorem readChars_quote (done rest : List Char) : readChars done ('"' :: rest) = .ok (done.reverse, rest) := by
  rw [readChars, if_pos rfl]

theorem readChars_plain (h : IsPlain c) (done rest : List Char) :
    readChars done (c :: rest) = readChars (c :: done) rest := by
  rw [readChars, if_neg h.1, if_neg h.2.1, not_isControl h]
  rfl

theorem readChars_escape (h : readEscape s = .ok (c, rest)) (done : List Char) :
    readChars done ('\\' :: s) = readChars (c :: done) rest := by
  rw [readChars, if_neg (by decide), if_pos rfl]
  split
  · rename_i d r hd
    rw [h] at hd
    cases hd
    rfl
  · rename_i e he
    rw [h] at he
    cases he

theorem readChars_spells (h : Spells c v) (done rest : List Char) :
    readChars done (v ++ rest) = readChars (c :: done) rest := by
  rcases h with hc | he | hu | ⟨hhigh, hlow, hu, hv, hc⟩
  · exact readChars_plain hc done rest
  · exact readChars_escape (readEscape_short he rest) done
  · exact readChars_escape (readEscape_unicode (readUnicode_unit hu rest)) done
  · exact readChars_escape (readEscape_unicode (readUnicode_pair hhigh hlow hu hv hc rest)) done

theorem readChars_spellsAll (h : SpellsAll s w) (done rest : List Char) :
    readChars done (w ++ rest) = readChars (s.reverse ++ done) rest := by
  induction h generalizing done with
  | nil => rfl
  | cons hc _ ih =>
    rw [List.append_assoc, readChars_spells hc, ih, List.reverse_cons, List.append_assoc, List.singleton_append]

/-- Any spelling of a text is read as the text. -/
theorem readQuoted_spells {t : String} (h : SpellsAll t.toList w) (rest : List Char) :
    readQuoted (w ++ '"' :: rest) = .ok (t, rest) := by
  rw [readQuoted, readChars_spellsAll h, readChars_quote, List.append_nil, List.reverse_reverse]
  simp only [Except.map, String.ofList_toList]

/-! ### Texts that are passed over -/

theorem skipQuoted_plain (h : IsPlain c) (rest : List Char) : skipQuoted (c :: rest) = skipQuoted rest := by
  rw [skipQuoted, if_neg h.1, if_neg h.2.1, not_isControl h]
  rfl

theorem skipQuoted_escape (h : skipEscape s = .ok rest) : skipQuoted ('\\' :: s) = skipQuoted rest := by
  rw [skipQuoted, if_neg (by decide), if_pos rfl]
  split
  · rename_i r hr
    rw [h] at hr
    cases hr
    rfl
  · rename_i e he
    rw [h] at he
    cases he

theorem skipQuoted_append (h : IsQuoted w) (rest : List Char) : skipQuoted (w ++ '"' :: rest) = .ok rest := by
  induction h with
  | nil => rw [List.nil_append, skipQuoted, if_pos rfl]
  | plain hc _ ih => exact (skipQuoted_plain hc _).trans ih
  | short he _ ih => exact (skipQuoted_escape (skipEscape_short he _)).trans ih
  | unit hu _ ih =>
    rw [List.append_assoc]
    exact (skipQuoted_escape (skipEscape_unit hu _)).trans ih

/-! ### A spelling of every text -/

def hexDigit (n : Nat) : Char := "0123456789abcdef".toList.getD n '0'

/-- The four digits of a code unit. -/
def unitDigits (n : Nat) : List Char :=
  [hexDigit (n / 0x1000), hexDigit (n / 0x100 % 0x10), hexDigit (n / 0x10 % 0x10), hexDigit (n % 0x10)]

/-- Escapes quotes, backslashes and control characters, and nothing else. -/
def escape (c : Char) : List Char :=
  if c = '"' ∨ c = '\\' then ['\\', c]
  else if isControl c then '\\' :: 'u' :: unitDigits c.toNat
  else [c]

def quote (t : String) : List Char := '"' :: t.toList.flatMap escape ++ ['"']

theorem mem_hexDigits_hexDigit : ∀ n < 16, (hexDigit n, n) ∈ hexDigits := by decide

theorem isUnit_unitDigits (h : n < 0x10000) : IsUnit n (unitDigits n) := by
  have hunit := IsUnit.mk (mem_hexDigits_hexDigit (n / 0x1000) (by omega))
    (mem_hexDigits_hexDigit (n / 0x100 % 0x10) (by omega)) (mem_hexDigits_hexDigit (n / 0x10 % 0x10) (by omega))
    (mem_hexDigits_hexDigit (n % 0x10) (by omega))
  have hn : n / 0x1000 * 0x1000 + n / 0x100 % 0x10 * 0x100 + n / 0x10 % 0x10 * 0x10 + n % 0x10 = n := by omega
  rwa [hn] at hunit

theorem spells_escape (c : Char) : Spells c (escape c) := by
  unfold escape
  split
  · rename_i hc
    rcases hc with rfl | rfl
    · exact .short (by decide)
    · exact .short (by decide)
  · rename_i hc
    rw [not_or] at hc
    split
    · rename_i hcontrol
      have hsmall : c.toNat < 0x20 := of_decide_eq_true hcontrol
      exact .unit (isUnit_unitDigits (by omega))
    · rename_i hcontrol
      rw [isControl, decide_eq_true_eq, Nat.not_lt] at hcontrol
      exact .plain ⟨hc.1, hc.2, hcontrol⟩

theorem spellsAll_escape (s : List Char) : SpellsAll s (s.flatMap escape) := by
  induction s with
  | nil => exact .nil
  | cons c s ih => exact .cons (spells_escape c) ih

theorem quotes_quote (t : String) : Quotes t (quote t) := .mk (spellsAll_escape t.toList)

end HandsFree.Json
