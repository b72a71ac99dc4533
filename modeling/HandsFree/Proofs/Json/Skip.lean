import HandsFree.Proofs.Json.Quoted
import HandsFree.Proofs.Json.Token

/-! Passing over a value of the grammar, whatever it holds and however deep. The brackets that are open around a value
    only matter for what comes after it. -/

namespace HandsFree.Json
variable {b : Bracket} {stack : List Bracket} {c : Char} {m r s u v w l rest : List Char} {part : Part}

/-! ### One step after the other -/

/-- Goes on from where the next value starts, unless all is passed over. -/
def goOn : List Bracket × List Char → Except Fault (List Char)
  | ([], r) => .ok r
  | (b :: bs, r) => skipNested (b :: bs) r

/-- Goes on after a value inside the open brackets. -/
def after (stack : List Bracket) (s : List Char) : Except Fault (List Char) := nextStart stack s >>= goOn

/-- Passes over what the brackets hold, and goes on after them. -/
def skipItems (b : Bracket) (stack : List Bracket) (s : List Char) : Except Fault (List Char) :=
  match b with
  | .array => skipNested (.array :: stack) s
  | .object => skipKey s >>= skipNested (.object :: stack)

theorem skipNested_eq (stack : List Bracket) (s : List Char) : skipNested stack s = skipHead stack s >>= goOn := by
  rw [skipNested]
  split
  · rename_i e he
    rw [he]
    rfl
  · rename_i r hr
    rw [hr]
    rfl
  · rename_i b bs r hr
    rw [hr]
    rfl

theorem after_nil (rest : List Char) : after [] rest = .ok rest := rfl

theorem goOn_map_skipKey (stack : List Bracket) (s : List Char) :
    ((skipKey s).map (.object :: stack, ·) >>= goOn) = skipItems .object stack s := by
  rw [skipItems]
  cases skipKey s <;> rfl

theorem after_comma (hw : Blanks w) (s : List Char) : after (b :: stack) (w ++ ',' :: s) = skipItems b stack s := by
  have hclose : closeBrackets (b :: stack) (w ++ ',' :: s) = .ok (b :: stack, s) := by
    rw [closeBrackets, skipBlank_cons hw rfl]
    rfl
  cases b with
  | array =>
    rw [after, nextStart, hclose]
    rfl
  | object =>
    rw [after, nextStart, hclose, ← goOn_map_skipKey]
    rfl

theorem closing_ne (b : Bracket) : isBlank b.closing = false ∧ b.closing ≠ ',' := by cases b <;> decide

theorem after_closing (hw : Blanks w) (rest : List Char) :
    after (b :: stack) (w ++ b.closing :: rest) = after stack rest := by
  have hclose : closeBrackets (b :: stack) (w ++ b.closing :: rest) = closeBrackets stack rest := by
    rw [closeBrackets, skipBlank_cons hw (closing_ne b).1]
    dsimp only
    rw [if_neg (closing_ne b).2, if_pos rfl]
  rw [after, after, nextStart, nextStart, hclose]

/-! ### Heads of values -/

theorem skipHead_array (hu : Blanks u) (s : List Char) : skipHead stack (u ++ '[' :: s) =
    match skipBlank s with
    | ']' :: r => nextStart stack r
    | _ => .ok (.array :: stack, s) := by
  rw [skipHead, skipBlank_cons hu rfl]
  rfl

theorem skipHead_object (hu : Blanks u) (s : List Char) : skipHead stack (u ++ '{' :: s) =
    match skipBlank s with
    | '}' :: r => nextStart stack r
    | _ => (skipKey s).map (.object :: stack, ·) := by
  rw [skipHead, skipBlank_cons hu rfl]
  rfl

theorem skipNested_empty (hu : Blanks u) (hw : Blanks w) (rest : List Char) :
    skipNested stack (u ++ b.opening :: (w ++ b.closing :: rest)) = after stack rest := by
  have hhead : skipHead stack (u ++ b.opening :: (w ++ b.closing :: rest)) = nextStart stack rest := by
    have hclose := skipBlank_cons hw (closing_ne b).1 rest
    cases b with
    | array =>
      rw [Bracket.opening, skipHead_array hu, hclose]
      rfl
    | object =>
      rw [Bracket.opening, skipHead_object hu, hclose]
      rfl
  rw [skipNested_eq, hhead, after]

theorem skipNested_full (hu : Blanks u) (hs : (skipBlank s).head? ≠ some b.closing) :
    skipNested stack (u ++ b.opening :: s) = skipItems b stack s := by
  cases b with
  | array =>
    rw [skipNested_eq, Bracket.opening, skipHead_array hu]
    split
    · rename_i r hr
      rw [hr] at hs
      exact absurd rfl hs
    · rfl
  | object =>
    rw [skipNested_eq, Bracket.opening, skipHead_object hu]
    split
    · rename_i r hr
      rw [hr] at hs
      exact absurd rfl hs
    · exact goOn_map_skipKey stack s

theorem skipNested_scalar (hu : Blanks u) (hblank : isBlank c = false) (harray : c ≠ '[') (hobject : c ≠ '{')
    (h : skipScalar (c :: s) = .ok rest) : skipNested stack (u ++ c :: s) = after stack rest := by
  have hhead : skipHead stack (u ++ c :: s) = nextStart stack rest := by
    rw [skipHead, skipBlank_cons hu hblank]
    dsimp only
    rw [if_neg harray, if_neg hobject, h]
    rfl
  rw [skipNested_eq, hhead, after]

theorem skipScalar_text (h : IsQuoted w) (rest : List Char) : skipScalar ('"' :: (w ++ '"' :: rest)) = .ok rest :=
  skipQuoted_append h rest

theorem not_mem_of_startsNumeral (h : (c = '-' || c.isDigit) = true) :
    c ∉ [' ', '\t', '\n', '\r', '[', '{', ']', 'n', 't', 'f', '"'] := by
  have hnot : ([' ', '\t', '\n', '\r', '[', '{', ']', 'n', 't', 'f', '"'].all fun d => !(d = '-' || d.isDigit)) = true := by
    decide
  intro hc
  have hno := List.all_eq_true.mp hnot c hc
  rw [h] at hno
  cases hno

theorem not_isBlank_of_startsNumeral (h : (c = '-' || c.isDigit) = true) : isBlank c = false := by
  rw [← Bool.not_eq_true, isBlank_iff]
  exact fun hc => not_mem_of_startsNumeral h (List.mem_append_left ['[', '{', ']', 'n', 't', 'f', '"'] hc)

theorem skipScalar_number (h : IsNumeral (c :: r)) (hc : (c = '-' || c.isDigit) = true)
    (hrest : Stops extendsNumeral rest) : skipScalar (c :: (r ++ rest)) = .ok rest := by
  obtain ⟨n, hn⟩ := readNumeral_append .malformed h hrest
  have hne := not_mem_of_startsNumeral hc
  simp only [List.mem_cons, List.not_mem_nil, or_false, not_or] at hne
  obtain ⟨-, -, -, -, -, -, -, hnull, htrue, hfalse, hquote⟩ := hne
  rw [List.cons_append] at hn
  rw [skipScalar, if_neg hnull, if_neg htrue, if_neg hfalse, if_neg hquote, if_pos hc, hn]
  rfl

theorem skipItems_label (stack : List Bracket) (hl : Label b l) (s : List Char) :
    ∃ u, Blanks u ∧ skipItems b stack (l ++ s) = skipNested (b :: stack) (u ++ s) := by
  cases hl with
  | element hu => exact ⟨l, hu, rfl⟩
  | @key u k v w hu hk hv hw =>
    refine ⟨w, hw, ?_⟩
    have hkey : skipKey (u ++ '"' :: k ++ '"' :: v ++ ':' :: w ++ s) = .ok (w ++ s) := by
      simp only [List.append_assoc, List.cons_append, skipKey, readToken_append (c := '"') hu rfl,
        skipQuoted_append hk, readToken_append (c := ':') hv rfl, bind, Except.bind]
    rw [skipItems, hkey]
    rfl

/-! ### Whole values -/

/-- What a value begins with is no white space and closes no bracket. -/
theorem exists_cons_of_json (h : IsJson .value v) : ∃ c r, v = c :: r ∧ isBlank c = false ∧ c ≠ ']' := by
  cases h with
  | word h =>
    simp only [List.mem_cons, List.not_mem_nil, or_false] at h
    rcases h with rfl | rfl | rfl
    · exact ⟨'n', _, rfl, rfl, by decide⟩
    · exact ⟨'t', _, rfl, rfl, by decide⟩
    · exact ⟨'f', _, rfl, rfl, by decide⟩
  | number h =>
    obtain ⟨c, r, rfl, hc⟩ := isDigit_or_minus h
    exact ⟨c, r, rfl, not_isBlank_of_startsNumeral hc, fun h => not_mem_of_startsNumeral hc (by simp [h])⟩
  | text h => exact ⟨'"', _, rfl, rfl, by decide⟩
  | @empty b => cases b <;> exact ⟨_, _, rfl, rfl, by decide⟩
  | @full b => cases b <;> exact ⟨_, _, rfl, rfl, by decide⟩

/-- Brackets that hold a value do not close at once. -/
theorem head?_label (hl : Label b l) (hv : IsJson .value v) (s : List Char) :
    (skipBlank (l ++ (v ++ s))).head? ≠ some b.closing := by
  cases hl with
  | element hu =>
    obtain ⟨c, r, rfl, hblank, hclose⟩ := exists_cons_of_json hv
    rw [List.cons_append, skipBlank_cons hu hblank]
    exact fun h => hclose (Option.some.inj h)
  | key hu =>
    simp only [List.append_assoc, List.cons_append]
    rw [skipBlank_cons hu rfl]
    exact fun h => absurd (Option.some.inj h) (by decide)

theorem head?_items (h : IsJson (.items b) m) (s : List Char) : (skipBlank (m ++ s)).head? ≠ some b.closing := by
  cases h with
  | last hl hv =>
    simp only [List.append_assoc]
    exact head?_label hl hv _
  | more hl hv =>
    simp only [List.append_assoc]
    exact head?_label hl hv _

/-- A part of the grammar is passed over, and nothing of what follows. -/
def Passed : Part → List Char → Prop
  | .value, m => ∀ stack u rest, Blanks u → Stops extendsNumeral rest →
      skipNested stack (u ++ (m ++ rest)) = after stack rest
  | .items b, m => ∀ stack rest, skipItems b stack (m ++ b.closing :: rest) = after stack rest

theorem stops_closing (b : Bracket) (rest : List Char) : Stops extendsNumeral (b.closing :: rest) := by
  cases b <;> exact stops_cons rfl

theorem passed_of_json (h : IsJson part m) : Passed part m := by
  induction h with
  | word h =>
    intro stack u rest hu _
    simp only [List.mem_cons, List.not_mem_nil, or_false] at h
    rcases h with rfl | rfl | rfl
    · exact skipNested_scalar hu rfl (by decide) (by decide) (readWord_append ['u', 'l', 'l'] rest)
    · exact skipNested_scalar hu rfl (by decide) (by decide) (readWord_append ['r', 'u', 'e'] rest)
    · exact skipNested_scalar hu rfl (by decide) (by decide) (readWord_append ['a', 'l', 's', 'e'] rest)
  | number h =>
    intro stack u rest hu hrest
    obtain ⟨c, r, rfl, hc⟩ := isDigit_or_minus h
    have hne := not_mem_of_startsNumeral hc
    exact skipNested_scalar hu (not_isBlank_of_startsNumeral hc) (fun e => hne (by simp [e])) (fun e => hne (by simp [e]))
      (skipScalar_number h hc hrest)
  | text h =>
    intro stack u rest hu _
    rw [List.append_assoc]
    exact skipNested_scalar hu rfl (by decide) (by decide) (skipScalar_text h rest)
  | empty hw =>
    intro stack u rest hu _
    rw [List.append_assoc]
    exact skipNested_empty hu hw rest
  | full h ih =>
    intro stack u rest hu _
    rw [List.append_assoc]
    exact (skipNested_full hu (head?_items h _)).trans (ih stack rest)
  | @last b l v w hl _ hw ih =>
    intro stack rest
    obtain ⟨u, hu, hlabel⟩ := skipItems_label stack hl (v ++ (w ++ b.closing :: rest))
    rw [List.append_assoc, List.append_assoc, hlabel, ih _ u _ hu (stops_blanks hw (stops_closing b rest)),
      after_closing hw]
  | @more b l v w items hl _ hw _ ih ihitems =>
    intro stack rest
    obtain ⟨u, hu, hlabel⟩ := skipItems_label stack hl (v ++ (w ++ ',' :: (items ++ b.closing :: rest)))
    simp only [List.append_assoc, List.cons_append]
    rw [hlabel, ih _ u _ hu (stops_blanks hw (stops_cons rfl)), after_comma hw, ihitems]

/-- A value of the grammar is passed over, whatever it is. -/
theorem skipValue_append (h : IsJson .value v) (hu : Blanks u) (hrest : Stops extendsNumeral rest) :
    skipValue (u ++ (v ++ rest)) = .ok rest :=
  (passed_of_json h [] u rest hu hrest).trans (after_nil rest)

end HandsFree.Json
