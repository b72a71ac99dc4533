import HandsFree.Json.Numeral
import HandsFree.Json.Quoted

/-! Passing over a value that nobody wants.

    The brackets that are open around the place of reading are kept as a stack, the innermost first, so
    that values may be nested to any depth. -/

namespace HandsFree.Json

inductive Bracket
  | array
  | object
  deriving DecidableEq

/-- The character that closes a bracket. -/
def Bracket.closing : Bracket → Char
  | array => ']'
  | object => '}'

/-- Passes over a key and its colon, up to the value of the member. -/
def skipKey (s : List Char) : Except Fault (List Char) := do
  let r ← readToken '"' s
  let r ← skipQuoted r
  readToken ':' r

/-- Passes over a value that is no array and no object. -/
def skipScalar (s : List Char) : Except Fault (List Char) :=
  match s with
  | [] => .error .textEnded
  | c :: r =>
    if c = 'n' then readWord ['u', 'l', 'l'] r
    else if c = 't' then readWord ['r', 'u', 'e'] r
    else if c = 'f' then readWord ['a', 'l', 's', 'e'] r
    else if c = '"' then skipQuoted r
    else if c = '-' || c.isDigit then (readNumeral .malformed s).map (·.2)
    else .error .malformed

/-- After a value: closes the brackets that end here, up to a comma or until none is open. -/
def closeBrackets : List Bracket → List Char → Except Fault (List Bracket × List Char)
  | [], s => .ok ([], s)
  | b :: bs, s =>
    match skipBlank s with
    | [] => .error .textEnded
    | c :: r =>
      if c = ',' then .ok (b :: bs, r)
      else if c = b.closing then closeBrackets bs r
      else .error .malformed

/-- After a value: goes on to where the next value starts, or to the end if no bracket is open any more. -/
def nextStart (stack : List Bracket) (s : List Char) : Except Fault (List Bracket × List Char) := do
  match ← closeBrackets stack s with
  | (.object :: bs, r) => (skipKey r).map (.object :: bs, ·)
  | found => .ok found

/-- Passes over a scalar, an empty array or object, or the opening of another one, and goes on to where
    the next value starts. The stack is empty when all is passed over. -/
def skipHead (stack : List Bracket) (s : List Char) : Except Fault (List Bracket × List Char) :=
  match skipBlank s with
  | [] => .error .textEnded
  | c :: r =>
    if c = '[' then
      match skipBlank r with
      | ']' :: r' => nextStart stack r'
      | _ => .ok (.array :: stack, r)
    else if c = '{' then
      match skipBlank r with
      | '}' :: r' => nextStart stack r'
      | _ => (skipKey r).map (.object :: stack, ·)
    else skipScalar (c :: r) >>= nextStart stack

/-! ### Every part shortens the text -/

theorem length_skipKey {s r : List Char} (h : skipKey s = .ok r) : r.length < s.length := by
  obtain ⟨r₁, h₁, h⟩ := bind_eq_ok.mp h
  obtain ⟨r₂, h₂, h⟩ := bind_eq_ok.mp h
  have := length_readToken h₁
  have := length_skipQuoted h₂
  have := length_readToken h
  omega

theorem length_skipScalar {s r : List Char} (h : skipScalar s = .ok r) : r.length < s.length := by
  unfold skipScalar at h
  split at h
  · cases h
  · have word {w s r : List Char} {c : Char} (h : readWord w s = .ok r) : r.length < (c :: s).length := by
      have := length_readWord h
      simp only [List.length_cons]
      omega
    split at h
    · exact word h
    split at h
    · exact word h
    split at h
    · exact word h
    split at h
    · exact Nat.lt_succ_of_lt (length_skipQuoted h)
    split at h
    · obtain ⟨⟨n, r'⟩, h₁, rfl⟩ := map_eq_ok.mp h
      exact length_readNumeral h₁
    · cases h

theorem length_closeBrackets {bs bs' : List Bracket} {s r : List Char}
    (h : closeBrackets bs s = .ok (bs', r)) : r.length ≤ s.length := by
  fun_induction closeBrackets bs s with
  | case1 => cases h; exact Nat.le_refl _
  | case2 => cases h
  | case3 b bs s r' hs =>
    cases h
    have := length_skipBlank_le s
    rw [hs, List.length_cons] at this
    omega
  | case4 b bs s r' hs _ ih =>
    have := ih h
    have := length_skipBlank_le s
    rw [hs, List.length_cons] at this
    omega
  | case5 => cases h

theorem length_nextStart {bs bs' : List Bracket} {s r : List Char}
    (h : nextStart bs s = .ok (bs', r)) : r.length ≤ s.length := by
  obtain ⟨⟨bs₁, r₁⟩, h₁, h⟩ := bind_eq_ok.mp h
  have := length_closeBrackets h₁
  split at h
  · rename_i bs₂ r₂ he
    cases he
    obtain ⟨r₃, h₃, h⟩ := map_eq_ok.mp h
    cases h
    have := length_skipKey h₃
    omega
  · cases h
    assumption

theorem length_skipHead {bs bs' : List Bracket} {s r : List Char}
    (h : skipHead bs s = .ok (bs', r)) : r.length < s.length := by
  have hb := length_skipBlank_le s
  unfold skipHead at h
  split at h
  · cases h
  · rename_i c r₀ hs
    rw [hs, List.length_cons] at hb
    have hb₀ := length_skipBlank_le r₀
    split at h
    · split at h
      · rename_i r' hr
        have := length_nextStart h
        rw [hr, List.length_cons] at hb₀
        omega
      · cases h
        omega
    split at h
    · split at h
      · rename_i r' hr
        have := length_nextStart h
        rw [hr, List.length_cons] at hb₀
        omega
      · obtain ⟨r₂, h₂, h⟩ := map_eq_ok.mp h
        cases h
        have := length_skipKey h₂
        omega
    · obtain ⟨r₂, h₂, h⟩ := bind_eq_ok.mp h
      have := length_skipScalar h₂
      have := length_nextStart h
      simp only [List.length_cons] at *
      omega

/-! ### Whole values -/

/-- Passes over the value that starts here and over the rest of the brackets open around it. -/
def skipNested (stack : List Bracket) (s : List Char) : Except Fault (List Char) :=
  match _h : skipHead stack s with
  | .error e => .error e
  | .ok ([], r) => .ok r
  | .ok (b :: bs, r) => skipNested (b :: bs) r
termination_by s.length
decreasing_by exact length_skipHead _h

/-- Passes over one value. -/
def skipValue (s : List Char) : Except Fault (List Char) := skipNested [] s

theorem length_skipNested {bs : List Bracket} {s r : List Char} (h : skipNested bs s = .ok r) :
    r.length < s.length := by
  fun_induction skipNested bs s with
  | case1 => cases h
  | case2 bs s r₁ h₁ =>
    cases h
    exact length_skipHead h₁
  | case3 bs s b bs' r₁ h₁ ih => exact Nat.lt_trans (ih h) (length_skipHead h₁)

theorem length_skipValue {s r : List Char} (h : skipValue s = .ok r) : r.length < s.length :=
  length_skipNested h

end HandsFree.Json
