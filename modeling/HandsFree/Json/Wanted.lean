import HandsFree.Json.Numeral
import HandsFree.Json.Quoted

/-! Reading a value of a wanted type, and what is wrong with a value of another type. -/

namespace HandsFree.Json

/-- The fault of a value that is of the wrong type once it has been read. -/
def faultAfter {α : Type} : Except Fault α → Fault
  | .ok _ => .wrongType
  | .error fault => fault

/-- The fault of a number in the place of another value. -/
def numberFault (s : List Char) : Fault :=
  match readNumeral .textEnded s with
  | .ok (n, _) => if n.tooLarge then .malformed else .wrongType
  | .error fault => fault

/-- The fault of a value that is not of the wanted type. Literals, numbers and texts are read first; an
    array or object is refused at its bracket. -/
def mismatch : List Char → Fault
  | [] => .textEnded
  | c :: r =>
    if c = 'n' then faultAfter (readWord ['u', 'l', 'l'] r)
    else if c = 't' then faultAfter (readWord ['r', 'u', 'e'] r)
    else if c = 'f' then faultAfter (readWord ['a', 'l', 's', 'e'] r)
    else if c = '"' then faultAfter (readQuoted r)
    else if c = '-' || c.isDigit then numberFault (c :: r)
    else if c = '[' || c = '{' then .wrongType
    else .malformed

/-- Reads a text. -/
def readText (s : List Char) : Except Fault (String × List Char) :=
  match skipBlank s with
  | '"' :: r => readQuoted r
  | other => .error (mismatch other)

/-- Reads a null. -/
def readNull (s : List Char) : Except Fault (List Char) :=
  match skipBlank s with
  | 'n' :: r => readWord ['u', 'l', 'l'] r
  | other => .error (mismatch other)

/-- Reads a text or a null. -/
def readOptionalText (s : List Char) : Except Fault (Option String × List Char) :=
  match skipBlank s with
  | 'n' :: r => (readWord ['u', 'l', 'l'] r).map (none, ·)
  | other => (readText other).map fun (t, r) => (some t, r)

theorem length_readText {s r : List Char} {t : String} (h : readText s = .ok (t, r)) :
    r.length < s.length := by
  have hb := length_skipBlank_le s
  unfold readText at h
  split at h
  · rename_i r₀ hs
    have := length_readQuoted h
    rw [hs, List.length_cons] at hb
    omega
  · cases h

theorem length_readNull {s r : List Char} (h : readNull s = .ok r) : r.length < s.length := by
  have hb := length_skipBlank_le s
  unfold readNull at h
  split at h
  · rename_i r₀ hs
    have := length_readWord h
    rw [hs, List.length_cons] at hb
    omega
  · cases h

theorem length_readOptionalText {s r : List Char} {t : Option String}
    (h : readOptionalText s = .ok (t, r)) : r.length < s.length := by
  have hb := length_skipBlank_le s
  unfold readOptionalText at h
  split at h
  · rename_i r₀ hs
    obtain ⟨r₁, h₁, h⟩ := map_eq_ok.mp h
    cases h
    have := length_readWord h₁
    rw [hs, List.length_cons] at hb
    omega
  · obtain ⟨⟨t', r₁⟩, h₁, h⟩ := map_eq_ok.mp h
    cases h
    have := length_readText h₁
    omega

end HandsFree.Json
