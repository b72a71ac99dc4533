/-! Faults of a JSON text, and the small readers that all others are made of.

    A text is read once, from left to right, and the first fault met decides. A reader takes the text that
    is left and gives back what it read and what is left then. -/

namespace HandsFree.Json

inductive Fault
  /-- The text ends where more is needed. -/
  | textEnded
  /-- The text is not JSON, or has a form that is not understood here. -/
  | malformed
  /-- A value is not of the type that is wanted. -/
  | wrongType
  deriving DecidableEq

/-- White space between tokens. -/
def isBlank (c : Char) : Bool := c == ' ' || c == '\t' || c == '\n' || c == '\r'

def skipBlank (s : List Char) : List Char := s.dropWhile isBlank

/-- Reads exactly the given characters. -/
def readWord : List Char → List Char → Except Fault (List Char)
  | [], s => .ok s
  | _ :: _, [] => .error .textEnded
  | w :: ws, c :: s => if c = w then readWord ws s else .error .malformed

/-- Reads the token `c` after white space. -/
def readToken (c : Char) (s : List Char) : Except Fault (List Char) := readWord [c] (skipBlank s)

theorem bind_eq_ok {α β : Type} {x : Except Fault α} {f : α → Except Fault β} {b : β} :
    (x >>= f) = .ok b ↔ ∃ a, x = .ok a ∧ f a = .ok b := by
  cases x <;> simp [bind, Except.bind]

theorem map_eq_ok {α β : Type} {x : Except Fault α} {f : α → β} {b : β} :
    x.map f = .ok b ↔ ∃ a, x = .ok a ∧ f a = b := by
  cases x <;> simp [Except.map]

theorem length_skipBlank_le (s : List Char) : (skipBlank s).length ≤ s.length :=
  (List.dropWhile_sublist isBlank).length_le

theorem length_readWord {w s r : List Char} (h : readWord w s = .ok r) :
    r.length + w.length = s.length := by
  fun_induction readWord w s with
  | case1 s => cases h; rfl
  | case2 => cases h
  | case3 w ws s ih => simp [ih h, ← Nat.add_assoc]
  | case4 => cases h

theorem length_readToken {c : Char} {s r : List Char} (h : readToken c s = .ok r) :
    r.length < s.length := by
  have h₁ := length_readWord h
  have h₂ := length_skipBlank_le s
  simp only [List.length_singleton] at h₁
  omega

end HandsFree.Json
