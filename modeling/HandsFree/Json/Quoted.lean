import HandsFree.Json.Fault
import HandsFree.Text.Integer

/-! Quoted texts: what stands between two quotes, with its escapes.

    A text that is wanted is read with `readQuoted`, which takes code units of a surrogate pair only
    together. One that nobody wants is passed over with `skipQuoted`, which does not look at the value of
    an escaped unit. -/

namespace HandsFree.Json

/-- The value of a hexadecimal digit. -/
def hexValue? (c : Char) : Option Nat :=
  if c.isDigit then some (Text.digitValue c)
  else if 'a' ≤ c && c ≤ 'f' then some (c.toNat - 'a'.toNat + 10)
  else if 'A' ≤ c && c ≤ 'F' then some (c.toNat - 'A'.toNat + 10)
  else none

/-- How many bytes the text takes in UTF-8. -/
def byteLength (s : List Char) : Nat := s.foldl (fun n c => n + c.utf8Size) 0

/-- Reads the four hexadecimal digits of a code unit. The text has ended if it has less than four bytes
    left. -/
def readUnit (s : List Char) : Except Fault (Nat × List Char) :=
  match s with
  | a :: b :: c :: d :: r =>
    match hexValue? a, hexValue? b, hexValue? c, hexValue? d with
    | some a, some b, some c, some d => .ok (((a * 16 + b) * 16 + c) * 16 + d, r)
    | _, _, _, _ => .error .malformed
  | _ => .error (if byteLength s < 4 then .textEnded else .malformed)

def isHighSurrogate (n : Nat) : Bool := 0xD800 ≤ n && n < 0xDC00

def isLowSurrogate (n : Nat) : Bool := 0xDC00 ≤ n && n < 0xE000

/-- The character that a surrogate pair stands for. -/
def pairChar (high low : Nat) : Char :=
  Char.ofNat (0x10000 + (high - 0xD800) * 0x400 + (low - 0xDC00))

/-- Reads the character of an escape after `\u`: one code unit, or two that make a surrogate pair. -/
def readUnicode (s : List Char) : Except Fault (Char × List Char) := do
  let (high, r) ← readUnit s
  if isLowSurrogate high then .error .malformed
  else if isHighSurrogate high then
    let r ← readWord ['\\', 'u'] r
    let (low, r) ← readUnit r
    if isLowSurrogate low then .ok (pairChar high low, r) else .error .malformed
  else .ok (Char.ofNat high, r)

/-- The character of an escape of one letter. -/
def shortEscape? : Char → Option Char
  | '"' => some '"'
  | '\\' => some '\\'
  | '/' => some '/'
  | 'b' => some '\x08'
  | 'f' => some '\x0c'
  | 'n' => some '\n'
  | 'r' => some '\r'
  | 't' => some '\t'
  | _ => none

/-- Reads an escape after its backslash. -/
def readEscape : List Char → Except Fault (Char × List Char)
  | [] => .error .textEnded
  | c :: s =>
    if c = 'u' then readUnicode s
    else match shortEscape? c with
      | some d => .ok (d, s)
      | none => .error .malformed

/-- Passes over an escape after its backslash. -/
def skipEscape : List Char → Except Fault (List Char)
  | [] => .error .textEnded
  | c :: s =>
    if c = 'u' then (readUnit s).map (·.2)
    else if (shortEscape? c).isSome then .ok s
    else .error .malformed

/-- A control character, which has to be escaped. -/
def isControl (c : Char) : Bool := c.toNat < 0x20

/-! ### Escapes shorten the text -/

theorem length_readUnit {s r : List Char} {n : Nat} (h : readUnit s = .ok (n, r)) :
    r.length < s.length := by
  unfold readUnit at h
  split at h
  · split at h
    · cases h
      simp only [List.length_cons]
      omega
    · cases h
  · cases h

theorem length_readUnicode {s r : List Char} {c : Char} (h : readUnicode s = .ok (c, r)) :
    r.length < s.length := by
  obtain ⟨⟨high, r₁⟩, h₁, h⟩ := bind_eq_ok.mp h
  have l₁ := length_readUnit h₁
  simp only at h
  split at h
  · cases h
  split at h
  · obtain ⟨r₂, h₂, h⟩ := bind_eq_ok.mp h
    obtain ⟨⟨low, r₃⟩, h₃, h⟩ := bind_eq_ok.mp h
    have l₂ := length_readWord h₂
    have l₃ := length_readUnit h₃
    simp only at h
    split at h
    · simp only [Except.ok.injEq, Prod.mk.injEq] at h
      rw [← h.2]
      omega
    · cases h
  · simp only [Except.ok.injEq, Prod.mk.injEq] at h
    exact h.2 ▸ l₁

theorem length_readEscape {s r : List Char} {c : Char} (h : readEscape s = .ok (c, r)) :
    r.length < s.length := by
  unfold readEscape at h
  split at h
  · cases h
  · split at h
    · exact Nat.lt_succ_of_lt (length_readUnicode h)
    · split at h
      · cases h
        exact Nat.lt_succ_self _
      · cases h

theorem length_skipEscape {s r : List Char} (h : skipEscape s = .ok r) : r.length < s.length := by
  unfold skipEscape at h
  split at h
  · cases h
  · split at h
    · obtain ⟨⟨n, r₁⟩, h₁, rfl⟩ := map_eq_ok.mp h
      exact Nat.lt_succ_of_lt (length_readUnit h₁)
    · split at h
      · cases h
        exact Nat.lt_succ_self _
      · cases h

/-! ### Whole texts -/

/-- Reads on up to the closing quote; `done` holds the characters read so far, the last one first. -/
def readChars (done s : List Char) : Except Fault (List Char × List Char) :=
  match s with
  | [] => .error .textEnded
  | c :: r =>
    if c = '"' then .ok (done.reverse, r)
    else if c = '\\' then
      match _h : readEscape r with
      | .ok (d, r') => readChars (d :: done) r'
      | .error e => .error e
    else if isControl c then .error .malformed
    else readChars (c :: done) r
termination_by s.length
decreasing_by
  · exact Nat.lt_succ_of_lt (length_readEscape _h)
  · exact Nat.lt_succ_self _

/-- Reads a text after its opening quote. -/
def readQuoted (s : List Char) : Except Fault (String × List Char) :=
  (readChars [] s).map fun (cs, r) => (String.ofList cs, r)

/-- Passes over a text after its opening quote. -/
def skipQuoted (s : List Char) : Except Fault (List Char) :=
  match s with
  | [] => .error .textEnded
  | c :: r =>
    if c = '"' then .ok r
    else if c = '\\' then
      match _h : skipEscape r with
      | .ok r' => skipQuoted r'
      | .error e => .error e
    else if isControl c then .error .malformed
    else skipQuoted r
termination_by s.length
decreasing_by
  · exact Nat.lt_succ_of_lt (length_skipEscape _h)
  · exact Nat.lt_succ_self _

theorem length_readChars {done s cs r : List Char} (h : readChars done s = .ok (cs, r)) :
    r.length < s.length := by
  fun_induction readChars done s with
  | case1 => cases h
  | case2 => cases h; exact Nat.lt_succ_self _
  | case3 done r₀ d r' he _ ih =>
    have := length_readEscape he
    have := ih h
    simp only [List.length_cons]
    omega
  | case4 => cases h
  | case5 => cases h
  | case6 done c r₀ _ _ _ ih => exact Nat.lt_succ_of_lt (ih h)

theorem length_readQuoted {s r : List Char} {t : String} (h : readQuoted s = .ok (t, r)) :
    r.length < s.length := by
  obtain ⟨⟨cs, r₁⟩, h₁, h⟩ := map_eq_ok.mp h
  rw [← (Prod.mk.inj h).2]
  exact length_readChars h₁

theorem length_skipQuoted {s r : List Char} (h : skipQuoted s = .ok r) : r.length < s.length := by
  fun_induction skipQuoted s with
  | case1 => cases h
  | case2 => cases h; exact Nat.lt_succ_self _
  | case3 r₀ r' he _ ih =>
    have := length_skipEscape he
    have := ih h
    simp only [List.length_cons]
    omega
  | case4 => cases h
  | case5 => cases h
  | case6 c r₀ _ _ _ ih => exact Nat.lt_succ_of_lt (ih h)

end HandsFree.Json
