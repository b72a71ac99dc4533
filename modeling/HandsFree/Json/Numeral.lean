import HandsFree.Json.Fault
import HandsFree.Text.Integer

/-! Numbers in a JSON text.

    A number that nobody wants is only read as a numeral. Where it stands in the place of a wanted value it
    is also evaluated, and then one beyond the range of a double is malformed. -/

namespace HandsFree.Json

/-- A numeral without its sign, in its parts. -/
structure Numeral where
  whole : List Char
  fraction : List Char
  /-- The exponent has a minus sign. -/
  lowers : Bool
  exponent : List Char

/-- Reads a row of digits, at least one. `atEnd` is the fault if the text has ended. -/
def readDigits (atEnd : Fault) (s : List Char) : Except Fault (List Char × List Char) :=
  match s with
  | [] => .error atEnd
  | c :: _ =>
    if c.isDigit then .ok (s.takeWhile Char.isDigit, s.dropWhile Char.isDigit) else .error .malformed

/-- Reads the whole part. It has no leading zero. -/
def readWhole (atEnd : Fault) (s : List Char) : Except Fault (List Char × List Char) :=
  match readDigits atEnd s with
  | .ok ('0' :: _ :: _, _) => .error .malformed
  | whole => whole

/-- Reads the digits after a decimal point, if there is one. -/
def readFraction (atEnd : Fault) : List Char → Except Fault (List Char × List Char)
  | '.' :: s => readDigits atEnd s
  | s => .ok ([], s)

/-- Reads the sign of an exponent: whether it is a minus sign. -/
def readSign : List Char → Bool × List Char
  | '-' :: s => (true, s)
  | '+' :: s => (false, s)
  | s => (false, s)

/-- Reads an exponent, if there is one. -/
def readExponent (atEnd : Fault) (s : List Char) : Except Fault (Bool × List Char × List Char) :=
  match s with
  | [] => .ok (false, [], [])
  | c :: r =>
    if c = 'e' || c = 'E' then
      (readDigits atEnd (readSign r).2).map fun (ds, r') => ((readSign r).1, ds, r')
    else .ok (false, [], s)

/-- The text without a minus sign at its start. -/
def dropMinus : List Char → List Char
  | '-' :: s => s
  | s => s

/-- Reads a numeral. `atEnd` is the fault if the text ends where a digit has to stand. -/
def readNumeral (atEnd : Fault) (s : List Char) : Except Fault (Numeral × List Char) := do
  let (whole, r) ← readWhole atEnd (dropMinus s)
  let (fraction, r) ← readFraction atEnd r
  let (lowers, exponent, r) ← readExponent atEnd r
  .ok (⟨whole, fraction, lowers, exponent⟩, r)

/-! ### The range of a double -/

/-- Rounds to 53 significant bits; of two nearest results the even one is taken. -/
def nearestDouble (n : Nat) : Nat :=
  if n < Nat.pow 2 53 then n
  else
    let unit := Nat.pow 2 (n.log2 - 52)
    let q := n / unit
    let twice := 2 * (n % unit)
    if unit < twice || (twice == unit && q % 2 == 1) then (q + 1) * unit else q * unit

/-- Every number from here on rounds beyond the largest double. -/
def doubleBound : Nat := (Nat.pow 2 54 - 1) * Nat.pow 2 970

/-- Appends digits to `m` as long as the result fits 64 bits; gives also the digits left over. -/
def fill (m : Nat) : List Char → Nat × List Char
  | [] => (m, [])
  | d :: ds =>
    let n := 10 * m + Text.digitValue d
    if n < UInt64.size then fill n ds else (m, d :: ds)

namespace Numeral

/-- The digits that are kept, read as a whole number. The others only count for the power of ten. -/
def significand (n : Numeral) : Nat := (fill (fill 0 n.whole).1 n.fraction).1

/-- The power of ten that goes with the significand. -/
def scale (n : Numeral) : Int :=
  let (m, dropped) := fill 0 n.whole
  let kept := n.fraction.length - (fill m n.fraction).2.length
  let e : Int := Text.ofDigits n.exponent
  (dropped.length : Int) - kept + (if n.lowers then -e else e)

/-- The numeral lies beyond the range of a double: its significand, as a double, times the power of ten,
    as a double, rounds beyond the largest one. -/
def tooLarge (n : Numeral) : Bool :=
  n.significand != 0 && 0 ≤ n.scale &&
    (308 < n.scale ||
      doubleBound ≤ nearestDouble n.significand * nearestDouble (Nat.pow 10 n.scale.toNat))

end Numeral

/-! ### Numerals shorten the text -/

theorem length_readDigits {atEnd : Fault} {s ds r : List Char} (h : readDigits atEnd s = .ok (ds, r)) :
    r.length < s.length := by
  unfold readDigits at h
  split at h
  · cases h
  · rename_i c s
    split at h
    · rename_i hc
      simp only [Except.ok.injEq, Prod.mk.injEq, List.dropWhile_cons, hc, if_true] at h
      rw [← h.2]
      exact Nat.lt_succ_of_le (List.dropWhile_sublist Char.isDigit).length_le
    · cases h

theorem length_readWhole {atEnd : Fault} {s ds r : List Char} (h : readWhole atEnd s = .ok (ds, r)) :
    r.length < s.length := by
  unfold readWhole at h
  split at h
  · cases h
  · exact length_readDigits h

theorem length_readFraction {atEnd : Fault} {s ds r : List Char}
    (h : readFraction atEnd s = .ok (ds, r)) : r.length ≤ s.length := by
  unfold readFraction at h
  split at h
  · exact Nat.le_succ_of_le (Nat.le_of_lt (length_readDigits h))
  · cases h
    exact Nat.le_refl _

theorem length_readSign_le (s : List Char) : (readSign s).2.length ≤ s.length := by
  unfold readSign
  split <;> simp

theorem length_readExponent {atEnd : Fault} {s ds r : List Char} {b : Bool}
    (h : readExponent atEnd s = .ok (b, ds, r)) : r.length ≤ s.length := by
  unfold readExponent at h
  split at h
  · cases h
    exact Nat.le_refl _
  · rename_i c s
    split at h
    · obtain ⟨⟨ds', r'⟩, h₁, h⟩ := map_eq_ok.mp h
      cases h
      have := length_readDigits h₁
      have := length_readSign_le s
      simp only [List.length_cons]
      omega
    · cases h
      exact Nat.le_refl _

theorem length_dropMinus_le (s : List Char) : (dropMinus s).length ≤ s.length := by
  unfold dropMinus
  split <;> simp

theorem length_readNumeral {atEnd : Fault} {s r : List Char} {n : Numeral}
    (h : readNumeral atEnd s = .ok (n, r)) : r.length < s.length := by
  obtain ⟨⟨whole, r₁⟩, h₁, h⟩ := bind_eq_ok.mp h
  obtain ⟨⟨fraction, r₂⟩, h₂, h⟩ := bind_eq_ok.mp h
  obtain ⟨⟨lowers, exponent, r₃⟩, h₃, h⟩ := bind_eq_ok.mp h
  cases h
  have := length_dropMinus_le s
  have := length_readWhole h₁
  have := length_readFraction h₂
  have := length_readExponent h₃
  simp only at *
  omega

end HandsFree.Json
