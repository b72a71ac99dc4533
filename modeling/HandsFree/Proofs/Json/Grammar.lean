import HandsFree.Json.Skip
import HandsFree.Proofs.Text

/-! The grammar of JSON texts, whoever reads them. A text in quotes is described twice: by its escapes alone, and
    with the characters it spells. -/

namespace HandsFree.Json

/-- White space between tokens. -/
def Blanks (w : List Char) : Prop := ∀ c ∈ w, c ∈ [' ', '\t', '\n', '\r']

/-! ### Quoted texts -/

/-- The hexadecimal digits with their values; letters may be of either case. -/
def hexDigits : List (Char × Nat) := "0123456789abcdef".toList.zipIdx ++ "ABCDEF".toList.zipIdx 10

/-- Four hexadecimal digits that stand for the code unit `n`. -/
inductive IsUnit : Nat → List Char → Prop
  | mk {a b c d : Char} {i j k l : Nat} (ha : (a, i) ∈ hexDigits) (hb : (b, j) ∈ hexDigits)
      (hc : (c, k) ∈ hexDigits) (hd : (d, l) ∈ hexDigits) :
      IsUnit (i * 0x1000 + j * 0x100 + k * 0x10 + l) [a, b, c, d]

/-- The letters of the short escapes, each with the character it stands for. -/
def shortEscapes : List (Char × Char) :=
  [('"', '"'), ('\\', '\\'), ('/', '/'), ('b', '\x08'), ('f', '\x0c'), ('n', '\n'), ('r', '\r'), ('t', '\t')]

/-- A character that may stand for itself between quotes. -/
def IsPlain (c : Char) : Prop := c ≠ '"' ∧ c ≠ '\\' ∧ 0x20 ≤ c.toNat

/-- What may stand between quotes. A code unit need not belong to a character. -/
inductive IsQuoted : List Char → Prop
  | nil : IsQuoted []
  | plain {c : Char} {w : List Char} (hc : IsPlain c) (hw : IsQuoted w) : IsQuoted (c :: w)
  | short {e : Char × Char} {w : List Char} (he : e ∈ shortEscapes) (hw : IsQuoted w) : IsQuoted ('\\' :: e.1 :: w)
  | unit {n : Nat} {u w : List Char} (hu : IsUnit n u) (hw : IsQuoted w) : IsQuoted ('\\' :: 'u' :: u ++ w)

/-- The text spells the character: by itself, by an escape, or by the escapes of a surrogate pair. -/
inductive Spells (c : Char) : List Char → Prop
  | plain (hc : IsPlain c) : Spells c [c]
  | short {letter : Char} (he : (letter, c) ∈ shortEscapes) : Spells c ['\\', letter]
  | unit {u : List Char} (hu : IsUnit c.toNat u) : Spells c ('\\' :: 'u' :: u)
  | pair {high low : Nat} {u v : List Char} (hhigh : 0xD800 ≤ high ∧ high < 0xDC00)
      (hlow : 0xDC00 ≤ low ∧ low < 0xE000) (hu : IsUnit high u) (hv : IsUnit low v)
      (hc : c.toNat = 0x10000 + (high - 0xD800) * 0x400 + (low - 0xDC00)) :
      Spells c ('\\' :: 'u' :: u ++ '\\' :: 'u' :: v)

inductive SpellsAll : List Char → List Char → Prop
  | nil : SpellsAll [] []
  | cons {c : Char} {s v w : List Char} (hc : Spells c v) (hs : SpellsAll s w) : SpellsAll (c :: s) (v ++ w)

/-- The text with its quotes, in any spelling. -/
inductive Quotes (t : String) : List Char → Prop
  | mk {w : List Char} (h : SpellsAll t.toList w) : Quotes t ('"' :: w ++ ['"'])

/-! ### Numbers -/

inductive IsFraction : List Char → Prop
  | none : IsFraction []
  | digits {ds : List Char} (h : Text.IsDigits ds) : IsFraction ('.' :: ds)

inductive IsExponent : List Char → Prop
  | none : IsExponent []
  | digits {e : Char} {sign ds : List Char} (he : e = 'e' ∨ e = 'E') (hs : sign = [] ∨ sign = ['+'] ∨ sign = ['-'])
      (h : Text.IsDigits ds) : IsExponent (e :: sign ++ ds)

/-- The whole part of a numeral has no leading zero. -/
inductive IsNumeral : List Char → Prop
  | mk {sign whole fraction exponent : List Char} (hs : sign = [] ∨ sign = ['-']) (hw : Text.IsDigits whole)
      (hzero : whole.head? = some '0' → whole = ['0']) (hf : IsFraction fraction) (he : IsExponent exponent) :
      IsNumeral (sign ++ whole ++ fraction ++ exponent)

/-! ### Values -/

def Bracket.opening : Bracket → Char
  | array => '['
  | object => '{'

/-- What stands before a value in the brackets: white space, and in an object the key and its colon. -/
inductive Label : Bracket → List Char → Prop
  | element {u : List Char} (hu : Blanks u) : Label .array u
  | key {u k v w : List Char} (hu : Blanks u) (hk : IsQuoted k) (hv : Blanks v) (hw : Blanks w) :
      Label .object (u ++ '"' :: k ++ '"' :: v ++ ':' :: w)

inductive Part
  | value
  /-- What the brackets hold, one value at least. -/
  | items (b : Bracket)

inductive IsJson : Part → List Char → Prop
  | word {w : List Char} (h : w ∈ ["null".toList, "true".toList, "false".toList]) : IsJson .value w
  | number {w : List Char} (h : IsNumeral w) : IsJson .value w
  | text {w : List Char} (h : IsQuoted w) : IsJson .value ('"' :: w ++ ['"'])
  | empty {b : Bracket} {w : List Char} (h : Blanks w) : IsJson .value (b.opening :: w ++ [b.closing])
  | full {b : Bracket} {w : List Char} (h : IsJson (.items b) w) : IsJson .value (b.opening :: w ++ [b.closing])
  | last {b : Bracket} {l v w : List Char} (hl : Label b l) (hv : IsJson .value v) (hw : Blanks w) :
      IsJson (.items b) (l ++ v ++ w)
  | more {b : Bracket} {l v w items : List Char} (hl : Label b l) (hv : IsJson .value v) (hw : Blanks w)
      (hitems : IsJson (.items b) items) : IsJson (.items b) (l ++ v ++ w ++ ',' :: items)

end HandsFree.Json
