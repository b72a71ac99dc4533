/-! Whole numbers written in decimal: an optional sign and at least one ASCII digit. -/

namespace HandsFree.Text

/-- The value of a digit. -/
def digitValue (c : Char) : Nat := c.toNat - '0'.toNat

/-- The number that a row of digits stands for. -/
def ofDigits (ds : List Char) : Nat := ds.foldl (fun n c => 10 * n + digitValue c) 0

/-- Reads digits only, and at least one. -/
def nat? (s : List Char) : Option Nat :=
  if !s.isEmpty && s.all Char.isDigit then some (ofDigits s) else none

/-- Reads digits after an optional sign. -/
def int? : List Char → Option Int
  | '-' :: s => (nat? s).map fun n => -(n : Int)
  | '+' :: s => (nat? s).map fun n => (n : Int)
  | s => (nat? s).map fun n => (n : Int)

/-- Reads a number that fits 32 bits with a sign. -/
def int32? (s : List Char) : Option Int32 :=
  (int? s).bind fun n =>
    if -2147483648 ≤ n && n < 2147483648 then some (Int32.ofInt n) else none

end HandsFree.Text
