/-! The characters with the Unicode property White_Space, and trimming by it. -/

namespace HandsFree.Text

/-- The ranges of code points with the property White_Space, both ends included. -/
def blankRanges : List (Nat × Nat) :=
  [(0x9, 0xD), (0x20, 0x20), (0x85, 0x85), (0xA0, 0xA0), (0x1680, 0x1680), (0x2000, 0x200A),
    (0x2028, 0x2029), (0x202F, 0x202F), (0x205F, 0x205F), (0x3000, 0x3000)]

/-- Unicode white space. The zero-width space and the byte order mark do not belong to it. -/
def isBlank (c : Char) : Bool := blankRanges.any fun (low, high) => low ≤ c.toNat && c.toNat ≤ high

/-- The text without white space at its two ends. -/
def trim (s : List Char) : List Char := ((s.dropWhile isBlank).reverse.dropWhile isBlank).reverse

/-- There are 25 such characters. -/
example : (blankRanges.map fun (low, high) => high + 1 - low).sum = 25 := by decide

end HandsFree.Text
