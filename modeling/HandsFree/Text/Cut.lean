/-! Cutting a text where a delimiter stands. -/

namespace HandsFree.Text

/-- What stands before and after the first occurrence of the delimiter. -/
def cutAt? (delimiter : List Char) : List Char → Option (List Char × List Char)
  | [] => if delimiter.isEmpty then some ([], []) else none
  | c :: s =>
    match delimiter.isPrefixOf? (c :: s) with
    | some after => some ([], after)
    | none => (cutAt? delimiter s).map fun (before, after) => (c :: before, after)

/-- The text without the given start, or the text itself if it starts otherwise. -/
def dropStart (start s : List Char) : List Char := (start.isPrefixOf? s).getD s

end HandsFree.Text
