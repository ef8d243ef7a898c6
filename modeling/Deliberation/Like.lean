/-!
Matching of a text with a pattern of the database's `LIKE` operator: `%` stands for any run of
characters, `_` for any one character, and every other character for itself in either case of the
ASCII letters.
-/

namespace Deliberation.Like

/-- Whether `text` as a whole has the form of `pattern`. -/
def accepts : List Char → List Char → Bool
  | [], text => text.isEmpty
  | c :: pattern, [] => c == '%' && accepts pattern []
  | c :: pattern, d :: text =>
    if c = '%' then accepts pattern (d :: text) || accepts (c :: pattern) text
    else (c = '_' || c.toLower == d.toLower) && accepts pattern text
termination_by pattern text => pattern.length + text.length

end Deliberation.Like
