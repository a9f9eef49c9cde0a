/-!
# Comment — blanking out comments before tokens are read

A line comment runs from `//` to the end of its line, a block comment from `/*` to the first `*/`
behind it, or to the end of the source. Each is replaced by one space, which separates the tokens on
both sides, and its line feeds are kept, so every token stays on its line. Inside a string constant,
which ends at the next quote or at the end of its line, comment marks mean nothing.
-/

namespace JackStack.Comment

/-- **What the characters being read belong to.** -/
inductive Mode where
  | code
  | lineComment
  | blockComment
  | text
  deriving DecidableEq, Repr

/-- **The source without its comments**, from a point inside `mode` on. -/
def stripFrom : Mode → List Char → List Char
  | _, [] => []
  | .code, '/' :: '/' :: cs => ' ' :: stripFrom .lineComment cs
  | .code, '/' :: '*' :: cs => ' ' :: stripFrom .blockComment cs
  | .code, '"' :: cs => '"' :: stripFrom .text cs
  | .code, c :: cs => c :: stripFrom .code cs
  | .lineComment, '\n' :: cs => '\n' :: stripFrom .code cs
  | .lineComment, _ :: cs => stripFrom .lineComment cs
  | .blockComment, '*' :: '/' :: cs => stripFrom .code cs
  | .blockComment, '\n' :: cs => '\n' :: stripFrom .blockComment cs
  | .blockComment, _ :: cs => stripFrom .blockComment cs
  | .text, '"' :: cs => '"' :: stripFrom .code cs
  | .text, '\n' :: cs => '\n' :: stripFrom .code cs
  | .text, c :: cs => c :: stripFrom .text cs

/-- Blanking out comments makes nothing longer. -/
theorem length_stripFrom_le (mode : Mode) (cs : List Char) :
    (stripFrom mode cs).length ≤ cs.length := by
  fun_induction stripFrom mode cs <;> simp only [List.length_cons, List.length_nil] <;> omega

/-- **The source without its comments.** -/
def strip (source : String) : String :=
  String.ofList (stripFrom .code source.toList)

end JackStack.Comment
