import JackStack.Error
import JackStack.Text.Blank
import JackStack.Text.Position

/-!
# Token/Scan — cutting a source into tokens

Blanks are skipped. At any other character exactly one piece is cut off: a symbol; a string constant
up to its closing quote; a run of digits; or a word, the longest run of characters that are neither
blank nor symbols, so that quotes and digits may stand inside a name. A piece that is no token is
reported as an error, and scanning goes on behind it.

* `Cut.taken_append_rest` — a cut loses no character.
* `Cut.rest_length_le` — a cut takes at least the character it starts at, so scanning ends.
-/

namespace JackStack

open Text

/-! ## One piece -/

/-- **The first piece of a text**: its characters, what follows, and what it is. -/
structure Cut where
  taken : List Char
  rest : List Char
  outcome : Except LexicalCause Terminal

namespace Cut

/-- **The characters inside a string constant.** -/
def inText (c : Char) : Bool :=
  c ≠ '"' && c ≠ '\n'

/-- **What a string constant is**, from its body and the character that ends it, if one does. -/
def textOutcome (body : List Char) (close : Option Char) : Except LexicalCause Terminal :=
  if close ≠ some '"' then .error .unterminatedString
  else
    match body.find? (maxConstant < ·.toNat) with
    | some bad => .error (.characterTooLarge bad)
    | none => .ok (.text (String.ofList body))

/-- **A string constant**, from behind its opening quote on. It closes at the next quote on the same
line; without one, the line feed is part of the bad piece. -/
def text (cs : List Char) : Cut :=
  let body := cs.takeWhile inText
  let tail := cs.dropWhile inText
  ⟨'"' :: body ++ tail.take 1, tail.drop 1, textOutcome body tail.head?⟩

/-- **An integer constant**: the longest run of digits. -/
def integer (cs : List Char) : Cut :=
  let digits := cs.takeWhile Char.isDigit
  ⟨digits, cs.dropWhile Char.isDigit,
    if Decimal.value digits ≤ maxConstant then .ok (.integer (String.ofList digits))
    else .error (.integerTooLarge (String.ofList digits))⟩

/-- **The characters of a word.** -/
def inWord (c : Char) : Bool :=
  !isBlank c && !isSymbol c

/-- **The terminal that a word is.** -/
def wordTerminal (word : String) : Terminal :=
  match Keyword.ofText? word with
  | some k => .keyword k
  | none => .identifier word

/-- **A keyword or an identifier**: the longest run of word characters. -/
def word (cs : List Char) : Cut :=
  let taken := cs.takeWhile inWord
  ⟨taken, cs.dropWhile inWord, .ok (wordTerminal (String.ofList taken))⟩

/-- **The piece that starts at the character `c`**, which is not blank, before `cs`. -/
def first (c : Char) (cs : List Char) : Cut :=
  if isSymbol c then ⟨[c], cs, .ok (.symbol c)⟩
  else if c = '"' then text cs
  else if c.isDigit then integer (c :: cs)
  else word (c :: cs)

theorem taken_append_rest (c : Char) (cs : List Char) :
    (first c cs).taken ++ (first c cs).rest = c :: cs := by
  unfold first
  split
  · rfl
  split
  · next h =>
    rw [h, text, List.append_assoc, List.take_append_drop, List.cons_append,
      List.takeWhile_append_dropWhile]
  split
  · exact List.takeWhile_append_dropWhile
  · exact List.takeWhile_append_dropWhile

theorem rest_length_le {c : Char} (cs : List Char) (h : isBlank c = false) :
    (first c cs).rest.length ≤ cs.length := by
  have shorter (p : Char → Bool) : (cs.dropWhile p).length ≤ cs.length :=
    (List.dropWhile_suffix p).length_le
  unfold first
  split
  · exact Nat.le_refl _
  split
  · exact Nat.le_trans (by simp [text]) (shorter inText)
  split
  · next hc => simpa [integer, List.dropWhile_cons, hc] using shorter Char.isDigit
  · next hs _ _ => simpa [word, List.dropWhile_cons, inWord, hs, h] using shorter inWord

end Cut

/-! ## All pieces -/

/-- **A piece of a source**: where it starts, its characters, and what it is. -/
structure Piece where
  start : Position
  taken : List Char
  outcome : Except LexicalCause Terminal

namespace Piece

/-- The place of a piece. -/
def span (p : Piece) : Span :=
  ⟨p.start.offset, byteLength p.taken, p.start.line⟩

/-- **A piece as an item of the token sequence**: a token, or the error on its line. -/
def item (p : Piece) : Except CompileError Token :=
  match p.outcome with
  | .ok terminal => .ok ⟨terminal, p.span⟩
  | .error cause => .error (.lexical p.start.line cause)

end Piece

/-- **The pieces of a text** that starts at `p`. -/
def piecesFrom (p : Position) : List Char → List Piece
  | [] => []
  | c :: cs =>
    if isBlank c then piecesFrom (p.next c) cs
    else
      let cut := Cut.first c cs
      ⟨p, cut.taken, cut.outcome⟩ :: piecesFrom (p.after cut.taken) cut.rest
termination_by cs => cs.length
decreasing_by
  · simp
  · have := Cut.rest_length_le cs (Bool.eq_false_iff.mpr ‹_›)
    simp only [List.length_cons]
    omega

/-- **The pieces of a source.** -/
def pieces (source : String) : List Piece :=
  piecesFrom {} source.toList

/-- **The token sequence of a source**: every token, with an error in place of every bad piece. -/
def scan (source : String) : List (Except CompileError Token) :=
  (pieces source).map Piece.item

end JackStack
