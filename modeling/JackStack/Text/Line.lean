import JackStack.Text.Blank

/-!
# Text/Line — the lines of a text and the words of a line
-/

namespace JackStack.Text

/-- **The lines of a text**, which line feeds divide. -/
def lines : List Char → List (List Char)
  | [] => [[]]
  | c :: cs =>
    if c = '\n' then [] :: lines cs
    else
      match lines cs with
      | [] => [[c]]
      | l :: ls => (c :: l) :: ls

/-- **The words of a line** are its maximal runs of characters that are not blank. A character opens
a word of its own when a blank or the end follows, and otherwise joins the word that starts next. -/
def words : List Char → List (List Char)
  | [] => []
  | c :: cs =>
    if isBlank c then words cs
    else if cs.head?.all isBlank then [c] :: words cs
    else
      match words cs with
      | [] => [[c]]
      | w :: ws => (c :: w) :: ws

/-- **A text as words**, line by line, lines without words left out. -/
def wordLines (text : String) : List (List String) :=
  ((lines text.toList).map fun l => (words l).map String.ofList).filter (· ≠ [])

end JackStack.Text
