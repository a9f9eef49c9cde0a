/-!
# Text/Position — where a character stands in a source

A position counts what has been read: the UTF-8 bytes, for the spans that tokens report, and the
lines, for messages. Only a line feed starts a new line.

* `Position.after_append` — reading two texts one after the other is reading their concatenation.
-/

namespace JackStack.Text

/-- **A place between two characters**: the bytes before it, and the line it is on, from 1. -/
structure Position where
  offset : Nat := 0
  line : Nat := 1
  deriving DecidableEq, Repr, Inhabited

namespace Position

/-- The place behind the character `c`. -/
def next (p : Position) (c : Char) : Position where
  offset := p.offset + c.utf8Size
  line := if c = '\n' then p.line + 1 else p.line

/-- The place behind the text `cs`. -/
def after (p : Position) (cs : List Char) : Position :=
  cs.foldl next p

@[simp] theorem after_nil (p : Position) : p.after [] = p := rfl

@[simp] theorem after_cons (p : Position) (c : Char) (cs : List Char) :
    p.after (c :: cs) = (p.next c).after cs := rfl

theorem after_append (p : Position) (cs ds : List Char) :
    p.after (cs ++ ds) = (p.after cs).after ds :=
  List.foldl_append

end Position

/-- **The size of a text** in UTF-8 bytes. -/
def byteLength : List Char → Nat
  | [] => 0
  | c :: cs => c.utf8Size + byteLength cs

theorem Position.offset_after (p : Position) (cs : List Char) :
    (p.after cs).offset = p.offset + byteLength cs := by
  induction cs generalizing p with
  | nil => simp [byteLength]
  | cons c cs ih => simp [ih, next, byteLength, Nat.add_assoc]

theorem Position.line_after (p : Position) (cs : List Char) :
    (p.after cs).line = p.line + cs.count '\n' := by
  induction cs generalizing p with
  | nil => simp
  | cons c cs ih =>
    by_cases h : c = '\n' <;> simp [ih, next, h, Nat.add_comm, Nat.add_left_comm]

end JackStack.Text
