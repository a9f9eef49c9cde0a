import JackStack.Text.Hidden

/-!
# Text/Quoted — characters and words as messages show them

A character is shown between apostrophes, a word between double quotes. Inside, a backslash stands
before the closing mark and before a backslash; NUL, tabulator, line feed and carriage return have
the short forms `\0 \t \n \r`; every other hidden character is shown by its code point, `\u{200b}`.
-/

namespace JackStack.Text

/-- **The code-point form** `\u{hex}`, in lower-case hexadecimal without padding. -/
def codePointForm (c : Char) : List Char :=
  ['\\', 'u', '{'] ++ Nat.toDigits 16 c.toNat ++ ['}']

/-- **One character inside quotes** that close with `mark`. -/
def escape (mark c : Char) : List Char :=
  if c = mark ∨ c = '\\' then ['\\', c]
  else if c = '\x00' then ['\\', '0']
  else if c = '\t' then ['\\', 't']
  else if c = '\n' then ['\\', 'n']
  else if c = '\r' then ['\\', 'r']
  else if isHidden c then codePointForm c
  else [c]

/-- **A character in a message**, between apostrophes. -/
def quoteChar (c : Char) : String :=
  String.ofList ('\'' :: escape '\'' c ++ ['\''])

/-- **A word in a message**, between double quotes. -/
def quoteWord (w : String) : String :=
  String.ofList ('"' :: w.toList.flatMap (escape '"') ++ ['"'])

/-- **A list of words in a message**, `["a", "b"]`. -/
def quoteWords (ws : List String) : String :=
  "[" ++ String.intercalate ", " (ws.map quoteWord) ++ "]"

end JackStack.Text
