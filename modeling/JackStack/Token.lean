import JackStack.Text.Decimal

/-!
# Token — the words and marks of the Jack language

A source is a sequence of terminals of five classes: keywords, symbols, integer constants, string
constants and identifiers. A token is a terminal together with the place where it stands.

* `Keyword.ofText?_text` — a keyword is recognised by exactly its own text.
-/

namespace JackStack

/-! ## Keywords -/

/-- **The reserved words.** -/
inductive Keyword where
  | «class» | constructor | function | method | field | static | var
  | int | char | boolean | void | true | false | null | this
  | «let» | «do» | «if» | «else» | «while» | «return»
  deriving DecidableEq, Repr, Inhabited

namespace Keyword

/-- **How a keyword is written.** -/
def text : Keyword → String
  | .class => "class"
  | .constructor => "constructor"
  | .function => "function"
  | .method => "method"
  | .field => "field"
  | .static => "static"
  | .var => "var"
  | .int => "int"
  | .char => "char"
  | .boolean => "boolean"
  | .void => "void"
  | .true => "true"
  | .false => "false"
  | .null => "null"
  | .this => "this"
  | .let => "let"
  | .do => "do"
  | .if => "if"
  | .else => "else"
  | .while => "while"
  | .return => "return"

/-- Every keyword. -/
def all : List Keyword :=
  [.class, .constructor, .function, .method, .field, .static, .var, .int, .char, .boolean, .void,
   .true, .false, .null, .this, .let, .do, .if, .else, .while, .return]

/-- **The keyword that is written `word`**, if there is one. -/
def ofText? (word : String) : Option Keyword :=
  all.find? (·.text = word)

@[simp] theorem ofText?_text (k : Keyword) : ofText? k.text = some k := by
  cases k <;> decide

theorem text_of_ofText? {word : String} {k : Keyword} (h : ofText? word = some k) :
    k.text = word := by
  simpa using List.find?_some h

end Keyword

/-! ## Symbols -/

/-- **The symbols**: each of these characters is a token by itself. -/
def symbols : List Char :=
  ['{', '}', '(', ')', '[', ']', '.', ',', ';', '+', '-', '*', '/', '&', '|', '<', '>', '=', '~']

def isSymbol (c : Char) : Bool :=
  symbols.contains c

/-- **The binary operators** of an expression. -/
def operators : List Char :=
  ['+', '-', '*', '/', '&', '|', '<', '>', '=']

def isOperator (c : Char) : Bool :=
  operators.contains c

/-! ## Terminals and tokens -/

/-- **The largest constant**: of an integer, and of the code of a character in a string. -/
def maxConstant : Nat := 32767

/-- **A terminal of the grammar.** An integer constant keeps its digits as written, a string
constant is without its quotes. -/
inductive Terminal where
  | keyword (k : Keyword)
  | symbol (c : Char)
  | integer (digits : String)
  | text (body : String)
  | identifier (name : String)
  deriving DecidableEq, Repr, Inhabited

namespace Terminal

/-- **The class of a terminal**, by name. -/
def category : Terminal → String
  | .keyword _ => "keyword"
  | .symbol _ => "symbol"
  | .integer _ => "integerConstant"
  | .text _ => "stringConstant"
  | .identifier _ => "identifier"

/-- **The text of a terminal**, a string constant's without its quotes. -/
def spelling : Terminal → String
  | .keyword k => k.text
  | .symbol c => String.singleton c
  | .integer digits => digits
  | .text body => body
  | .identifier name => name

/-- **A terminal in a message**: its class, and its text in quotes. -/
def describe (t : Terminal) : String :=
  match t with
  | .text body => t.category ++ " \"" ++ body ++ "\""
  | _ => t.category ++ " '" ++ t.spelling ++ "'"

def keyword? : Terminal → Option Keyword
  | .keyword k => some k
  | _ => none

def symbol? : Terminal → Option Char
  | .symbol c => some c
  | _ => none

def identifier? : Terminal → Option String
  | .identifier name => some name
  | _ => none

/-- **The value of an integer constant.** -/
def integer? : Terminal → Option Nat
  | .integer digits => some (Text.Decimal.value digits.toList)
  | _ => none

def text? : Terminal → Option String
  | .text body => some body
  | _ => none

/-- **The terminal names a type**: a basic type, or a class. -/
def isType : Terminal → Bool
  | .keyword .int | .keyword .char | .keyword .boolean | .identifier _ => true
  | _ => false

end Terminal

/-- **The place of a token**: its first byte, its size in bytes with a string's quotes, and the line
on which it starts. -/
structure Span where
  start : Nat
  size : Nat
  line : Nat
  deriving DecidableEq, Repr, Inhabited

/-- **A terminal at its place in the source.** -/
structure Token where
  terminal : Terminal
  span : Span
  deriving DecidableEq, Repr, Inhabited

/-- The line on which a token starts. -/
def Token.line (t : Token) : Nat :=
  t.span.line

end JackStack
