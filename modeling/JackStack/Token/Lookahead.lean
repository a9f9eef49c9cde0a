import JackStack.Action
import JackStack.Token.Scan

/-!
# Token/Lookahead — tokens with one token of lookahead

A stream shows its current token and hides the rest. Consuming the current token brings up the next
one; if that is malformed, the error comes at once, and the stream is at its end for good.

* `Lookahead.pass_remaining` — consuming a token leaves fewer items.
-/

namespace JackStack

/-- **A stream of tokens**: the current one, the items behind it, and the line of the token consumed
last, on which errors at the end of the source are reported. -/
structure Lookahead where
  current : Option Token
  pending : List (Except CompileError Token)
  lastLine : Nat := 1
  deriving Inhabited

namespace Lookahead

/-- **The stream of a token sequence.** It needs its first token to be well-formed. -/
def ofItems : List (Except CompileError Token) → Except CompileError Lookahead
  | [] => .ok ⟨none, [], 1⟩
  | .ok token :: rest => .ok ⟨some token, rest, 1⟩
  | .error e :: _ => .error e

/-- **The stream of a source** without comments. -/
def ofSource (source : String) : Except CompileError Lookahead :=
  ofItems (scan source)

/-! ## Looking at the current token -/

/-- The terminal of the current token. -/
def terminal? (s : Lookahead) : Option Terminal :=
  s.current.map Token.terminal

def keyword? (s : Lookahead) : Option Keyword :=
  s.terminal?.bind Terminal.keyword?

def symbol? (s : Lookahead) : Option Char :=
  s.terminal?.bind Terminal.symbol?

def isSymbol (s : Lookahead) (c : Char) : Bool :=
  s.symbol? = some c

def atEnd (s : Lookahead) : Bool :=
  s.current.isNone

/-- **The line of the current token**, at the end that of the last one. -/
def line (s : Lookahead) : Nat :=
  match s.current with
  | some token => token.line
  | none => s.lastLine

/-- **What stands at the current point**, as messages say it. -/
def found (s : Lookahead) : String :=
  match s.current with
  | some token => token.terminal.describe
  | none => "end of input"

/-- **The error that something else was expected** at the current point. -/
def unexpected (s : Lookahead) (expected : String) : CompileError :=
  .unexpected s.line expected s.found

/-! ## Consuming tokens -/

/-- **Stops** because something else was expected. -/
def fail {α : Type} (expected : String) : Action Lookahead α := fun s =>
  .error (s.unexpected expected) s

/-- **Consumes the current token**, whatever it is. -/
def pass (expected : String) : Action Lookahead Token := fun s =>
  match s.current with
  | none => fail expected s
  | some token =>
    match s.pending with
    | [] => .ok token ⟨none, [], token.line⟩
    | .ok ahead :: rest => .ok token ⟨some ahead, rest, token.line⟩
    | .error e :: rest => .error e ⟨none, rest, token.line⟩

/-- **Consumes a symbol** if it is the current token, and says whether it was. -/
def accept (c : Char) : Action Lookahead Bool := fun s =>
  if s.isSymbol c then (do discard <| pass "symbol"; pure true : Action Lookahead Bool) s
  else .ok false s

/-- A text in apostrophes. -/
def apostrophes (text : String) : String :=
  "'" ++ text ++ "'"

/-- **Consumes a required symbol.** -/
def expectSymbol (c : Char) : Action Lookahead Token := fun s =>
  if s.isSymbol c then pass "symbol" s else fail (apostrophes (String.singleton c)) s

/-- **Consumes a required keyword.** -/
def expectKeyword (k : Keyword) : Action Lookahead Token := fun s =>
  if s.keyword? = some k then pass "keyword" s else fail (apostrophes k.text) s

/-- **Consumes one of several keywords**, and says which. -/
def expectOneOf (ks : List Keyword) : Action Lookahead Keyword := fun s =>
  match s.keyword? with
  | some k =>
    if ks.contains k then (do discard <| pass "keyword"; pure k : Action Lookahead Keyword) s
    else fail (oneOf ks) s
  | none => fail (oneOf ks) s
where
  oneOf (ks : List Keyword) : String :=
    "one of " ++ String.intercalate ", " (ks.map (apostrophes ·.text))

/-- **Consumes a name**, which messages call `what`. -/
def expectName (what : String) : Action Lookahead String := fun s =>
  match s.terminal? with
  | some (.identifier name) => (do discard <| pass what; pure name : Action Lookahead String) s
  | _ => fail what s

/-! ## What consuming leaves -/

/-- **How many items are left**, the current token among them. -/
def remaining (s : Lookahead) : Nat :=
  match s.current with
  | some _ => s.pending.length + 1
  | none => 0

theorem pass_remaining {expected : String} {s s' : Lookahead} {token : Token}
    (h : pass expected s = .ok token s') : s'.remaining < s.remaining := by
  unfold pass fail at h
  split at h
  · cases h
  · next hc =>
    split at h
    · cases h; simp [remaining, hc]
    · next hp => cases h; simp [remaining, hc, hp]
    · cases h

end Lookahead

end JackStack
