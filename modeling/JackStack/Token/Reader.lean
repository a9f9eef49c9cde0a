import JackStack.Token.Scan

/-!
# Token/Reader — stepping through the tokens of a source

A reader stands at a point of the token sequence and remembers the last good token it passed, the
*current* one. A malformed token is reported and passed; the current token stays.
-/

namespace JackStack

/-- **A reader of tokens**: the current token, and the items still to come. -/
structure Reader where
  current : Option Token := none
  pending : List (Except CompileError Token)

namespace Reader

/-- A reader before the first token of a source. -/
def ofSource (source : String) : Reader :=
  { pending := scan source }

/-- Another item follows, be it a token or an error. -/
def hasNext (r : Reader) : Bool :=
  !r.pending.isEmpty

/-- **One step**: the next token becomes current. -/
def advance (r : Reader) : Except CompileError Unit × Reader :=
  match r.pending with
  | [] => (.error .noMoreTokens, r)
  | .ok token :: rest => (.ok (), ⟨some token, rest⟩)
  | .error e :: rest => (.error e, ⟨r.current, rest⟩)

/-- **Takes the current token out**, so that none is current. -/
def take (r : Reader) : Option Token × Reader :=
  (r.current, { r with current := none })

/-- **The next item**, which also becomes current if it is a token; nothing at the end. -/
def next (r : Reader) : Option (Except CompileError Token) × Reader :=
  match r.pending with
  | [] => (none, r)
  | .ok token :: rest => (some (.ok token), ⟨some token, rest⟩)
  | .error e :: rest => (some (.error e), ⟨r.current, rest⟩)

/-- The terminal of the current token. -/
def terminal? (r : Reader) : Option Terminal :=
  r.current.map Token.terminal

end Reader

end JackStack
