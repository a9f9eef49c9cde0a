import JackStack.Token.Lookahead
import JackStack.Variable
import JackStack.Vm.Writer

/-!
# Compile/Session — the state of a compilation

A session holds the tokens still to be read, the declared variables, the writer of the output, the
class and the subroutine being compiled, and the numbers of the next labels. The actions here are
the only ways in which compiling changes it.

* `Consumes`, `Keeps` — if an action succeeds, fewer tokens are left, or not more.
-/

namespace JackStack

/-- **The state of a compilation.** -/
structure Session where
  input : Lookahead
  scopes : Scopes := {}
  writer : Writer := {}
  className : String := ""
  routine : Routine := default
  /-- The number of the next label of a condition. -/
  conditions : Nat := 0
  /-- The number of the next label of a loop. -/
  loops : Nat := 0
  deriving Inhabited

namespace Session

variable {α β : Type}

/-! ## Actions on the tokens -/

/-- **An action on the tokens** of a session. -/
def onInput (a : Action Lookahead α) : Action Session α
  | ⟨input, scopes, writer, className, routine, conditions, loops⟩ =>
    match a input with
    | .ok x input => .ok x ⟨input, scopes, writer, className, routine, conditions, loops⟩
    | .error e input => .error e ⟨input, scopes, writer, className, routine, conditions, loops⟩

/-- **Passes the current token.** -/
def pass : Action Session Unit :=
  onInput (discard (Lookahead.pass "token"))

/-- **Passes a required symbol.** -/
def expectSymbol (c : Char) : Action Session Unit :=
  onInput (discard (Lookahead.expectSymbol c))

/-- **Passes a required keyword.** -/
def expectKeyword (k : Keyword) : Action Session Unit :=
  onInput (discard (Lookahead.expectKeyword k))

/-- **Passes a required name**, which messages call `what`. -/
def expectName (what : String) : Action Session String :=
  onInput (Lookahead.expectName what)

/-- **Stops** because something else was expected. -/
def fail (expected : String) : Action Session α :=
  onInput (Lookahead.fail expected)

/-- **The tokens as they stand.** -/
def input? : Action Session Lookahead := do
  return (← get).input

/-- **Passes a required type**, and returns its name. -/
def expectType : Action Session String := do
  match (← input?).terminal?.filter Terminal.isType with
  | some type =>
    pass
    return type.spelling
  | none => fail "type"

/-! ## Actions on the output -/

/-- **An action on the writer** of a session. -/
def onWriter (a : Action Writer α) : Action Session α
  | ⟨input, scopes, writer, className, routine, conditions, loops⟩ =>
    match a writer with
    | .ok x writer => .ok x ⟨input, scopes, writer, className, routine, conditions, loops⟩
    | .error e writer => .error e ⟨input, scopes, writer, className, routine, conditions, loops⟩

/-- **Writes commands.** -/
def write (commands : List Vm.Command) : Action Session Unit :=
  onWriter (Writer.emitAll commands)

/-- **Writes the command of an operator.** -/
def operate (operator : Char) (unary : Bool) : Action Session Unit :=
  onWriter (Writer.emitOperator operator unary)

/-- **Adds an event to the log.** -/
def note (e : Event) : Action Session Unit :=
  onWriter (modify (·.note e))

/-! ## Actions on the declared variables -/

/-- **Declares a variable.** -/
def declare (name type : String) (kind : VariableKind) : Action Session Unit :=
  modify fun s => { s with scopes := s.scopes.declare name type kind }

/-- **The variable that a name on a line means.** -/
def resolve (name : String) (line : Nat) : Action Session Variable := do
  match (← get).scopes.lookup name with
  | some v => return v
  | none => throw (.undefinedVariable line name)

/-! ## Labels -/

/-- **Two fresh labels of a condition.** -/
def conditionLabels : Action Session (String × String) :=
  modifyGet fun s =>
    (("IF_" ++ toString s.conditions, "IF_" ++ toString (s.conditions + 1)),
      { s with conditions := s.conditions + 2 })

/-- **Two fresh labels of a loop.** -/
def loopLabels : Action Session (String × String) :=
  modifyGet fun s =>
    (("WHILE_" ++ toString s.loops, "WHILE_" ++ toString (s.loops + 1)),
      { s with loops := s.loops + 2 })

/-! ## How actions change the number of tokens left -/

/-- **The action consumes a token** if it succeeds. -/
def Consumes (a : Action Session α) : Prop :=
  ∀ ⦃s x s'⦄, a s = .ok x s' → s'.input.remaining < s.input.remaining

/-- **The action brings up no new tokens** if it succeeds. -/
def Keeps (a : Action Session α) : Prop :=
  ∀ ⦃s x s'⦄, a s = .ok x s' → s'.input.remaining ≤ s.input.remaining

theorem consumes_onInput {a : Action Lookahead α}
    (h : ∀ ⦃t x t'⦄, a t = .ok x t' → t'.remaining < t.remaining) : Consumes (onInput a) := by
  intro s x s' hs
  cases s
  simp only [onInput] at hs
  split at hs
  · next ha => cases hs; exact h ha
  · cases hs

theorem keeps_onWriter (a : Action Writer α) : Keeps (onWriter a) := by
  intro s x s' hs
  cases s
  simp only [onWriter] at hs
  split at hs
  · cases hs; exact Nat.le_refl _
  · cases hs

theorem keeps_modify {f : Session → Session} (h : ∀ s, (f s).input = s.input) :
    Keeps (modify f) := by
  intro s x s' hs
  cases hs
  exact Nat.le_of_eq (congrArg _ (h s))

theorem keeps_get : Keeps (get : Action Session Session) := by
  intro s x s' hs
  cases hs
  exact Nat.le_refl _

theorem keeps_input? : Keeps input? := by
  intro s x s' hs
  cases hs
  exact Nat.le_refl _

theorem consumes_discard {a : Action Lookahead α}
    (h : ∀ ⦃t x t'⦄, a t = .ok x t' → t'.remaining < t.remaining) :
    Consumes (onInput (discard a)) := by
  refine consumes_onInput fun t x t' ht => ?_
  obtain ⟨_, _, ha, hp⟩ := Action.bind_eq_ok.mp ht
  cases hp
  exact h ha

theorem consumes_pass : Consumes pass :=
  consumes_discard fun _ _ _ => Lookahead.pass_remaining

theorem consumes_expectSymbol (c : Char) : Consumes (expectSymbol c) := by
  refine consumes_discard fun t x t' h => ?_
  unfold Lookahead.expectSymbol at h
  split at h
  · exact Lookahead.pass_remaining h
  · cases h

theorem consumes_expectKeyword (k : Keyword) : Consumes (expectKeyword k) := by
  refine consumes_discard fun t x t' h => ?_
  unfold Lookahead.expectKeyword at h
  split at h
  · exact Lookahead.pass_remaining h
  · cases h

theorem consumes_expectName (what : String) : Consumes (expectName what) := by
  refine consumes_onInput fun t x t' h => ?_
  unfold Lookahead.expectName at h
  split at h
  · obtain ⟨_, _, hn, hp⟩ := Action.bind_eq_ok.mp h
    cases hp
    obtain ⟨_, _, hn, hp⟩ := Action.bind_eq_ok.mp hn
    cases hp
    exact Lookahead.pass_remaining hn
  · cases h

theorem consumes_fail (expected : String) : Consumes (fail expected : Action Session α) :=
  consumes_onInput fun _ _ _ h => nomatch h

end Session

end JackStack
