import JackStack.Routine
import JackStack.Variable

/-!
# Compile/Goal — what is still to be done for a class

A class is compiled by working through an agenda of goals from its front. A goal stands for a piece
of the grammar that is to be recognised next, or for commands that are to be written at this point.
Doing a goal consumes at most one token and puts smaller goals in its place, so the agenda spells
out in which order tokens are consumed and commands are written.

* `Goal.weight` — a bound on the steps that a goal takes before a token has to be consumed.
-/

namespace JackStack

/-- **A goal of the compiler.** -/
inductive Goal where
  /-- The symbol comes next. -/
  | symbol (c : Char)
  /-- The keyword comes next. -/
  | keyword (k : Keyword)
  /-- The commands are written. -/
  | write (commands : List Vm.Command)
  /-- The command of an operator is written. -/
  | operate (operator : Char) (unary : Bool)
  /-- The name of the class. -/
  | className
  /-- The log says which class is compiled. -/
  | announceClass
  /-- Declarations of statics and fields. -/
  | classVariables
  /-- Subroutines. -/
  | routines
  /-- Nothing behind the class. -/
  | sourceEnd
  /-- The type of declared variables. -/
  | variableType (kind : VariableKind)
  /-- A variable of a type. -/
  | variableName (kind : VariableKind) (type : String)
  /-- More variables of the type, or the end of the declaration. -/
  | moreVariables (kind : VariableKind) (type : String)
  /-- The return type of a subroutine. -/
  | returnType (kind : RoutineKind)
  /-- The name of a subroutine, and all of it that follows. -/
  | routineName (kind : RoutineKind) (returnsVoid : Bool)
  /-- The parameters of a subroutine. -/
  | parameters
  /-- The type of a parameter. -/
  | parameterType
  /-- A parameter of a type. -/
  | parameterName (type : String)
  /-- More parameters, or none. -/
  | moreParameters
  /-- The log says which subroutine is compiled. -/
  | announceRoutine
  /-- Declarations of locals. -/
  | localVariables
  /-- The code before the statements of a subroutine. -/
  | prologue
  /-- The code behind the statements of a subroutine. -/
  | epilogue
  /-- Statements. -/
  | statements
  /-- The variable of an assignment. -/
  | assigned
  /-- The rest of an assignment to a variable or to an element of its array. -/
  | assignment (target : Variable)
  /-- A condition behind its keyword. -/
  | conditional
  /-- A loop behind its keyword. -/
  | loop
  /-- The second branch of a condition, or none. -/
  | otherwise
  /-- The subroutine that a `do` calls. -/
  | performed
  /-- The rest of a `return`. -/
  | returned
  /-- An expression. -/
  | expression
  /-- More operators, each with its term. -/
  | moreTerms
  /-- A term. -/
  | term
  /-- What follows an identifier in a term. -/
  | reference (name : String) (line : Nat)
  /-- What follows the first identifier of a call. -/
  | call (name : String)
  /-- The subroutine called on a variable or a class. -/
  | callee (receiver : String)
  /-- The hidden argument of a call, if it has one. -/
  | receiver (name routine : String)
  /-- The arguments of a call, behind `count` others. -/
  | arguments (routine : String) (count : Nat)
  /-- More arguments of a call, or its end. -/
  | moreArguments (routine : String) (count : Nat)
  deriving Repr, Inhabited

namespace Goal

/-- **The weight of a goal.** A goal that consumes no token leaves goals of less weight. -/
def weight : Goal → Nat
  | .moreVariables .. | .parameters => 2
  | .expression | .call _ | .moreArguments .. => 3
  | .reference .. => 4
  | .returned => 6
  | .assignment _ | .arguments .. => 7
  | .receiver .. => 8
  | .conditional | .loop => 14
  | _ => 1

/-- **The weight of an agenda.** -/
def weights : List Goal → Nat
  | [] => 0
  | g :: gs => g.weight + weights gs

@[simp] theorem weights_nil : weights [] = 0 := rfl

@[simp] theorem weights_cons (g : Goal) (gs : List Goal) :
    weights (g :: gs) = g.weight + weights gs := rfl

@[simp] theorem weights_append (gs hs : List Goal) :
    weights (gs ++ hs) = weights gs + weights hs := by
  induction gs with
  | nil => simp
  | cons g gs ih => simp [ih, Nat.add_assoc]

/-- The goals of a class. -/
def classGoals : List Goal :=
  [.keyword .class, .className, .symbol '{', .announceClass, .classVariables, .routines,
   .symbol '}', .sourceEnd]

/-- The goals of statements in braces. -/
def block : List Goal :=
  [.symbol '{', .statements, .symbol '}']

/-- The goals of a condition in brackets, whose value is negated: a jump on it skips what it
guards. -/
def condition : List Goal :=
  [.symbol '(', .expression, .symbol ')', .operate '~' true]

/-- **The goals of a statement** behind its keyword. -/
def statement? : Keyword → Option (List Goal)
  | .let => some [.assigned]
  | .if => some [.conditional]
  | .while => some [.loop]
  | .do => some [.performed, .symbol ';', .write [.pop .temp 0]]
  | .return => some [.returned]
  | _ => none

end Goal

end JackStack
