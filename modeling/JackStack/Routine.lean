import JackStack.Token

/-!
# Routine — the subroutines of a class

A subroutine is a constructor, a function or a method. Its kind decides how its code starts, and
whether it returns a value decides how it ends.
-/

namespace JackStack

/-- **The kinds of subroutines.** -/
inductive RoutineKind where
  | constructor | function | method
  deriving DecidableEq, Repr, Inhabited

namespace RoutineKind

/-- The name of the kind in messages. -/
def text : RoutineKind → String
  | .constructor => "Constructor"
  | .function => "Function"
  | .method => "Method"

/-- **The kind of subroutine that a keyword opens**, if it opens one. -/
def ofKeyword? : Keyword → Option RoutineKind
  | .constructor => some .constructor
  | .function => some .function
  | .method => some .method
  | _ => none

end RoutineKind

/-- **A subroutine** by what its declaration says before the parameters. -/
structure Routine where
  kind : RoutineKind
  name : String
  returnsVoid : Bool
  deriving DecidableEq, Repr, Inhabited

/-- **The name under which other code calls a subroutine** of a class. -/
def qualifiedName (className routine : String) : String :=
  className ++ "." ++ routine

end JackStack
