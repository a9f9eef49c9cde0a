import JackStack.Vm.Command

/-!
# Variable — the variables of a class and of the subroutine being compiled

There are four kinds of variables, each numbered densely from zero. Statics and fields belong to the
class and live as long as it does; arguments and locals belong to one subroutine. A name is looked
up in the subroutine first, and of two declarations in one scope the later one counts.
-/

namespace JackStack

/-- **The kinds of variables.** -/
inductive VariableKind where
  | static | field | argument | «local»
  deriving DecidableEq, Repr, Inhabited

namespace VariableKind

def text : VariableKind → String
  | .static => "static"
  | .field => "field"
  | .argument => "argument"
  | .local => "local"

/-- The variable belongs to the class and not to one subroutine. -/
def ofClass : VariableKind → Bool
  | .static | .field => true
  | .argument | .local => false

/-- **The segment in which a variable of this kind is found.** -/
def segment : VariableKind → Vm.Segment
  | .static => .static
  | .field => .this
  | .argument => .argument
  | .local => .local

end VariableKind

/-- **A declared variable**: its type, its kind, and its number within the kind. -/
structure Variable where
  type : String
  kind : VariableKind
  index : Nat
  deriving DecidableEq, Repr, Inhabited

/-- The segment of a variable. -/
def Variable.segment (v : Variable) : Vm.Segment :=
  v.kind.segment

/-- **Pushes a variable.** -/
def Variable.push (v : Variable) : Vm.Command :=
  .push v.segment v.index

/-- **Pops into a variable.** -/
def Variable.pop (v : Variable) : Vm.Command :=
  .pop v.segment v.index

/-- **The declarations of one scope**, the latest first. -/
abbrev Scope := List (String × Variable)

/-- **The scopes in which names are looked up**: that of the class, that of the subroutine, and how
many variables of each kind were declared. -/
structure Scopes where
  classScope : Scope := []
  routineScope : Scope := []
  statics : Nat := 0
  fields : Nat := 0
  arguments : Nat := 0
  locals : Nat := 0
  deriving Repr, Inhabited

namespace Scopes

/-- **How many variables of a kind were declared.** -/
def count (s : Scopes) : VariableKind → Nat
  | .static => s.statics
  | .field => s.fields
  | .argument => s.arguments
  | .local => s.locals

/-- The scopes with one more variable of the kind counted. -/
def countUp (s : Scopes) : VariableKind → Scopes
  | .static => { s with statics := s.statics + 1 }
  | .field => { s with fields := s.fields + 1 }
  | .argument => { s with arguments := s.arguments + 1 }
  | .local => { s with locals := s.locals + 1 }

/-- The declaration that the next variable of the kind gets. -/
def fresh (s : Scopes) (type : String) (kind : VariableKind) : Variable :=
  ⟨type, kind, s.count kind⟩

/-- **Declares a variable** under the next number of its kind. -/
def declare (s : Scopes) (name type : String) (kind : VariableKind) : Scopes :=
  let entry := (name, s.fresh type kind)
  if kind.ofClass then { s.countUp kind with classScope := entry :: s.classScope }
  else { s.countUp kind with routineScope := entry :: s.routineScope }

/-- **Declares a variable** and tells its number. -/
def define (s : Scopes) (name type : String) (kind : VariableKind) : Nat × Scopes :=
  ((s.fresh type kind).index, s.declare name type kind)

/-- **Forgets the arguments and locals** of the subroutine before. -/
def enterRoutine (s : Scopes) : Scopes :=
  { s with routineScope := [], arguments := 0, locals := 0 }

/-- **The declaration that a name means**: the subroutine's, else the class's. -/
def lookup (s : Scopes) (name : String) : Option Variable :=
  (s.routineScope.lookup name).or (s.classScope.lookup name)

/-! ## What a declaration changes -/

/-- A declaration is counted under its kind and under no other. -/
theorem count_declare (s : Scopes) (name type : String) (kind k : VariableKind) :
    (s.declare name type kind).count k = s.count k + if k = kind then 1 else 0 := by
  cases kind <;> cases k <;> rfl

/-- A subroutine starts without arguments and locals. -/
theorem count_enterRoutine (s : Scopes) (k : VariableKind) :
    s.enterRoutine.count k = if k.ofClass then s.count k else 0 := by
  cases k <;> rfl

/-- A declaration leaves the meaning of every other name. -/
theorem lookup_declare_of_ne {s : Scopes} {name other type : String} {kind : VariableKind}
    (h : other ≠ name) : (s.declare name type kind).lookup other = s.lookup other := by
  have : (other == name) = false := beq_false_of_ne h
  cases kind <;> simp [declare, lookup, countUp, VariableKind.ofClass, List.lookup_cons, this]

/-- An argument or local is found under its name, whatever was declared before. -/
theorem lookup_declare_routine {s : Scopes} {name type : String} {kind : VariableKind}
    (h : kind.ofClass = false) :
    (s.declare name type kind).lookup name = some (s.fresh type kind) := by
  cases kind <;> simp_all [declare, lookup, VariableKind.ofClass]

end Scopes

end JackStack
