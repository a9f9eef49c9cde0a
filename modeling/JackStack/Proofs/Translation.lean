import Mathlib.Algebra.GroupWithZero.Nat
import JackStack.Proofs.Grammar

/-!
# Proofs/Translation — the commands of a tree

The translation of a tree is composed of the translations of its parts, by one pattern of commands
for each production of the grammar. Names are resolved first, from the declarations of the class and
of the subroutine; labels are numbered in the order in which conditions and loops start.

    a[i]                a, i, add, pop pointer 1, push that 0
    let a[i] = e        i, a, add, e, pop temp 0, pop pointer 1, push temp 0, pop that 0
    if (e) {s} else {t} e, not, if-goto IF_m, s, goto IF_n, label IF_m, t, label IF_n
    while (e) {s}       label WHILE_m, e, not, if-goto WHILE_n, s, goto WHILE_m, label WHILE_n

* `ClassDecl.code` — the commands of a class.
-/

namespace JackStack

open Vm (Command)

/-! ## Resolving names -/

/-- **A declaration** of a variable. -/
structure Declaration where
  name : String
  type : String
  kind : VariableKind

namespace Declaration

/-- **The variable that a name means** among declarations, the latest first. The latest declaration
counts, and its number is how many of its kind were made before. -/
def find? (name : String) : List Declaration → Option Variable
  | [] => none
  | d :: earlier =>
    if d.name = name then some ⟨d.type, d.kind, earlier.countP (·.kind = d.kind)⟩
    else find? name earlier

end Declaration

/-- The name of a type in declarations. -/
def TypeName.text (t : TypeName) : String :=
  t.terminal.spelling

/-- The declarations of variables declared together. -/
def VariableList.declarations (l : VariableList) (kind : VariableKind) : List Declaration :=
  l.names.map fun name => ⟨name, l.type.text, kind⟩

/-- The declarations of variables of a class. -/
def ClassVariables.declarations : ClassVariables → List Declaration
  | .statics list => list.declarations .static
  | .fields list => list.declarations .field

/-- **The declarations of a class**, in order. -/
def ClassDecl.declarations (c : ClassDecl) : List Declaration :=
  c.members.flatMap ClassVariables.declarations

/-- The declaration of a parameter. -/
def Parameter.declaration (p : Parameter) : Declaration :=
  ⟨p.name, p.type.text, .argument⟩

/-- The hidden first argument of a method. -/
def RoutineKind.receiver (kind : RoutineKind) (className : String) : List Declaration :=
  if kind = .method then [⟨"this", className, .argument⟩] else []

/-- **The declarations of a subroutine**, in order. -/
def RoutineDecl.declarations (r : RoutineDecl) (className : String) : List Declaration :=
  r.kind.receiver className ++ r.parameters.map Parameter.declaration
    ++ r.locals.flatMap (·.declarations .local)

/-- **What the code of a subroutine depends on** besides its own text. -/
structure Context where
  resolve : String → Option Variable
  className : String
  returnsVoid : Bool

/-- **The context of a subroutine**: its own declarations hide those of the class. -/
def RoutineDecl.context (r : RoutineDecl) (c : ClassDecl) : Context where
  resolve name :=
    (Declaration.find? name (r.declarations c.name).reverse).or
      (Declaration.find? name c.declarations.reverse)
  className := c.name
  returnsVoid := r.returnType.isNone

/-- How many locals a subroutine declares. -/
def RoutineDecl.localCount (r : RoutineDecl) : Nat :=
  (r.locals.flatMap VariableList.names).length

/-- How many fields are declared together. -/
def ClassVariables.fieldCount : ClassVariables → Nat
  | .statics _ => 0
  | .fields list => list.names.length

/-- How many fields a class declares. -/
def ClassDecl.fieldCount (c : ClassDecl) : Nat :=
  (c.members.map ClassVariables.fieldCount).sum

/-! ## Expressions -/

/-- The command of an operator in front of a term. -/
def UnaryOp.command : UnaryOp → Command
  | .negate => .arith .neg
  | .complement => .arith .not

/-- The command of an operator between terms. -/
def BinaryOp.command : BinaryOp → Command
  | .add => .arith .add
  | .subtract => .arith .sub
  | .multiply => .call "Math.multiply" 2
  | .divide => .call "Math.divide" 2
  | .and => .arith .and
  | .or => .arith .or
  | .less => .arith .lt
  | .greater => .arith .gt
  | .equal => .arith .eq

/-- The commands of a constant that is a keyword. -/
def Constant.code : Constant → List Command
  | .true => [.push .constant 1, .arith .neg]
  | .false | .null => [.push .constant 0]
  | .this => [.push .pointer 0]

/-- **The commands of a string constant**: an empty string with room for it, then its characters. -/
def textCode (body : String) : List Command :=
  [.push .constant body.length, .call "String.new" 1]
    ++ body.toList.flatMap fun c => [.push .constant c.toNat, .call "String.appendChar" 2]

namespace Context

/-- The commands that push a variable; there are none for a name without a declaration. -/
def pushName (c : Context) (name : String) : List Command :=
  (c.resolve name).toList.map Variable.push

/-- The commands that pop into a variable. -/
def popName (c : Context) (name : String) : List Command :=
  (c.resolve name).toList.map Variable.pop

/-- **The command of a call on a name**: a method of the variable's class with the variable as
hidden argument, or a subroutine of the class that the name means. -/
def callOn (c : Context) (receiver routine : String) (arguments : Nat) : Command :=
  match c.resolve receiver with
  | some v => .call (qualifiedName v.type routine) (arguments + 1)
  | none => .call (qualifiedName receiver routine) arguments

end Context

mutual

/-- **The commands of a term** leave its value on the stack. -/
def Term.code (c : Context) : Term → List Command
  | .integer digits => [.push .constant (Text.Decimal.value digits.toList)]
  | .text body => textCode body
  | .constant k => k.code
  | .variable name => c.pushName name
  | .element array index =>
    c.pushName array ++ index.code c ++ [.arith .add, .pop .pointer 1, .push .that 0]
  | .call k => k.code c
  | .group inner => inner.code c
  | .unary op operand => operand.code c ++ [op.command]

/-- **The commands of an expression**: each operator stands behind its second operand. -/
def Expression.code (c : Context) : Expression → List Command
  | .chain first more => first.code c ++ Expression.moreCode c more

/-- The commands of operators, each with its term. -/
def Expression.moreCode (c : Context) : List (BinaryOp × Term) → List Command
  | [] => []
  | (op, t) :: rest => t.code c ++ op.command :: Expression.moreCode c rest

/-- **The commands of a call**: the hidden argument, if there is one, the arguments, the call. -/
def Call.code (c : Context) : Call → List Command
  | .own routine arguments =>
    .push .pointer 0 :: (Call.listCode c arguments
      ++ [.call (qualifiedName c.className routine) (arguments.length + 1)])
  | .on receiver routine arguments =>
    c.pushName receiver ++ Call.listCode c arguments
      ++ [c.callOn receiver routine arguments.length]

/-- The commands of arguments. -/
def Call.listCode (c : Context) : List Expression → List Command
  | [] => []
  | e :: rest => e.code c ++ Call.listCode c rest

end

/-! ## Statements

The numbers `m` and `n` are those of the next label of a condition and of a loop. -/

mutual

/-- **How many labels conditions take** in a statement. -/
def Statement.conditions : Statement → Nat
  | .branch _ body otherwise =>
    2 + Statement.listConditions body + Statement.otherwiseConditions otherwise
  | .loop _ body => Statement.listConditions body
  | .assign .. | .assignElement .. | .perform _ | .return _ => 0

/-- How many labels conditions take in statements. -/
def Statement.listConditions : List Statement → Nat
  | [] => 0
  | s :: rest => s.conditions + Statement.listConditions rest

/-- How many labels conditions take in a second branch. -/
def Statement.otherwiseConditions : Option (List Statement) → Nat
  | none => 0
  | some body => Statement.listConditions body

end

mutual

/-- **How many labels loops take** in a statement. -/
def Statement.loops : Statement → Nat
  | .branch _ body otherwise => Statement.listLoops body + Statement.otherwiseLoops otherwise
  | .loop _ body => 2 + Statement.listLoops body
  | .assign .. | .assignElement .. | .perform _ | .return _ => 0

/-- How many labels loops take in statements. -/
def Statement.listLoops : List Statement → Nat
  | [] => 0
  | s :: rest => s.loops + Statement.listLoops rest

/-- How many labels loops take in a second branch. -/
def Statement.otherwiseLoops : Option (List Statement) → Nat
  | none => 0
  | some body => Statement.listLoops body

end

/-- The label of a condition. -/
def ifLabel (n : Nat) : String :=
  "IF_" ++ toString n

/-- The label of a loop. -/
def whileLabel (n : Nat) : String :=
  "WHILE_" ++ toString n

/-- **The commands of a return**: a subroutine without a value returns 0. -/
def Context.returnCode (c : Context) : List Command :=
  if c.returnsVoid then [.push .constant 0, .return] else [.return]

mutual

/-- **The commands of a statement.** -/
def Statement.code (c : Context) (m n : Nat) : Statement → List Command
  | .assign name value => value.code c ++ c.popName name
  | .assignElement array index value =>
    index.code c ++ c.pushName array ++ .arith .add :: (value.code c
      ++ [.pop .temp 0, .pop .pointer 1, .push .temp 0, .pop .that 0])
  | .branch condition body otherwise =>
    condition.code c ++ [.arith .not, .ifGoto (ifLabel m)]
      ++ Statement.listCode c (m + 2) n body
      ++ [.goto (ifLabel (m + 1)), .label (ifLabel m)]
      ++ Statement.otherwiseCode c (m + 2 + Statement.listConditions body)
        (n + Statement.listLoops body) otherwise
      ++ [.label (ifLabel (m + 1))]
  | .loop condition body =>
    .label (whileLabel n) :: (condition.code c ++ [.arith .not, .ifGoto (whileLabel (n + 1))]
      ++ Statement.listCode c m (n + 2) body
      ++ [.goto (whileLabel n), .label (whileLabel (n + 1))])
  | .perform k => k.code c ++ [.pop .temp 0]
  | .return none => c.returnCode
  | .return (some value) => value.code c ++ c.returnCode

/-- **The commands of statements** in sequence. -/
def Statement.listCode (c : Context) (m n : Nat) : List Statement → List Command
  | [] => []
  | s :: rest =>
    s.code c m n ++ Statement.listCode c (m + s.conditions) (n + s.loops) rest

/-- The commands of a second branch. -/
def Statement.otherwiseCode (c : Context) (m n : Nat) : Option (List Statement) → List Command
  | none => []
  | some body => Statement.listCode c m n body

end

/-! ## Subroutines and classes -/

/-- The statement is a return. -/
def Statement.isReturn : Statement → Bool
  | .return _ => true
  | _ => false

/-- The last of the statements is a return. -/
def Statement.endsInReturn (body : List Statement) : Bool :=
  body.getLast?.any Statement.isReturn

namespace RoutineDecl

/-- **The commands before the statements**: the header with the number of locals; then a method
takes its object from its first argument, and a constructor allocates one with room for the
fields. -/
def prologue (r : RoutineDecl) (c : ClassDecl) : List Command :=
  .function (qualifiedName c.name r.name) r.localCount ::
    match r.kind with
    | .function => []
    | .method => [.push .argument 0, .pop .pointer 0]
    | .constructor => [.push .constant c.fieldCount, .call "Memory.alloc" 1, .pop .pointer 0]

/-- **The commands behind the statements**: a subroutine without a value that does not end in a
return gets one. -/
def epilogue (r : RoutineDecl) : List Command :=
  if r.returnType.isNone && !Statement.endsInReturn r.body then [.push .constant 0, .return]
  else []

/-- **The commands of a subroutine.** -/
def code (r : RoutineDecl) (c : ClassDecl) (m n : Nat) : List Command :=
  r.prologue c ++ Statement.listCode (r.context c) m n r.body ++ r.epilogue

/-- **The commands of subroutines** in sequence: numbers of labels go on from one to the next. -/
def listCode (c : ClassDecl) (m n : Nat) : List RoutineDecl → List Command
  | [] => []
  | r :: rest =>
    r.code c m n ++ listCode c (m + Statement.listConditions r.body)
      (n + Statement.listLoops r.body) rest

end RoutineDecl

/-- **The commands of a class.** -/
def ClassDecl.code (c : ClassDecl) : List Command :=
  RoutineDecl.listCode c 0 0 c.routines

end JackStack
