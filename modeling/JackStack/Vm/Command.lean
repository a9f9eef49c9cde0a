/-!
# Vm/Command — the commands of the stack machine

The target of compilation: a machine with an operand stack, eight memory segments, labels inside a
function, and functions that are called by name. A program is a list of commands, one per line.
-/

namespace JackStack.Vm

/-- **The memory segments.** -/
inductive Segment where
  | constant | «local» | argument | this | that | pointer | temp | static
  deriving DecidableEq, Repr, Inhabited

namespace Segment

def text : Segment → String
  | .constant => "constant"
  | .local => "local"
  | .argument => "argument"
  | .this => "this"
  | .that => "that"
  | .pointer => "pointer"
  | .temp => "temp"
  | .static => "static"

/-- Every segment. -/
def all : List Segment :=
  [.constant, .local, .argument, .this, .that, .pointer, .temp, .static]

/-- **The segment that is written `word`**, if there is one. -/
def ofText? (word : String) : Option Segment :=
  all.find? (·.text = word)

@[simp] theorem ofText?_text (s : Segment) : ofText? s.text = some s := by
  cases s <;> decide

end Segment

/-- **The operations on the top of the stack.** -/
inductive ArithOp where
  | add | sub | neg | eq | gt | lt | and | or | not
  deriving DecidableEq, Repr, Inhabited

namespace ArithOp

def text : ArithOp → String
  | .add => "add"
  | .sub => "sub"
  | .neg => "neg"
  | .eq => "eq"
  | .gt => "gt"
  | .lt => "lt"
  | .and => "and"
  | .or => "or"
  | .not => "not"

/-- Every operation. -/
def all : List ArithOp :=
  [.add, .sub, .neg, .eq, .gt, .lt, .and, .or, .not]

/-- **The operation that is written `word`**, if there is one. -/
def ofText? (word : String) : Option ArithOp :=
  all.find? (·.text = word)

@[simp] theorem ofText?_text (op : ArithOp) : ofText? op.text = some op := by
  cases op <;> decide

end ArithOp

/-- **A command.** `call` carries the number of arguments, `function` the number of locals. -/
inductive Command where
  | push (segment : Segment) (index : Nat)
  | pop (segment : Segment) (index : Nat)
  | arith (op : ArithOp)
  | label (name : String)
  | goto (name : String)
  | ifGoto (name : String)
  | call (name : String) (arguments : Nat)
  | function (name : String) (locals : Nat)
  | «return»
  deriving DecidableEq, Repr, Inhabited

namespace Command

/-- **A command as it is written.** -/
def text : Command → String
  | .push segment index => "push " ++ segment.text ++ " " ++ toString index
  | .pop segment index => "pop " ++ segment.text ++ " " ++ toString index
  | .arith op => op.text
  | .label name => "label " ++ name
  | .goto name => "goto " ++ name
  | .ifGoto name => "if-goto " ++ name
  | .call name arguments => "call " ++ name ++ " " ++ toString arguments
  | .function name locals => "function " ++ name ++ " " ++ toString locals
  | .return => "return"

/-- **The line of a command** in a program. -/
def line (c : Command) : String :=
  c.text ++ "\n"

/-- **The command for an operator of the source.** Only the minus sign differs between its unary and
its binary form; multiplication and division are calls into the mathematics library. -/
def ofOperator? (operator : Char) (unary : Bool) : Option Command :=
  match operator with
  | '+' => some (.arith .add)
  | '-' => some (.arith (if unary then .neg else .sub))
  | '~' => some (.arith .not)
  | '<' => some (.arith .lt)
  | '>' => some (.arith .gt)
  | '&' => some (.arith .and)
  | '|' => some (.arith .or)
  | '=' => some (.arith .eq)
  | '/' => some (.call "Math.divide" 2)
  | '*' => some (.call "Math.multiply" 2)
  | _ => none

end Command

/-- **The text of a program**, a line for each command. -/
def programText (commands : List Command) : String :=
  String.join (commands.map Command.line)

end JackStack.Vm
