import JackStack.Routine
import JackStack.Variable

/-!
# Compile/Code — fragments of code

The commands that a piece of the source becomes, where they do not depend on anything else.

An element of an array is reached through `pointer 1`. The element that is assigned to is addressed
before the right-hand side is computed, and only stored into behind it, because the right-hand side
may use `pointer 1` itself.
-/

namespace JackStack.Code

open Vm (Command)

/-- **A string constant** is built at run time, a character at a time; each call leaves the string
on the stack. -/
def text (body : String) : List Command :=
  .push .constant body.length :: .call "String.new" 1 ::
    body.toList.flatMap fun c => [.push .constant c.toNat, .call "String.appendChar" 2]

/-- **A subroutine starts** with its name and its number of locals. A method takes its object from
its first argument, a constructor allocates one. -/
def prologue (kind : RoutineKind) (name : String) (locals fields : Nat) : List Command :=
  .function name locals ::
    match kind with
    | .function => []
    | .method => [.push .argument 0, .pop .pointer 0]
    | .constructor => [.push .constant fields, .call "Memory.alloc" 1, .pop .pointer 0]

/-- **A subroutine returns** exactly one value, 0 if it has none of its own. -/
def finish (returnsVoid : Bool) : List Command :=
  if returnsVoid then [.push .constant 0, .return] else [.return]

/-- **Stores into an element** whose address lies below the value on the stack. -/
def storeElement : List Command :=
  [.pop .temp 0, .pop .pointer 1, .push .temp 0, .pop .that 0]

/-- **Loads an element** whose address is on the stack. -/
def loadElement : List Command :=
  [.pop .pointer 1, .push .that 0]

/-- **The value of a constant that is a keyword**, if it is one. -/
def keywordConstant? : Keyword → Option (List Command)
  | .true => some [.push .constant 1, .arith .neg]
  | .false | .null => some [.push .constant 0]
  | .this => some [.push .pointer 0]
  | _ => none

end JackStack.Code
