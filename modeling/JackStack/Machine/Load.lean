import JackStack.Machine.Basic
import JackStack.Text.Line

/-!
# Machine/Load — loading a program

A program is loaded in two passes over its lines. The first finds the functions, the labels of each
function, and the statics, which get cells behind those of the programs loaded before. The second
turns each line into one instruction.
-/

namespace JackStack.Machine

open Vm (Command)

/-- A fault of a line is a fault of the machine. -/
def ofLine {α : Type} : Except Vm.LineFault α → Except Fault α
  | .ok a => .ok a
  | .error fault => .error (.line fault)

/-- The sum of two sizes, which has to stay below `2 ^ 64`. -/
def addSize (m n : Nat) : Except Fault Nat :=
  if m + n < Text.Decimal.wordBound then .ok (m + n) else .error .overflow

/-! ## First pass -/

/-- **What the first pass finds**: the function that a line belongs to, the places of functions and
labels, the latest first, the number of statics, and the place of the next line. -/
structure Survey where
  function : String := ""
  functions : List (String × Nat) := []
  labels : List ((String × String) × Nat) := []
  statics : Nat := 0
  place : Nat

namespace Survey

/-- **Surveys one line.** Every three words around `static` count as a use of that static. -/
def line (s : Survey) (words : List String) : Except Fault Survey :=
  let s := { s with place := s.place + 1 }
  match words with
  | ["function", name, _] =>
    .ok { s with function := name, functions := (name, s.place - 1) :: s.functions }
  | ["label", name] => .ok { s with labels := ((s.function, name), s.place - 1) :: s.labels }
  | [_, "static", index] => do
    let n ← addSize (← ofLine (Vm.number index)) 1
    return { s with statics := max s.statics n }
  | _ => .ok s

end Survey

/-! ## Second pass -/

/-- **A command as an instruction** of a function: labels are looked up, statics get their cells. -/
def link (labels : List ((String × String) × Nat)) (statics : Nat) (function : String) :
    Command → Except Fault Instr
  | .push .static index => return .push .static (← addSize index statics)
  | .push segment index => .ok (.push segment index)
  | .pop .static index => return .pop .static (← addSize index statics)
  | .pop segment index => .ok (.pop segment index)
  | .arith op => .ok (.arith op)
  | .label _ => .ok .skip
  | .goto name => return .jump (← find name)
  | .ifGoto name => return .branch (← find name)
  | .call name arguments => .ok (.call name arguments)
  | .function _ locals => .ok (.enter locals)
  | .return => .ok .leave
where
  find (name : String) : Except Fault Nat :=
    match labels.lookup (function, name) with
    | some place => .ok place
    | none => .error (.unknownLabel name)

/-- The function that a line belongs to, after a command. -/
def functionAfter (function : String) : Command → String
  | .function name _ => name
  | _ => function

/-- **The instructions of lines** from inside a function on. -/
def linkLines (labels : List ((String × String) × Nat)) (statics : Nat) :
    String → List (List String) → Except Fault (List Instr)
  | _, [] => .ok []
  | function, words :: rest => do
    let command ← ofLine (Command.ofWords words)
    let instr ← link labels statics (functionAfter function command) command
    return instr :: (← linkLines labels statics (functionAfter function command) rest)

/-! ## Loading -/

/-- **Loads a program** behind those loaded before. -/
def load (m : Machine) (program : String) : Except Fault Machine := do
  let lines := Text.wordLines program
  let survey ← lines.foldlM Survey.line { place := m.code.size }
  let nextStatic ← addSize m.nextStatic survey.statics
  let code ← linkLines survey.labels m.nextStatic "" lines
  return { m with
    code := m.code ++ code.toArray
    functions := survey.functions ++ m.functions
    nextStatic }

end JackStack.Machine
