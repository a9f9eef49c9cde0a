import JackStack.Text.Decimal
import JackStack.Text.Quoted
import JackStack.Vm.Command

/-!
# Vm/Reading — commands from the words of a line

`Command.ofWords` reads what `Command.text` writes.
-/

namespace JackStack.Vm

/-- **Why a line is no command.** -/
inductive LineFault where
  | badNumber (word : String)
  | unknownSegment (word : String)
  | unknownCommand (word : String)
  | malformed (words : List String)
  deriving DecidableEq, Repr

/-- What is said about a line that is no command; nothing about a number. -/
def LineFault.message? : LineFault → Option String
  | .badNumber _ => none
  | .unknownSegment word => some ("unknown segment " ++ word)
  | .unknownCommand word => some ("unknown command " ++ word)
  | .malformed words => some ("malformed line " ++ Text.quoteWords words)

/-- **A number** of a command. -/
def number (word : String) : Except LineFault Nat :=
  match Text.Decimal.word? word.toList with
  | some n => .ok n
  | none => .error (.badNumber word)

/-- **A segment** of a command. -/
def segmentNamed (word : String) : Except LineFault Segment :=
  match Segment.ofText? word with
  | some s => .ok s
  | none => .error (.unknownSegment word)

/-- **The command that the words of a line are.** Numbers are read before segments. -/
def Command.ofWords : List String → Except LineFault Command
  | ["push", segment, index] => do
    let index ← number index
    return .push (← segmentNamed segment) index
  | ["pop", segment, index] => do
    let index ← number index
    return .pop (← segmentNamed segment) index
  | ["label", name] => .ok (.label name)
  | ["goto", name] => .ok (.goto name)
  | ["if-goto", name] => .ok (.ifGoto name)
  | ["call", name, arguments] => return .call name (← number arguments)
  | ["function", name, locals] => return .function name (← number locals)
  | ["return"] => .ok .return
  | [word] =>
    match ArithOp.ofText? word with
    | some op => .ok (.arith op)
    | none => .error (.unknownCommand word)
  | words => .error (.malformed words)

end JackStack.Vm
