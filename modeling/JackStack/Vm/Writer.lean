import JackStack.Action
import JackStack.Event
import JackStack.Vm.Sink

/-!
# Vm/Writer — writing commands

A writer puts commands into a sink, a line each, and keeps a log. It counts the commands written and
knows whether the last of them was a return. A command is logged before it is written, so one that
its sink refuses is in the log, but is not counted.
-/

namespace JackStack

/-- **A writer of commands.** -/
structure Writer where
  sink : Sink := {}
  log : Array Event := #[]
  count : Nat := 0
  returned : Bool := false
  deriving Inhabited

namespace Writer

/-- The writer with one more event in its log. -/
def note (w : Writer) (e : Event) : Writer :=
  { w with log := w.log.push e }

/-- **Writes one command.** -/
def emit (c : Vm.Command) : Action Writer Unit
  | ⟨sink, log, count, returned⟩ =>
    let log := log.push (.commandWritten count c)
    match sink.write c.line with
    | (.ok (), sink) => .ok () ⟨sink, log, count + 1, c = .return⟩
    | (.error fault, sink) => .error (.file fault) ⟨sink, log, count, returned⟩

/-- **Writes commands** in order. -/
def emitAll : List Vm.Command → Action Writer Unit
  | [] => pure ()
  | c :: cs => do
    emit c
    emitAll cs

/-- **Writes the command of an operator.** -/
def emitOperator (operator : Char) (unary : Bool) : Action Writer Unit :=
  match Vm.Command.ofOperator? operator unary with
  | some c => emit c
  | none => throw (.unknownOperator operator)

end Writer

end JackStack
