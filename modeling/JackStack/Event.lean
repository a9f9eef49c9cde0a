import JackStack.Error
import JackStack.Routine
import JackStack.Vm.Command

/-!
# Event — what the compiler reports while it works

An event is one record of the log. Its level, the part of the program it comes from and its wording
are functions of the event, so a log is a list of events and a reader of it filters by level.
-/

namespace JackStack

/-! ## Levels and origins -/

/-- **How serious an event is**, the most serious first. -/
inductive Level where
  | error | warn | info | debug | trace
  deriving DecidableEq, Repr, Inhabited

namespace Level

def text : Level → String
  | .error => "ERROR"
  | .warn => "WARN"
  | .info => "INFO"
  | .debug => "DEBUG"
  | .trace => "TRACE"

def all : List Level :=
  [.error, .warn, .info, .debug, .trace]

/-- The place of a level in the order, from 1. -/
def rank : Level → Nat
  | .error => 1
  | .warn => 2
  | .info => 3
  | .debug => 4
  | .trace => 5

/-- The level whose text is `word`, whatever the case of its letters. -/
def ofText? (word : String) : Option Level :=
  all.find? fun l => l.text.toList = word.toList.map Char.toUpper

end Level

/-- **A threshold for the log**: events up to this rank are shown, none at rank 0. -/
structure Threshold where
  rank : Nat
  deriving DecidableEq, Repr

namespace Threshold

def off : Threshold := ⟨0⟩

def upTo (l : Level) : Threshold := ⟨l.rank⟩

/-- **Reads a threshold**: `off` or the text of a level, in any case. -/
def ofText? (word : String) : Option Threshold :=
  if word.toList.map Char.toUpper = ['O', 'F', 'F'] then some off
  else (Level.ofText? word).map upTo

end Threshold

/-- **The part of the program that an event comes from.** -/
inductive Origin where
  | commandLine | batch | compiler | writer
  deriving DecidableEq, Repr

def Origin.text : Origin → String
  | .commandLine => "jackc"
  | .batch => "jack_compiler::batch"
  | .compiler => "jack_compiler::compile::engine"
  | .writer => "jack_compiler::compile::vm_writer"

/-! ## Events -/

/-- **A record of the log.** -/
inductive Event where
  | commandWritten (count : Nat) (command : Vm.Command)
  | classStarted (name : String)
  | routineStarted (kind : RoutineKind) (name : String)
  | returnAdded (routine : String)
  | returnMissing (routine : String)
  | nameMismatch (className path : String)
  | fileCompiled (source target : String)
  | nothingToCompile (extension path : String)
  | fileSkipped (error : FileError)
  | batchFinished (files : Nat)
  | batchFailed (error : FileError)
  | tokensWritten (path : String)
  deriving DecidableEq, Repr

/-- A text with blanks in front that make it at least `width` characters long. -/
def padLeft (width : Nat) (s : String) : String :=
  String.ofList (List.replicate (width - s.length) ' ') ++ s

/-- A text with blanks behind that make it at least `width` characters long. -/
def padRight (width : Nat) (s : String) : String :=
  s ++ String.ofList (List.replicate (width - s.length) ' ')

namespace Event

def level : Event → Level
  | .commandWritten .. => .trace
  | .classStarted _ | .routineStarted .. => .debug
  | .fileCompiled .. | .batchFinished _ | .tokensWritten _ => .info
  | .returnAdded _ | .returnMissing _ | .nameMismatch .. | .nothingToCompile .. | .fileSkipped _ =>
    .warn
  | .batchFailed _ => .error

def origin : Event → Origin
  | .commandWritten .. => .writer
  | .classStarted _ | .routineStarted .. | .returnAdded _ | .returnMissing _ => .compiler
  | .nameMismatch .. | .fileCompiled .. | .nothingToCompile .. | .fileSkipped _ => .batch
  | .batchFinished _ | .batchFailed _ | .tokensWritten _ => .commandLine

/-- **The wording of an event.** -/
def message : Event → String
  | .commandWritten count command => padLeft 5 (toString count) ++ " " ++ command.text
  | .classStarted name => "compiling class " ++ name
  | .routineStarted kind name => "compiling " ++ kind.text ++ " " ++ name
  | .returnAdded routine =>
    routine ++ " does not end with a return statement, returning implicitly"
  | .returnMissing routine => routine ++ " does not end with a return statement"
  | .nameMismatch className path =>
    "class " ++ className ++ " does not match its file name " ++ path
  | .fileCompiled source target => "compiled " ++ source ++ " -> " ++ target
  | .nothingToCompile extension path => "no ." ++ extension ++ " files found in " ++ path
  | .fileSkipped error => error.message
  | .batchFinished files => "compiled " ++ toString files ++ " file(s)"
  | .batchFailed error => error.message
  | .tokensWritten path => "wrote tokens to " ++ path

/-- **A plain record**: level and wording. -/
def record (e : Event) : String :=
  e.level.text ++ " " ++ e.message

/-- **A record of the command line**: level in five columns, origin in brackets, wording. -/
def taggedRecord (e : Event) : String :=
  padRight 5 e.level.text ++ " [" ++ e.origin.text ++ "] " ++ e.message

/-- The event is serious enough for the threshold. -/
def shownAt (t : Threshold) (e : Event) : Bool :=
  e.level.rank ≤ t.rank

end Event

end JackStack
