import JackStack.Comment
import JackStack.Compile.Agenda
import JackStack.Token.Listing

/-!
# Compile — from the source of a class to its commands

`compileInto` compiles one class into a sink. Whatever was written and logged before a failure is
part of the outcome.
-/

namespace JackStack

/-- **The outcome of compiling a class**: what was written and logged, and the name of the class or
why it stopped. -/
structure Compilation where
  writer : Writer
  result : Except CompileError String

/-- **Compiles a class** from its tokens into a sink. -/
def compileTokens (input : Lookahead) (sink : Sink) : Compilation :=
  match Session.run Goal.classGoals { input, writer := { sink } } with
  | .ok () s => ⟨s.writer, .ok s.className⟩
  | .error e s => ⟨s.writer, .error e⟩

/-- **Compiles the source of a class** into a sink. -/
def compileInto (source : String) (sink : Sink) : Compilation :=
  match Lookahead.ofSource (Comment.strip source) with
  | .ok input => compileTokens input sink
  | .error e => ⟨{ sink }, .error e⟩

/-- **The commands of a class**, as text. -/
def compileText (source : String) : Except CompileError String :=
  let outcome := compileInto source {}
  outcome.result.map fun _ => outcome.writer.sink.contents

/-- **The tokens of a source** as markup, comments left out. -/
def listTokens (source : String) : Except CompileError String :=
  let (result, sink) := Listing.write (scan (Comment.strip source)) {}
  result.map fun _ => sink.contents

end JackStack
