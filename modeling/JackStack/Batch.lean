import JackStack.Compile
import JackStack.Files.Tree

/-!
# Batch — compiling files and directories

A source file is compiled into an output file beside it, which appears only when the whole class has
been compiled. A directory stands for the source files directly inside it, in the order of their
names. A batch stops at the first file that fails, or notes the failure and keeps going.
-/

namespace JackStack

/-- **How a batch is compiled**: whether it goes on after a failure, and the extensions of source
and output files. -/
structure BatchConfig where
  keepGoing : Bool := false
  sourceExtension : String := "jack"
  targetExtension : String := "vm"
  deriving Repr

/-- **Where a batch is compiled**: the files, and the log. -/
structure Workspace where
  files : FileTree
  log : Array Event := #[]
  deriving Inhabited

namespace Workspace

/-- The workspace with one more event in its log. -/
def note (w : Workspace) (e : Event) : Workspace :=
  { w with log := w.log.push e }

/-- The workspace with events added to its log. -/
def noteAll (w : Workspace) (events : List Event) : Workspace :=
  { w with log := w.log ++ events }

/-- **Asks the files something** that may fail. -/
def query {α : Type} (f : FileTree → Except FileFault α) : Action Workspace α := fun w =>
  match f w.files with
  | .ok a => .ok a w
  | .error fault => .error (.file fault) w

/-- **Changes the files.** -/
def update (f : FileTree → Except FileFault FileTree) : Action Workspace Unit := fun w =>
  match f w.files with
  | .ok files => .ok () { w with files }
  | .error fault => .error (.file fault) w

/-- **Compiles a text** and keeps the log. Returns the name of the class and its commands. -/
def compile (text : String) : Action Workspace (String × Sink) := fun w =>
  let outcome := compileInto text {}
  let w := { w with log := w.log ++ outcome.writer.log }
  match outcome.result with
  | .ok name => .ok (name, outcome.writer.sink) w
  | .error e => .error e w

end Workspace

namespace Batch

open Workspace

/-- **The source files that a path stands for.** -/
def sources (c : BatchConfig) (files : FileTree) (path : String) :
    Except FileFault (List String) :=
  match files.lookup path with
  | .ok (here, .directory) =>
    .ok <| (files.children here).filterMap fun (name, e) =>
      match e with
      | .file _ =>
        let file := Path.join path name
        if Path.extension? file.toList = some c.sourceExtension.toList then some file else none
      | .directory => none
  | .ok (_, .file _) => .ok [path]
  | .error _ => .error (.missing path)

/-- **The output file of a source file.** -/
def outputOf (c : BatchConfig) (source : String) : Except FileFault String :=
  match Path.withExtension? source c.targetExtension with
  | some target => .ok target
  | none => .error (.slashInExtension c.targetExtension)

/-- The warning that a class and its source file differ in name, if they do. -/
def mismatch (name source : String) : List Event :=
  if Path.stem? source.toList = some name.toList then [] else [.nameMismatch name source]

/-- **Compiles one source file** into its output file, and returns the path of that. -/
def compileSource (c : BatchConfig) (source : String) : Action Workspace String := do
  let target ← query fun _ => outputOf c source
  let text ← query (·.readText source)
  discard (query (·.stage target))
  let (name, sink) ← compile text
  modify (·.noteAll (mismatch name source))
  update (·.replace target sink.bytes)
  modify (·.note (.fileCompiled source target))
  return target

/-- **What a batch has done**: the output files written, and the files that failed. -/
structure Report where
  compiled : List String := []
  failed : List FileError := []
  deriving Repr

/-- **Compiles source files** one after the other. -/
def compileSources (c : BatchConfig) : List String → Workspace → Except FileError Report × Workspace
  | [], w => (.ok {}, w)
  | source :: rest, w =>
    match compileSource c source w with
    | .ok target w =>
      let (result, w) := compileSources c rest w
      (result.map fun r => { r with compiled := target :: r.compiled }, w)
    | .error cause w =>
      if c.keepGoing && !cause.isMisuse then
        let (result, w) := compileSources c rest (w.note (.fileSkipped ⟨source, cause⟩))
        (result.map fun r => { r with failed := ⟨source, cause⟩ :: r.failed }, w)
      else (.error ⟨source, cause⟩, w)

/-- **Compiles what a path stands for**: a file, or the source files of a directory. -/
def run (c : BatchConfig) (path : String) (w : Workspace) :
    Except FileError Report × Workspace :=
  match sources c w.files path with
  | .error fault => (.error ⟨path, .file fault⟩, w)
  | .ok [] => (.ok {}, w.note (.nothingToCompile c.sourceExtension path))
  | .ok files => compileSources c files w

end Batch

end JackStack
