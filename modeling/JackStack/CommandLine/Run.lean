import JackStack.Batch
import JackStack.CommandLine.Request

/-!
# CommandLine/Run — what the command does

`run` answers a command line: the exit status, the standard output, the events of the log that are
shown, and the files as they are afterwards. The status is 0 for success, 1 for a failure, 2 for a
command line that is not understood.
-/

namespace JackStack.CommandLine

/-- **The effect of a command.** -/
structure Effect where
  status : Nat
  output : String := ""
  diagnostic : String := ""
  log : List Event := []
  files : FileTree
  /-- The files written, by their paths. -/
  written : List String := []

/-- The line that tells the version. -/
def versionLine : String := "jackc 0.1.0\n"

/-- How the program is used. -/
def programUsage : List String :=
  ["Compiler from Jack classes to stack VM code",
   "",
   "Usage: jackc [OPTIONS] <COMMAND>",
   "",
   "Commands:",
   "  compile  Compile a source file, or every source file in a directory",
   "  tokens   Print the token stream of a source file as XML",
   "  help     Print this message or the help of the given subcommand(s)",
   "",
   "Options:",
   "  -v, --verbose  Log each compiled subroutine",
   "  -h, --help     Print help",
   "  -V, --version  Print version"]

/-- How `compile` is used. -/
def compileUsage : List String :=
  ["Compile a source file, or every source file in a directory",
   "",
   "Usage: jackc compile [OPTIONS] <PATH>",
   "",
   "Arguments:",
   "  <PATH>  ",
   "",
   "Options:",
   "  -k, --keep-going  Compile the remaining files after a failure",
   "  -v, --verbose     Log each compiled subroutine",
   "  -h, --help        Print help"]

/-- How `tokens` is used. -/
def tokensUsage : List String :=
  ["Print the token stream of a source file as XML",
   "",
   "Usage: jackc tokens [OPTIONS] <FILE>",
   "",
   "Arguments:",
   "  <FILE>  ",
   "",
   "Options:",
   "  -o, --output <OUTPUT>  Write to a file instead of standard output",
   "  -v, --verbose          Log each compiled subroutine",
   "  -h, --help             Print help"]

/-- How `help` is used. -/
def helpUsage : List String :=
  ["Print this message or the help of the given subcommand(s)",
   "",
   "Usage: jackc help [COMMAND]...",
   "",
   "Arguments:",
   "  [COMMAND]...  Print help for the subcommand(s)"]

/-- **The help on a topic.** -/
def usage (topic : Topic) : String :=
  let lines := match topic with
    | .command "compile" => compileUsage
    | .command "tokens" => tokensUsage
    | .command "help" => helpUsage
    | _ => programUsage
  String.join (lines.map (· ++ "\n"))

/-- What is wrong with a command line. -/
def Stop.message : Stop → String
  | .help _ | .version => ""
  | .unknownOption option => "unexpected argument '" ++ option ++ "' found"
  | .repeated option => "the argument '" ++ option ++ "' cannot be used multiple times"
  | .noValue option => "a value is required for '" ++ option ++ "' but none was supplied"
  | .emptyValue => "a value is required but none was supplied"
  | .unwantedValue option => "unexpected value for '" ++ option ++ "' found"
  | .unexpectedOperand operand => "unexpected argument '" ++ operand ++ "' found"
  | .missingOperand => "the required arguments were not provided"
  | .missingCommand => "a subcommand is required but one was not provided"
  | .unknownCommand name => "unrecognized subcommand '" ++ name ++ "'"

/-- **The threshold of the log**: the setting if it names one, else by how verbose the command is.
-/
def threshold (verbose : Bool) (setting : Option String) : Threshold :=
  match setting.bind Threshold.ofText? with
  | some t => t
  | none => .upTo (if verbose then .debug else .info)

/-- The status of success or failure. -/
def statusOf (success : Bool) : Nat :=
  if success then 0 else 1

/-- The output file that an event tells of. -/
def writtenFile? : Event → Option String
  | .fileCompiled _ target => some target
  | _ => none

/-- **Compiles a path.** -/
def runCompile (path : String) (keepGoing : Bool) (files : FileTree) : Effect :=
  let (result, w) := Batch.run { keepGoing } path { files }
  let log := w.log.toList
  let written := log.filterMap writtenFile?
  match result with
  | .ok report =>
    { status := statusOf report.failed.isEmpty
      log := log ++ .batchFinished report.compiled.length :: report.failed.map .batchFailed
      files := w.files
      written }
  | .error e => { status := 1, log := log ++ [.batchFailed e], files := w.files, written }

/-- **Lists tokens**, on standard output or in a file. Up to an error the listing is written. -/
def runTokens (file : String) (output : Option String) (files : FileTree) : Effect :=
  let failure (cause : CompileError) : Event := .batchFailed ⟨file, cause⟩
  match files.readText file with
  | .error fault => { status := 1, log := [failure (.file fault)], files }
  | .ok source =>
    let (result, sink) := Listing.write (scan (Comment.strip source)) {}
    match output with
    | none =>
      match result with
      | .ok () => { status := 0, output := sink.contents, files }
      | .error e => { status := 1, output := sink.contents, log := [failure e], files }
    | some path =>
      match files.create path sink.bytes with
      | .error fault => { status := 1, log := [failure (.file fault)], files }
      | .ok files =>
        match result with
        | .ok () => { status := 0, log := [.tokensWritten path], files, written := [path] }
        | .error e => { status := 1, log := [failure e], files, written := [path] }

/-- **Does what is asked for.** -/
def runRequest (request : Request) (files : FileTree) : Effect :=
  match request with
  | .compile path keepGoing _ => runCompile path keepGoing files
  | .tokens file output _ => runTokens file output files

/-- **The paths that a command line names or implies**, which is all that it reads or writes. -/
def pathsOf (args : List String) : List String :=
  match Request.ofArguments args with
  | .ok (.compile path ..) => path :: (Batch.outputOf {} path).toOption.toList
  | .ok (.tokens file output _) => file :: output.toList
  | .error _ => []

/-- **Answers a command line** under a setting of the log, on some files. -/
def run (args : List String) (setting : Option String) (files : FileTree) : Effect :=
  match Request.ofArguments args with
  | .ok request =>
    let effect := runRequest request files
    { effect with log := effect.log.filter (·.shownAt (threshold request.verbose setting)) }
  | .error (.help topic) => { status := 0, output := usage topic, files }
  | .error .version => { status := 0, output := versionLine, files }
  | .error stop => { status := 2, diagnostic := "error: " ++ stop.message ++ "\n", files }

end JackStack.CommandLine
