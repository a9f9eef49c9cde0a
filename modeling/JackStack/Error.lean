import JackStack.Text.Quoted
import JackStack.Token

/-!
# Error — why a compilation stops, and what the message says

Each type lists causes; the wording of a cause is in one function beside it.
-/

namespace JackStack

/-- **A malformed token.** -/
inductive LexicalCause where
  | unterminatedString
  | integerTooLarge (digits : String)
  | characterTooLarge (c : Char)
  deriving DecidableEq, Repr

def LexicalCause.message : LexicalCause → String
  | .unterminatedString => "unterminated string constant"
  | .integerTooLarge digits =>
    "integer constant " ++ digits ++ " is out of range 0..=" ++ toString maxConstant
  | .characterTooLarge c =>
    "character " ++ Text.quoteChar c ++ " in string constant is out of range 0..="
      ++ toString maxConstant

/-- **A failure of reading or writing files.** `missing` names a path at which nothing stands; the
others are the answers of the file system, and `sinkFull` that of a sink without room. `nulInPath`
says that a path to be opened holds a NUL, and `invalidArgument` that one to be replaced does.
`temporaryTooLong` is `nameTooLong` for the path of a temporary file, which the message shows.
`slashInExtension` says that an output file was asked for that no name can have. -/
inductive FileFault where
  | missing (path : String)
  | notFound
  | busy
  | notADirectory
  | isADirectory
  | invalidArgument
  | nameTooLong
  | temporaryTooLong (path : String)
  | nulInPath
  | notUtf8
  | sinkFull
  | slashInExtension (extension : String)
  deriving DecidableEq, Repr

def FileFault.message : FileFault → String
  | .missing path => path ++ " does not exist"
  | .notFound => "No such file or directory (os error 2)"
  | .busy => "Device or resource busy (os error 16)"
  | .notADirectory => "Not a directory (os error 20)"
  | .isADirectory => "Is a directory (os error 21)"
  | .invalidArgument => "Invalid argument (os error 22)"
  | .nameTooLong => "File name too long (os error 36)"
  | .temporaryTooLong path =>
    "File name too long (os error 36) at path " ++ Text.quoteWord path
  | .nulInPath => "file name contained an unexpected NUL byte"
  | .notUtf8 => "stream did not contain valid UTF-8"
  | .sinkFull => "failed to write whole buffer"
  | .slashInExtension extension =>
    "extension cannot contain path separators: " ++ Text.quoteWord extension

/-- **Why a class is not compiled.**

* `lexical` — a malformed token starts on the line.
* `noMoreTokens` — a token was asked for behind the last one.
* `unexpected` — the grammar wants something else at this point.
* `undefinedVariable` — a variable is in no scope.
* `unknownOperator` — a symbol has no command.
* `file` — reading the source or writing the output failed. -/
inductive CompileError where
  | lexical (line : Nat) (cause : LexicalCause)
  | noMoreTokens
  | unexpected (line : Nat) (expected found : String)
  | undefinedVariable (line : Nat) (name : String)
  | unknownOperator (symbol : Char)
  | file (fault : FileFault)
  deriving DecidableEq, Repr

/-- What a message on a line of the source starts with. -/
def atLine (line : Nat) (message : String) : String :=
  "line " ++ toString line ++ ": " ++ message

def CompileError.message : CompileError → String
  | .lexical line cause => atLine line cause.message
  | .noMoreTokens => "no more tokens"
  | .unexpected line expected found =>
    atLine line ("expected " ++ expected ++ ", found " ++ found)
  | .undefinedVariable line name => atLine line ("undefined symbol '" ++ name ++ "'")
  | .unknownOperator symbol => "unknown operator '" ++ String.singleton symbol ++ "'"
  | .file fault => fault.message

/-- **The caller asked for what cannot be.** Such an error is no failure of the source that was being
compiled, so a batch does not go on after it. -/
def CompileError.isMisuse : CompileError → Bool
  | .file (.slashInExtension _) => true
  | _ => false

/-- **Why a file of a batch is not compiled.** -/
structure FileError where
  path : String
  cause : CompileError
  deriving DecidableEq, Repr

def FileError.message (e : FileError) : String :=
  e.path ++ ": " ++ e.cause.message

end JackStack
