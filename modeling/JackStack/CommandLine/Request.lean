import JackStack.CommandLine.Arguments

/-!
# CommandLine/Request — what the command line asks for

    jackc [-v] compile PATH [-k]
    jackc [-v] tokens FILE [-o OUT]
    jackc [-v] help [COMMAND]

The flag `-v` may stand before or behind the command.
-/

namespace JackStack.CommandLine

/-- **What is asked for.** -/
inductive Request where
  | compile (path : String) (keepGoing verbose : Bool)
  | tokens (file : String) (output : Option String) (verbose : Bool)
  deriving DecidableEq, Repr

def topShape : Shape where
  flags := [('v', "verbose")]
  commands := ["compile", "tokens", "help"]
  versioned := true

def compileShape : Shape where
  topic := .command "compile"
  flags := [('v', "verbose"), ('k', "keep-going")]
  operands := 1

def tokensShape : Shape where
  topic := .command "tokens"
  flags := [('v', "verbose")]
  valued := [('o', "output")]
  operands := 1

/-- The one operand that a command needs. -/
def theOperand (s : Seen) : Except Stop String :=
  match s.operands with
  | operand :: _ => .ok operand
  | [] => .error .missingOperand

/-- **What help is asked for** by the words behind `help`. They name a command, a command of that
command, and so on; no command has commands of its own. Options are not known there. -/
def helpTopic : List String → Except Stop Topic
  | [] => .ok .program
  | name :: rest =>
    if topShape.commands.contains name then
      match rest with
      | [] => .ok (.command name)
      | other :: _ => .error (.unknownCommand other)
    else .error (.unknownCommand name)

/-- **Reads the command line.** -/
def Request.ofArguments (args : List String) : Except Stop Request := do
  let top ← readArguments topShape {} none args
  let verbose := top.seen.flags.contains 'v'
  match top.command with
  | none => throw .missingCommand
  | some ("compile", rest) =>
    let seen := (← readArguments compileShape {} none rest).seen
    return .compile (← theOperand seen) (seen.flags.contains 'k')
      (verbose || seen.flags.contains 'v')
  | some ("tokens", rest) =>
    let seen := (← readArguments tokensShape {} none rest).seen
    return .tokens (← theOperand seen) (seen.values.lookup 'o')
      (verbose || seen.flags.contains 'v')
  | some (_, names) => throw (.help (← helpTopic names))

/-- Whether the log shows more than usual. -/
def Request.verbose : Request → Bool
  | .compile _ _ verbose => verbose
  | .tokens _ _ verbose => verbose

end JackStack.CommandLine
