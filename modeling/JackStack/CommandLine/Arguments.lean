/-!
# CommandLine/Arguments — options and operands of a command

Arguments are read from the left. One that starts with two hyphens is a long option, possibly with a
value behind an equals sign; one that starts with one hyphen is a cluster of short options, the last
of which may take the rest of the cluster as its value; all others are operands, and so is
everything behind a lone `--`. A single hyphen is an operand or a value. No option may come twice,
and no value may be empty.
-/

namespace JackStack.CommandLine

/-- **What help is about**: the program, or one of its commands. -/
inductive Topic where
  | program
  | command (name : String)
  deriving DecidableEq, Repr

/-- **The options of a command.** A flag has no value, the others have one. -/
structure Shape where
  topic : Topic := .program
  flags : List (Char × String) := []
  valued : List (Char × String) := []
  /-- The largest number of operands. -/
  operands : Nat := 0
  /-- The words that end the arguments and start those of a command. -/
  commands : List String := []
  /-- The command tells its version. -/
  versioned : Bool := false

/-- **Why arguments are not read to the end.** Asking for help or for the version ends them. -/
inductive Stop where
  | help (topic : Topic)
  | version
  | unknownOption (option : String)
  | repeated (option : String)
  | noValue (option : String)
  | emptyValue
  | unwantedValue (option : String)
  | unexpectedOperand (operand : String)
  | missingOperand
  | missingCommand
  | unknownCommand (name : String)
  deriving DecidableEq, Repr

/-- **What was read**: options are known by their short forms. -/
structure Seen where
  flags : List Char := []
  values : List (Char × String) := []
  operands : List String := []
  deriving Repr

namespace Seen

/-- A flag was read. -/
def flag (s : Seen) (c : Char) : Except Stop Seen :=
  if s.flags.contains c then .error (.repeated (String.singleton c))
  else .ok { s with flags := c :: s.flags }

/-- An option with its value was read. -/
def value (s : Seen) (c : Char) (v : String) : Except Stop Seen :=
  if v = "" then .error .emptyValue
  else if (s.values.lookup c).isSome then .error (.repeated (String.singleton c))
  else .ok { s with values := (c, v) :: s.values }

/-- An operand was read. -/
def operand (shape : Shape) (s : Seen) (v : String) : Except Stop Seen :=
  if shape.operands ≤ s.operands.length then .error (.unexpectedOperand v)
  else if v = "" then .error .emptyValue
  else .ok { s with operands := s.operands ++ [v] }

/-- Operands were read. -/
def operandList (shape : Shape) : Seen → List String → Except Stop Seen
  | s, [] => .ok s
  | s, v :: rest => do operandList shape (← s.operand shape v) rest

end Seen

/-- **Reads a cluster of short options.** Returns the option that waits for its value, if one does.
-/
def readCluster (shape : Shape) : Seen → List Char → Except Stop (Seen × Option Char)
  | s, [] => .ok (s, none)
  | s, c :: cs =>
    if c = 'h' then .error (.help shape.topic)
    else if c = 'V' ∧ shape.versioned then .error .version
    else if (shape.flags.lookup c).isSome then do readCluster shape (← s.flag c) cs
    else if (shape.valued.lookup c).isSome then
      match cs with
      | [] => .ok (s, some c)
      | '=' :: rest => return (← s.value c (String.ofList rest), none)
      | rest => return (← s.value c (String.ofList rest), none)
    else .error (.unknownOption (String.ofList ['-', c]))

/-- The short form of a long option. -/
def shortOf (options : List (Char × String)) (long : String) : Option Char :=
  (options.find? (·.2 = long)).map (·.1)

/-- **Reads a long option** with the value behind its equals sign, if it has one. -/
def readLong (shape : Shape) (s : Seen) (long : String) (value : Option String) :
    Except Stop (Seen × Option Char) :=
  let plain (result : Except Stop (Seen × Option Char)) :=
    if value.isSome then .error (.unwantedValue ("--" ++ long)) else result
  if long = "help" then plain (.error (.help shape.topic))
  else if long = "version" ∧ shape.versioned then plain (.error .version)
  else
    match shortOf shape.flags long, shortOf shape.valued long, value with
    | some c, _, _ => plain do return (← s.flag c, none)
    | none, some c, some v => do return (← s.value c v, none)
    | none, some c, none => .ok (s, some c)
    | none, none, _ => .error (.unknownOption ("--" ++ long))

/-- The value behind an equals sign in a long option. -/
def attached (long : List Char) : Option String :=
  match long.dropWhile (· ≠ '=') with
  | [] => none
  | _ :: v => some (String.ofList v)

/-- **What arguments say**: the options and operands, and the command that follows with its own
arguments. -/
structure Parsed where
  seen : Seen
  command : Option (String × List String) := none

/-- **Reads arguments.** `waiting` is an option whose value comes next. -/
def readArguments (shape : Shape) : Seen → Option Char → List String → Except Stop Parsed
  | s, none, [] => .ok { seen := s }
  | _, some c, [] => .error (.noValue (String.ofList ['-', c]))
  | s, some c, arg :: rest =>
    match arg.toList with
    | '-' :: _ :: _ => .error (.noValue (String.ofList ['-', c]))
    | _ => do readArguments shape (← s.value c arg) none rest
  | s, none, arg :: rest =>
    if shape.commands.contains arg then .ok { seen := s, command := some (arg, rest) }
    else
      match arg.toList with
      | ['-', '-'] => do return { seen := ← s.operandList shape rest }
      | '-' :: '-' :: long => do
        let name := String.ofList (long.takeWhile (· ≠ '='))
        let (s, waiting) ← readLong shape s name (attached long)
        readArguments shape s waiting rest
      | '-' :: c :: cs => do
        let (s, waiting) ← readCluster shape s (c :: cs)
        readArguments shape s waiting rest
      | _ => do readArguments shape (← s.operand shape arg) none rest

end JackStack.CommandLine
