import JackStack.Compile.Code
import JackStack.Compile.Goal
import JackStack.Compile.Session

/-!
# Compile/Perform — doing one goal

`perform` does the goal at the front of the agenda and returns the goals that take its place. Which
goals those are is decided by the current token alone: the grammar needs one token of lookahead.

Code is written as soon as it is known. The value of a variable is pushed when its name has been
passed, and an operator follows its second operand: `1 + 2 * 3` is `(1 + 2) * 3`.
-/

namespace JackStack

namespace Session

/-- **Declares the object of a method**, its hidden first argument. -/
def declareReceiver (kind : RoutineKind) : Action Session Unit := do
  if kind = .method then declare "this" (← get).className .argument
  else pure ()

/-- **What a term is**, by its first token. -/
def termGoals? (token : Token) : Option (Action Session (List Goal)) :=
  match token.terminal with
  | .integer digits => some do
    pass
    write [.push .constant (Text.Decimal.value digits.toList)]
    return []
  | .text body => some do
    pass
    write (Code.text body)
    return []
  | .keyword k =>
    (Code.keywordConstant? k).map fun code => do
      write code
      pass
      return []
  | .symbol '(' => some do
    pass
    return [.expression, .symbol ')']
  | .symbol '-' => some do
    pass
    return [.term, .operate '-' true]
  | .symbol '~' => some do
    pass
    return [.term, .operate '~' true]
  | .symbol _ => none
  | .identifier name => some do
    pass
    return [.reference name token.line]

/-- **Does a goal**, and returns the goals that take its place. -/
@[simp]
def perform : Goal → Action Session (List Goal)
  | .symbol c => do
    expectSymbol c
    return []
  | .keyword k => do
    expectKeyword k
    return []
  | .write commands => do
    write commands
    return []
  | .operate operator unary => do
    operate operator unary
    return []
  | .className => do
    let name ← expectName "class name"
    modify fun s => { s with className := name }
    return []
  | .announceClass => do
    note (.classStarted (← get).className)
    return []
  | .classVariables => do
    match (← input?).keyword? with
    | some .static =>
      pass
      return [.variableType .static, .classVariables]
    | some .field =>
      pass
      return [.variableType .field, .classVariables]
    | _ => return []
  | .routines => do
    match (← input?).keyword?.bind RoutineKind.ofKeyword? with
    | some kind =>
      pass
      modify fun s => { s with scopes := s.scopes.enterRoutine }
      return [.returnType kind, .routines]
    | none => return []
  | .sourceEnd => do
    if (← input?).atEnd then return []
    else fail "end of input after class"
  | .variableType kind => do
    return [.variableName kind (← expectType)]
  | .variableName kind type => do
    declare (← expectName "variable name") type kind
    return [.moreVariables kind type]
  | .moreVariables kind type => do
    if (← input?).isSymbol ',' then
      pass
      return [.variableName kind type]
    else return [.symbol ';']
  | .returnType kind => do
    if (← input?).keyword? = some .void then
      pass
      return [.routineName kind true]
    else
      discard expectType
      return [.routineName kind false]
  | .routineName kind returnsVoid => do
    let name ← expectName "subroutine name"
    modify fun s => { s with routine := ⟨kind, name, returnsVoid⟩ }
    declareReceiver kind
    return [.symbol '(', .parameters, .symbol ')', .announceRoutine, .symbol '{', .localVariables,
      .prologue, .statements, .epilogue, .symbol '}']
  | .parameters => do
    if (← input?).isSymbol ')' then return []
    else return [.parameterType]
  | .parameterType => do
    return [.parameterName (← expectType)]
  | .parameterName type => do
    declare (← expectName "parameter name") type .argument
    return [.moreParameters]
  | .moreParameters => do
    if (← input?).isSymbol ',' then
      pass
      return [.parameterType]
    else return []
  | .announceRoutine => do
    let s ← get
    note (.routineStarted s.routine.kind (qualifiedName s.className s.routine.name))
    return []
  | .localVariables => do
    if (← input?).keyword? = some .var then
      pass
      return [.variableType .local, .localVariables]
    else return []
  | .prologue => do
    let s ← get
    write (Code.prologue s.routine.kind (qualifiedName s.className s.routine.name)
      (s.scopes.count .local) (s.scopes.count .field))
    return []
  | .epilogue => do
    let s ← get
    let name := qualifiedName s.className s.routine.name
    if s.writer.returned then return []
    else if s.routine.returnsVoid then
      note (.returnAdded name)
      write (Code.finish true)
      return []
    else
      note (.returnMissing name)
      return []
  | .statements => do
    match (← input?).keyword?.bind Goal.statement? with
    | some goals =>
      pass
      return goals ++ [.statements]
    | none => return []
  | .assigned => do
    let line := (← input?).line
    return [.assignment (← resolve (← expectName "variable name") line)]
  | .assignment target => do
    if (← input?).isSymbol '[' then
      pass
      return [.expression, .write [target.push], .operate '+' false, .symbol ']', .symbol '=',
        .expression, .symbol ';', .write Code.storeElement]
    else return [.symbol '=', .expression, .symbol ';', .write [target.pop]]
  | .conditional => do
    let (otherwise, behind) ← conditionLabels
    return Goal.condition ++ .write [.ifGoto otherwise] :: Goal.block
      ++ [.write [.goto behind, .label otherwise], .otherwise, .write [.label behind]]
  | .loop => do
    let (top, behind) ← loopLabels
    return .write [.label top] :: Goal.condition ++ .write [.ifGoto behind] :: Goal.block
      ++ [.write [.goto top, .label behind]]
  | .otherwise => do
    if (← input?).keyword? = some .else then
      pass
      return Goal.block
    else return []
  | .performed => do
    return [.call (← expectName "subroutine name")]
  | .returned => do
    let finish := Goal.write (Code.finish (← get).routine.returnsVoid)
    if (← input?).isSymbol ';' then return [.symbol ';', finish]
    else return [.expression, .symbol ';', finish]
  | .expression => do
    return [.term, .moreTerms]
  | .moreTerms => do
    match (← input?).symbol? with
    | some c =>
      if isOperator c then
        pass
        return [.term, .operate c false, .moreTerms]
      else return []
    | none => return []
  | .term => do
    match (← input?).current.bind termGoals? with
    | some goals => goals
    | none => fail "term"
  | .reference name line => do
    match (← input?).symbol? with
    | some '(' | some '.' => return [.call name]
    | some '[' =>
      let v ← resolve name line
      pass
      write [v.push]
      return [.expression, .symbol ']', .operate '+' false, .write Code.loadElement]
    | _ =>
      write [(← resolve name line).push]
      return []
  | .call name => do
    if (← input?).isSymbol '(' then
      pass
      write [.push .pointer 0]
      return [.arguments (qualifiedName (← get).className name) 1]
    else return [.symbol '.', .callee name]
  | .callee receiver => do
    return [.symbol '(', .receiver receiver (← expectName "subroutine name")]
  | .receiver name routine => do
    match (← get).scopes.lookup name with
    | some v =>
      write [v.push]
      return [.arguments (qualifiedName v.type routine) 1]
    | none => return [.arguments (qualifiedName name routine) 0]
  | .arguments routine count => do
    if (← input?).isSymbol ')' then return [.symbol ')', .write [.call routine count]]
    else return [.expression, .moreArguments routine (count + 1)]
  | .moreArguments routine count => do
    if (← input?).isSymbol ',' then
      pass
      return [.expression, .moreArguments routine (count + 1)]
    else return [.symbol ')', .write [.call routine count]]

end Session

end JackStack
