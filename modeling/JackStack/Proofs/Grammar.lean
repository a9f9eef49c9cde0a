import JackStack.Routine
import JackStack.Variable

/-!
# Proofs/Grammar — the syntax trees of the language

A tree is a derivation in the grammar of the language; the terminals at its leaves, read from the
left, are the text that it derives.

    class       = 'class' name '{' classVariables* routine* '}'
    routine     = ('constructor' | 'function' | 'method') ('void' | type) name
                  '(' (parameter (',' parameter)*)? ')' '{' ('var' variables)* statement* '}'
    variables   = type name (',' name)* ';'
    statement   = 'let' name ('[' expression ']')? '=' expression ';'
                | 'if' '(' expression ')' '{' statement* '}' ('else' '{' statement* '}')?
                | 'while' '(' expression ')' '{' statement* '}'
                | 'do' call ';'
                | 'return' expression? ';'
    expression  = term (operator term)*
    term        = integer | text | constant | name | name '[' expression ']' | call
                | '(' expression ')' | ('-' | '~') term
    call        = (name '.')? name '(' (expression (',' expression)*)? ')'

Nothing here refers to the compiler: what it does is measured against these trees.
-/

namespace JackStack

/-! ## Expressions -/

/-- **The constants that are keywords.** -/
inductive Constant where
  | «true» | «false» | null | this
  deriving DecidableEq, Repr

/-- How a constant is written. -/
def Constant.keyword : Constant → Keyword
  | .true => .true
  | .false => .false
  | .null => .null
  | .this => .this

/-- **The operators in front of a term.** -/
inductive UnaryOp where
  | negate | complement
  deriving DecidableEq, Repr

/-- How an operator in front of a term is written. -/
def UnaryOp.symbol : UnaryOp → Char
  | .negate => '-'
  | .complement => '~'

/-- **The operators between terms.** -/
inductive BinaryOp where
  | add | subtract | multiply | divide | and | or | less | greater | equal
  deriving DecidableEq, Repr

/-- How an operator between terms is written. -/
def BinaryOp.symbol : BinaryOp → Char
  | .add => '+'
  | .subtract => '-'
  | .multiply => '*'
  | .divide => '/'
  | .and => '&'
  | .or => '|'
  | .less => '<'
  | .greater => '>'
  | .equal => '='

mutual

/-- **A term.** -/
inductive Term where
  | integer (digits : String)
  | text (body : String)
  | constant (c : Constant)
  | variable (name : String)
  | element (array : String) (index : Expression)
  | call (c : Call)
  | group (inner : Expression)
  | unary (op : UnaryOp) (operand : Term)

/-- **An expression**: a term, and operators each with its term. No operator binds more tightly than
another, so this chain is all the structure there is. -/
inductive Expression where
  | chain (first : Term) (more : List (BinaryOp × Term))

/-- **A call** of a subroutine of the class itself, or of one on a variable or a class. -/
inductive Call where
  | own (routine : String) (arguments : List Expression)
  | on (receiver routine : String) (arguments : List Expression)

end

/-! ## Statements -/

/-- **A statement.** -/
inductive Statement where
  | assign (name : String) (value : Expression)
  | assignElement (array : String) (index value : Expression)
  | branch (condition : Expression) (body : List Statement) (otherwise : Option (List Statement))
  | loop (condition : Expression) (body : List Statement)
  | perform (c : Call)
  | «return» (value : Option Expression)

/-! ## Declarations -/

/-- **A type**: a basic one, or a class. -/
inductive TypeName where
  | int | char | boolean
  | ofClass (name : String)
  deriving DecidableEq, Repr

/-- The token of a type. -/
def TypeName.terminal : TypeName → Terminal
  | .int => .keyword .int
  | .char => .keyword .char
  | .boolean => .keyword .boolean
  | .ofClass name => .identifier name

/-- **Variables declared together**, all of one type. -/
structure VariableList where
  type : TypeName
  first : String
  more : List String

/-- The names of variables declared together. -/
def VariableList.names (l : VariableList) : List String :=
  l.first :: l.more

/-- **Variables of a class** declared together. -/
inductive ClassVariables where
  | statics (list : VariableList)
  | fields (list : VariableList)

/-- **A parameter** of a subroutine. -/
structure Parameter where
  type : TypeName
  name : String

/-- **A subroutine.** Without a return type it is `void`. -/
structure RoutineDecl where
  kind : RoutineKind
  returnType : Option TypeName
  name : String
  parameters : List Parameter
  locals : List VariableList
  body : List Statement

/-- **A class.** -/
structure ClassDecl where
  name : String
  members : List ClassVariables
  routines : List RoutineDecl

/-! ## The text that a tree derives -/

namespace Terminal

/-- Terminals in round brackets. -/
def parentheses (ts : List Terminal) : List Terminal :=
  .symbol '(' :: ts ++ [.symbol ')']

/-- Terminals in square brackets. -/
def brackets (ts : List Terminal) : List Terminal :=
  .symbol '[' :: ts ++ [.symbol ']']

/-- Terminals in braces. -/
def braces (ts : List Terminal) : List Terminal :=
  .symbol '{' :: ts ++ [.symbol '}']

end Terminal

open Terminal (parentheses brackets braces)

mutual

/-- **The terminals of a term.** -/
def Term.terminals : Term → List Terminal
  | .integer digits => [.integer digits]
  | .text body => [.text body]
  | .constant c => [.keyword c.keyword]
  | .variable name => [.identifier name]
  | .element array index => .identifier array :: brackets index.terminals
  | .call c => c.terminals
  | .group inner => parentheses inner.terminals
  | .unary op operand => .symbol op.symbol :: operand.terminals

/-- **The terminals of an expression.** -/
def Expression.terminals : Expression → List Terminal
  | .chain first more => first.terminals ++ Expression.moreTerms more

/-- The terminals of operators, each with its term. -/
def Expression.moreTerms : List (BinaryOp × Term) → List Terminal
  | [] => []
  | (op, t) :: rest => .symbol op.symbol :: (t.terminals ++ Expression.moreTerms rest)

/-- **The terminals of a call.** -/
def Call.terminals : Call → List Terminal
  | .own routine arguments => .identifier routine :: parentheses (Call.list arguments)
  | .on receiver routine arguments =>
    .identifier receiver :: .symbol '.' :: .identifier routine :: parentheses (Call.list arguments)

/-- The terminals of arguments. -/
def Call.list : List Expression → List Terminal
  | [] => []
  | e :: rest => e.terminals ++ Call.moreArguments rest

/-- The terminals of arguments behind others. -/
def Call.moreArguments : List Expression → List Terminal
  | [] => []
  | e :: rest => .symbol ',' :: (e.terminals ++ Call.moreArguments rest)

end

mutual

/-- **The terminals of a statement.** -/
def Statement.terminals : Statement → List Terminal
  | .assign name value =>
    .keyword .let :: .identifier name :: .symbol '=' :: (value.terminals ++ [.symbol ';'])
  | .assignElement array index value =>
    .keyword .let :: .identifier array :: (brackets index.terminals
      ++ .symbol '=' :: (value.terminals ++ [.symbol ';']))
  | .branch condition body otherwise =>
    .keyword .if :: (parentheses condition.terminals ++ (braces (Statement.list body)
      ++ Statement.otherwise otherwise))
  | .loop condition body =>
    .keyword .while :: (parentheses condition.terminals ++ braces (Statement.list body))
  | .perform c => .keyword .do :: (c.terminals ++ [.symbol ';'])
  | .return none => [.keyword .return, .symbol ';']
  | .return (some value) => .keyword .return :: (value.terminals ++ [.symbol ';'])

/-- **The terminals of statements** in sequence. -/
def Statement.list : List Statement → List Terminal
  | [] => []
  | s :: rest => s.terminals ++ Statement.list rest

/-- The terminals of a second branch. -/
def Statement.otherwise : Option (List Statement) → List Terminal
  | none => []
  | some body => .keyword .else :: braces (Statement.list body)

end

/-- The terminals of variables declared together. -/
def VariableList.terminals (l : VariableList) : List Terminal :=
  l.type.terminal :: .identifier l.first ::
    (l.more.flatMap (fun name => [.symbol ',', .identifier name]) ++ [.symbol ';'])

/-- The terminals of variables of a class. -/
def ClassVariables.terminals : ClassVariables → List Terminal
  | .statics list => .keyword .static :: list.terminals
  | .fields list => .keyword .field :: list.terminals

/-- The terminals of a parameter. -/
def Parameter.terminals (p : Parameter) : List Terminal :=
  [p.type.terminal, .identifier p.name]

/-- The terminals of parameters. -/
def Parameter.list : List Parameter → List Terminal
  | [] => []
  | p :: rest => p.terminals ++ rest.flatMap fun q => .symbol ',' :: q.terminals

/-- The keyword of a kind of subroutines. -/
def RoutineKind.keyword : RoutineKind → Keyword
  | .constructor => .constructor
  | .function => .function
  | .method => .method

/-- The token of a return type. -/
def TypeName.returned : Option TypeName → Terminal
  | none => .keyword .void
  | some type => type.terminal

/-- The terminals of the body of a subroutine. -/
def RoutineDecl.bodyTerminals (r : RoutineDecl) : List Terminal :=
  braces (r.locals.flatMap (fun l => .keyword .var :: l.terminals) ++ Statement.list r.body)

/-- **The terminals of a subroutine.** -/
def RoutineDecl.terminals (r : RoutineDecl) : List Terminal :=
  .keyword r.kind.keyword :: TypeName.returned r.returnType :: .identifier r.name ::
    (parentheses (Parameter.list r.parameters) ++ r.bodyTerminals)

/-- **The terminals of a class.** -/
def ClassDecl.terminals (c : ClassDecl) : List Terminal :=
  .keyword .class :: .identifier c.name ::
    braces (c.members.flatMap ClassVariables.terminals
      ++ c.routines.flatMap RoutineDecl.terminals)

/-! ## How a tree starts -/

/-- The terminal that a term starts with. -/
theorem Term.terminals_eq_cons (t : Term) :
    ∃ first rest, t.terminals = first :: rest ∧ ∀ c ∈ [')', ';'], first ≠ .symbol c := by
  cases t with
  | call c => cases c <;> exact ⟨_, _, rfl, by simp⟩
  | group inner => exact ⟨_, _, rfl, by simp⟩
  | unary op operand => cases op <;> exact ⟨_, _, rfl, by simp [UnaryOp.symbol]⟩
  | _ => exact ⟨_, _, rfl, by simp⟩

theorem Expression.terminals_eq_cons (e : Expression) :
    ∃ first rest, e.terminals = first :: rest ∧ ∀ c ∈ [')', ';'], first ≠ .symbol c := by
  obtain ⟨t, more⟩ := e
  obtain ⟨first, rest, ht, hf⟩ := t.terminals_eq_cons
  exact ⟨first, rest ++ Expression.moreTerms more, by rw [Expression.terminals, ht]; rfl, hf⟩

theorem Call.terminals_eq_cons (c : Call) :
    ∃ name rest, c.terminals = .identifier name :: rest := by
  cases c <;> exact ⟨_, _, rfl⟩

/-- The keyword that a statement starts with. -/
theorem Statement.terminals_eq_cons (st : Statement) :
    ∃ k rest, st.terminals = .keyword k :: rest ∧ k ∉ [.else, .var] := by
  cases st with
  | «return» value => cases value <;> exact ⟨_, _, rfl, by decide⟩
  | _ => exact ⟨_, _, rfl, by decide⟩

/-! ## What stands behind a tree

A tree is read with a view to the terminal behind it, if there is one. -/

namespace Terminal

/-- **An expression ends here**: a closing symbol comes next. -/
def Stops (next : Option Terminal) : Prop :=
  ∃ c ∈ [')', ']', ';', ','], next = some (.symbol c)

/-- **A term ends here**: a closing symbol or an operator comes next. -/
def Pauses (next : Option Terminal) : Prop :=
  Stops next ∨ ∃ op : BinaryOp, next = some (.symbol op.symbol)

variable {next : Option Terminal}

theorem Stops.ne_operator (h : Stops next) (op : BinaryOp) : next ≠ some (.symbol op.symbol) := by
  obtain ⟨c, hc, rfl⟩ := h
  rintro ⟨⟩
  cases op <;> revert hc <;> decide

theorem Pauses.ne_symbol {c : Char} (h : Pauses next) (hc : c ∈ ['(', '.', '[']) :
    next ≠ some (.symbol c) := by
  rintro rfl
  obtain ⟨d, hd, he⟩ | ⟨op, he⟩ := h
  · cases he
    revert hc
    simp only [List.mem_cons, List.not_mem_nil, or_false] at hd
    obtain rfl | rfl | rfl | rfl := hd <;> decide
  · cases he
    cases op <;> revert hc <;> decide

end Terminal

/-! ## Names in variable position

A name stands for a variable where it is a term of its own, where an element of its array is used,
and where it is assigned to. The names in a call need no declaration. -/

mutual

/-- **The names of variables in a term.** -/
def Term.variables : Term → List String
  | .integer _ | .text _ | .constant _ => []
  | .variable name => [name]
  | .element array index => array :: index.variables
  | .call c => c.variables
  | .group inner => inner.variables
  | .unary _ operand => operand.variables

/-- **The names of variables in an expression.** -/
def Expression.variables : Expression → List String
  | .chain first more => first.variables ++ Expression.moreVariables more

/-- The names of variables behind the first term. -/
def Expression.moreVariables : List (BinaryOp × Term) → List String
  | [] => []
  | (_, t) :: rest => t.variables ++ Expression.moreVariables rest

/-- **The names of variables in a call.** -/
def Call.variables : Call → List String
  | .own _ arguments => Call.listVariables arguments
  | .on _ _ arguments => Call.listVariables arguments

/-- The names of variables in arguments. -/
def Call.listVariables : List Expression → List String
  | [] => []
  | e :: rest => e.variables ++ Call.listVariables rest

end

mutual

/-- **The names of variables in a statement.** -/
def Statement.variables : Statement → List String
  | .assign name value => name :: value.variables
  | .assignElement array index value => array :: (index.variables ++ value.variables)
  | .branch condition body otherwise =>
    condition.variables ++ (Statement.listVariables body ++ Statement.otherwiseVariables otherwise)
  | .loop condition body => condition.variables ++ Statement.listVariables body
  | .perform c => c.variables
  | .return none => []
  | .return (some value) => value.variables

/-- **The names of variables in statements** in sequence. -/
def Statement.listVariables : List Statement → List String
  | [] => []
  | s :: rest => s.variables ++ Statement.listVariables rest

/-- The names of variables in a second branch. -/
def Statement.otherwiseVariables : Option (List Statement) → List String
  | none => []
  | some body => Statement.listVariables body

end

/-- The variables declared together in a class. -/
def ClassVariables.list : ClassVariables → VariableList
  | .statics list => list
  | .fields list => list

/-- **The names that a class declares**: those of its statics and fields. -/
def ClassDecl.names (c : ClassDecl) : List String :=
  c.members.flatMap fun v => v.list.names

/-- **The names that a subroutine declares**: those of its parameters and locals. -/
def RoutineDecl.names (r : RoutineDecl) : List String :=
  r.parameters.map Parameter.name ++ r.locals.flatMap VariableList.names

/-- **Every variable is declared**, in the class or in the subroutine that uses it. -/
def ClassDecl.Declared (c : ClassDecl) : Prop :=
  ∀ r ∈ c.routines, ∀ name ∈ Statement.listVariables r.body, name ∈ c.names ∨ name ∈ r.names

instance (c : ClassDecl) : Decidable c.Declared :=
  inferInstanceAs (Decidable (∀ r ∈ c.routines, ∀ name ∈ Statement.listVariables r.body,
    name ∈ c.names ∨ name ∈ r.names))

end JackStack
