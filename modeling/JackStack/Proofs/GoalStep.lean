import JackStack.Compile.Perform
import JackStack.Proofs.Passage

/-!
# Proofs/GoalStep — what doing one goal does

For every goal there is one statement that says exactly when doing it succeeds, what it passes and
writes, and which goals take its place. All that is proved about compiling rests on these
statements; nothing behind them looks into `Session.perform`.
-/

namespace JackStack

open Vm (Command)

/-- The scopes after declarations in order. -/
def Scopes.declareAll (s : Scopes) (ds : List Declaration) : Scopes :=
  ds.foldl (fun s d => s.declare d.name d.type d.kind) s

namespace Session

open JackStack.Action (Returns returns_bind returns_pure returns_get_bind returns_modify returns_discard)

/-- **The session with variables declared.** -/
def declared (s : Session) (ds : List Declaration) : Session :=
  { s with scopes := s.scopes.declareAll ds }

/-- **What happens behind the statements of a subroutine**: a missing return is noted, and added
where the subroutine has no value. -/
def Closes (s s' : Session) : Prop :=
  let name := qualifiedName s.className s.routine.name
  if s.writer.returned then s' = s
  else if s.routine.returnsVoid then (s.noted (.returnAdded name)).Writes (Code.finish true) s'
  else s' = s.noted (.returnMissing name)

variable {s s' : Session} {gs gs₀ : List Goal}

theorem returns_then {a : Action Session Unit} :
    Returns (a >>= fun _ => pure gs₀) s gs s' ↔ Returns a s () s' ∧ gs = gs₀ := by
  simp only [returns_bind, returns_pure]
  constructor
  · rintro ⟨u, t, h, rfl, rfl⟩
    exact ⟨h, rfl⟩
  · rintro ⟨h, rfl⟩
    exact ⟨(), s', h, rfl, rfl⟩

theorem returns_pass_then {t : Terminal} (h : s.input.terminal? = some t) :
    Returns (pass >>= fun _ => pure gs₀) s gs s' ↔ s.Takes t s' ∧ gs = gs₀ := by
  rw [returns_then, returns_pass h]

theorem returns_declare {name type : String} {kind : VariableKind} {u : Unit} :
    Returns (declare name type kind) s u s' ↔ s' = s.declared [⟨name, type, kind⟩] :=
  returns_modify

/-! ## Choices by the current token -/

theorem Takes.eq {t t' : Terminal} (h : s.Takes t s') (ht : s.input.terminal? = some t') : t = t' :=
  Option.some.inj (h.terminal?.symm.trans ht)

/-- A choice that a symbol decides, which then is passed. -/
theorem returns_choice_symbol {c : Char} {gs₁ gs₂ : List Goal} :
    Returns (input? >>= fun i =>
        if i.isSymbol c then (pass >>= fun _ => pure gs₁) else pure gs₂) s gs s' ↔
      (s.Takes (.symbol c) s' ∧ gs = gs₁) ∨
      (s.input.terminal? ≠ some (.symbol c) ∧ s' = s ∧ gs = gs₂) := by
  rw [returns_input?_bind]
  split
  · next h =>
    have h := isSymbol_iff.mp h
    rw [returns_pass_then h]
    simp [h]
  · next h =>
    have h := mt isSymbol_iff.mpr h
    have hn : ¬ s.Takes (.symbol c) s' := fun ht => h ht.terminal?
    simp [returns_pure, h, hn, eq_comm, and_comm]

/-- A choice that a keyword decides, which then is passed. -/
theorem returns_choice_keyword {k : Keyword} {gs₁ gs₂ : List Goal} :
    Returns (input? >>= fun i =>
        if i.keyword? = some k then (pass >>= fun _ => pure gs₁) else pure gs₂) s gs s' ↔
      (s.Takes (.keyword k) s' ∧ gs = gs₁) ∨
      (s.input.terminal? ≠ some (.keyword k) ∧ s' = s ∧ gs = gs₂) := by
  rw [returns_input?_bind]
  split
  · next h =>
    have h := keyword?_eq_some.mp h
    rw [returns_pass_then h]
    simp [h]
  · next h =>
    have h := mt keyword?_eq_some.mpr h
    have hn : ¬ s.Takes (.keyword k) s' := fun ht => h ht.terminal?
    simp [returns_pure, h, hn, eq_comm, and_comm]

/-- A choice that a symbol decides, which stays. -/
theorem returns_look_symbol {c : Char} {gs₁ gs₂ : List Goal} :
    Returns (input? >>= fun i => if i.isSymbol c then pure gs₁ else pure gs₂) s gs s' ↔
      s' = s ∧ ((s.input.terminal? = some (.symbol c) ∧ gs = gs₁) ∨
        (s.input.terminal? ≠ some (.symbol c) ∧ gs = gs₂)) := by
  rw [returns_input?_bind]
  split
  · next h =>
    have h := isSymbol_iff.mp h
    simp [returns_pure, h, eq_comm, and_comm]
  · next h =>
    have h := mt isSymbol_iff.mpr h
    simp [returns_pure, h, eq_comm, and_comm]

/-! ## Tokens and commands -/

theorem perform_symbol {c : Char} :
    Returns (perform (.symbol c)) s gs s' ↔ s.Takes (.symbol c) s' ∧ gs = [] := by
  rw [perform, returns_then, returns_expectSymbol]

theorem perform_keyword {k : Keyword} :
    Returns (perform (.keyword k)) s gs s' ↔ s.Takes (.keyword k) s' ∧ gs = [] := by
  rw [perform, returns_then, returns_expectKeyword]

theorem perform_write {commands : List Command} :
    Returns (perform (.write commands)) s gs s' ↔
      s.Writes commands s' ∧ gs = [] := by
  rw [perform, returns_then, returns_write]

theorem perform_operate {operator : Char} {unary : Bool} :
    Returns (perform (.operate operator unary)) s gs s' ↔
      (∃ c, Command.ofOperator? operator unary = some c ∧ s.Writes [c] s') ∧ gs = [] := by
  rw [perform, returns_then, returns_operate]

/-! ## Classes -/

theorem perform_className :
    Returns (perform .className) s gs s' ↔
      ∃ name s₁, s.Takes (.identifier name) s₁ ∧ s' = { s₁ with className := name } ∧ gs = [] := by
  simp only [perform, returns_bind (a := expectName _), returns_expectName, returns_then,
    returns_modify]

theorem perform_announceClass :
    Returns (perform .announceClass) s gs s' ↔
      s' = s.noted (.classStarted s.className) ∧ gs = [] := by
  rw [perform, returns_get_bind, returns_then, returns_note]

theorem perform_classVariables :
    Returns (perform .classVariables) s gs s' ↔
      (s.Takes (.keyword .static) s' ∧ gs = [.variableType .static, .classVariables]) ∨
      (s.Takes (.keyword .field) s' ∧ gs = [.variableType .field, .classVariables]) ∨
      ((s.input.terminal? ≠ some (.keyword .static) ∧
        s.input.terminal? ≠ some (.keyword .field)) ∧ s' = s ∧ gs = []) := by
  simp only [perform, returns_input?_bind]
  split
  · next h =>
    have h := keyword?_eq_some.mp h
    have hn : ¬ s.Takes (.keyword .field) s' := fun ht => nomatch ht.eq h
    rw [returns_pass_then h]
    simp [h, hn]
  · next h =>
    have h := keyword?_eq_some.mp h
    have hn : ¬ s.Takes (.keyword .static) s' := fun ht => nomatch ht.eq h
    rw [returns_pass_then h]
    simp [h, hn]
  · next h₁ h₂ =>
    have h₁ := mt keyword?_eq_some.mpr h₁
    have h₂ := mt keyword?_eq_some.mpr h₂
    have hn₁ : ¬ s.Takes (.keyword .static) s' := fun ht => h₁ ht.terminal?
    have hn₂ : ¬ s.Takes (.keyword .field) s' := fun ht => h₂ ht.terminal?
    simp [returns_pure, h₁, h₂, hn₁, hn₂, eq_comm, and_comm]

theorem ofKeyword?_eq_some {k : Keyword} {kind : RoutineKind} :
    RoutineKind.ofKeyword? k = some kind ↔ k = kind.keyword := by
  cases k <;> cases kind <;> decide

theorem perform_routines :
    Returns (perform .routines) s gs s' ↔
      (∃ kind s₁, s.Takes (.keyword (RoutineKind.keyword kind)) s₁ ∧
        s' = { s₁ with scopes := s₁.scopes.enterRoutine } ∧ gs = [.returnType kind, .routines]) ∨
      ((∀ kind : RoutineKind, s.input.terminal? ≠ some (.keyword kind.keyword)) ∧
        s' = s ∧ gs = []) := by
  simp only [perform, returns_input?_bind]
  split
  · next kind h =>
    obtain ⟨k, h, hk⟩ := Option.bind_eq_some_iff.mp h
    obtain rfl := ofKeyword?_eq_some.mp hk
    have h := keyword?_eq_some.mp h
    simp only [returns_bind (a := pass), returns_pass h, returns_then, returns_modify]
    constructor
    · rintro ⟨u, s₁, ht, hs, hg⟩
      exact .inl ⟨kind, s₁, ht, hs, hg⟩
    · rintro (⟨kind', s₁, ht, hs, hg⟩ | ⟨hn, -⟩)
      · obtain rfl : kind' = kind := by
          have := ht.eq h
          revert this
          cases kind <;> cases kind' <;> simp [RoutineKind.keyword]
        exact ⟨(), s₁, ht, hs, hg⟩
      · exact absurd h (hn kind)
  · next h =>
    have h (kind : RoutineKind) : s.input.terminal? ≠ some (.keyword kind.keyword) := fun ht => by
      rw [keyword?_eq_some.mpr ht, Option.bind_some, ofKeyword?_eq_some.mpr rfl] at h
      cases h
    have hn (kind : RoutineKind) (s₁ : Session) : ¬ s.Takes (.keyword kind.keyword) s₁ :=
      fun ht => h kind ht.terminal?
    simp [returns_pure, h, hn, eq_comm, and_comm]

theorem perform_sourceEnd :
    Returns (perform .sourceEnd) s gs s' ↔ s.input.atEnd = true ∧ s' = s ∧ gs = [] := by
  simp only [perform, returns_input?_bind]
  split
  · next h => simp [returns_pure, h, eq_comm, and_comm]
  · next h => simp [returns_fail, h]

/-! ## Declarations of variables -/

theorem perform_variableType {kind : VariableKind} :
    Returns (perform (.variableType kind)) s gs s' ↔
      ∃ type : TypeName, s.Takes type.terminal s' ∧ gs = [.variableName kind type.text] := by
  simp only [perform, returns_bind, returns_expectType, returns_pure]
  constructor
  · rintro ⟨name, s₁, ⟨type, rfl, ht⟩, rfl, rfl⟩
    exact ⟨type, ht, rfl⟩
  · rintro ⟨type, ht, rfl⟩
    exact ⟨_, s', ⟨type, rfl, ht⟩, rfl, rfl⟩

theorem perform_variableName {kind : VariableKind} {type : String} :
    Returns (perform (.variableName kind type)) s gs s' ↔
      ∃ name s₁, s.Takes (.identifier name) s₁ ∧ s' = s₁.declared [⟨name, type, kind⟩] ∧
        gs = [.moreVariables kind type] := by
  simp only [perform, returns_bind (a := expectName _), returns_expectName, returns_then,
    returns_declare]

theorem perform_moreVariables {kind : VariableKind} {type : String} :
    Returns (perform (.moreVariables kind type)) s gs s' ↔
      (s.Takes (.symbol ',') s' ∧ gs = [.variableName kind type]) ∨
      (s.input.terminal? ≠ some (.symbol ',') ∧ s' = s ∧ gs = [.symbol ';']) :=
  returns_choice_symbol

theorem perform_localVariables :
    Returns (perform .localVariables) s gs s' ↔
      (s.Takes (.keyword .var) s' ∧ gs = [.variableType .local, .localVariables]) ∨
      (s.input.terminal? ≠ some (.keyword .var) ∧ s' = s ∧ gs = []) :=
  returns_choice_keyword

/-! ## Subroutines -/

theorem perform_returnType {kind : RoutineKind} :
    Returns (perform (.returnType kind)) s gs s' ↔
      ∃ type : Option TypeName, s.Takes (TypeName.returned type) s' ∧
        gs = [.routineName kind type.isNone] := by
  simp only [perform, returns_input?_bind]
  split
  · next h =>
    have h := keyword?_eq_some.mp h
    rw [returns_pass_then h]
    constructor
    · rintro ⟨ht, rfl⟩
      exact ⟨none, ht, rfl⟩
    · rintro ⟨type, ht, rfl⟩
      cases type with
      | none => exact ⟨ht, rfl⟩
      | some type => cases type <;> cases ht.eq h
  · next h =>
    have h := mt keyword?_eq_some.mpr h
    simp only [returns_then, returns_discard, returns_expectType]
    constructor
    · rintro ⟨⟨name, type, -, ht⟩, rfl⟩
      exact ⟨some type, ht, rfl⟩
    · rintro ⟨type, ht, rfl⟩
      cases type with
      | none => exact absurd ht.terminal? h
      | some type => exact ⟨⟨_, type, rfl, ht⟩, rfl⟩

/-- The goals of a subroutine behind its name. -/
def routineGoals : List Goal :=
  [.symbol '(', .parameters, .symbol ')', .announceRoutine, .symbol '{', .localVariables,
    .prologue, .statements, .epilogue, .symbol '}']

theorem perform_routineName {kind : RoutineKind} {returnsVoid : Bool} :
    Returns (perform (.routineName kind returnsVoid)) s gs s' ↔
      ∃ name s₁, s.Takes (.identifier name) s₁ ∧
        s' = { s₁ with routine := ⟨kind, name, returnsVoid⟩ }.declared
          (kind.receiver s₁.className) ∧ gs = routineGoals := by
  have hr (t : Session) (u : Unit) : Returns (declareReceiver kind) t u s' ↔
      s' = t.declared (kind.receiver t.className) := by
    unfold declareReceiver RoutineKind.receiver
    split
    · rw [returns_get_bind, returns_declare]
    · simp [returns_pure, declared, Scopes.declareAll, eq_comm]
  simp only [perform, returns_bind (a := expectName _), returns_expectName,
    returns_bind (a := modify _), returns_modify, returns_then, hr]
  constructor
  · rintro ⟨name, s₁, ht, _, _, rfl, hs, hg⟩
    exact ⟨name, s₁, ht, hs, hg⟩
  · rintro ⟨name, s₁, ht, hs, hg⟩
    exact ⟨name, s₁, ht, PUnit.unit, _, rfl, hs, hg⟩

theorem perform_parameters :
    Returns (perform .parameters) s gs s' ↔
      s' = s ∧ ((s.input.terminal? = some (.symbol ')') ∧ gs = []) ∨
        (s.input.terminal? ≠ some (.symbol ')') ∧ gs = [.parameterType])) :=
  returns_look_symbol

theorem perform_parameterType :
    Returns (perform .parameterType) s gs s' ↔
      ∃ type : TypeName, s.Takes type.terminal s' ∧ gs = [.parameterName type.text] := by
  simp only [perform, returns_bind, returns_expectType, returns_pure]
  constructor
  · rintro ⟨name, s₁, ⟨type, rfl, ht⟩, rfl, rfl⟩
    exact ⟨type, ht, rfl⟩
  · rintro ⟨type, ht, rfl⟩
    exact ⟨_, s', ⟨type, rfl, ht⟩, rfl, rfl⟩

theorem perform_parameterName {type : String} :
    Returns (perform (.parameterName type)) s gs s' ↔
      ∃ name s₁, s.Takes (.identifier name) s₁ ∧ s' = s₁.declared [⟨name, type, .argument⟩] ∧
        gs = [.moreParameters] := by
  simp only [perform, returns_bind (a := expectName _), returns_expectName, returns_then,
    returns_declare]

theorem perform_moreParameters :
    Returns (perform .moreParameters) s gs s' ↔
      (s.Takes (.symbol ',') s' ∧ gs = [.parameterType]) ∨
      (s.input.terminal? ≠ some (.symbol ',') ∧ s' = s ∧ gs = []) :=
  returns_choice_symbol

theorem perform_announceRoutine :
    Returns (perform .announceRoutine) s gs s' ↔
      s' = s.noted (.routineStarted s.routine.kind (qualifiedName s.className s.routine.name)) ∧
        gs = [] := by
  rw [perform, returns_get_bind, returns_then, returns_note]

/-- The commands before the statements of the subroutine that a session compiles. -/
def prologueCode (s : Session) : List Command :=
  Code.prologue s.routine.kind (qualifiedName s.className s.routine.name)
    (s.scopes.count .local) (s.scopes.count .field)

theorem perform_prologue :
    Returns (perform .prologue) s gs s' ↔
      s.Writes s.prologueCode s' ∧ gs = [] := by
  rw [perform, returns_get_bind, returns_then, returns_write]
  rfl

theorem perform_epilogue :
    Returns (perform .epilogue) s gs s' ↔ s.Closes s' ∧ gs = [] := by
  simp only [perform, returns_get_bind]
  split
  · next h => simp [returns_pure, Closes, h, eq_comm, and_comm]
  split
  · next h hv =>
    simp only [returns_bind (a := note _), returns_note, returns_then, returns_write, Closes, h, hv,
      Bool.false_eq_true, if_false, if_true]
    constructor
    · rintro ⟨u, s₁, rfl, hw⟩
      exact hw
    · intro hw
      exact ⟨(), _, rfl, hw⟩
  · next h hv =>
    rw [returns_then, returns_note]
    simp [Closes, h, hv]

/-! ## Statements -/

theorem perform_statements :
    Returns (perform .statements) s gs s' ↔
      (∃ k goals, Goal.statement? k = some goals ∧ s.Takes (.keyword k) s' ∧
        gs = goals ++ [.statements]) ∨
      ((∀ k, s.input.terminal? = some (.keyword k) → Goal.statement? k = none) ∧
        s' = s ∧ gs = []) := by
  simp only [perform, returns_input?_bind]
  split
  · next goals h =>
    obtain ⟨k, h, hk⟩ := Option.bind_eq_some_iff.mp h
    have h := keyword?_eq_some.mp h
    rw [returns_pass_then h]
    constructor
    · rintro ⟨ht, rfl⟩
      exact .inl ⟨k, goals, hk, ht, rfl⟩
    · rintro (⟨k', goals', hk', ht, rfl⟩ | ⟨hn, -⟩)
      · cases ht.eq h
        cases hk.symm.trans hk'
        exact ⟨ht, rfl⟩
      · cases (hn k h).symm.trans hk
  · next h =>
    have h (k : Keyword) (ht : s.input.terminal? = some (.keyword k)) :
        Goal.statement? k = none := by
      rwa [keyword?_eq_some.mpr ht, Option.bind_some] at h
    rw [returns_pure]
    constructor
    · rintro ⟨rfl, rfl⟩
      exact .inr ⟨h, rfl, rfl⟩
    · rintro (⟨k, goals, hk, ht, -⟩ | ⟨-, rfl, rfl⟩)
      · cases (h k ht.terminal?).symm.trans hk
      · exact ⟨rfl, rfl⟩

theorem finish_eq_returnCode (s : Session) :
    Code.finish s.routine.returnsVoid = s.context.returnCode := rfl

theorem perform_assigned :
    Returns (perform .assigned) s gs s' ↔
      ∃ name v, s.Takes (.identifier name) s' ∧ s.context.resolve name = some v ∧
        gs = [.assignment v] := by
  rw [perform, returns_input?_bind]
  simp only [returns_bind, returns_expectName, returns_resolve, returns_pure]
  constructor
  · rintro ⟨name, s₁, ht, v, _, ⟨hv, rfl⟩, rfl, rfl⟩
    exact ⟨name, v, ht, ht.context_eq ▸ hv, rfl⟩
  · rintro ⟨name, v, ht, hv, rfl⟩
    exact ⟨name, s', ht, v, s', ⟨ht.context_eq.symm ▸ hv, rfl⟩, rfl, rfl⟩

theorem perform_assignment {v : Variable} :
    Returns (perform (.assignment v)) s gs s' ↔
      (s.Takes (.symbol '[') s' ∧
        gs = [.expression, .write [v.push], .operate '+' false, .symbol ']', .symbol '=',
          .expression, .symbol ';', .write Code.storeElement]) ∨
      (s.input.terminal? ≠ some (.symbol '[') ∧ s' = s ∧
        gs = [.symbol '=', .expression, .symbol ';', .write [v.pop]]) :=
  returns_choice_symbol

theorem perform_conditional :
    Returns (perform .conditional) s gs s' ↔
      s' = s.after s.input [] 2 0 ∧
        gs = Goal.condition ++ .write [.ifGoto (ifLabel s.conditions)] :: Goal.block
          ++ [.write [.goto (ifLabel (s.conditions + 1)), .label (ifLabel s.conditions)],
            .otherwise, .write [.label (ifLabel (s.conditions + 1))]] := by
  have hl : Returns conditionLabels s (ifLabel s.conditions, ifLabel (s.conditions + 1))
      (s.after s.input [] 2 0) := rfl
  simp only [perform, returns_bind, returns_pure]
  constructor
  · rintro ⟨labels, s₁, h, rfl, rfl⟩
    cases hl.symm.trans h
    exact ⟨rfl, rfl⟩
  · rintro ⟨rfl, rfl⟩
    exact ⟨_, _, hl, rfl, rfl⟩

theorem perform_loop :
    Returns (perform .loop) s gs s' ↔
      s' = s.after s.input [] 0 2 ∧
        gs = .write [.label (whileLabel s.loops)] :: Goal.condition
          ++ .write [.ifGoto (whileLabel (s.loops + 1))] :: Goal.block
          ++ [.write [.goto (whileLabel s.loops), .label (whileLabel (s.loops + 1))]] := by
  have hl : Returns loopLabels s (whileLabel s.loops, whileLabel (s.loops + 1))
      (s.after s.input [] 0 2) := rfl
  simp only [perform, returns_bind, returns_pure]
  constructor
  · rintro ⟨labels, s₁, h, rfl, rfl⟩
    cases hl.symm.trans h
    exact ⟨rfl, rfl⟩
  · rintro ⟨rfl, rfl⟩
    exact ⟨_, _, hl, rfl, rfl⟩

theorem perform_otherwise :
    Returns (perform .otherwise) s gs s' ↔
      (s.Takes (.keyword .else) s' ∧ gs = Goal.block) ∨
      (s.input.terminal? ≠ some (.keyword .else) ∧ s' = s ∧ gs = []) :=
  returns_choice_keyword

theorem perform_performed :
    Returns (perform .performed) s gs s' ↔
      ∃ name, s.Takes (.identifier name) s' ∧ gs = [.call name] := by
  simp only [perform, returns_bind, returns_expectName, returns_pure]
  constructor
  · rintro ⟨name, s₁, ht, rfl, rfl⟩
    exact ⟨name, ht, rfl⟩
  · rintro ⟨name, ht, rfl⟩
    exact ⟨name, s', ht, rfl, rfl⟩

theorem perform_returned :
    Returns (perform .returned) s gs s' ↔
      s' = s ∧ ((s.input.terminal? = some (.symbol ';') ∧
          gs = [.symbol ';', .write (Code.finish s.routine.returnsVoid)]) ∨
        (s.input.terminal? ≠ some (.symbol ';') ∧
          gs = [.expression, .symbol ';', .write (Code.finish s.routine.returnsVoid)])) :=
  returns_look_symbol

/-! ## Expressions -/

theorem perform_expression :
    Returns (perform .expression) s gs s' ↔ s' = s ∧ gs = [.term, .moreTerms] := by
  rw [perform, returns_pure]
  simp [eq_comm, and_comm]

/-- **The operators between terms are those of the grammar.** -/
theorem isOperator_iff {c : Char} : isOperator c = true ↔ ∃ op : BinaryOp, op.symbol = c := by
  constructor
  · intro h
    have h : c ∈ operators := by simpa [isOperator] using h
    simp only [operators, List.mem_cons, List.not_mem_nil, or_false] at h
    rcases h with rfl | rfl | rfl | rfl | rfl | rfl | rfl | rfl | rfl
    · exact ⟨.add, rfl⟩
    · exact ⟨.subtract, rfl⟩
    · exact ⟨.multiply, rfl⟩
    · exact ⟨.divide, rfl⟩
    · exact ⟨.and, rfl⟩
    · exact ⟨.or, rfl⟩
    · exact ⟨.less, rfl⟩
    · exact ⟨.greater, rfl⟩
    · exact ⟨.equal, rfl⟩
  · rintro ⟨op, rfl⟩
    cases op <;> decide

theorem ofOperator?_unary (op : UnaryOp) :
    Command.ofOperator? op.symbol true = some op.command := by
  cases op <;> rfl

theorem ofOperator?_binary (op : BinaryOp) :
    Command.ofOperator? op.symbol false = some op.command := by
  cases op <;> rfl

theorem perform_moreTerms :
    Returns (perform .moreTerms) s gs s' ↔
      (∃ op : BinaryOp, s.Takes (.symbol op.symbol) s' ∧
        gs = [.term, .operate op.symbol false, .moreTerms]) ∨
      ((∀ op : BinaryOp, s.input.terminal? ≠ some (.symbol op.symbol)) ∧ s' = s ∧ gs = []) := by
  have stop (h : ∀ op : BinaryOp, s.input.terminal? ≠ some (.symbol op.symbol)) :
      Returns (pure []) s gs s' ↔
        (∃ op : BinaryOp, s.Takes (.symbol op.symbol) s' ∧
          gs = [.term, .operate op.symbol false, .moreTerms]) ∨
        ((∀ op : BinaryOp, s.input.terminal? ≠ some (.symbol op.symbol)) ∧ s' = s ∧ gs = []) := by
    have hn (op : BinaryOp) : ¬ s.Takes (.symbol op.symbol) s' := fun ht => h op ht.terminal?
    simp [returns_pure, h, hn, eq_comm, and_comm]
  simp only [perform, returns_input?_bind]
  split
  · next c hc =>
    have hc := symbol?_eq_some.mp hc
    split
    · next ho =>
      obtain ⟨op, rfl⟩ := isOperator_iff.mp ho
      rw [returns_pass_then hc]
      constructor
      · rintro ⟨ht, rfl⟩
        exact .inl ⟨op, ht, rfl⟩
      · rintro (⟨op', ht, rfl⟩ | ⟨hn, -⟩)
        · have := ht.eq hc
          simp only [Terminal.symbol.injEq] at this
          rw [this] at ht ⊢
          exact ⟨ht, rfl⟩
        · exact absurd hc (hn op)
    · next ho =>
      refine stop fun op h => ho (isOperator_iff.mpr ⟨op, ?_⟩)
      simpa using (hc.symm.trans h).symm
  · next hc =>
    exact stop fun op h => by simp [symbol?_eq_some.mpr h] at hc

/-! ### Terms, by their first token -/

theorem returns_pass_write {t : Terminal} {code : List Command}
    (h : s.input.terminal? = some t) :
    Returns (do pass; write code; return gs₀) s gs s' ↔
      ∃ s₁, s.Takes t s₁ ∧ s₁.Writes code s' ∧ gs = gs₀ := by
  simp only [returns_bind (a := pass), returns_pass h, returns_then, returns_write]
  exact ⟨fun ⟨_, h⟩ => h, fun h => ⟨(), h⟩⟩

theorem exists_token {t : Terminal} (h : s.input.terminal? = some t) :
    ∃ token, s.input.current = some token ∧ token.terminal = t :=
  Option.map_eq_some_iff.mp h

theorem perform_term_of {token : Token} {a : Action Session (List Goal)}
    (h : s.input.current = some token) (ha : termGoals? token = some a) :
    Returns (perform .term) s gs s' ↔ Returns a s gs s' := by
  rw [perform, returns_input?_bind, h, Option.bind_some, ha]

theorem perform_term_integer {digits : String}
    (h : s.input.terminal? = some (.integer digits)) :
    Returns (perform .term) s gs s' ↔
      ∃ s₁, s.Takes (.integer digits) s₁ ∧
        s₁.Writes [.push .constant (Text.Decimal.value digits.toList)] s' ∧ gs = [] := by
  obtain ⟨token, hc, ht⟩ := exists_token h
  rw [perform_term_of hc (by rw [termGoals?, ht]), returns_pass_write h]

theorem perform_term_text {body : String}
    (h : s.input.terminal? = some (.text body)) :
    Returns (perform .term) s gs s' ↔
      ∃ s₁, s.Takes (.text body) s₁ ∧ s₁.Writes (textCode body) s' ∧ gs = [] := by
  obtain ⟨token, hc, ht⟩ := exists_token h
  rw [perform_term_of hc (by rw [termGoals?, ht]), returns_pass_write h]
  rfl

theorem keywordConstant?_eq_some {k : Keyword} {code : List Command} :
    Code.keywordConstant? k = some code ↔ ∃ c : Constant, c.keyword = k ∧ c.code = code := by
  constructor
  · intro h
    cases k with
    | true => cases h; exact ⟨.true, rfl, rfl⟩
    | false => cases h; exact ⟨.false, rfl, rfl⟩
    | null => cases h; exact ⟨.null, rfl, rfl⟩
    | this => cases h; exact ⟨.this, rfl, rfl⟩
    | _ => cases h
  · rintro ⟨c, rfl, rfl⟩
    cases c <;> rfl

theorem perform_term_constant {c : Constant}
    (h : s.input.terminal? = some (.keyword c.keyword)) :
    Returns (perform .term) s gs s' ↔
      ∃ s₁, s.Writes c.code s₁ ∧ s₁.Takes (.keyword c.keyword) s' ∧ gs = [] := by
  obtain ⟨token, hc, ht⟩ := exists_token h
  have hk : Code.keywordConstant? c.keyword = some c.code :=
    keywordConstant?_eq_some.mpr ⟨c, rfl, rfl⟩
  rw [perform_term_of hc (by rw [termGoals?, ht]; simp only [hk, Option.map_some]; rfl)]
  simp only [returns_bind (a := write _), returns_write, returns_then]
  have hp (u : Unit) {s₁ : Session} (hw : s.Writes c.code s₁) :
      Returns pass s₁ u s' ↔ s₁.Takes (.keyword c.keyword) s' :=
    returns_pass (by rw [hw.2]; exact h)
  constructor
  · rintro ⟨u, s₁, hw, ht, rfl⟩
    exact ⟨s₁, hw, (hp () hw).mp ht, rfl⟩
  · rintro ⟨s₁, hw, ht, rfl⟩
    exact ⟨(), s₁, hw, (hp () hw).mpr ht, rfl⟩

theorem perform_term_group (h : s.input.terminal? = some (.symbol '(')) :
    Returns (perform .term) s gs s' ↔
      s.Takes (.symbol '(') s' ∧ gs = [.expression, .symbol ')'] := by
  obtain ⟨token, hc, ht⟩ := exists_token h
  rw [perform_term_of hc (by rw [termGoals?, ht]; rfl), returns_pass_then h]

theorem perform_term_unary {op : UnaryOp} (h : s.input.terminal? = some (.symbol op.symbol)) :
    Returns (perform .term) s gs s' ↔
      s.Takes (.symbol op.symbol) s' ∧ gs = [.term, .operate op.symbol true] := by
  obtain ⟨token, hc, ht⟩ := exists_token h
  cases op with
  | negate =>
    rw [perform_term_of hc (by rw [termGoals?, ht]; rfl), returns_pass_then h]
    rfl
  | complement =>
    rw [perform_term_of hc (by rw [termGoals?, ht]; rfl), returns_pass_then h]
    rfl

theorem perform_term_identifier {name : String}
    (h : s.input.terminal? = some (.identifier name)) :
    ∃ line, ∀ {gs s'}, Returns (perform .term) s gs s' ↔
      s.Takes (.identifier name) s' ∧ gs = [.reference name line] := by
  obtain ⟨token, hc, ht⟩ := exists_token h
  refine ⟨token.line, ?_⟩
  intro gs s'
  rw [perform_term_of hc (by rw [termGoals?, ht]), returns_pass_then h]

/-- **A term starts in one of six ways.** -/
theorem perform_term_cases (h : Returns (perform .term) s gs s') :
    (∃ digits, s.input.terminal? = some (.integer digits)) ∨
    (∃ body, s.input.terminal? = some (.text body)) ∨
    (∃ c : Constant, s.input.terminal? = some (.keyword c.keyword)) ∨
    s.input.terminal? = some (.symbol '(') ∨
    (∃ op : UnaryOp, s.input.terminal? = some (.symbol op.symbol)) ∨
    ∃ name, s.input.terminal? = some (.identifier name) := by
  rw [perform, returns_input?_bind] at h
  cases hc : s.input.current with
  | none =>
    rw [hc] at h
    exact absurd h returns_fail
  | some token =>
    have ht : s.input.terminal? = some token.terminal := by simp [Lookahead.terminal?, hc]
    rw [hc, Option.bind_some] at h
    rw [ht]
    cases hk : token.terminal with
    | integer digits => exact .inl ⟨digits, rfl⟩
    | text body => exact .inr (.inl ⟨body, rfl⟩)
    | identifier name => exact .inr (.inr (.inr (.inr (.inr ⟨name, rfl⟩))))
    | keyword k =>
      cases hkc : Code.keywordConstant? k with
      | some code =>
        obtain ⟨c, rfl, -⟩ := keywordConstant?_eq_some.mp hkc
        exact .inr (.inr (.inl ⟨c, rfl⟩))
      | none =>
        rw [termGoals?, hk] at h
        simp only [hkc, Option.map_none] at h
        exact absurd h returns_fail
    | symbol c =>
      by_cases h₁ : c = '('
      · exact .inr (.inr (.inr (.inl (by rw [h₁]))))
      by_cases h₂ : c = '-'
      · exact .inr (.inr (.inr (.inr (.inl ⟨.negate, by rw [h₂]; rfl⟩))))
      by_cases h₃ : c = '~'
      · exact .inr (.inr (.inr (.inr (.inl ⟨.complement, by rw [h₃]; rfl⟩))))
      have hn : termGoals? token = none := by
        rw [termGoals?, hk]
        split <;> simp_all
      rw [hn] at h
      exact absurd h returns_fail

/-! ### References and calls -/

theorem perform_reference {name : String} {line : Nat} :
    Returns (perform (.reference name line)) s gs s' ↔
      ((s.input.terminal? = some (.symbol '(') ∨ s.input.terminal? = some (.symbol '.')) ∧
        s' = s ∧ gs = [.call name]) ∨
      (∃ v s₁, s.context.resolve name = some v ∧ s.Takes (.symbol '[') s₁ ∧
        s₁.Writes [v.push] s' ∧
        gs = [.expression, .symbol ']', .operate '+' false, .write Code.loadElement]) ∨
      ((∀ c ∈ ['(', '.', '['], s.input.terminal? ≠ some (.symbol c)) ∧
        ∃ v, s.context.resolve name = some v ∧ s.Writes [v.push] s' ∧ gs = []) := by
  rw [perform, returns_input?_bind]
  split
  · next h =>
    have h := symbol?_eq_some.mp h
    have hn (t : Session) : ¬ s.Takes (.symbol '[') t := fun ht => nomatch ht.eq h
    simp [returns_pure, h, hn, eq_comm, and_comm]
  · next h =>
    have h := symbol?_eq_some.mp h
    have hn (t : Session) : ¬ s.Takes (.symbol '[') t := fun ht => nomatch ht.eq h
    simp [returns_pure, h, hn, eq_comm, and_comm]
  · next h =>
    have h := symbol?_eq_some.mp h
    simp only [returns_bind (a := resolve _ _), returns_resolve]
    constructor
    · rintro ⟨v, _, ⟨hv, rfl⟩, hr⟩
      obtain ⟨s₁, ht⟩ := (returns_pass_write h).mp hr
      exact .inr (.inl ⟨v, s₁, hv, ht⟩)
    · rintro (⟨hn | hn, -⟩ | ⟨v, s₁, hv, ht⟩ | ⟨hn, -⟩)
      · cases hn.symm.trans h
      · cases hn.symm.trans h
      · exact ⟨v, s, ⟨hv, rfl⟩, (returns_pass_write h).mpr ⟨s₁, ht⟩⟩
      · exact absurd h (hn _ (by simp))
  · next h₁ h₂ h₃ =>
    have h₁ := mt symbol?_eq_some.mpr h₁
    have h₂ := mt symbol?_eq_some.mpr h₂
    have h₃ := mt symbol?_eq_some.mpr h₃
    simp only [returns_bind (a := resolve _ _), returns_resolve, returns_then, returns_write]
    constructor
    · rintro ⟨v, _, ⟨hv, rfl⟩, hw⟩
      exact .inr (.inr ⟨by simp [h₁, h₂, h₃], v, hv, hw⟩)
    · rintro (⟨h | h, -⟩ | ⟨v, s₁, -, ht, -⟩ | ⟨-, v, hv, hw⟩)
      · exact absurd h h₁
      · exact absurd h h₂
      · exact absurd ht.terminal? h₃
      · exact ⟨v, s, ⟨hv, rfl⟩, hw⟩

theorem perform_call {name : String} :
    Returns (perform (.call name)) s gs s' ↔
      (∃ s₁, s.Takes (.symbol '(') s₁ ∧ s₁.Writes [.push .pointer 0] s' ∧
        gs = [.arguments (qualifiedName s.className name) 1]) ∨
      (s.input.terminal? ≠ some (.symbol '(') ∧ s' = s ∧ gs = [.symbol '.', .callee name]) := by
  rw [perform, returns_input?_bind]
  split
  · next h =>
    have h := isSymbol_iff.mp h
    simp only [returns_bind (a := pass), returns_pass h, returns_bind (a := write _),
      returns_write, returns_get_bind, returns_pure]
    constructor
    · rintro ⟨u, s₁, ht, u', s₂, hw, rfl, rfl⟩
      refine .inl ⟨s₁, ht, hw, ?_⟩
      obtain ⟨i, -, -, rfl⟩ := ht
      rw [hw.2]
      rfl
    · rintro (⟨s₁, ht, hw, rfl⟩ | ⟨hn, -⟩)
      · refine ⟨(), s₁, ht, (), s', hw, ?_, rfl⟩
        obtain ⟨i, -, -, rfl⟩ := ht
        rw [hw.2]
        rfl
      · exact absurd h hn
  · next h =>
    have h := mt isSymbol_iff.mpr h
    have hn (t : Session) : ¬ s.Takes (.symbol '(') t := fun ht => h ht.terminal?
    simp [returns_pure, h, hn, eq_comm, and_comm]

theorem perform_callee {receiver : String} :
    Returns (perform (.callee receiver)) s gs s' ↔
      ∃ routine, s.Takes (.identifier routine) s' ∧
        gs = [.symbol '(', .receiver receiver routine] := by
  simp only [perform, returns_bind, returns_expectName, returns_pure]
  constructor
  · rintro ⟨routine, s₁, ht, rfl, rfl⟩
    exact ⟨routine, ht, rfl⟩
  · rintro ⟨routine, ht, rfl⟩
    exact ⟨routine, s', ht, rfl, rfl⟩

theorem perform_receiver {name routine : String} :
    Returns (perform (.receiver name routine)) s gs s' ↔
      (∃ v, s.context.resolve name = some v ∧ s.Writes [v.push] s' ∧
        gs = [.arguments (qualifiedName v.type routine) 1]) ∨
      (s.context.resolve name = none ∧ s' = s ∧
        gs = [.arguments (qualifiedName name routine) 0]) := by
  rw [perform, returns_get_bind]
  split
  · next v hv =>
    have hv : s.context.resolve name = some v := hv
    rw [returns_then, returns_write, hv]
    simp
  · next hv =>
    have hv : s.context.resolve name = none := hv
    rw [returns_pure, hv]
    simp [eq_comm, and_comm]

theorem perform_arguments {routine : String} {count : Nat} :
    Returns (perform (.arguments routine count)) s gs s' ↔
      s' = s ∧ ((s.input.terminal? = some (.symbol ')') ∧
          gs = [.symbol ')', .write [.call routine count]]) ∨
        (s.input.terminal? ≠ some (.symbol ')') ∧
          gs = [.expression, .moreArguments routine (count + 1)])) :=
  returns_look_symbol

theorem perform_moreArguments {routine : String} {count : Nat} :
    Returns (perform (.moreArguments routine count)) s gs s' ↔
      (s.Takes (.symbol ',') s' ∧ gs = [.expression, .moreArguments routine (count + 1)]) ∨
      (s.input.terminal? ≠ some (.symbol ',') ∧ s' = s ∧
        gs = [.symbol ')', .write [.call routine count]]) :=
  returns_choice_symbol

end Session

end JackStack
