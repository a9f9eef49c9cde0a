import JackStack.Compile.Agenda
import JackStack.Proofs.GoalStep

/-!
# Proofs/Recognition — a run that succeeds has passed a tree

Every goal has a meaning: the passage that it stands for, as a relation between the sessions before
and behind it. The meaning of a goal follows from the meanings of the goals that take its place, so
a run that succeeds amounts to the meanings of its goals in turn.

* `Session.means_of_perform` — the step: doing a goal and then what takes its place means the goal.
* `Session.means_of_run` — the run: an agenda that succeeds means all its goals.
-/

namespace JackStack

open Vm (Command)

namespace Session

variable {s s' s'' : Session}

/-! ## Declarations as passages -/

/-- **A passage of declarations**: the terminals are passed and the variables declared. -/
def Declares (s : Session) (ts : List Terminal) (ds : List Declaration) (s' : Session) : Prop :=
  ∃ i, s.input.Reads ts i ∧ s' = (s.after i [] 0 0).declared ds

theorem Takes.declares {t : Terminal} (h : s.Takes t s') : s.Declares [t] [] s' := by
  obtain ⟨i, hi, -, rfl⟩ := h
  exact ⟨i, hi, rfl⟩

theorem Declares.refl (s : Session) : s.Declares [] [] s := ⟨s.input, rfl, rfl⟩

theorem declares_declared {ds : List Declaration} : s.Declares [] ds (s.declared ds) :=
  ⟨s.input, rfl, rfl⟩

theorem Declares.trans {ts ts' : List Terminal} {ds ds' : List Declaration}
    (h : s.Declares ts ds s') (h' : s'.Declares ts' ds' s'') :
    s.Declares (ts ++ ts') (ds ++ ds') s'' := by
  obtain ⟨i, hi, rfl⟩ := h
  obtain ⟨j, hj, rfl⟩ := h'
  refine ⟨j, Lookahead.reads_append.mpr ⟨i, hi, hj⟩, ?_⟩
  simp [declared, after, Scopes.declareAll]

/-- A passage of declarations falls into a terminal and the rest. -/
theorem Declares.cons {t : Terminal} {ts : List Terminal} {ds : List Declaration}
    (h : s.Declares (t :: ts) ds s'') : ∃ s', s.Takes t s' ∧ s'.Declares ts ds s'' := by
  obtain ⟨j, hj, rfl⟩ := h
  obtain ⟨i, hi, hj⟩ := Lookahead.reads_cons_iff_exists.mp hj
  exact ⟨s.after i [] 0 0, ⟨i, hi, knows_nil, rfl⟩, j, hj, rfl⟩

/-- The first variable of a passage may be declared before it. -/
theorem Declares.declare {d : Declaration} {ts : List Terminal} {ds : List Declaration}
    (h : s.Declares ts (d :: ds) s') : (s.declared [d]).Declares ts ds s' := by
  obtain ⟨i, hi, rfl⟩ := h
  exact ⟨i, hi, rfl⟩

/-- A passage of declarations falls into two. -/
theorem Declares.split {ts ts' : List Terminal} {ds ds' : List Declaration}
    (h : s.Declares (ts ++ ts') (ds ++ ds') s'') :
    ∃ s', s.Declares ts ds s' ∧ s'.Declares ts' ds' s'' := by
  obtain ⟨j, hj, rfl⟩ := h
  obtain ⟨i, hi, hj⟩ := Lookahead.reads_append.mp hj
  refine ⟨_, ⟨i, hi, rfl⟩, j, hj, ?_⟩
  simp [declared, after, Scopes.declareAll]

theorem Declares.terminal? {t : Terminal} {ts : List Terminal} {ds : List Declaration}
    (h : s.Declares (t :: ts) ds s') : s.input.terminal? = some t := by
  obtain ⟨i, hi, -⟩ := h
  exact hi.terminal?

/-! ## Subroutines -/

/-- **The session in which the statements of a subroutine are compiled**: its header is known, its
variables are declared, and its prologue is written. -/
def opened (s : Session) (routine : Routine) (ds : List Declaration) : Session :=
  let s₁ := { s with routine }.declared ds
  let s₂ := s₁.noted (.routineStarted routine.kind (qualifiedName s.className routine.name))
  s₂.wrote s₂.prologueCode

/-- **A subroutine is compiled**: its terminals `ts` are passed, its variables `ds` declared, and
its statements translated. -/
def Compiles (s : Session) (ts : List Terminal) (routine : Routine) (ds : List Declaration)
    (body : List Statement) (s' : Session) : Prop :=
  ∃ i, s.input.Reads ts i ∧
    let s₁ := s.opened routine ds
    s₁.Knows (Statement.listVariables body) ∧
    (s₁.after i (Statement.listCode s₁.context s₁.conditions s₁.loops body)
      (Statement.listConditions body) (Statement.listLoops body)).Closes s'

/-- **Subroutines are compiled** one after the other, each in a scope of its own. -/
def CompilesAll (s : Session) : List RoutineDecl → Session → Prop
  | [], s' => s' = s
  | r :: rest, s' =>
    ∃ s₁, { s with scopes := s.scopes.enterRoutine }.Compiles r.terminals
      ⟨r.kind, r.name, r.returnType.isNone⟩ (r.declarations s.className) r.body s₁ ∧
      s₁.CompilesAll rest s'

end Session

/-! ## The meanings of goals -/

namespace Goal

/-- **The meaning of a goal**, as a relation between the sessions before and behind it. -/
def Means : Goal → Session → Session → Prop
  | .symbol c, s, s' => s.Takes (.symbol c) s'
  | .keyword k, s, s' => s.Takes (.keyword k) s'
  | .write commands, s, s' => s.Passes [] [] commands 0 0 s'
  | .operate operator unary, s, s' =>
    ∃ c, Command.ofOperator? operator unary = some c ∧ s.Passes [] [] [c] 0 0 s'
  | .className, s, s' =>
    ∃ name s₁, s.Takes (.identifier name) s₁ ∧ s' = { s₁ with className := name }
  | .announceClass, s, s' => s' = s.noted (.classStarted s.className)
  | .classVariables, s, s' =>
    ∃ vs : List ClassVariables, s.Declares (vs.flatMap ClassVariables.terminals)
      (vs.flatMap ClassVariables.declarations) s'
  | .routines, s, s' => ∃ rs, s.CompilesAll rs s'
  | .sourceEnd, s, s' => s.input.atEnd = true ∧ s' = s
  | .variableType kind, s, s' =>
    ∃ l : VariableList, s.Declares l.terminals (l.declarations kind) s'
  | .variableName kind type, s, s' =>
    ∃ (first : String) (more : List String), s.Declares
      (.identifier first :: (more.flatMap (fun name => [.symbol ',', .identifier name])
        ++ [.symbol ';'])) ((first :: more).map fun name => ⟨name, type, kind⟩) s'
  | .moreVariables kind type, s, s' =>
    ∃ more : List String, s.Declares
      (more.flatMap (fun name => [.symbol ',', .identifier name]) ++ [.symbol ';'])
      (more.map fun name => ⟨name, type, kind⟩) s'
  | .returnType kind, s, s' =>
    ∃ r : RoutineDecl, r.kind = kind ∧ s.Compiles r.terminals.tail
      ⟨kind, r.name, r.returnType.isNone⟩ (r.declarations s.className) r.body s'
  | .routineName kind returnsVoid, s, s' =>
    ∃ r : RoutineDecl, r.kind = kind ∧ s.Compiles r.terminals.tail.tail
      ⟨kind, r.name, returnsVoid⟩ (r.declarations s.className) r.body s'
  | .parameters, s, s' =>
    ∃ ps, s.Declares (Parameter.list ps) (ps.map Parameter.declaration) s'
  | .parameterType, s, s' =>
    ∃ (p : Parameter) (ps : List Parameter), s.Declares (Parameter.list (p :: ps))
      ((p :: ps).map Parameter.declaration) s'
  | .parameterName type, s, s' =>
    ∃ (name : String) (ps : List Parameter), s.Declares
      (.identifier name :: ps.flatMap fun q => .symbol ',' :: q.terminals)
      (⟨name, type, .argument⟩ :: ps.map Parameter.declaration) s'
  | .moreParameters, s, s' =>
    ∃ ps : List Parameter, s.Declares (ps.flatMap fun q => .symbol ',' :: q.terminals)
      (ps.map Parameter.declaration) s'
  | .announceRoutine, s, s' =>
    s' = s.noted (.routineStarted s.routine.kind (qualifiedName s.className s.routine.name))
  | .localVariables, s, s' =>
    ∃ ls : List VariableList, s.Declares (ls.flatMap fun l => .keyword .var :: l.terminals)
      (ls.flatMap (·.declarations .local)) s'
  | .prologue, s, s' => s.Passes [] [] s.prologueCode 0 0 s'
  | .epilogue, s, s' => s.Closes s'
  | .statements, s, s' =>
    ∃ body, s.Passes (Statement.list body) (Statement.listVariables body)
      (Statement.listCode s.context s.conditions s.loops body) (Statement.listConditions body)
      (Statement.listLoops body) s'
  | .assigned, s, s' => Behind .let s s'
  | .assignment v, s, s' =>
    (∃ value : Expression, s.Passes (.symbol '=' :: (value.terminals ++ [.symbol ';']))
      value.variables (value.code s.context ++ [v.pop]) 0 0 s') ∨
    (∃ index value : Expression, s.Passes
      (Terminal.brackets index.terminals ++ .symbol '=' :: (value.terminals ++ [.symbol ';']))
      (index.variables ++ value.variables)
      (index.code s.context ++ [v.push] ++ .arith .add :: (value.code s.context
        ++ [.pop .temp 0, .pop .pointer 1, .push .temp 0, .pop .that 0])) 0 0 s')
  | .conditional, s, s' => Behind .if s s'
  | .loop, s, s' => Behind .while s s'
  | .otherwise, s, s' =>
    ∃ o, s.Passes (Statement.otherwise o) (Statement.otherwiseVariables o)
      (Statement.otherwiseCode s.context s.conditions s.loops o) (Statement.otherwiseConditions o)
      (Statement.otherwiseLoops o) s'
  | .performed, s, s' =>
    ∃ c : Call, s.Passes c.terminals c.variables (c.code s.context) 0 0 s'
  | .returned, s, s' => Behind .return s s'
  | .expression, s, s' =>
    ∃ e : Expression, s.Passes e.terminals e.variables (e.code s.context) 0 0 s'
  | .moreTerms, s, s' =>
    ∃ more, s.Passes (Expression.moreTerms more) (Expression.moreVariables more)
      (Expression.moreCode s.context more) 0 0 s'
  | .term, s, s' => ∃ t : Term, s.Passes t.terminals t.variables (t.code s.context) 0 0 s'
  | .reference name _, s, s' =>
    ∃ (t : Term) (ts : List Terminal), t.terminals = .identifier name :: ts ∧
      s.Passes ts t.variables (t.code s.context) 0 0 s'
  | .call name, s, s' =>
    ∃ (c : Call) (ts : List Terminal), c.terminals = .identifier name :: ts ∧
      s.Passes ts c.variables (c.code s.context) 0 0 s'
  | .callee name, s, s' =>
    ∃ (routine : String) (es : List Expression), s.Passes
      (.identifier routine :: Terminal.parentheses (Call.list es)) (Call.listVariables es)
      ((Call.on name routine es).code s.context) 0 0 s'
  | .receiver name routine, s, s' =>
    ∃ es : List Expression, s.Passes (Call.list es ++ [.symbol ')']) (Call.listVariables es)
      ((Call.on name routine es).code s.context) 0 0 s'
  | .arguments routine count, s, s' =>
    ∃ es : List Expression, s.Passes (Call.list es ++ [.symbol ')']) (Call.listVariables es)
      (Call.listCode s.context es ++ [.call routine (count + es.length)]) 0 0 s'
  | .moreArguments routine count, s, s' =>
    ∃ es : List Expression, s.Passes (Call.moreArguments es ++ [.symbol ')'])
      (Call.listVariables es)
      (Call.listCode s.context es ++ [.call routine (count + es.length)]) 0 0 s'
where
  /-- The rest of a statement behind its keyword. -/
  Behind (k : Keyword) (s s' : Session) : Prop :=
    ∃ (st : Statement) (ts : List Terminal), st.terminals = .keyword k :: ts ∧
      s.Passes ts st.variables (st.code s.context s.conditions s.loops) st.conditions st.loops s'

/-- **The meaning of an agenda**: its goals in turn. -/
def MeansAll : List Goal → Session → Session → Prop
  | [], s, s' => s' = s
  | g :: gs, s, s' => ∃ t, g.Means s t ∧ MeansAll gs t s'

@[simp] theorem meansAll_nil {s s' : Session} : MeansAll [] s s' ↔ s' = s := Iff.rfl

theorem meansAll_cons {g : Goal} {gs : List Goal} {s s' : Session} :
    MeansAll (g :: gs) s s' ↔ ∃ t, g.Means s t ∧ MeansAll gs t s' := Iff.rfl

theorem meansAll_singleton {g : Goal} {s s' : Session} : MeansAll [g] s s' ↔ g.Means s s' := by
  simp only [meansAll_cons, meansAll_nil]
  exact ⟨fun ⟨_, h, ht⟩ => ht ▸ h, fun h => ⟨s', h, rfl⟩⟩

theorem meansAll_append {gs hs : List Goal} {s s' : Session} :
    MeansAll (gs ++ hs) s s' ↔ ∃ t, MeansAll gs s t ∧ MeansAll hs t s' := by
  induction gs generalizing s with
  | nil => simp
  | cons g gs ih =>
    simp only [List.cons_append, meansAll_cons, ih]
    constructor
    · rintro ⟨t, hg, u, hgs, hhs⟩
      exact ⟨u, ⟨t, hg, hgs⟩, hhs⟩
    · rintro ⟨u, ⟨t, hg, hgs⟩, hhs⟩
      exact ⟨t, hg, u, hgs, hhs⟩

end Goal

namespace Session

open JackStack.Action (Returns)
open Goal (Means MeansAll)

variable {s s' s'' : Session} {ts : List Terminal} {names : List String} {code : List Command}
  {m n : Nat} {gs : List Goal}

/-- A passage that needs a name declared. -/
theorem Passes.needs {name : String} (h : s.Passes ts names code m n s')
    (hn : (s.context.resolve name).isSome) : s.Passes ts (name :: names) code m n s' := by
  obtain ⟨i, hi, hk, rfl⟩ := h
  exact ⟨i, hi, knows_cons.mpr ⟨hn, hk⟩, rfl⟩

/-! ## Expressions -/

theorem means_operate_unary {op : UnaryOp} (h : Means (.operate op.symbol true) s s') :
    s.Passes [] [] [op.command] 0 0 s' := by
  obtain ⟨c, hc, h⟩ := h
  rw [ofOperator?_unary] at hc
  cases hc
  exact h

theorem means_operate_binary {op : BinaryOp} (h : Means (.operate op.symbol false) s s') :
    s.Passes [] [] [op.command] 0 0 s' := by
  obtain ⟨c, hc, h⟩ := h
  rw [ofOperator?_binary] at hc
  cases hc
  exact h

theorem means_expression (h : MeansAll [.term, .moreTerms] s s') : Means .expression s s' := by
  obtain ⟨s₁, ⟨t, ht⟩, s₂, ⟨more, hm⟩, rfl⟩ := h
  rw [ht.context_eq] at hm
  refine ⟨.chain t more, ?_⟩
  simpa [Expression.terminals, Expression.variables, Expression.code] using ht.trans hm

theorem means_moreTerms (hp : Returns (perform .moreTerms) s gs s')
    (h : MeansAll gs s' s'') : Means .moreTerms s s'' := by
  obtain ⟨op, hop, rfl⟩ | ⟨-, rfl, rfl⟩ := perform_moreTerms.mp hp
  · obtain ⟨s₁, ⟨t, ht⟩, s₂, ho, s₃, ⟨more, hm⟩, rfl⟩ := h
    have ho := means_operate_binary ho
    rw [ho.context_eq, ht.context_eq, hop.context_eq] at hm
    rw [hop.context_eq] at ht
    refine ⟨(op, t) :: more, ?_⟩
    simpa [Expression.moreTerms, Expression.moreVariables, Expression.moreCode]
      using Passes.trans hop (ht.trans (ho.trans hm))
  · cases h
    exact ⟨[], .refl s'⟩

theorem means_term (hp : Returns (perform .term) s gs s') (h : MeansAll gs s' s'') :
    Means .term s s'' := by
  obtain ⟨digits, ht⟩ | ⟨body, ht⟩ | ⟨c, ht⟩ | ht | ⟨op, ht⟩ | ⟨name, ht⟩ := perform_term_cases hp
  · obtain ⟨s₁, ht, hw, rfl⟩ := (perform_term_integer ht).mp hp
    cases h
    exact ⟨.integer digits, Passes.trans ht hw.passes⟩
  · obtain ⟨s₁, ht, hw, rfl⟩ := (perform_term_text ht).mp hp
    cases h
    exact ⟨.text body, Passes.trans ht hw.passes⟩
  · obtain ⟨s₁, hw, ht, rfl⟩ := (perform_term_constant ht).mp hp
    cases h
    refine ⟨.constant c, ?_⟩
    simpa [Term.terminals, Term.variables, Term.code] using Passes.trans hw.passes ht
  · obtain ⟨ht, rfl⟩ := (perform_term_group ht).mp hp
    obtain ⟨s₁, ⟨e, he⟩, s₂, hc, rfl⟩ := h
    rw [ht.context_eq] at he
    refine ⟨.group e, ?_⟩
    simpa [Term.terminals, Term.variables, Term.code, Terminal.parentheses]
      using Passes.trans ht (he.trans hc)
  · obtain ⟨ht, rfl⟩ := (perform_term_unary ht).mp hp
    obtain ⟨s₁, ⟨t, hu⟩, s₂, ho, rfl⟩ := h
    have ho := means_operate_unary ho
    rw [ht.context_eq] at hu
    refine ⟨.unary op t, ?_⟩
    simpa [Term.terminals, Term.variables, Term.code] using Passes.trans ht (hu.trans ho)
  · obtain ⟨line, hi⟩ := perform_term_identifier ht
    obtain ⟨ht, rfl⟩ := hi.mp hp
    obtain ⟨s₁, ⟨t, ts, hts, hr⟩, rfl⟩ := h
    rw [ht.context_eq] at hr
    refine ⟨t, ?_⟩
    rw [hts]
    simpa using Passes.trans ht hr

theorem means_reference {name : String} {line : Nat}
    (hp : Returns (perform (.reference name line)) s gs s') (h : MeansAll gs s' s'') :
    Means (.reference name line) s s'' := by
  obtain ⟨-, rfl, rfl⟩ | ⟨v, s₁, hv, ht, hw, rfl⟩ | ⟨-, v, hv, hw, rfl⟩ := perform_reference.mp hp
  · obtain ⟨s₁, ⟨c, ts, hts, hc⟩, rfl⟩ := h
    exact ⟨.call c, ts, hts, hc⟩
  · obtain ⟨s₂, ⟨e, he⟩, s₃, hb, s₄, ⟨c, hc, ho⟩, s₅, hl, rfl⟩ := h
    cases hc
    rw [hw.context_eq, ht.context_eq] at he
    refine ⟨.element name e, _, rfl, ?_⟩
    have hall := Passes.trans ht (hw.passes.trans (he.trans (Passes.trans hb (ho.trans hl))))
    have hn : (s.context.resolve name).isSome := by simp [hv]
    simpa [Term.variables, Term.code, Terminal.brackets, Context.pushName, hv, Code.loadElement]
      using hall.needs hn
  · cases h
    have hn : (s.context.resolve name).isSome := by simp [hv]
    refine ⟨.variable name, [], rfl, ?_⟩
    simpa [Term.variables, Term.code, Context.pushName, hv] using hw.passes.needs hn

/-! ## Calls -/

theorem means_call {name : String} (hp : Returns (perform (.call name)) s gs s')
    (h : MeansAll gs s' s'') : Means (.call name) s s'' := by
  obtain ⟨s₁, ht, hw, rfl⟩ | ⟨-, rfl, rfl⟩ := perform_call.mp hp
  · obtain ⟨s₂, ⟨es, ha⟩, rfl⟩ := h
    rw [hw.context_eq, ht.context_eq] at ha
    refine ⟨.own name es, _, rfl, ?_⟩
    simpa [Call.variables, Call.code, Terminal.parentheses, Nat.add_comm]
      using Passes.trans ht (hw.passes.trans ha)
  · obtain ⟨s₁, hd, s₂, ⟨routine, es, hc⟩, rfl⟩ := h
    rw [Takes.context_eq hd] at hc
    refine ⟨.on name routine es, _, rfl, ?_⟩
    simpa [Call.variables] using Passes.trans hd hc

theorem means_callee {name : String} (hp : Returns (perform (.callee name)) s gs s')
    (h : MeansAll gs s' s'') : Means (.callee name) s s'' := by
  obtain ⟨routine, ht, rfl⟩ := perform_callee.mp hp
  obtain ⟨s₁, ho, s₂, ⟨es, ha⟩, rfl⟩ := h
  rw [Takes.context_eq ho, ht.context_eq] at ha
  refine ⟨routine, es, ?_⟩
  simpa [Terminal.parentheses] using Passes.trans ht (Passes.trans ho ha)

theorem means_receiver {name routine : String}
    (hp : Returns (perform (.receiver name routine)) s gs s') (h : MeansAll gs s' s'') :
    Means (.receiver name routine) s s'' := by
  obtain ⟨v, hv, hw, rfl⟩ | ⟨hv, rfl, rfl⟩ := perform_receiver.mp hp
  · obtain ⟨s₁, ⟨es, ha⟩, rfl⟩ := h
    rw [hw.context_eq] at ha
    refine ⟨es, ?_⟩
    simpa [Call.code, Context.pushName, Context.callOn, hv, Nat.add_comm]
      using hw.passes.trans ha
  · obtain ⟨s₁, ⟨es, ha⟩, rfl⟩ := h
    refine ⟨es, ?_⟩
    simpa [Call.code, Context.pushName, Context.callOn, hv] using ha

/-- The end of a call behind its last argument. -/
theorem means_callEnd {routine : String} {count : Nat}
    (h : MeansAll [.symbol ')', .write [.call routine count]] s s') :
    s.Passes [.symbol ')'] [] [.call routine count] 0 0 s' := by
  obtain ⟨s₁, hc, s₂, hw, rfl⟩ := h
  simpa using Passes.trans hc hw

/-- An argument and what follows it. -/
theorem means_argument {routine : String} {count : Nat}
    (h : MeansAll [.expression, .moreArguments routine (count + 1)] s s') :
    ∃ (e : Expression) (es : List Expression), s.Passes
      (e.terminals ++ (Call.moreArguments es ++ [.symbol ')'])) (Call.listVariables (e :: es))
      (Call.listCode s.context (e :: es) ++ [.call routine (count + (e :: es).length)])
      0 0 s' := by
  obtain ⟨s₁, ⟨e, he⟩, s₂, ⟨es, ha⟩, rfl⟩ := h
  rw [he.context_eq] at ha
  refine ⟨e, es, ?_⟩
  simpa [Call.listVariables, Call.listCode, Nat.add_comm, Nat.add_left_comm] using he.trans ha

theorem means_arguments {routine : String} {count : Nat}
    (hp : Returns (perform (.arguments routine count)) s gs s') (h : MeansAll gs s' s'') :
    Means (.arguments routine count) s s'' := by
  obtain ⟨rfl, ⟨-, rfl⟩ | ⟨-, rfl⟩⟩ := perform_arguments.mp hp
  · exact ⟨[], means_callEnd h⟩
  · obtain ⟨e, es, ha⟩ := means_argument h
    refine ⟨e :: es, ?_⟩
    simpa [Call.list] using ha

theorem means_moreArguments {routine : String} {count : Nat}
    (hp : Returns (perform (.moreArguments routine count)) s gs s') (h : MeansAll gs s' s'') :
    Means (.moreArguments routine count) s s'' := by
  obtain ⟨ht, rfl⟩ | ⟨-, rfl, rfl⟩ := perform_moreArguments.mp hp
  · obtain ⟨e, es, ha⟩ := means_argument h
    rw [ht.context_eq] at ha
    refine ⟨e :: es, ?_⟩
    simpa [Call.moreArguments] using Passes.trans ht ha
  · exact ⟨[], means_callEnd h⟩

/-! ## Statements -/

theorem means_assigned (hp : Returns (perform .assigned) s gs s') (h : MeansAll gs s' s'') :
    Means .assigned s s'' := by
  obtain ⟨name, v, ht, hv, rfl⟩ := perform_assigned.mp hp
  have hn : (s.context.resolve name).isSome := by simp [hv]
  obtain ⟨s₁, ⟨e, he⟩ | ⟨a, e, he⟩, rfl⟩ := h
  · rw [ht.context_eq] at he
    refine ⟨.assign name e, _, rfl, ?_⟩
    simpa [Statement.variables, Statement.code, Statement.conditions, Statement.loops,
      Context.popName, hv] using (Passes.trans ht he).needs hn
  · rw [ht.context_eq] at he
    refine ⟨.assignElement name a e, _, rfl, ?_⟩
    simpa [Statement.variables, Statement.code, Statement.conditions, Statement.loops,
      Context.pushName, hv] using (Passes.trans ht he).needs hn

theorem means_assignment {v : Variable} (hp : Returns (perform (.assignment v)) s gs s')
    (h : MeansAll gs s' s'') : Means (.assignment v) s s'' := by
  obtain ⟨ht, rfl⟩ | ⟨-, rfl, rfl⟩ := perform_assignment.mp hp
  · obtain ⟨s₁, ⟨a, ha⟩, s₂, hw, s₃, ⟨c, hc, ho⟩, s₄, hb, s₅, hq, s₆, ⟨e, he⟩, s₇, hs, s₈, hst,
      rfl⟩ := h
    cases hc
    rw [Takes.context_eq hq, Takes.context_eq hb, ho.context_eq, Passes.context_eq hw,
      ha.context_eq, ht.context_eq] at he
    rw [ht.context_eq] at ha
    refine .inr ⟨a, e, ?_⟩
    simpa [Terminal.brackets, Code.storeElement] using
      Passes.trans ht (ha.trans (Passes.trans hw (ho.trans (Passes.trans hb (Passes.trans hq
        (he.trans (Passes.trans hs hst)))))))
  · obtain ⟨s₁, hq, s₂, ⟨e, he⟩, s₃, hs, s₄, hw, rfl⟩ := h
    rw [Takes.context_eq hq] at he
    refine .inl ⟨e, ?_⟩
    simpa using Passes.trans hq (he.trans (Passes.trans hs hw))

/-- A condition in brackets, with its value negated. -/
theorem means_condition (h : MeansAll Goal.condition s s') :
    ∃ e : Expression, s.Passes (Terminal.parentheses e.terminals) e.variables
      (e.code s.context ++ [.arith .not]) 0 0 s' := by
  obtain ⟨s₁, ho, s₂, ⟨e, he⟩, s₃, hc, s₄, ⟨c, hn, hw⟩, rfl⟩ := h
  cases hn
  rw [Takes.context_eq ho] at he
  refine ⟨e, ?_⟩
  simpa [Terminal.parentheses] using Passes.trans ho (he.trans (Passes.trans hc hw))

/-- Statements in braces. -/
theorem means_block (h : MeansAll Goal.block s s') :
    ∃ body, s.Passes (Terminal.braces (Statement.list body)) (Statement.listVariables body)
      (Statement.listCode s.context s.conditions s.loops body) (Statement.listConditions body)
      (Statement.listLoops body) s' := by
  obtain ⟨s₁, ho, s₂, ⟨body, hb⟩, s₃, hc, rfl⟩ := h
  rw [Takes.context_eq ho, Passes.conditions_eq ho, Passes.loops_eq ho] at hb
  refine ⟨body, ?_⟩
  simpa [Terminal.braces] using Passes.trans ho (hb.trans hc)

theorem means_conditional (hp : Returns (perform .conditional) s gs s')
    (h : MeansAll gs s' s'') : Means .conditional s s'' := by
  obtain ⟨rfl, rfl⟩ := perform_conditional.mp hp
  have hl : s.Passes [] [] [] 2 0 (s.after s.input [] 2 0) := ⟨s.input, rfl, knows_nil, rfl⟩
  rw [List.append_assoc, Goal.meansAll_append] at h
  obtain ⟨s₁, hc, s₂, hj, h⟩ := h
  obtain ⟨s₃, hb, s₄, hw, s₅, ⟨o, ho⟩, s₆, he, rfl⟩ := Goal.meansAll_append.mp h
  obtain ⟨e, hc⟩ := means_condition hc
  obtain ⟨body, hb⟩ := means_block hb
  simp only [Passes.context_eq hw, Passes.conditions_eq hw, Passes.loops_eq hw, hb.context_eq,
    hb.conditions_eq, hb.loops_eq] at ho
  simp only [Passes.context_eq hj, Passes.conditions_eq hj, Passes.loops_eq hj, hc.context_eq,
    hc.conditions_eq, hc.loops_eq, hl.context_eq, hl.conditions_eq, hl.loops_eq] at hc hb ho
  refine ⟨.branch e body o, _, rfl, ?_⟩
  simpa [Statement.variables, Statement.code, Statement.conditions, Statement.loops,
    Nat.add_assoc] using
    hl.trans (hc.trans (Passes.trans hj (hb.trans (Passes.trans hw (ho.trans he)))))

theorem means_loop (hp : Returns (perform .loop) s gs s') (h : MeansAll gs s' s'') :
    Means .loop s s'' := by
  obtain ⟨rfl, rfl⟩ := perform_loop.mp hp
  have hl : s.Passes [] [] [] 0 2 (s.after s.input [] 0 2) := ⟨s.input, rfl, knows_nil, rfl⟩
  rw [List.append_assoc] at h
  obtain ⟨s₁, ht, h⟩ := h
  obtain ⟨s₂, hc, s₃, hj, h⟩ := Goal.meansAll_append.mp h
  obtain ⟨s₄, hb, s₅, hw, rfl⟩ := Goal.meansAll_append.mp h
  obtain ⟨e, hc⟩ := means_condition hc
  obtain ⟨body, hb⟩ := means_block hb
  simp only [Passes.context_eq hj, Passes.conditions_eq hj, Passes.loops_eq hj, hc.context_eq,
    hc.conditions_eq, hc.loops_eq, Passes.context_eq ht, Passes.conditions_eq ht,
    Passes.loops_eq ht, hl.context_eq, hl.conditions_eq, hl.loops_eq] at hc hb
  refine ⟨.loop e body, _, rfl, ?_⟩
  simpa [Statement.variables, Statement.code, Statement.conditions, Statement.loops] using
    hl.trans (Passes.trans ht (hc.trans (Passes.trans hj (hb.trans hw))))

theorem means_otherwise (hp : Returns (perform .otherwise) s gs s') (h : MeansAll gs s' s'') :
    Means .otherwise s s'' := by
  obtain ⟨ht, rfl⟩ | ⟨-, rfl, rfl⟩ := perform_otherwise.mp hp
  · obtain ⟨body, hb⟩ := means_block h
    rw [ht.context_eq, Passes.conditions_eq ht, Passes.loops_eq ht] at hb
    refine ⟨some body, ?_⟩
    simpa [Statement.otherwise, Statement.otherwiseVariables, Statement.otherwiseCode,
      Statement.otherwiseConditions, Statement.otherwiseLoops] using Passes.trans ht hb
  · cases h
    exact ⟨none, .refl s'⟩

theorem means_performed (hp : Returns (perform .performed) s gs s') (h : MeansAll gs s' s'') :
    Means .performed s s'' := by
  obtain ⟨name, ht, rfl⟩ := perform_performed.mp hp
  obtain ⟨s₁, ⟨c, ts, hts, hc⟩, rfl⟩ := h
  rw [ht.context_eq] at hc
  refine ⟨c, ?_⟩
  rw [hts]
  simpa using Passes.trans ht hc

theorem means_returned (hp : Returns (perform .returned) s gs s') (h : MeansAll gs s' s'') :
    Means .returned s s'' := by
  obtain ⟨rfl, ⟨-, rfl⟩ | ⟨-, rfl⟩⟩ := perform_returned.mp hp
  · obtain ⟨s₁, hs, s₂, hw, rfl⟩ := h
    refine ⟨.return none, _, rfl, ?_⟩
    simpa [Statement.variables, Statement.code, Statement.conditions, Statement.loops,
      finish_eq_returnCode] using Passes.trans hs hw
  · obtain ⟨s₁, ⟨e, he⟩, s₂, hs, s₃, hw, rfl⟩ := h
    refine ⟨.return (some e), _, rfl, ?_⟩
    simpa [Statement.variables, Statement.code, Statement.conditions, Statement.loops,
      finish_eq_returnCode] using he.trans (Passes.trans hs hw)

/-- **The goals of a statement mean it** behind its keyword. -/
theorem means_statement {k : Keyword} (hk : Goal.statement? k = some gs)
    (h : MeansAll gs s s') : Means.Behind k s s' := by
  cases k with
  | «let» | «if» | «while» | «return» =>
    cases hk
    exact Goal.meansAll_singleton.mp h
  | «do» =>
    cases hk
    obtain ⟨s₁, ⟨c, hc⟩, s₂, hs, s₃, hw, rfl⟩ := h
    refine ⟨.perform c, _, rfl, ?_⟩
    simpa [Statement.variables, Statement.code, Statement.conditions, Statement.loops]
      using hc.trans (Passes.trans hs hw)
  | _ => cases hk

theorem means_statements (hp : Returns (perform .statements) s gs s')
    (h : MeansAll gs s' s'') : Means .statements s s'' := by
  obtain ⟨k, goals, hk, ht, rfl⟩ | ⟨-, rfl, rfl⟩ := perform_statements.mp hp
  · obtain ⟨s₁, hst, hrest⟩ := Goal.meansAll_append.mp h
    obtain ⟨st, ts, hts, hst⟩ := means_statement hk hst
    obtain ⟨body, hb⟩ := Goal.meansAll_singleton.mp hrest
    simp only [hst.context_eq, hst.conditions_eq, hst.loops_eq, ht.context_eq,
      Passes.conditions_eq ht, Passes.loops_eq ht] at hst hb
    refine ⟨st :: body, ?_⟩
    simpa [Statement.list, hts, Statement.listVariables, Statement.listCode,
      Statement.listConditions, Statement.listLoops] using Passes.trans ht (hst.trans hb)
  · cases h
    exact ⟨[], .refl s'⟩

/-! ## Declarations -/

theorem means_variableType {kind : VariableKind}
    (hp : Returns (perform (.variableType kind)) s gs s') (h : MeansAll gs s' s'') :
    Means (.variableType kind) s s'' := by
  obtain ⟨type, ht, rfl⟩ := perform_variableType.mp hp
  obtain ⟨s₁, ⟨first, more, hv⟩, rfl⟩ := h
  exact ⟨⟨type, first, more⟩, ht.declares.trans hv⟩

theorem means_variableName {kind : VariableKind} {type : String}
    (hp : Returns (perform (.variableName kind type)) s gs s') (h : MeansAll gs s' s'') :
    Means (.variableName kind type) s s'' := by
  obtain ⟨name, s₁, ht, rfl, rfl⟩ := perform_variableName.mp hp
  obtain ⟨s₂, ⟨more, hm⟩, rfl⟩ := h
  exact ⟨name, more, ht.declares.trans (declares_declared.trans hm)⟩

theorem means_moreVariables {kind : VariableKind} {type : String}
    (hp : Returns (perform (.moreVariables kind type)) s gs s') (h : MeansAll gs s' s'') :
    Means (.moreVariables kind type) s s'' := by
  obtain ⟨ht, rfl⟩ | ⟨-, rfl, rfl⟩ := perform_moreVariables.mp hp
  · obtain ⟨s₁, ⟨first, more, hv⟩, rfl⟩ := h
    refine ⟨first :: more, ?_⟩
    simpa using ht.declares.trans hv
  · obtain ⟨s₁, hs, rfl⟩ := h
    exact ⟨[], Takes.declares hs⟩

theorem means_classVariables (hp : Returns (perform .classVariables) s gs s')
    (h : MeansAll gs s' s'') : Means .classVariables s s'' := by
  obtain ⟨ht, rfl⟩ | ⟨ht, rfl⟩ | ⟨-, rfl, rfl⟩ := perform_classVariables.mp hp
  · obtain ⟨s₁, ⟨l, hl⟩, s₂, ⟨vs, hv⟩, rfl⟩ := h
    refine ⟨.statics l :: vs, ?_⟩
    simpa [ClassVariables.terminals, ClassVariables.declarations]
      using ht.declares.trans (hl.trans hv)
  · obtain ⟨s₁, ⟨l, hl⟩, s₂, ⟨vs, hv⟩, rfl⟩ := h
    refine ⟨.fields l :: vs, ?_⟩
    simpa [ClassVariables.terminals, ClassVariables.declarations]
      using ht.declares.trans (hl.trans hv)
  · cases h
    exact ⟨[], .refl s'⟩

theorem means_localVariables (hp : Returns (perform .localVariables) s gs s')
    (h : MeansAll gs s' s'') : Means .localVariables s s'' := by
  obtain ⟨ht, rfl⟩ | ⟨-, rfl, rfl⟩ := perform_localVariables.mp hp
  · obtain ⟨s₁, ⟨l, hl⟩, s₂, ⟨ls, hls⟩, rfl⟩ := h
    refine ⟨l :: ls, ?_⟩
    simpa using ht.declares.trans (hl.trans hls)
  · cases h
    exact ⟨[], .refl s'⟩

theorem means_parameterType (hp : Returns (perform .parameterType) s gs s')
    (h : MeansAll gs s' s'') : Means .parameterType s s'' := by
  obtain ⟨type, ht, rfl⟩ := perform_parameterType.mp hp
  obtain ⟨s₁, ⟨name, ps, hn⟩, rfl⟩ := h
  exact ⟨⟨type, name⟩, ps, ht.declares.trans hn⟩

theorem means_parameterName {type : String}
    (hp : Returns (perform (.parameterName type)) s gs s') (h : MeansAll gs s' s'') :
    Means (.parameterName type) s s'' := by
  obtain ⟨name, s₁, ht, rfl, rfl⟩ := perform_parameterName.mp hp
  obtain ⟨s₂, ⟨ps, hm⟩, rfl⟩ := h
  exact ⟨name, ps, ht.declares.trans (declares_declared.trans hm)⟩

theorem means_moreParameters (hp : Returns (perform .moreParameters) s gs s')
    (h : MeansAll gs s' s'') : Means .moreParameters s s'' := by
  obtain ⟨ht, rfl⟩ | ⟨-, rfl, rfl⟩ := perform_moreParameters.mp hp
  · obtain ⟨s₁, ⟨q, ps, hq⟩, rfl⟩ := h
    refine ⟨q :: ps, ?_⟩
    simpa [Parameter.list] using ht.declares.trans hq
  · cases h
    exact ⟨[], .refl s'⟩

theorem means_parameters (hp : Returns (perform .parameters) s gs s')
    (h : MeansAll gs s' s'') : Means .parameters s s'' := by
  obtain ⟨rfl, ⟨-, rfl⟩ | ⟨-, rfl⟩⟩ := perform_parameters.mp hp
  · cases h
    exact ⟨[], .refl s'⟩
  · obtain ⟨s₁, ⟨q, ps, hq⟩, rfl⟩ := h
    exact ⟨q :: ps, hq⟩

/-! ## Subroutines -/

/-- Closing a subroutine does not look at the tokens. -/
theorem Closes.at {i : Lookahead} (h : s.Closes s') :
    { s with input := i }.Closes { s' with input := i } := by
  unfold Closes at h ⊢
  dsimp only at h ⊢
  split
  · next hr =>
    rw [if_pos hr] at h
    rw [h]
  · next hr =>
    rw [if_neg hr] at h
    split
    · next hv =>
      rw [if_pos hv] at h
      obtain ⟨ha, rfl⟩ := h
      exact ⟨ha, rfl⟩
    · next hv =>
      rw [if_neg hv] at h
      rw [h]
      rfl

theorem Closes.input_eq (h : s.Closes s') : s'.input = s.input := by
  unfold Closes at h
  dsimp only at h
  split at h
  · rw [h]
  split at h
  · obtain ⟨-, rfl⟩ := h
    rfl
  · rw [h]
    rfl

/-- The goals of a subroutine behind its name, up to the end of its statements. -/
def bodyGoals : List Goal :=
  [.symbol '(', .parameters, .symbol ')', .announceRoutine, .symbol '{', .localVariables,
    .prologue, .statements]

theorem routineGoals_eq : routineGoals = bodyGoals ++ [.epilogue, .symbol '}'] := rfl

/-- **The session behind the statements** of a subroutine, at the token that closes it. -/
def bodyDone (s : Session) (routine : Routine) (ds : List Declaration) (body : List Statement)
    (i : Lookahead) : Session :=
  (s.opened routine ds).after i
    (Statement.listCode (s.opened routine ds).context (s.opened routine ds).conditions
      (s.opened routine ds).loops body) (Statement.listConditions body) (Statement.listLoops body)

theorem terminals_tail_tail (r : RoutineDecl) :
    r.terminals.tail.tail = r.terminals.tail.tail.dropLast ++ [.symbol '}'] := by
  simp [RoutineDecl.terminals, RoutineDecl.bodyTerminals, Terminal.parentheses, Terminal.braces,
    List.dropLast_append_of_ne_nil, List.dropLast_cons_of_ne_nil]

theorem means_bodyGoals {kind : RoutineKind} {returnsVoid : Bool}
    (hp : Returns (perform (.routineName kind returnsVoid)) s gs s')
    (h : MeansAll bodyGoals s' s'') :
    ∃ (r : RoutineDecl) (i : Lookahead), r.kind = kind ∧
      s.input.Reads r.terminals.tail.tail.dropLast i ∧
      (s.opened ⟨kind, r.name, returnsVoid⟩ (r.declarations s.className)).Knows
        (Statement.listVariables r.body) ∧
      s'' = s.bodyDone ⟨kind, r.name, returnsVoid⟩ (r.declarations s.className) r.body i := by
  obtain ⟨name, s₀, ⟨i₀, h₀, -, rfl⟩, rfl, rfl⟩ := perform_routineName.mp hp
  obtain ⟨_, ⟨i₁, h₁, -, rfl⟩, _, ⟨ps, i₂, h₂, rfl⟩, _, ⟨i₃, h₃, -, rfl⟩, _, rfl, _,
    ⟨i₄, h₄, -, rfl⟩, _, ⟨ls, i₅, h₅, rfl⟩, t, ⟨i₆, rfl, -, ht⟩, _, ⟨body, i₇, h₇, hk, rfl⟩,
    rfl⟩ := h
  let r : RoutineDecl := ⟨kind, none, name, ps, ls, body⟩
  -- The header is noted before the locals are declared, which is no different from noting it after.
  have ht : t = (s.opened ⟨kind, name, returnsVoid⟩ (r.declarations s.className)).after i₆ [] 0 0 := by
    rw [ht]
    simp only [opened, RoutineDecl.declarations, declared, Scopes.declareAll, List.foldl_append]
    rfl
  subst ht
  refine ⟨r, i₇, rfl, ?_, hk, ?_⟩
  · have hr := Lookahead.reads_append.mpr ⟨_, h₀, Lookahead.reads_append.mpr ⟨_, h₁,
      Lookahead.reads_append.mpr ⟨_, h₂, Lookahead.reads_append.mpr ⟨_, h₃,
        Lookahead.reads_append.mpr ⟨_, h₄, Lookahead.reads_append.mpr ⟨_, h₅, h₇⟩⟩⟩⟩⟩⟩
    simpa [r, RoutineDecl.terminals, RoutineDecl.bodyTerminals, Terminal.parentheses,
      Terminal.braces, List.dropLast_append_of_ne_nil, List.dropLast_cons_of_ne_nil] using hr
  · rw [after_after, Nat.zero_add, Nat.zero_add]
    rfl

theorem means_routineName {kind : RoutineKind} {returnsVoid : Bool}
    (hp : Returns (perform (.routineName kind returnsVoid)) s gs s')
    (h : MeansAll gs s' s'') : Means (.routineName kind returnsVoid) s s'' := by
  obtain ⟨-, -, -, -, rfl⟩ := perform_routineName.mp hp
  rw [routineGoals_eq, Goal.meansAll_append] at h
  obtain ⟨t, hbody, u, hc, _, ⟨j, hj, -, rfl⟩, rfl⟩ := h
  obtain ⟨r, i, hkind, hr, hk, rfl⟩ := means_bodyGoals hp hbody
  rw [hc.input_eq] at hj
  refine ⟨r, hkind, j, ?_, hk, hc.at⟩
  rw [terminals_tail_tail]
  exact Lookahead.reads_append.mpr ⟨i, hr, hj⟩

theorem Takes.compiles {t : Terminal} {routine : Routine} {ds : List Declaration}
    {body : List Statement} (ht : s.Takes t s') (h : s'.Compiles ts routine ds body s'') :
    s.Compiles (t :: ts) routine ds body s'' := by
  obtain ⟨i, hi, -, rfl⟩ := ht
  obtain ⟨j, hj, hk, hc⟩ := h
  exact ⟨j, Lookahead.reads_cons_iff_exists.mpr ⟨i, hi, hj⟩, hk, hc⟩

theorem means_returnType {kind : RoutineKind}
    (hp : Returns (perform (.returnType kind)) s gs s') (h : MeansAll gs s' s'') :
    Means (.returnType kind) s s'' := by
  obtain ⟨type, ht, rfl⟩ := perform_returnType.mp hp
  obtain ⟨s₁, ⟨r, hr, hc⟩, rfl⟩ := h
  have hn : s'.className = s.className := congrArg Context.className ht.context_eq
  rw [hn] at hc
  exact ⟨{ r with returnType := type }, hr, ht.compiles hc⟩

theorem means_routines (hp : Returns (perform .routines) s gs s') (h : MeansAll gs s' s'') :
    Means .routines s s'' := by
  obtain ⟨kind, s₁, ht, rfl, rfl⟩ | ⟨-, rfl, rfl⟩ := perform_routines.mp hp
  · obtain ⟨s₂, ⟨r, rfl, hc⟩, s₃, ⟨rs, hrs⟩, rfl⟩ := h
    obtain ⟨i, hi, -, rfl⟩ := ht
    have ht : { s with scopes := s.scopes.enterRoutine }.Takes (.keyword r.kind.keyword)
        { s.after i [] 0 0 with scopes := s.scopes.enterRoutine } := ⟨i, hi, knows_nil, rfl⟩
    exact ⟨r :: rs, s₂, ht.compiles hc, hrs⟩
  · cases h
    exact ⟨[], rfl⟩

/-! ## Steps and runs -/

/-- **The step**: doing a goal, and then the goals that take its place, means the goal. -/
theorem means_of_perform {g : Goal} (hp : Returns (perform g) s gs s')
    (h : MeansAll gs s' s'') : g.Means s s'' := by
  cases g with
  | symbol c =>
    obtain ⟨ht, rfl⟩ := perform_symbol.mp hp
    cases h
    exact ht
  | keyword k =>
    obtain ⟨ht, rfl⟩ := perform_keyword.mp hp
    cases h
    exact ht
  | write commands =>
    obtain ⟨hw, rfl⟩ := perform_write.mp hp
    cases h
    exact hw.passes
  | operate operator unary =>
    obtain ⟨⟨c, hc, hw⟩, rfl⟩ := perform_operate.mp hp
    cases h
    exact ⟨c, hc, hw.passes⟩
  | className =>
    obtain ⟨name, s₁, ht, hs, rfl⟩ := perform_className.mp hp
    cases h
    exact ⟨name, s₁, ht, hs⟩
  | announceClass =>
    obtain ⟨hs, rfl⟩ := perform_announceClass.mp hp
    cases h
    exact hs
  | classVariables => exact means_classVariables hp h
  | routines => exact means_routines hp h
  | sourceEnd =>
    obtain ⟨he, hs, rfl⟩ := perform_sourceEnd.mp hp
    cases h
    exact ⟨he, hs⟩
  | variableType kind => exact means_variableType hp h
  | variableName kind type => exact means_variableName hp h
  | moreVariables kind type => exact means_moreVariables hp h
  | returnType kind => exact means_returnType hp h
  | routineName kind returnsVoid => exact means_routineName hp h
  | parameters => exact means_parameters hp h
  | parameterType => exact means_parameterType hp h
  | parameterName type => exact means_parameterName hp h
  | moreParameters => exact means_moreParameters hp h
  | announceRoutine =>
    obtain ⟨hs, rfl⟩ := perform_announceRoutine.mp hp
    cases h
    exact hs
  | localVariables => exact means_localVariables hp h
  | prologue =>
    obtain ⟨hw, rfl⟩ := perform_prologue.mp hp
    cases h
    exact hw.passes
  | epilogue =>
    obtain ⟨hc, rfl⟩ := perform_epilogue.mp hp
    cases h
    exact hc
  | statements => exact means_statements hp h
  | assigned => exact means_assigned hp h
  | assignment v => exact means_assignment hp h
  | conditional => exact means_conditional hp h
  | loop => exact means_loop hp h
  | otherwise => exact means_otherwise hp h
  | performed => exact means_performed hp h
  | returned => exact means_returned hp h
  | expression =>
    obtain ⟨rfl, rfl⟩ := perform_expression.mp hp
    exact means_expression h
  | moreTerms => exact means_moreTerms hp h
  | term => exact means_term hp h
  | reference name line => exact means_reference hp h
  | call name => exact means_call hp h
  | callee name => exact means_callee hp h
  | receiver name routine => exact means_receiver hp h
  | arguments routine count => exact means_arguments hp h
  | moreArguments routine count => exact means_moreArguments hp h

/-- **The run**: an agenda that succeeds means all its goals. -/
theorem means_of_run {agenda : List Goal} (h : run agenda s = .ok () s') :
    MeansAll agenda s s' := by
  fun_induction run agenda s with
  | case1 s =>
    cases h
    rfl
  | case2 s g rest goals s₁ hp ih =>
    obtain ⟨t, hg, hrest⟩ := Goal.meansAll_append.mp (ih h)
    exact ⟨t, means_of_perform hp hg, hrest⟩
  | case3 => cases h

end Session

end JackStack
