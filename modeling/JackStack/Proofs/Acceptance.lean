import JackStack.Proofs.Recognition

/-!
# Proofs/Acceptance — the text of a tree is accepted

If the tokens spell the terminals of a tree whose variables are declared, the goal for that tree is
done without failing, and it leaves the session behind the tree with the tree's commands written.
A goal decides by the next token what to do, so a statement about a tree says what may stand behind
it.

* `Session.does_term`, `Session.does_expression`, `Session.does_statements` — trees of each sort.
-/

namespace JackStack

open Vm (Command)

namespace Session

open JackStack.Action (Returns)

variable {s s' s'' : Session} {i j : Lookahead} {ts : List Terminal} {names : List String}
  {code : List Command} {m n : Nat}

@[simp] theorem input_after : (s.after i code m n).input = i := rfl

@[simp] theorem routine_after : (s.after i code m n).routine = s.routine := rfl

@[simp] theorem conditions_after : (s.after i code m n).conditions = s.conditions + m := rfl

@[simp] theorem loops_after : (s.after i code m n).loops = s.loops + n := rfl

@[simp] theorem knows_after : (s.after i code m n).Knows names ↔ s.Knows names := Iff.rfl

@[simp] theorem unlimited_after : (s.after i code m n).Unlimited ↔ s.Unlimited := by
  simp [Unlimited, after, Writer.sink_wrote, Sink.wrote]

theorem takes_of_reads {t : Terminal} (h : s.input.Reads [t] i) : s.Takes t (s.after i [] 0 0) :=
  ⟨i, h, knows_nil, rfl⟩

/-! ## Doing goals -/

/-- **The goals are done** from the one session to the other, whatever the agenda holds behind
them. -/
def Does (gs : List Goal) (s s' : Session) : Prop :=
  ∀ rest, run (gs ++ rest) s = run rest s'

theorem Does.nil (s : Session) : Does [] s s := fun _ => rfl

theorem Does.append {gs hs : List Goal} (h : Does gs s s') (h' : Does hs s' s'') :
    Does (gs ++ hs) s s'' := by
  intro rest
  rw [List.append_assoc, h, h']

theorem Does.cons {g : Goal} {gs : List Goal} (h : Does [g] s s') (h' : Does gs s' s'') :
    Does (g :: gs) s s'' :=
  h.append h'

/-- **A goal is done** by doing the goals that take its place. -/
theorem Does.of_perform {g : Goal} {gs : List Goal} (h : Returns (perform g) s gs s')
    (h' : Does gs s' s'') : Does [g] s s'' := by
  intro rest
  rw [List.singleton_append, run]
  split
  · next goals t hp =>
    cases h.symm.trans hp
    exact h' rest
  · next e t hp => cases h.symm.trans hp

theorem does_symbol {c : Char} (h : s.input.Reads [.symbol c] i) :
    Does [.symbol c] s (s.after i [] 0 0) :=
  .of_perform (perform_symbol.mpr ⟨takes_of_reads h, rfl⟩) (.nil _)

theorem does_write (hs : s.Unlimited) (code : List Command) :
    Does [.write code] s (s.after s.input code 0 0) :=
  .of_perform (perform_write.mpr ⟨hs.writes code, rfl⟩) (.nil _)

theorem does_operate (hs : s.Unlimited) {operator : Char} {unary : Bool} {c : Command}
    (h : Command.ofOperator? operator unary = some c) :
    Does [.operate operator unary] s (s.after s.input [c] 0 0) :=
  .of_perform (perform_operate.mpr ⟨⟨c, h, hs.writes [c]⟩, rfl⟩) (.nil _)

end Session

/-! ## What stands behind a tree -/

namespace Lookahead

open Terminal (Stops Pauses)

variable {i j : Lookahead} {ts : List Terminal}

theorem Reads.stops {c : Char} (h : i.Reads (.symbol c :: ts) j)
    (hc : c ∈ [')', ']', ';', ',']) : Stops i.terminal? :=
  ⟨c, hc, h.terminal?⟩

theorem Reads.pauses_of_moreTerms {more : List (BinaryOp × Term)}
    (h : i.Reads (Expression.moreTerms more) j) (hj : Stops j.terminal?) : Pauses i.terminal? := by
  match more with
  | [] =>
    cases h
    exact .inl hj
  | (op, t) :: more =>
    rw [Expression.moreTerms] at h
    exact .inr ⟨op, h.terminal?⟩

theorem Reads.stops_of_moreArguments {es : List Expression}
    (h : i.Reads (Call.moreArguments es ++ [.symbol ')']) j) : Stops i.terminal? := by
  match es with
  | [] => exact h.stops (by decide)
  | e :: es =>
    rw [Call.moreArguments] at h
    exact h.stops (by decide)

end Lookahead

/-! ## How a tree starts -/

/-- An expression does not start with a closing bracket or a semicolon. -/
theorem Lookahead.Reads.ne_of_expression {i j : Lookahead} {e : Expression} {ts : List Terminal}
    (h : i.Reads (e.terminals ++ ts) j) {c : Char} (hc : c ∈ [')', ';']) :
    i.terminal? ≠ some (.symbol c) := by
  obtain ⟨first, rest, he, hf⟩ := e.terminals_eq_cons
  rw [he] at h
  rw [h.terminal?]
  exact fun hs => hf c hc (Option.some.inj hs)

/-- No second branch and no local comes next where statements in braces go on. -/
theorem Lookahead.Reads.ne_of_statements {i j : Lookahead} {body : List Statement}
    (h : i.Reads (Statement.list body) j) (hj : j.terminal? = some (.symbol '}')) {k : Keyword}
    (hk : k ∈ [.else, .var]) : i.terminal? ≠ some (.keyword k) := by
  match body with
  | [] =>
    cases h
    rw [hj]
    exact fun he => nomatch he
  | st :: body =>
    obtain ⟨k', rest, hst, hk'⟩ := st.terminals_eq_cons
    rw [Statement.list, hst] at h
    rw [h.terminal?]
    rintro ⟨⟩
    exact hk' hk

/-! ## Expressions -/

namespace Session

open JackStack.Action (Returns)
open Lookahead (reads_append reads_cons_iff_exists)

variable {s s' s'' : Session} {i j : Lookahead}

/-- The end of a call behind its last argument. -/
theorem does_callEnd {routine : String} {count : Nat} (hs : s.Unlimited)
    (hr : s.input.Reads [.symbol ')'] i) :
    Does [.symbol ')', .write [.call routine count]] s (s.after i [.call routine count] 0 0) := by
  have hw := does_write (s := s.after i [] 0 0) (by simpa using hs) [.call routine count]
  simpa [after_after] using (does_symbol hr).cons hw

mutual

theorem does_term (t : Term) {s : Session} {i : Lookahead} (hs : s.Unlimited)
    (hr : s.input.Reads t.terminals i) (hk : s.Knows t.variables) (hi : Terminal.Pauses i.terminal?) :
    Does [.term] s (s.after i (t.code s.context) 0 0) := by
  match t with
  | .integer digits =>
    exact .of_perform ((perform_term_integer hr.terminal?).mpr
      ⟨_, takes_of_reads hr, Unlimited.writes (by simpa using hs) _, rfl⟩) (.nil _)
  | .text body =>
    exact .of_perform ((perform_term_text hr.terminal?).mpr
      ⟨_, takes_of_reads hr, Unlimited.writes (by simpa using hs) _, rfl⟩) (.nil _)
  | .constant c =>
    have ht : (s.wrote c.code).Takes (.keyword c.keyword) (s.after i c.code 0 0) := by
      have ht := takes_of_reads (s := s.wrote c.code) hr
      rwa [wrote, after_after, List.append_nil] at ht
    exact .of_perform ((perform_term_constant hr.terminal?).mpr
      ⟨_, hs.writes _, ht, rfl⟩) (.nil _)
  | .variable name =>
    obtain ⟨line, hp⟩ := perform_term_identifier hr.terminal?
    obtain ⟨v, hv⟩ := Option.isSome_iff_exists.mp (knows_cons.mp hk).1
    refine .of_perform (hp.mpr ⟨takes_of_reads hr, rfl⟩) (.of_perform (perform_reference.mpr
      (.inr (.inr ⟨fun c hc => hi.ne_symbol hc, v, hv, Unlimited.writes (by simpa using hs) _,
        rfl⟩))) ?_)
    simpa [wrote, after_after, Term.code, Context.pushName, hv] using Does.nil _
  | .element array index =>
    rw [Term.terminals] at hr
    obtain ⟨line, hp⟩ := perform_term_identifier hr.terminal?
    obtain ⟨hn, hk⟩ := knows_cons.mp hk
    obtain ⟨v, hv⟩ := Option.isSome_iff_exists.mp hn
    obtain ⟨i₁, h₁, hr⟩ := reads_cons_iff_exists.mp hr
    obtain ⟨i₂, h₂, hr⟩ := reads_cons_iff_exists.mp hr
    obtain ⟨i₃, h₃, h₄⟩ := reads_append.mp hr
    refine .of_perform (hp.mpr ⟨takes_of_reads h₁, rfl⟩) (.of_perform (perform_reference.mpr
      (.inr (.inl ⟨v, _, hv, takes_of_reads h₂, Unlimited.writes (by simpa using hs) _,
        rfl⟩))) ?_)
    have he := does_expression index (s := s.after i₂ [v.push] 0 0) (by simpa using hs) h₃ hk
      (h₄.stops (by decide))
    have hb := does_symbol (s := s.after i₃ (v.push :: index.code s.context) 0 0) h₄
    have ho := does_operate (s := s.after i (v.push :: index.code s.context) 0 0)
      (by simpa using hs) (ofOperator?_binary .add)
    have hl := does_write (s := s.after i (v.push :: index.code s.context ++ [.arith .add]) 0 0)
      (by simpa using hs) Code.loadElement
    simp only [wrote, after_after, input_after, context_after, List.nil_append, List.append_nil,
      Nat.add_zero, List.singleton_append] at he hb ho hl ⊢
    simpa [Term.code, Context.pushName, hv, Code.loadElement, BinaryOp.symbol]
      using he.cons (hb.cons (ho.cons hl))
  | .call c =>
    obtain ⟨name, ts, hc⟩ := c.terminals_eq_cons
    rw [Term.terminals, hc] at hr
    obtain ⟨line, hp⟩ := perform_term_identifier hr.terminal?
    obtain ⟨i₁, h₁, h₂⟩ := reads_cons_iff_exists.mp hr
    have hb : i₁.terminal? = some (.symbol '(') ∨ i₁.terminal? = some (.symbol '.') := by
      cases c with
      | own routine es => cases hc; exact .inl h₂.terminal?
      | on receiver routine es => cases hc; exact .inr h₂.terminal?
    refine .of_perform (hp.mpr ⟨takes_of_reads h₁, rfl⟩)
      (.of_perform (perform_reference.mpr (.inl ⟨hb, rfl, rfl⟩)) ?_)
    simpa [after_after, Term.code] using
      does_call c (s := s.after i₁ [] 0 0) (by simpa using hs) hc h₂ hk
  | .group inner =>
    rw [Term.terminals] at hr
    obtain ⟨i₁, h₁, hr⟩ := reads_cons_iff_exists.mp hr
    obtain ⟨i₂, h₂, h₃⟩ := reads_append.mp hr
    have he := does_expression inner (s := s.after i₁ [] 0 0) (by simpa using hs) h₂ hk
      (h₃.stops (by decide))
    have hc := does_symbol (s := (s.after i₁ [] 0 0).after i₂ (inner.code s.context) 0 0) h₃
    refine .of_perform ((perform_term_group h₁.terminal?).mpr ⟨takes_of_reads h₁, rfl⟩) ?_
    simpa [after_after, Term.code] using he.cons hc
  | .unary op operand =>
    rw [Term.terminals] at hr
    obtain ⟨i₁, h₁, h₂⟩ := reads_cons_iff_exists.mp hr
    have hw := does_term operand (s := s.after i₁ [] 0 0) (by simpa using hs) h₂ hk hi
    have ho := does_operate (s := s.after i (operand.code s.context) 0 0) (by simpa using hs)
      (ofOperator?_unary op)
    refine .of_perform ((perform_term_unary h₁.terminal?).mpr ⟨takes_of_reads h₁, rfl⟩) ?_
    simpa [after_after, Term.code] using hw.cons ho

theorem does_expression (e : Expression) {s : Session} {i : Lookahead} (hs : s.Unlimited)
    (hr : s.input.Reads e.terminals i) (hk : s.Knows e.variables) (hi : Terminal.Stops i.terminal?) :
    Does [.expression] s (s.after i (e.code s.context) 0 0) := by
  match e with
  | .chain first more =>
    rw [Expression.terminals] at hr
    rw [Expression.variables, knows_append] at hk
    obtain ⟨i₁, h₁, h₂⟩ := reads_append.mp hr
    have ht := does_term first hs h₁ hk.1 (h₂.pauses_of_moreTerms hi)
    have hm := does_moreTerms more (s := s.after i₁ (first.code s.context) 0 0)
      (by simpa using hs) h₂ hk.2 hi
    refine .of_perform (perform_expression.mpr ⟨rfl, rfl⟩) ?_
    simpa [after_after, Expression.code] using ht.cons hm

theorem does_moreTerms (more : List (BinaryOp × Term)) {s : Session} {i : Lookahead}
    (hs : s.Unlimited) (hr : s.input.Reads (Expression.moreTerms more) i)
    (hk : s.Knows (Expression.moreVariables more)) (hi : Terminal.Stops i.terminal?) :
    Does [.moreTerms] s (s.after i (Expression.moreCode s.context more) 0 0) := by
  match more with
  | [] =>
    cases hr
    exact .of_perform (perform_moreTerms.mpr (.inr ⟨hi.ne_operator, rfl, rfl⟩)) (.nil _)
  | (op, t) :: more =>
    rw [Expression.moreTerms] at hr
    rw [Expression.moreVariables, knows_append] at hk
    obtain ⟨i₁, h₁, hr⟩ := reads_cons_iff_exists.mp hr
    obtain ⟨i₂, h₂, h₃⟩ := reads_append.mp hr
    have ht := does_term t (s := s.after i₁ [] 0 0) (by simpa using hs) h₂ hk.1
      (h₃.pauses_of_moreTerms hi)
    have ho := does_operate (s := s.after i₂ (t.code s.context) 0 0) (by simpa using hs)
      (ofOperator?_binary op)
    have hm := does_moreTerms more (s := s.after i₂ (t.code s.context ++ [op.command]) 0 0)
      (by simpa using hs) h₃ hk.2 hi
    refine .of_perform (perform_moreTerms.mpr (.inl ⟨op, takes_of_reads h₁, rfl⟩)) ?_
    simp only [after_after, input_after, context_after, List.nil_append, Nat.add_zero] at ht ho hm
    simpa [Expression.moreCode] using ht.cons (ho.cons hm)

theorem does_call (c : Call) {s : Session} {i : Lookahead} {name : String} {ts : List Terminal}
    (hs : s.Unlimited) (hc : c.terminals = .identifier name :: ts) (hr : s.input.Reads ts i)
    (hk : s.Knows c.variables) :
    Does [.call name] s (s.after i (c.code s.context) 0 0) := by
  match c with
  | .own routine es =>
    cases hc
    obtain ⟨i₁, h₁, hr⟩ := reads_cons_iff_exists.mp hr
    have ha := does_arguments es (qualifiedName s.className name) 1
      (s := s.after i₁ [.push .pointer 0] 0 0) (by simpa using hs) hr hk
    refine .of_perform (perform_call.mpr (.inl ⟨_, takes_of_reads h₁,
      Unlimited.writes (by simpa using hs) _, rfl⟩)) ?_
    simpa [wrote, after_after, Call.code, Nat.add_comm] using ha
  | .on receiver routine es =>
    cases hc
    obtain ⟨i₁, h₁, hr⟩ := reads_cons_iff_exists.mp hr
    obtain ⟨i₂, h₂, hr⟩ := reads_cons_iff_exists.mp hr
    obtain ⟨i₃, h₃, hr⟩ := reads_cons_iff_exists.mp hr
    have hn : s.input.terminal? ≠ some (.symbol '(') := by
      rw [h₁.terminal?]
      decide
    have hd := does_symbol h₁
    have ho := does_symbol (s := s.after i₂ [] 0 0) h₃
    have hp : Does [.receiver name routine] (s.after i₃ [] 0 0)
        (s.after i ((Call.on name routine es).code s.context) 0 0) := by
      cases hv : s.context.resolve name with
      | some v =>
        have ha := does_arguments es (qualifiedName v.type routine) 1
          (s := s.after i₃ [v.push] 0 0) (by simpa using hs) hr hk
        refine .of_perform (perform_receiver.mpr (.inl ⟨v, hv,
          Unlimited.writes (by simpa using hs) _, rfl⟩)) ?_
        simpa [wrote, after_after, Call.code, Context.pushName, Context.callOn, hv, Nat.add_comm]
          using ha
      | none =>
        have ha := does_arguments es (qualifiedName name routine) 0
          (s := s.after i₃ [] 0 0) (by simpa using hs) hr hk
        refine .of_perform (perform_receiver.mpr (.inr ⟨hv, rfl, rfl⟩)) ?_
        simpa [after_after, Call.code, Context.pushName, Context.callOn, hv] using ha
    refine .of_perform (perform_call.mpr (.inr ⟨hn, rfl, rfl⟩)) (hd.cons
      (.of_perform (perform_callee.mpr ⟨routine, takes_of_reads h₂, rfl⟩) ?_))
    simp only [after_after, List.nil_append, Nat.add_zero] at ho ⊢
    exact ho.cons hp

theorem does_arguments (es : List Expression) (routine : String) (count : Nat) {s : Session}
    {i : Lookahead} (hs : s.Unlimited) (hr : s.input.Reads (Call.list es ++ [.symbol ')']) i)
    (hk : s.Knows (Call.listVariables es)) :
    Does [.arguments routine count] s (s.after i
      (Call.listCode s.context es ++ [.call routine (count + es.length)]) 0 0) := by
  match es with
  | [] =>
    exact .of_perform (perform_arguments.mpr ⟨rfl, .inl ⟨hr.terminal?, rfl⟩⟩)
      (does_callEnd hs hr)
  | e :: es =>
    rw [Call.list, List.append_assoc] at hr
    rw [Call.listVariables, knows_append] at hk
    have hn := hr.ne_of_expression (c := ')') (by decide)
    obtain ⟨i₁, h₁, h₂⟩ := reads_append.mp hr
    have he := does_expression e hs h₁ hk.1 h₂.stops_of_moreArguments
    have hm := does_moreArguments es routine (count + 1) (s := s.after i₁ (e.code s.context) 0 0)
      (by simpa using hs) h₂ hk.2
    refine .of_perform (perform_arguments.mpr ⟨rfl, .inr ⟨hn, rfl⟩⟩) ?_
    simpa [after_after, Call.listCode, Nat.add_comm, Nat.add_left_comm] using he.cons hm

theorem does_moreArguments (es : List Expression) (routine : String) (count : Nat) {s : Session}
    {i : Lookahead} (hs : s.Unlimited)
    (hr : s.input.Reads (Call.moreArguments es ++ [.symbol ')']) i)
    (hk : s.Knows (Call.listVariables es)) :
    Does [.moreArguments routine count] s (s.after i
      (Call.listCode s.context es ++ [.call routine (count + es.length)]) 0 0) := by
  match es with
  | [] =>
    have hn : s.input.terminal? ≠ some (.symbol ',') := by
      rw [hr.terminal?]
      decide
    exact .of_perform (perform_moreArguments.mpr (.inr ⟨hn, rfl, rfl⟩)) (does_callEnd hs hr)
  | e :: es =>
    rw [Call.moreArguments, List.cons_append, List.append_assoc] at hr
    rw [Call.listVariables, knows_append] at hk
    obtain ⟨i₁, h₁, hr⟩ := reads_cons_iff_exists.mp hr
    obtain ⟨i₂, h₂, h₃⟩ := reads_append.mp hr
    have he := does_expression e (s := s.after i₁ [] 0 0) (by simpa using hs) h₂ hk.1
      h₃.stops_of_moreArguments
    have hm := does_moreArguments es routine (count + 1) (s := s.after i₂ (e.code s.context) 0 0)
      (by simpa using hs) h₃ hk.2
    refine .of_perform (perform_moreArguments.mpr (.inl ⟨takes_of_reads h₁, rfl⟩)) ?_
    simp only [after_after, context_after, List.nil_append, Nat.add_zero] at he hm
    simpa [Call.listCode, Nat.add_comm, Nat.add_left_comm] using he.cons hm

end

/-! ## Statements -/

/-- A condition in brackets, with its value negated. -/
theorem does_condition {e : Expression} (hs : s.Unlimited)
    (hr : s.input.Reads (Terminal.parentheses e.terminals) i) (hk : s.Knows e.variables) :
    Does Goal.condition s (s.after i (e.code s.context ++ [.arith .not]) 0 0) := by
  obtain ⟨i₁, h₁, hr⟩ := reads_cons_iff_exists.mp hr
  obtain ⟨i₂, h₂, h₃⟩ := reads_append.mp hr
  have he := does_expression e (s := s.after i₁ [] 0 0) (by simpa using hs) h₂ hk
    (h₃.stops (by decide))
  have hc := does_symbol (s := s.after i₂ (e.code s.context) 0 0) h₃
  have ho := does_operate (s := s.after i (e.code s.context) 0 0) (by simpa using hs)
    (ofOperator?_unary .complement)
  simp only [after_after, input_after, context_after, List.nil_append, List.append_nil,
    Nat.add_zero] at he hc ho
  exact (does_symbol h₁).cons (he.cons (hc.cons ho))

/-- Nothing that goes on with statements comes next. -/
theorem perform_statements_of_brace (h : s.input.terminal? = some (.symbol '}')) :
    Returns (perform .statements) s [] s :=
  perform_statements.mpr (.inr ⟨fun _ hk => (nomatch h.symm.trans hk), rfl, rfl⟩)

/-- A statement is done in front of others. -/
theorem Does.statements {k : Keyword} {gs : List Goal} {u : Session}
    (hk : Goal.statement? k = some gs) (hr : s.input.Reads [.keyword k] i)
    (h : Does gs (s.after i [] 0 0) s') (hu : Does [.statements] s' u) : Does [.statements] s u :=
  .of_perform (perform_statements.mpr (.inl ⟨k, gs, hk, takes_of_reads hr, rfl⟩)) (h.append hu)

theorem does_assign {name : String} {value : Expression} (hs : s.Unlimited)
    (hr : s.input.Reads (.identifier name :: .symbol '=' :: (value.terminals ++ [.symbol ';'])) i)
    (hk : s.Knows (name :: value.variables)) :
    Does [.assigned] s (s.after i (value.code s.context ++ s.context.popName name) 0 0) := by
  obtain ⟨hn, hk⟩ := knows_cons.mp hk
  obtain ⟨v, hv⟩ := Option.isSome_iff_exists.mp hn
  obtain ⟨i₁, h₁, hr⟩ := reads_cons_iff_exists.mp hr
  obtain ⟨i₂, h₂, hr⟩ := reads_cons_iff_exists.mp hr
  obtain ⟨i₃, h₃, h₄⟩ := reads_append.mp hr
  have hb : i₁.terminal? ≠ some (.symbol '[') := by
    rw [h₂.terminal?]
    decide
  have hq := does_symbol (s := s.after i₁ [] 0 0) h₂
  have he := does_expression value (s := s.after i₂ [] 0 0) (by simpa using hs) h₃ hk
    (h₄.stops (by decide))
  have hc := does_symbol (s := s.after i₃ (value.code s.context) 0 0) h₄
  have hw := does_write (s := s.after i (value.code s.context) 0 0) (by simpa using hs) [v.pop]
  refine .of_perform (perform_assigned.mpr ⟨name, v, takes_of_reads h₁, hv, rfl⟩)
    (.of_perform (perform_assignment.mpr (.inr ⟨hb, rfl, rfl⟩)) ?_)
  simp only [after_after, input_after, context_after, List.nil_append, List.append_nil,
    Nat.add_zero] at hq he hc hw
  simpa [Context.popName, hv] using hq.cons (he.cons (hc.cons hw))

theorem does_assignElement {array : String} {index value : Expression} (hs : s.Unlimited)
    (hr : s.input.Reads (.identifier array :: (Terminal.brackets index.terminals
      ++ .symbol '=' :: (value.terminals ++ [.symbol ';']))) i)
    (hk : s.Knows (array :: (index.variables ++ value.variables))) :
    Does [.assigned] s (s.after i (index.code s.context ++ s.context.pushName array
      ++ .arith .add :: (value.code s.context ++ Code.storeElement)) 0 0) := by
  obtain ⟨hn, hk⟩ := knows_cons.mp hk
  obtain ⟨v, hv⟩ := Option.isSome_iff_exists.mp hn
  rw [knows_append] at hk
  obtain ⟨i₁, h₁, hr⟩ := reads_cons_iff_exists.mp hr
  obtain ⟨i₄, hr, hr'⟩ := reads_append.mp hr
  obtain ⟨i₂, h₂, hr⟩ := reads_cons_iff_exists.mp hr
  obtain ⟨i₃, h₃, h₄⟩ := reads_append.mp hr
  obtain ⟨i₅, h₅, hr⟩ := reads_cons_iff_exists.mp hr'
  obtain ⟨i₆, h₆, h₇⟩ := reads_append.mp hr
  let address := index.code s.context ++ [v.push, .arith .add]
  have ha := does_expression index (s := s.after i₂ [] 0 0) (by simpa using hs) h₃ hk.1
    (h₄.stops (by decide))
  have hp := does_write (s := s.after i₃ (index.code s.context) 0 0) (by simpa using hs) [v.push]
  have ho := does_operate (s := s.after i₃ (index.code s.context ++ [v.push]) 0 0)
    (by simpa using hs) (ofOperator?_binary .add)
  have hb := does_symbol (s := s.after i₃ address 0 0) h₄
  have hq := does_symbol (s := s.after i₄ address 0 0) h₅
  have he := does_expression value (s := s.after i₅ address 0 0) (by simpa using hs) h₆ hk.2
    (h₇.stops (by decide))
  have hc := does_symbol (s := s.after i₆ (address ++ value.code s.context) 0 0) h₇
  have hw := does_write (s := s.after i (address ++ value.code s.context) 0 0)
    (by simpa using hs) Code.storeElement
  refine .of_perform (perform_assigned.mpr ⟨array, v, takes_of_reads h₁, hv, rfl⟩)
    (.of_perform (perform_assignment.mpr (.inl ⟨takes_of_reads h₂, rfl⟩)) ?_)
  simp only [address, after_after, input_after, context_after, List.nil_append, List.append_nil,
    Nat.add_zero, List.append_assoc, List.cons_append, BinaryOp.symbol, BinaryOp.command]
    at ha hp ho hb hq he hc hw ⊢
  simpa [Context.pushName, hv] using
    ha.cons (hp.cons (ho.cons (hb.cons (hq.cons (he.cons (hc.cons hw))))))

theorem does_performed {c : Call} (hs : s.Unlimited) (hr : s.input.Reads c.terminals i)
    (hk : s.Knows c.variables) : Does [.performed] s (s.after i (c.code s.context) 0 0) := by
  obtain ⟨name, ts, hc⟩ := c.terminals_eq_cons
  rw [hc] at hr
  obtain ⟨i₁, h₁, h₂⟩ := reads_cons_iff_exists.mp hr
  refine .of_perform (perform_performed.mpr ⟨name, takes_of_reads h₁, rfl⟩) ?_
  simpa [after_after] using does_call c (s := s.after i₁ [] 0 0) (by simpa using hs) hc h₂ hk

theorem does_returned_none (hs : s.Unlimited) (hr : s.input.Reads [.symbol ';'] i) :
    Does [.returned] s (s.after i s.context.returnCode 0 0) := by
  have hw := does_write (s := s.after i [] 0 0) (by simpa using hs) s.context.returnCode
  refine .of_perform (perform_returned.mpr ⟨rfl, .inl ⟨hr.terminal?, rfl⟩⟩) ?_
  simpa [after_after, finish_eq_returnCode] using (does_symbol hr).cons hw

theorem does_returned_some {value : Expression} (hs : s.Unlimited)
    (hr : s.input.Reads (value.terminals ++ [.symbol ';']) i) (hk : s.Knows value.variables) :
    Does [.returned] s (s.after i (value.code s.context ++ s.context.returnCode) 0 0) := by
  have hn := hr.ne_of_expression (c := ';') (by decide)
  obtain ⟨i₁, h₁, h₂⟩ := reads_append.mp hr
  have he := does_expression value hs h₁ hk (h₂.stops (by decide))
  have hc := does_symbol (s := s.after i₁ (value.code s.context) 0 0) h₂
  have hw := does_write (s := s.after i (value.code s.context) 0 0) (by simpa using hs)
    s.context.returnCode
  refine .of_perform (perform_returned.mpr ⟨rfl, .inr ⟨hn, rfl⟩⟩) ?_
  simp only [after_after, List.append_nil, Nat.add_zero] at hc hw
  simpa [finish_eq_returnCode] using he.cons (hc.cons hw)

/-- Statements in braces. -/
theorem Does.block (h₁ : s.input.Reads [.symbol '{'] i)
    (h : Does [.statements] (s.after i [] 0 0) s') (h₂ : s'.input.Reads [.symbol '}'] j) :
    Does Goal.block s (s'.after j [] 0 0) :=
  (does_symbol h₁).cons (h.cons (does_symbol h₂))

mutual

/-- **A statement is compiled** in front of others. -/
theorem does_statement (st : Statement) {s u : Session} {i : Lookahead} (hs : s.Unlimited)
    (hr : s.input.Reads st.terminals i) (hk : s.Knows st.variables)
    (hi : i.terminal? ≠ some (.keyword .else))
    (hu : Does [.statements] (s.after i (st.code s.context s.conditions s.loops) st.conditions
      st.loops) u) : Does [.statements] s u := by
  match st with
  | .assign name value =>
    obtain ⟨i₁, h₁, hr⟩ := reads_cons_iff_exists.mp hr
    have ha := does_assign (s := s.after i₁ [] 0 0) (by simpa using hs) hr hk
    rw [after_after] at ha
    exact .statements rfl h₁ ha hu
  | .assignElement array index value =>
    obtain ⟨i₁, h₁, hr⟩ := reads_cons_iff_exists.mp hr
    have ha := does_assignElement (s := s.after i₁ [] 0 0) (by simpa using hs) hr hk
    rw [after_after] at ha
    exact .statements rfl h₁ ha hu
  | .branch condition body otherwise =>
    rw [Statement.variables, knows_append, knows_append] at hk
    obtain ⟨hkc, hkb, hko⟩ := hk
    obtain ⟨i₁, h₁, hr⟩ := reads_cons_iff_exists.mp hr
    obtain ⟨i₂, h₂, hr⟩ := reads_append.mp hr
    obtain ⟨i₅, hb, h₆⟩ := reads_append.mp hr
    obtain ⟨i₃, h₃, hb⟩ := reads_cons_iff_exists.mp hb
    obtain ⟨i₄, h₄, h₅⟩ := reads_append.mp hb
    let test := condition.code s.context ++ [.arith .not]
    let guard := test ++ [.ifGoto (ifLabel s.conditions)]
    let first := guard ++ Statement.listCode s.context (s.conditions + 2) s.loops body
    let second := first ++ [.goto (ifLabel (s.conditions + 1)), .label (ifLabel s.conditions)]
    let m := 2 + Statement.listConditions body
    let n := Statement.listLoops body
    have hc := does_condition (s := s.after i₁ [] 2 0) (by simpa using hs) h₂ hkc
    have hj := does_write (s := s.after i₂ test 2 0) (by simpa using hs)
      [.ifGoto (ifLabel s.conditions)]
    have hb := Does.block (s := s.after i₂ guard 2 0) h₃ (by
      rw [after_after]
      exact does_statements body (by simpa using hs) h₄ hkb h₅.terminal?) h₅
    have hg := does_write (s := s.after i₅ first m n) (by simpa using hs)
      [.goto (ifLabel (s.conditions + 1)), .label (ifLabel s.conditions)]
    have ho := does_otherwise otherwise (s := s.after i₅ second m n) (by simpa using hs) h₆ hko hi
    have hl := does_write (s := s.after i (second ++ Statement.otherwiseCode s.context
      (s.conditions + m) (s.loops + n) otherwise) (m + Statement.otherwiseConditions otherwise)
      (n + Statement.otherwiseLoops otherwise)) (by simpa using hs)
      [.label (ifLabel (s.conditions + 1))]
    refine .statements rfl h₁ (.of_perform (perform_conditional.mpr ⟨rfl, rfl⟩) ?_) hu
    simp only [test, guard, first, second, m, n, after_after, input_after, context_after,
      conditions_after, loops_after, List.nil_append, List.append_nil, Nat.add_zero,
      Nat.zero_add] at hc hj hb hg ho hl ⊢
    simpa [Statement.code, Statement.conditions, Statement.loops, Nat.add_assoc, after_after]
      using hc.append (hj.cons (hb.append (hg.cons (ho.cons hl))))
  | .loop condition body =>
    rw [Statement.variables, knows_append] at hk
    obtain ⟨hkc, hkb⟩ := hk
    obtain ⟨i₁, h₁, hr⟩ := reads_cons_iff_exists.mp hr
    obtain ⟨i₂, h₂, hb⟩ := reads_append.mp hr
    obtain ⟨i₃, h₃, hb⟩ := reads_cons_iff_exists.mp hb
    obtain ⟨i₄, h₄, h₅⟩ := reads_append.mp hb
    let top := [Command.label (whileLabel s.loops)]
    let test := top ++ (condition.code s.context ++ [.arith .not])
    let guard := test ++ [.ifGoto (whileLabel (s.loops + 1))]
    let n := 2 + Statement.listLoops body
    have ht := does_write (s := s.after i₁ [] 0 2) (by simpa using hs) top
    have hc := does_condition (s := s.after i₁ top 0 2) (by simpa using hs) h₂ hkc
    have hj := does_write (s := s.after i₂ test 0 2) (by simpa using hs)
      [.ifGoto (whileLabel (s.loops + 1))]
    have hb := Does.block (s := s.after i₂ guard 0 2) h₃ (by
      rw [after_after]
      exact does_statements body (by simpa using hs) h₄ hkb h₅.terminal?) h₅
    have hg := does_write (s := s.after i (guard ++ Statement.listCode s.context s.conditions
      (s.loops + 2) body) (Statement.listConditions body) n) (by simpa using hs)
      [.goto (whileLabel s.loops), .label (whileLabel (s.loops + 1))]
    refine .statements rfl h₁ (.of_perform (perform_loop.mpr ⟨rfl, rfl⟩) ?_) hu
    simp only [top, test, guard, n, after_after, input_after, context_after, conditions_after,
      loops_after, List.nil_append, List.append_nil, Nat.add_zero, Nat.zero_add]
      at ht hc hj hb hg ⊢
    simpa [Statement.code, Statement.conditions, Statement.loops, after_after]
      using ht.cons (hc.append (hj.cons (hb.append hg)))
  | .perform c =>
    obtain ⟨i₁, h₁, hr⟩ := reads_cons_iff_exists.mp hr
    obtain ⟨i₂, h₂, h₃⟩ := reads_append.mp hr
    have hp := does_performed (s := s.after i₁ [] 0 0) (by simpa using hs) h₂ hk
    have hc := does_symbol (s := s.after i₂ (c.code s.context) 0 0) h₃
    have hw := does_write (s := s.after i (c.code s.context) 0 0) (by simpa using hs)
      [.pop .temp 0]
    simp only [after_after, input_after, context_after, List.nil_append, List.append_nil,
      Nat.add_zero] at hp hc hw
    exact .statements rfl h₁ (hp.cons (hc.cons hw)) hu
  | .return none =>
    obtain ⟨i₁, h₁, hr⟩ := reads_cons_iff_exists.mp hr
    have ha := does_returned_none (s := s.after i₁ [] 0 0) (by simpa using hs) hr
    rw [after_after] at ha
    exact .statements rfl h₁ ha hu
  | .return (some value) =>
    obtain ⟨i₁, h₁, hr⟩ := reads_cons_iff_exists.mp hr
    have ha := does_returned_some (s := s.after i₁ [] 0 0) (by simpa using hs) hr hk
    rw [after_after] at ha
    exact .statements rfl h₁ ha hu

theorem does_statements (body : List Statement) {s : Session} {i : Lookahead} (hs : s.Unlimited)
    (hr : s.input.Reads (Statement.list body) i) (hk : s.Knows (Statement.listVariables body))
    (hi : i.terminal? = some (.symbol '}')) :
    Does [.statements] s (s.after i (Statement.listCode s.context s.conditions s.loops body)
      (Statement.listConditions body) (Statement.listLoops body)) := by
  match body with
  | [] =>
    cases hr
    exact .of_perform (perform_statements_of_brace hi) (.nil _)
  | st :: body =>
    rw [Statement.list] at hr
    rw [Statement.listVariables, knows_append] at hk
    obtain ⟨i₁, h₁, h₂⟩ := reads_append.mp hr
    refine does_statement st hs h₁ hk.1 (h₂.ne_of_statements hi (by decide)) ?_
    have hb := does_statements body (s := s.after i₁ (st.code s.context s.conditions s.loops)
      st.conditions st.loops) (by simpa using hs) h₂ hk.2 hi
    simpa [after_after, Statement.listCode, Statement.listConditions, Statement.listLoops]
      using hb

theorem does_otherwise (o : Option (List Statement)) {s : Session} {i : Lookahead}
    (hs : s.Unlimited) (hr : s.input.Reads (Statement.otherwise o) i)
    (hk : s.Knows (Statement.otherwiseVariables o)) (hi : i.terminal? ≠ some (.keyword .else)) :
    Does [.otherwise] s (s.after i (Statement.otherwiseCode s.context s.conditions s.loops o)
      (Statement.otherwiseConditions o) (Statement.otherwiseLoops o)) := by
  match o with
  | none =>
    cases hr
    exact .of_perform (perform_otherwise.mpr (.inr ⟨hi, rfl, rfl⟩)) (.nil _)
  | some body =>
    rw [Statement.otherwise] at hr
    obtain ⟨i₁, h₁, hr⟩ := reads_cons_iff_exists.mp hr
    obtain ⟨i₂, h₂, hr⟩ := reads_cons_iff_exists.mp hr
    obtain ⟨i₃, h₃, h₄⟩ := reads_append.mp hr
    have hb := Does.block (s := s.after i₁ [] 0 0) h₂ (by
      rw [after_after]
      exact does_statements body (by simpa using hs) h₃ hk h₄.terminal?) h₄
    refine .of_perform (perform_otherwise.mpr (.inl ⟨takes_of_reads h₁, rfl⟩)) ?_
    simpa [after_after, Statement.otherwiseCode, Statement.otherwiseConditions,
      Statement.otherwiseLoops] using hb

end

/-! ## Declarations -/

theorem does_variableName {kind : VariableKind} {type first : String} {more : List String}
    (h : s.Declares (.identifier first :: (more.flatMap (fun name => [.symbol ',', .identifier name])
      ++ [.symbol ';'])) ((first :: more).map fun name => ⟨name, type, kind⟩) s') :
    Does [.variableName kind type] s s' := by
  induction more generalizing first s with
  | nil =>
    obtain ⟨s₁, h₁, h⟩ := h.cons
    obtain ⟨i, hi, rfl⟩ := h
    have hn : s₁.input.terminal? ≠ some (.symbol ',') := by
      rw [hi.terminal?]
      decide
    exact .of_perform (perform_variableName.mpr ⟨first, s₁, h₁, rfl, rfl⟩)
      (.of_perform (perform_moreVariables.mpr (.inr ⟨hn, rfl, rfl⟩)) (does_symbol hi))
  | cons second more ih =>
    obtain ⟨s₁, h₁, h⟩ := h.cons
    obtain ⟨s₂, h₂, h⟩ := h.declare.cons
    exact .of_perform (perform_variableName.mpr ⟨first, s₁, h₁, rfl, rfl⟩)
      (.of_perform (perform_moreVariables.mpr (.inl ⟨h₂, rfl⟩)) (ih h))

theorem does_variableType {kind : VariableKind} {l : VariableList}
    (h : s.Declares l.terminals (l.declarations kind) s') : Does [.variableType kind] s s' := by
  obtain ⟨s₁, h₁, h⟩ := Declares.cons h
  exact .of_perform (perform_variableType.mpr ⟨l.type, h₁, rfl⟩) (does_variableName h)

theorem does_classVariables {vs : List ClassVariables}
    (h : s.Declares (vs.flatMap ClassVariables.terminals)
      (vs.flatMap ClassVariables.declarations) s')
    (hs : s'.input.terminal? ≠ some (.keyword .static))
    (hf : s'.input.terminal? ≠ some (.keyword .field)) : Does [.classVariables] s s' := by
  induction vs generalizing s with
  | nil =>
    obtain ⟨i, rfl, rfl⟩ := h
    exact .of_perform (perform_classVariables.mpr (.inr (.inr ⟨⟨hs, hf⟩, rfl, rfl⟩))) (.nil _)
  | cons v vs ih =>
    rw [List.flatMap_cons, List.flatMap_cons] at h
    obtain ⟨s₂, h, hv⟩ := Declares.split h
    cases v with
    | statics l =>
      obtain ⟨s₁, h₁, h⟩ := Declares.cons h
      exact .of_perform (perform_classVariables.mpr (.inl ⟨h₁, rfl⟩))
        ((does_variableType h).cons (ih hv))
    | fields l =>
      obtain ⟨s₁, h₁, h⟩ := Declares.cons h
      exact .of_perform (perform_classVariables.mpr (.inr (.inl ⟨h₁, rfl⟩)))
        ((does_variableType h).cons (ih hv))

theorem does_localVariables {ls : List VariableList}
    (h : s.Declares (ls.flatMap fun l => .keyword .var :: l.terminals)
      (ls.flatMap (·.declarations .local)) s')
    (hv : s'.input.terminal? ≠ some (.keyword .var)) : Does [.localVariables] s s' := by
  induction ls generalizing s with
  | nil =>
    obtain ⟨i, rfl, rfl⟩ := h
    exact .of_perform (perform_localVariables.mpr (.inr ⟨hv, rfl, rfl⟩)) (.nil _)
  | cons l ls ih =>
    rw [List.flatMap_cons, List.flatMap_cons] at h
    obtain ⟨s₂, h, hl⟩ := Declares.split h
    obtain ⟨s₁, h₁, h⟩ := Declares.cons h
    exact .of_perform (perform_localVariables.mpr (.inl ⟨h₁, rfl⟩))
      ((does_variableType h).cons (ih hl))

theorem does_parameterType {p : Parameter} {ps : List Parameter}
    (h : s.Declares (Parameter.list (p :: ps)) ((p :: ps).map Parameter.declaration) s')
    (hi : s'.input.terminal? = some (.symbol ')')) : Does [.parameterType] s s' := by
  induction ps generalizing p s with
  | nil =>
    obtain ⟨s₁, h₁, h⟩ := Declares.cons h
    obtain ⟨s₂, h₂, h⟩ := Declares.cons h
    obtain ⟨i, rfl, rfl⟩ := h
    have hn : s₂.input.terminal? ≠ some (.symbol ',') := by
      rw [show s₂.input.terminal? = some (.symbol ')') from hi]
      decide
    exact .of_perform (perform_parameterType.mpr ⟨p.type, h₁, rfl⟩)
      (.of_perform (perform_parameterName.mpr ⟨p.name, s₂, h₂, rfl, rfl⟩)
        (.of_perform (perform_moreParameters.mpr (.inr ⟨hn, rfl, rfl⟩)) (.nil _)))
  | cons q ps ih =>
    obtain ⟨s₁, h₁, h⟩ := Declares.cons h
    obtain ⟨s₂, h₂, h⟩ := Declares.cons h
    obtain ⟨s₃, h₃, h⟩ := h.declare.cons
    exact .of_perform (perform_parameterType.mpr ⟨p.type, h₁, rfl⟩)
      (.of_perform (perform_parameterName.mpr ⟨p.name, s₂, h₂, rfl, rfl⟩)
        (.of_perform (perform_moreParameters.mpr (.inl ⟨h₃, rfl⟩)) (ih h)))

theorem does_parameters {ps : List Parameter}
    (h : s.Declares (Parameter.list ps) (ps.map Parameter.declaration) s')
    (hi : s'.input.terminal? = some (.symbol ')')) : Does [.parameters] s s' := by
  cases ps with
  | nil =>
    obtain ⟨i, rfl, rfl⟩ := h
    exact .of_perform (perform_parameters.mpr ⟨rfl, .inl ⟨hi, rfl⟩⟩) (.nil _)
  | cons p ps =>
    have hn : s.input.terminal? ≠ some (.symbol ')') := by
      rw [Declares.terminal? h]
      cases p.type <;> simp [TypeName.terminal]
    exact .of_perform (perform_parameters.mpr ⟨rfl, .inr ⟨hn, rfl⟩⟩) (does_parameterType h hi)

/-! ## Subroutines -/

theorem Unlimited.closes (hs : s.Unlimited) : ∃ s', s.Closes s' := by
  unfold Closes
  dsimp only
  split
  · exact ⟨s, rfl⟩
  split
  · exact ⟨_, Unlimited.writes (s := s.noted _) hs _⟩
  · exact ⟨_, rfl⟩

theorem Closes.unlimited (h : s.Closes s') (hs : s.Unlimited) : s'.Unlimited := by
  unfold Closes at h
  dsimp only at h
  split at h
  · rwa [h]
  split at h
  · exact h.passes.unlimited hs
  · rwa [h]

theorem unlimited_opened {routine : Routine} {ds : List Declaration} :
    (s.opened routine ds).Unlimited ↔ s.Unlimited := by
  simp only [opened, wrote, unlimited_after]
  rfl

theorem does_routineName {r : RoutineDecl} {returnsVoid : Bool} (hs : s.Unlimited)
    (h : s.Compiles r.terminals.tail.tail ⟨r.kind, r.name, returnsVoid⟩
      (r.declarations s.className) r.body s') :
    Does [.routineName r.kind returnsVoid] s s' := by
  obtain ⟨i₈, hr, hk, hc⟩ := h
  obtain ⟨i₀, h₀, hr⟩ := reads_cons_iff_exists.mp hr
  obtain ⟨i₃, hp, hb⟩ := reads_append.mp hr
  obtain ⟨i₁, h₁, hp⟩ := reads_cons_iff_exists.mp hp
  obtain ⟨i₂, h₂, h₃⟩ := reads_append.mp hp
  obtain ⟨i₄, h₄, hb⟩ := reads_cons_iff_exists.mp hb
  obtain ⟨i₇, hb, h₈⟩ := reads_append.mp hb
  obtain ⟨i₅, h₅, h₇⟩ := reads_append.mp hb
  let s₀ := { s.after i₀ [] 0 0 with routine := ⟨r.kind, r.name, returnsVoid⟩ }.declared
    (r.kind.receiver s.className)
  let s₂ := (s₀.after i₂ [] 0 0).declared (r.parameters.map Parameter.declaration)
  let s₃ := (s₂.after i₃ [] 0 0).noted
    (.routineStarted r.kind (qualifiedName s.className r.name))
  let s₅ := (s₃.after i₅ [] 0 0).declared (r.locals.flatMap (·.declarations .local))
  let t := s.opened ⟨r.kind, r.name, returnsVoid⟩ (r.declarations s.className)
  have hu : t.Unlimited := unlimited_opened.mpr hs
  -- The header is noted before the locals are declared, which is no different from noting it after.
  have ht : s₅.wrote s₅.prologueCode = t.after i₅ [] 0 0 := by
    simp only [t, opened, RoutineDecl.declarations, declared, Scopes.declareAll,
      List.foldl_append]
    rfl
  have hps : Does [.parameters] (s₀.after i₁ [] 0 0) s₂ := does_parameters ⟨i₂, h₂, rfl⟩ h₃.terminal?
  have han : Does [.announceRoutine] (s₂.after i₃ [] 0 0) s₃ :=
    .of_perform (perform_announceRoutine.mpr ⟨rfl, rfl⟩) (.nil _)
  have hls : Does [.localVariables] (s₃.after i₄ [] 0 0) s₅ :=
    does_localVariables ⟨i₅, h₅, rfl⟩ (h₇.ne_of_statements h₈.terminal? (by decide))
  have hpr : Does [.prologue] s₅ (t.after i₅ [] 0 0) :=
    .of_perform (perform_prologue.mpr ⟨Unlimited.writes (s := s₅) hs _, rfl⟩) (ht ▸ .nil _)
  have hst := does_statements r.body (s := t.after i₅ [] 0 0) (by simpa using hu) h₇ hk h₈.terminal?
  rw [after_after, Nat.zero_add, Nat.zero_add] at hst
  have hep : Does [.epilogue] _ { s' with input := i₇ } :=
    .of_perform (perform_epilogue.mpr ⟨hc.at, rfl⟩) (.nil _)
  have hcl : Does [.symbol '}'] { s' with input := i₇ } s' := by
    have hcl := does_symbol (s := { s' with input := i₇ }) h₈
    have hi : s'.input = i₈ := hc.input_eq
    subst hi
    exact hcl
  exact .of_perform (perform_routineName.mpr ⟨r.name, _, takes_of_reads h₀, rfl, rfl⟩)
    ((does_symbol h₁).cons (hps.cons ((does_symbol h₃).cons (han.cons ((does_symbol h₄).cons
      (hls.cons (hpr.cons (hst.cons (hep.cons hcl)))))))))

theorem Compiles.cons {t : Terminal} {ts : List Terminal} {routine : Routine}
    {ds : List Declaration} {body : List Statement}
    (h : s.Compiles (t :: ts) routine ds body s'') :
    ∃ i, s.input.Reads [t] i ∧ (s.after i [] 0 0).Compiles ts routine ds body s'' := by
  obtain ⟨j, hj, hk, hc⟩ := h
  obtain ⟨i, hi, hj⟩ := reads_cons_iff_exists.mp hj
  exact ⟨i, hi, j, hj, hk, hc⟩

theorem Compiles.unlimited {ts : List Terminal} {routine : Routine} {ds : List Declaration}
    {body : List Statement} (h : s.Compiles ts routine ds body s') (hs : s.Unlimited) :
    s'.Unlimited := by
  obtain ⟨i, -, -, hc⟩ := h
  exact hc.unlimited (unlimited_after.mpr (unlimited_opened.mpr hs))

/-- **Subroutines are compiled** in front of a closing brace. -/
theorem does_routines {rs : List RoutineDecl} (hs : s.Unlimited) (h : s.CompilesAll rs s')
    (hi : s'.input.terminal? = some (.symbol '}')) : Does [.routines] s s' := by
  induction rs generalizing s with
  | nil =>
    cases h
    have hn (kind : RoutineKind) : s'.input.terminal? ≠ some (.keyword kind.keyword) :=
      fun hk => nomatch hi.symm.trans hk
    exact .of_perform (perform_routines.mpr (.inr ⟨hn, rfl, rfl⟩)) (.nil _)
  | cons r rs ih =>
    obtain ⟨s₁, hc, h⟩ := h
    have hu := hc.unlimited hs
    obtain ⟨i₁, h₁, hc⟩ := hc.cons
    obtain ⟨i₂, h₂, hc⟩ := hc.cons
    refine .of_perform (perform_routines.mpr (.inl ⟨r.kind, _, takes_of_reads h₁, rfl, rfl⟩))
      (.cons (.of_perform (perform_returnType.mpr ⟨r.returnType, takes_of_reads h₂, rfl⟩) ?_)
        (ih hu h))
    exact does_routineName (r := r) hs hc

end Session

end JackStack
