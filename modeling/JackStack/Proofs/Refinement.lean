import JackStack.Compile
import JackStack.Proofs.Acceptance
import JackStack.Proofs.Lexemes
import JackStack.Proofs.Scoping
import JackStack.Proofs.Unambiguous

/-!
# Proofs/Refinement — compiling a source is translating its tree

A source parses as a tree if all of it can be cut into tokens and these are the terminals of the
tree. Compiling in one pass, while reading, comes to the same as parsing first and translating the
tree then.

* `compileText_eq_ok_iff` — a source compiles to a text exactly if it parses as a tree with all
  variables declared, and the text is that of the tree's commands.
-/

namespace JackStack

open Vm (Command)

/-! ## Variables are identifiers of the text -/

mutual

theorem Term.identifier_mem (t : Term) {name : String} (h : name ∈ t.variables) :
    .identifier name ∈ t.terminals := by
  match t with
  | .integer _ | .text _ | .constant _ => simp [Term.variables] at h
  | .variable _ => simpa [Term.variables, Term.terminals] using h
  | .element array index =>
    cases List.mem_cons.mp h with
    | inl h => simp [Term.terminals, h]
    | inr h => simp [Term.terminals, Terminal.brackets, index.identifier_mem h]
  | .call c => exact c.identifier_mem h
  | .group inner => simp [Term.terminals, Terminal.parentheses, inner.identifier_mem h]
  | .unary op operand => simp [Term.terminals, operand.identifier_mem h]

theorem Expression.identifier_mem (e : Expression) {name : String} (h : name ∈ e.variables) :
    .identifier name ∈ e.terminals := by
  match e with
  | .chain first more =>
    cases List.mem_append.mp h with
    | inl h => exact List.mem_append_left _ (first.identifier_mem h)
    | inr h => exact List.mem_append_right _ (Expression.identifier_mem_more more h)

theorem Expression.identifier_mem_more (more : List (BinaryOp × Term)) {name : String}
    (h : name ∈ Expression.moreVariables more) :
    .identifier name ∈ Expression.moreTerms more := by
  match more with
  | [] => simp [Expression.moreVariables] at h
  | (op, t) :: more =>
    cases List.mem_append.mp h with
    | inl h => simp [Expression.moreTerms, t.identifier_mem h]
    | inr h => simp [Expression.moreTerms, Expression.identifier_mem_more more h]

theorem Call.identifier_mem (c : Call) {name : String} (h : name ∈ c.variables) :
    .identifier name ∈ c.terminals := by
  match c with
  | .own routine es =>
    simp [Call.terminals, Terminal.parentheses, Call.identifier_mem_list es h]
  | .on receiver routine es =>
    simp [Call.terminals, Terminal.parentheses, Call.identifier_mem_list es h]

theorem Call.identifier_mem_list (es : List Expression) {name : String}
    (h : name ∈ Call.listVariables es) : .identifier name ∈ Call.list es := by
  match es with
  | [] => simp [Call.listVariables] at h
  | e :: es =>
    cases List.mem_append.mp h with
    | inl h => simp [Call.list, e.identifier_mem h]
    | inr h => simp [Call.list, Call.identifier_mem_more es h]

theorem Call.identifier_mem_more (es : List Expression) {name : String}
    (h : name ∈ Call.listVariables es) : .identifier name ∈ Call.moreArguments es := by
  match es with
  | [] => simp [Call.listVariables] at h
  | e :: es =>
    cases List.mem_append.mp h with
    | inl h => simp [Call.moreArguments, e.identifier_mem h]
    | inr h => simp [Call.moreArguments, Call.identifier_mem_more es h]

end

mutual

theorem Statement.identifier_mem (st : Statement) {name : String} (h : name ∈ st.variables) :
    .identifier name ∈ st.terminals := by
  match st with
  | .assign name' value =>
    cases List.mem_cons.mp h with
    | inl h => simp [Statement.terminals, h]
    | inr h => simp [Statement.terminals, value.identifier_mem h]
  | .assignElement array index value =>
    simp only [Statement.variables, List.mem_cons, List.mem_append] at h
    obtain h | h | h := h
    · simp [Statement.terminals, h]
    · simp [Statement.terminals, Terminal.brackets, index.identifier_mem h]
    · simp [Statement.terminals, value.identifier_mem h]
  | .branch condition body otherwise =>
    simp only [Statement.variables, List.mem_append] at h
    obtain h | h | h := h
    · simp [Statement.terminals, Terminal.parentheses, condition.identifier_mem h]
    · simp [Statement.terminals, Terminal.braces, Statement.identifier_mem_list body h]
    · simp [Statement.terminals, Statement.identifier_mem_otherwise otherwise h]
  | .loop condition body =>
    cases List.mem_append.mp h with
    | inl h => simp [Statement.terminals, Terminal.parentheses, condition.identifier_mem h]
    | inr h => simp [Statement.terminals, Terminal.braces, Statement.identifier_mem_list body h]
  | .perform c => simp [Statement.terminals, c.identifier_mem h]
  | .return none => simp [Statement.variables] at h
  | .return (some value) => simp [Statement.terminals, value.identifier_mem h]

theorem Statement.identifier_mem_list (body : List Statement) {name : String}
    (h : name ∈ Statement.listVariables body) : .identifier name ∈ Statement.list body := by
  match body with
  | [] => simp [Statement.listVariables] at h
  | st :: body =>
    cases List.mem_append.mp h with
    | inl h => exact List.mem_append_left _ (st.identifier_mem h)
    | inr h => exact List.mem_append_right _ (Statement.identifier_mem_list body h)

theorem Statement.identifier_mem_otherwise (o : Option (List Statement)) {name : String}
    (h : name ∈ Statement.otherwiseVariables o) : .identifier name ∈ Statement.otherwise o := by
  match o with
  | none => simp [Statement.otherwiseVariables] at h
  | some body =>
    simp [Statement.otherwise, Terminal.braces, Statement.identifier_mem_list body h]

end

theorem ClassDecl.identifier_mem {c : ClassDecl} {r : RoutineDecl} (hr : r ∈ c.routines)
    {name : String} (h : name ∈ Statement.listVariables r.body) :
    .identifier name ∈ c.terminals := by
  have hb := Statement.identifier_mem_list r.body h
  have hr' : .identifier name ∈ r.terminals := by
    simp [RoutineDecl.terminals, RoutineDecl.bodyTerminals, Terminal.braces, hb]
  have hc := List.mem_flatMap.mpr ⟨r, hr, hr'⟩
  simp only [ClassDecl.terminals, Terminal.braces, List.mem_cons, List.cons_append,
    List.mem_append, hc, true_or, or_true]

/-! ## The last command of statements -/

/-- **The code of a statement ends in a return exactly if it is one.** -/
theorem Statement.code_eq_concat {c : Context} {st : Statement} (m n : Nat)
    (hk : ∀ name ∈ st.variables, (c.resolve name).isSome) :
    ∃ code last, st.code c m n = code ++ [last] ∧ decide (last = .return) = st.isReturn := by
  match st with
  | .assign name value =>
    obtain ⟨v, hv⟩ := Option.isSome_iff_exists.mp (hk name (by simp [Statement.variables]))
    exact ⟨value.code c, v.pop, by simp [Statement.code, Context.popName, hv], rfl⟩
  | .assignElement array index value =>
    exact ⟨index.code c ++ c.pushName array ++ .arith .add :: (value.code c
      ++ [.pop .temp 0, .pop .pointer 1, .push .temp 0]), .pop .that 0, by simp [Statement.code],
      rfl⟩
  | .branch condition body otherwise => exact ⟨_, _, by rw [Statement.code], rfl⟩
  | .loop condition body =>
    refine ⟨.label (whileLabel n) :: (condition.code c ++ [.arith .not,
      .ifGoto (whileLabel (n + 1))] ++ Statement.listCode c m (n + 2) body
      ++ [.goto (whileLabel n)]), .label (whileLabel (n + 1)), by simp [Statement.code], rfl⟩
  | .perform k => exact ⟨k.code c, .pop .temp 0, by rw [Statement.code], rfl⟩
  | .return none =>
    cases hv : c.returnsVoid with
    | true => exact ⟨[.push .constant 0], .return, by simp [Statement.code, Context.returnCode, hv], rfl⟩
    | false => exact ⟨[], .return, by simp [Statement.code, Context.returnCode, hv], rfl⟩
  | .return (some value) =>
    cases hv : c.returnsVoid with
    | true =>
      exact ⟨value.code c ++ [.push .constant 0], .return,
        by simp [Statement.code, Context.returnCode, hv], rfl⟩
    | false => exact ⟨value.code c, .return, by simp [Statement.code, Context.returnCode, hv], rfl⟩

/-- **A writer has returned behind statements exactly if they end in a return.** -/
theorem Writer.returned_listCode {c : Context} (w : Writer) (m n : Nat) (body : List Statement)
    (hk : ∀ name ∈ Statement.listVariables body, (c.resolve name).isSome)
    (hw : body = [] → w.returned = false) :
    (w.wrote (Statement.listCode c m n body)).returned = Statement.endsInReturn body := by
  induction body generalizing w m n with
  | nil => exact hw rfl
  | cons st body ih =>
    rw [Statement.listVariables, List.forall_mem_append] at hk
    rw [Statement.listCode, Writer.wrote_append]
    obtain ⟨code, last, hst, hl⟩ := Statement.code_eq_concat m n hk.1
    cases body with
    | nil =>
      rw [hst, Statement.listCode, Writer.wrote_nil, Writer.returned_wrote_concat, hl]
      rfl
    | cons st' body =>
      rw [ih _ _ _ hk.2 (fun h => nomatch h), Statement.endsInReturn, Statement.endsInReturn,
        List.getLast?_cons_cons]

/-! ## Subroutines -/

namespace Session

variable {s s' : Session} {i : Lookahead} {c : ClassDecl} {r : RoutineDecl}

@[simp] theorem writer_after {code : List Command} {m n : Nat} :
    (s.after i code m n).writer = s.writer.wrote code := rfl

/-- **A session inside a class** knows its name and has declared its variables. -/
structure Inside (s : Session) (c : ClassDecl) : Prop where
  className : s.className = c.name
  scopes : s.scopes.enterRoutine = .ofDeclarations c.declarations []

/-- **A subroutine is opened** in its context, with its prologue written. -/
theorem Inside.opened (h : s.Inside c) (r : RoutineDecl) :
    let t := { s with scopes := s.scopes.enterRoutine }.opened
      ⟨r.kind, r.name, r.returnType.isNone⟩ (r.declarations s.className)
    t.Inside c ∧ t.context = r.context c ∧
      t.writer.sink = s.writer.sink.wrote (r.prologue c) ∧
      t.writer.returned = false := by
  intro t
  have hs : t.scopes = .ofDeclarations c.declarations (r.declarations c.name) := by
    show s.scopes.enterRoutine.declareAll (r.declarations s.className) = _
    rw [h.scopes, h.className, Scopes.declareAll_routine (r.ofClass_declarations _),
      List.nil_append]
  obtain ⟨w, hw, hr, ht⟩ : ∃ w : Writer, t.writer = w.wrote (r.prologue c) ∧
      w.returned = s.writer.returned ∧ w.sink = s.writer.sink := by
    refine ⟨s.writer.note (.routineStarted r.kind (qualifiedName s.className r.name)), ?_, rfl, rfl⟩
    rw [← RoutineDecl.prologueCode_eq (s := t) hs h.className rfl rfl]
    rfl
  refine ⟨⟨h.className, ?_⟩, RoutineDecl.context_eq hs h.className rfl, ?_, ?_⟩
  · rw [hs, Scopes.enterRoutine_ofDeclarations]
  · rw [hw, Writer.sink_wrote, ht]
  · rw [hw, RoutineDecl.prologue]
    cases r.kind <;> rfl

theorem Closes.eq (h : s.Closes s') : ∃ w : Writer, s' = { s with writer := w } ∧
    w.sink = s.writer.sink.wrote
      (if s.routine.returnsVoid && !s.writer.returned then [.push .constant 0, .return] else []) := by
  unfold Closes at h
  dsimp only at h
  split at h
  · next hr => exact ⟨s.writer, h, by simp [hr, Sink.wrote, Vm.programText]⟩
  · next hr =>
    split at h
    · next hv =>
      obtain ⟨-, rfl⟩ := h
      refine ⟨_, rfl, ?_⟩
      rw [Writer.sink_wrote]
      simp [hr, hv, Code.finish, Writer.note, noted]
    · next hv => exact ⟨_, h, by simp [hv, Sink.wrote, Vm.programText, Writer.note]⟩

/-- **What compiling a subroutine does.** -/
theorem Inside.compiles (h : s.Inside c) {ts : List Terminal}
    (hc : { s with scopes := s.scopes.enterRoutine }.Compiles ts
      ⟨r.kind, r.name, r.returnType.isNone⟩ (r.declarations s.className) r.body s') :
    s.input.Reads ts s'.input ∧
      (∀ name ∈ Statement.listVariables r.body, ((r.context c).resolve name).isSome) ∧
      s'.Inside c ∧ s'.conditions = s.conditions + Statement.listConditions r.body ∧
      s'.loops = s.loops + Statement.listLoops r.body ∧
      s'.writer.sink = s.writer.sink.wrote (r.code c s.conditions s.loops) := by
  obtain ⟨i, hr, hk, hc⟩ := hc
  obtain ⟨hi, hx, ht, hn⟩ := h.opened r
  have hm : ({ s with scopes := s.scopes.enterRoutine }.opened
    ⟨r.kind, r.name, r.returnType.isNone⟩ (r.declarations s.className)).conditions
      = s.conditions := rfl
  have hl : ({ s with scopes := s.scopes.enterRoutine }.opened
    ⟨r.kind, r.name, r.returnType.isNone⟩ (r.declarations s.className)).loops = s.loops := rfl
  have hv : ({ s with scopes := s.scopes.enterRoutine }.opened
    ⟨r.kind, r.name, r.returnType.isNone⟩ (r.declarations s.className)).routine.returnsVoid
      = r.returnType.isNone := rfl
  generalize { s with scopes := s.scopes.enterRoutine }.opened
    ⟨r.kind, r.name, r.returnType.isNone⟩ (r.declarations s.className) = t at *
  obtain ⟨w, rfl, hw⟩ := hc.eq
  rw [Knows, hx] at hk
  have hret := Writer.returned_listCode t.writer s.conditions s.loops r.body hk fun _ => hn
  refine ⟨hr, hk, ⟨hi.className, hi.scopes⟩, by rw [← hm]; rfl, by rw [← hl]; rfl, ?_⟩
  simp only [hw, writer_after, routine_after, hx, hm, hl, hv, Writer.sink_wrote, ht, hret,
    RoutineDecl.code, RoutineDecl.epilogue, Sink.wrote_append]

/-- **Compiling subroutines in turn** reads them, finds their variables declared, and writes their
commands. -/
theorem Inside.compilesAll {rs : List RoutineDecl} (h : s.Inside c) (hc : s.CompilesAll rs s') :
    s.input.Reads (rs.flatMap RoutineDecl.terminals) s'.input ∧
      (∀ r ∈ rs, ∀ name ∈ Statement.listVariables r.body,
        ((r.context c).resolve name).isSome) ∧
      s'.writer.sink
        = s.writer.sink.wrote (RoutineDecl.listCode c s.conditions s.loops rs) := by
  induction rs generalizing s with
  | nil =>
    cases hc
    refine ⟨rfl, fun r hr => (nomatch hr), ?_⟩
    simp [RoutineDecl.listCode, Sink.wrote, Vm.programText]
  | cons r rs ih =>
    obtain ⟨s₁, hone, hc⟩ := hc
    obtain ⟨hr, hk, hi, hm, hn, ht⟩ := h.compiles hone
    obtain ⟨hrs, hks, hts⟩ := ih hi hc
    refine ⟨Lookahead.reads_append.mpr ⟨s₁.input, hr, hrs⟩, List.forall_mem_cons.mpr ⟨hk, hks⟩, ?_⟩
    rw [hts, ht, hm, hn, RoutineDecl.listCode, Sink.wrote_append]

/-- **Subroutines are compiled** if their text comes next and their variables are declared. -/
theorem Inside.exists_compilesAll {rs : List RoutineDecl} (h : s.Inside c) (hs : s.Unlimited)
    (hr : s.input.Reads (rs.flatMap RoutineDecl.terminals) i)
    (hk : ∀ r ∈ rs, ∀ name ∈ Statement.listVariables r.body,
      ((r.context c).resolve name).isSome) :
    ∃ s', s.CompilesAll rs s' ∧ s'.input = i ∧ s'.Unlimited := by
  induction rs generalizing s with
  | nil =>
    cases hr
    exact ⟨s, rfl, rfl, hs⟩
  | cons r rs ih =>
    obtain ⟨i₁, h₁, h₂⟩ := Lookahead.reads_append.mp hr
    obtain ⟨hk, hks⟩ := List.forall_mem_cons.mp hk
    obtain ⟨-, hx, -, -⟩ := h.opened r
    let t := { s with scopes := s.scopes.enterRoutine }.opened
      ⟨r.kind, r.name, r.returnType.isNone⟩ (r.declarations s.className)
    have hu : (t.after i₁ (Statement.listCode t.context t.conditions t.loops r.body)
        (Statement.listConditions r.body) (Statement.listLoops r.body)).Unlimited :=
      unlimited_after.mpr (unlimited_opened.mpr hs)
    obtain ⟨s₁, hcl⟩ := hu.closes
    have hc : { s with scopes := s.scopes.enterRoutine }.Compiles r.terminals
        ⟨r.kind, r.name, r.returnType.isNone⟩ (r.declarations s.className) r.body s₁ := by
      refine ⟨i₁, h₁, ?_, hcl⟩
      rw [Knows, hx]
      exact hk
    obtain ⟨-, -, hi, -, -, -⟩ := h.compiles hc
    have hin : s₁.input = i₁ := hcl.input_eq
    rw [← hin] at h₂
    obtain ⟨s', hcs, hs', hu'⟩ := ih hi (hc.unlimited hs) h₂ hks
    exact ⟨s', ⟨s₁, hc, hcs⟩, hs', hu'⟩

/-! ## Classes -/

/-- **A session at the start of a class.** -/
def start (input : Lookahead) (sink : Sink) : Session :=
  { input, writer := { sink } }

variable {input : Lookahead} {sink : Sink}

/-- The session at the first subroutine of a class. -/
def atRoutines (c : ClassDecl) (sink : Sink) (i : Lookahead) : Session :=
  { (start i sink).noted (.classStarted c.name) with
    className := c.name
    scopes := .ofDeclarations c.declarations [] }

theorem inside_atRoutines (c : ClassDecl) (sink : Sink) (i : Lookahead) :
    (atRoutines c sink i).Inside c :=
  ⟨rfl, rfl⟩

/-- The terminals of a class in front of its subroutines. -/
def openingTerminals (c : ClassDecl) : List Terminal :=
  .keyword .class :: .identifier c.name :: .symbol '{' :: c.members.flatMap ClassVariables.terminals

/-- The goals of a class in front of its subroutines. -/
def openingGoals : List Goal :=
  [.keyword .class, .className, .symbol '{', .announceClass, .classVariables]

theorem classGoals_eq : Goal.classGoals = openingGoals ++ [.routines, .symbol '}', .sourceEnd] := rfl

/-- **A class is opened**: its name and its variables are read, whatever its subroutines are. -/
theorem means_openingGoals {t : Session} (h : Goal.MeansAll openingGoals (start input sink) t) :
    ∃ name vs i, ∀ rs, input.Reads (openingTerminals ⟨name, vs, rs⟩) i ∧
      t = atRoutines ⟨name, vs, rs⟩ sink i := by
  obtain ⟨_, ⟨i₁, h₁, -, rfl⟩, _, ⟨name, _, ⟨i₂, h₂, -, rfl⟩, rfl⟩, _, ⟨i₃, h₃, -, rfl⟩, _, rfl, _,
    ⟨vs, i₄, h₄, rfl⟩, rfl⟩ := h
  refine ⟨name, vs, i₄, fun rs => ⟨?_, ?_⟩⟩
  · have hr := Lookahead.reads_append.mpr ⟨_, h₁, Lookahead.reads_append.mpr ⟨_, h₂,
      Lookahead.reads_append.mpr ⟨_, h₃, h₄⟩⟩⟩
    simpa [openingTerminals, start] using hr
  · let c : ClassDecl := ⟨name, vs, rs⟩
    have hd : Scopes.declareAll {} c.declarations = .ofDeclarations c.declarations [] := by
      rw [← Scopes.ofDeclarations_nil, Scopes.declareAll_class c.ofClass_declarations,
        List.nil_append]
    rw [atRoutines, ← hd]
    rfl

theorem terminals_eq_opening (c : ClassDecl) : c.terminals =
    openingTerminals c ++ c.routines.flatMap RoutineDecl.terminals ++ [.symbol '}'] := by
  simp [ClassDecl.terminals, openingTerminals, Terminal.braces]

/-- **A class that compiles has been read to its end**, with its variables declared and its commands
written. -/
theorem run_class_sound (h : run Goal.classGoals (start input sink) = .ok () s') :
    ∃ c : ClassDecl, (∃ j, input.Reads c.terminals j ∧ j.atEnd = true) ∧
      (∀ r ∈ c.routines, ∀ name ∈ Statement.listVariables r.body,
        ((r.context c).resolve name).isSome) ∧ s'.writer.sink = sink.wrote c.code := by
  have hm := means_of_run h
  rw [classGoals_eq, Goal.meansAll_append] at hm
  obtain ⟨t, ht, s₅, ⟨rs, hrs⟩, s₆, ⟨i₆, h₆, -, rfl⟩, _, ⟨he, rfl⟩, rfl⟩ := hm
  obtain ⟨name, vs, i, hopening⟩ := means_openingGoals ht
  obtain ⟨hr, rfl⟩ := hopening rs
  obtain ⟨h₅, hk, hw⟩ := (inside_atRoutines ⟨name, vs, rs⟩ sink i).compilesAll hrs
  refine ⟨⟨name, vs, rs⟩, ⟨i₆, ?_, he⟩, hk, hw⟩
  rw [terminals_eq_opening]
  exact Lookahead.reads_append.mpr ⟨_, Lookahead.reads_append.mpr ⟨_, hr, h₅⟩, h₆⟩

/-- **A class compiles** if its text is read to the end and its variables are declared. -/
theorem run_class_complete {c : ClassDecl} {j : Lookahead} (hs : sink.limit = none)
    (hr : input.Reads c.terminals j) (hj : j.atEnd = true)
    (hk : ∀ r ∈ c.routines, ∀ name ∈ Statement.listVariables r.body,
      ((r.context c).resolve name).isSome) :
    ∃ s', run Goal.classGoals (start input sink) = .ok () s' := by
  obtain ⟨i₁, h₁, hr⟩ := Lookahead.reads_cons_iff_exists.mp hr
  obtain ⟨i₂, h₂, hr⟩ := Lookahead.reads_cons_iff_exists.mp hr
  obtain ⟨i₃, h₃, hr⟩ := Lookahead.reads_cons_iff_exists.mp hr
  obtain ⟨i₅, hr, h₆⟩ := Lookahead.reads_append.mp hr
  obtain ⟨i₄, h₄, h₅⟩ := Lookahead.reads_append.mp hr
  have hu : (atRoutines c sink i₄).Unlimited := hs
  obtain ⟨s', hc, rfl, -⟩ := (inside_atRoutines c sink i₄).exists_compilesAll hu h₅ hk
  let s₂ := { (start i₂ sink) with className := c.name }
  let s₃ := (s₂.after i₃ [] 0 0).noted (.classStarted c.name)
  have hn : Does [.className] (start i₁ sink) s₂ :=
    .of_perform (perform_className.mpr ⟨c.name, _, takes_of_reads h₂, rfl, rfl⟩) (.nil _)
  have ha : Does [.announceClass] (s₂.after i₃ [] 0 0) s₃ :=
    .of_perform (perform_announceClass.mpr ⟨rfl, rfl⟩) (.nil _)
  have hv : Does [.classVariables] s₃ (atRoutines c sink i₄) := by
    have hd : s₃.Declares (c.members.flatMap ClassVariables.terminals) c.declarations
        (atRoutines c sink i₄) := by
      refine ⟨i₄, h₄, ?_⟩
      rw [atRoutines, ← List.nil_append c.declarations,
        ← Scopes.declareAll_class c.ofClass_declarations, Scopes.ofDeclarations_nil]
      rfl
    obtain ⟨t, ts, hrs, ht⟩ := c.routines_eq_cons
    have hm : i₄.terminal? = some t := by
      have hr := Lookahead.reads_append.mpr ⟨_, h₅, h₆⟩
      rw [hrs] at hr
      exact hr.terminal?
    refine does_classVariables hd ?_ ?_
    · rintro he
      exact ht (.inl (Option.some.inj (hm.symm.trans he)))
    · rintro he
      exact ht (.inr (Option.some.inj (hm.symm.trans he)))
  have hc := does_routines hu hc h₆.terminal?
  have he : Does [.sourceEnd] (s'.after j [] 0 0) (s'.after j [] 0 0) :=
    .of_perform (perform_sourceEnd.mpr ⟨hj, rfl, rfl⟩) (.nil _)
  have hk : Does [.keyword .class] (start input sink) (start i₁ sink) :=
    .of_perform (perform_keyword.mpr ⟨takes_of_reads h₁, rfl⟩) (.nil _)
  have hall : Does Goal.classGoals (start input sink) (s'.after j [] 0 0) :=
    hk.cons (hn.cons ((does_symbol h₃).cons (ha.cons (hv.cons (hc.cons
      ((does_symbol h₆).cons he))))))
  have hrun := hall []
  rw [List.append_nil, run.eq_def [] _] at hrun
  exact ⟨_, hrun⟩

end Session

/-! ## Sources -/

/-- **A source parses as a tree**: without its comments all of it is tokens, and these are the
terminals of the tree. -/
def Parses (source : String) (c : ClassDecl) : Prop :=
  (∀ e, Except.error e ∉ scan (Comment.strip source)) ∧
    c.terminals = Lookahead.terminalsOf (scan (Comment.strip source))

/-- A source parses as a tree exactly if its items are the tree's terminals, one by one. -/
theorem parses_iff {source : String} {c : ClassDecl} :
    Parses source c ↔ (scan (Comment.strip source)).map (·.toOption.map Token.terminal) =
      c.terminals.map some := by
  rw [Parses]
  generalize scan (Comment.strip source) = items
  generalize c.terminals = ts
  induction items generalizing ts with
  | nil => cases ts <;> simp [Lookahead.terminalsOf]
  | cons item items ih =>
    cases item with
    | error e =>
      constructor
      · exact fun h => absurd List.mem_cons_self (h.1 e)
      · cases ts <;> simp [Except.toOption]
    | ok token =>
      cases ts with
      | nil => simp [Lookahead.terminalsOf, Except.toOption]
      | cons t ts =>
        have hok : (∀ e, Except.error e ∉ Except.ok token :: items) ↔
            ∀ e, Except.error e ∉ items := by simp
        have hcons : Lookahead.terminalsOf (.ok token :: items) =
          token.terminal :: Lookahead.terminalsOf items := rfl
        rw [hok, hcons, List.map_cons, List.map_cons, List.cons.injEq, List.cons.injEq, ← ih,
          and_left_comm, eq_comm (a := t), ← Option.some.injEq]
        rfl

instance (source : String) (c : ClassDecl) : Decidable (Parses source c) :=
  decidable_of_iff _ parses_iff.symm

/-- **A source parses as at most one tree.** -/
theorem Parses.unique {source : String} {c c' : ClassDecl} (h : Parses source c)
    (h' : Parses source c') : c' = c :=
  ClassDecl.terminals_injective (h'.2.trans h.2.symm)

theorem Parses.wellFormed {source : String} {c : ClassDecl} (h : Parses source c) :
    ∀ x ∈ c.terminals, x.WellFormed := by
  intro x hx
  rw [h.2] at hx
  exact Terminal.wellFormed_of_mem_scan hx

/-- In a tree of a source, names are resolved exactly if they are declared: no name is a keyword, so
none means the object of a method. -/
theorem Parses.declared_iff {source : String} {c : ClassDecl} (h : Parses source c) :
    c.Declared ↔ ∀ r ∈ c.routines, ∀ name ∈ Statement.listVariables r.body,
      ((r.context c).resolve name).isSome := by
  have hthis {r : RoutineDecl} (hr : r ∈ c.routines) {name : String}
      (hn : name ∈ Statement.listVariables r.body) : name ≠ "this" := by
    rintro rfl
    have hm := ClassDecl.identifier_mem hr hn
    rw [h.2] at hm
    have hw := (Terminal.wellFormed_of_mem_scan hm).2
    revert hw
    decide
  constructor
  · intro hd r hr name hn
    exact (RoutineDecl.isSome_resolve_iff (hthis hr hn)).mpr (hd r hr name hn)
  · intro hk r hr name hn
    exact (RoutineDecl.isSome_resolve_iff (hthis hr hn)).mp (hk r hr name hn)

theorem compileText_eq_ok_iff_run {source text : String} :
    compileText source = .ok text ↔ ∃ input s, Lookahead.ofSource (Comment.strip source) = .ok input ∧
      Session.run Goal.classGoals (Session.start input {}) = .ok () s ∧
      text = s.writer.sink.contents := by
  simp only [compileText, compileInto]
  cases Lookahead.ofSource (Comment.strip source) with
  | error e => simp [Except.map]
  | ok input =>
    simp only [compileTokens]
    have hs : Session.start input {} = { input, writer := { sink := {} } } := rfl
    cases hr : Session.run Goal.classGoals { input, writer := { sink := {} } } with
    | ok u s => simp [Except.map, hs, hr, eq_comm]
    | error e s => simp [Except.map, hs, hr]

/-- A source whose tokens compile parses as a tree, and the text is that of the tree's commands. -/
theorem Parses.of_run {source : String} {input : Lookahead} {s : Session}
    (hi : Lookahead.ofSource (Comment.strip source) = .ok input)
    (hr : Session.run Goal.classGoals (Session.start input {}) = .ok () s) :
    ∃ c : ClassDecl, Parses source c ∧ c.Declared ∧
      s.writer.sink.contents = Vm.programText c.code := by
  obtain ⟨c, hc, hk, hw⟩ := Session.run_class_sound hr
  have hp : Parses source c := (Lookahead.reads_atEnd_iff _).mp ⟨input, hi, hc⟩
  refine ⟨c, hp, hp.declared_iff.mpr hk, ?_⟩
  rw [hw]
  exact String.empty_append

/-- **A source compiles exactly if it parses with all its variables declared**, and then to the
commands of its tree. -/
theorem compileText_eq_ok_iff {source text : String} :
    compileText source = .ok text ↔
      ∃ c : ClassDecl, Parses source c ∧ c.Declared ∧ text = Vm.programText c.code := by
  rw [compileText_eq_ok_iff_run]
  constructor
  · rintro ⟨input, s, hi, hr, rfl⟩
    exact Parses.of_run hi hr
  · rintro ⟨c, hp, hd, rfl⟩
    obtain ⟨input, hi, j, hc, hj⟩ := (Lookahead.reads_atEnd_iff _).mpr hp
    have hl : ({} : Sink).limit = none := rfl
    obtain ⟨s, hr⟩ := Session.run_class_complete hl hc hj (hp.declared_iff.mp hd)
    obtain ⟨c', hp', -, ht⟩ := Parses.of_run hi hr
    obtain rfl := hp.unique hp'
    exact ⟨input, s, hi, hr, ht.symm⟩

/-- **Compiling is translating the tree of the source**: it parses as one tree, and the text is the
lines of the commands of that tree. -/
theorem compileText_eq_translation {source text : String} (h : compileText source = .ok text) :
    ∃ c : ClassDecl, Parses source c ∧ (∀ c', Parses source c' → c' = c) ∧ c.Declared ∧
      text = Vm.programText c.code := by
  obtain ⟨c, hp, hd, ht⟩ := compileText_eq_ok_iff.mp h
  exact ⟨c, hp, fun c' => hp.unique, hd, ht⟩

/-- A method whose local hides a field of its class, with elements of an array, a condition, and calls
with and without an object. -/
theorem compileText_eq_translation_method :
    let source := "class P\x7bfield int n,a;method void f(int x)\x7bvar P n;"
      ++ "if(a[x]=0)\x7bdo g(-x);do n.h();\x7dlet a[x]=n;\x7d\x7d"
    let text := "function P.f 1\npush argument 0\npop pointer 0\npush this 1\npush argument 1\n"
      ++ "add\npop pointer 1\npush that 0\npush constant 0\neq\nnot\nif-goto IF_0\n"
      ++ "push pointer 0\npush argument 1\nneg\ncall P.g 2\npop temp 0\npush local 0\n"
      ++ "call P.h 1\npop temp 0\ngoto IF_1\nlabel IF_0\nlabel IF_1\npush argument 1\n"
      ++ "push this 1\nadd\npush local 0\npop temp 0\npop pointer 1\npush temp 0\npop that 0\n"
      ++ "push constant 0\nreturn\n"
    compileText source = .ok text ∧ ∃ c : ClassDecl, Parses source c ∧
      (∀ c', Parses source c' → c' = c) ∧ c.Declared ∧ text = Vm.programText c.code := by
  intro source text
  have h : compileText source = .ok text := by decide +kernel
  exact ⟨h, compileText_eq_translation h⟩

/-- **A source compiles exactly if** all of it is tokens, the tokens are the terminals of a class, and
every variable is declared. -/
theorem exists_compileText_eq_ok_iff (source : String) :
    (∃ text, compileText source = .ok text) ↔
      (∀ e, Except.error e ∉ scan (Comment.strip source)) ∧
        ∃ c : ClassDecl, c.terminals = Lookahead.terminalsOf (scan (Comment.strip source)) ∧
          c.Declared := by
  constructor
  · rintro ⟨text, h⟩
    obtain ⟨c, hp, hd, -⟩ := compileText_eq_ok_iff.mp h
    exact ⟨hp.1, c, hp.2, hd⟩
  · rintro ⟨he, c, ht, hd⟩
    exact ⟨_, compileText_eq_ok_iff.mpr ⟨c, ⟨he, ht⟩, hd, rfl⟩⟩

end JackStack
