import JackStack.Proofs.Grammar

/-!
# Proofs/Unambiguous — a text has one tree

Two trees of one sort that start the same text are the same tree, and the text behind them is the
same, as long as what follows cannot belong to either.

* `ClassDecl.terminals_injective` — two classes with the same terminals are the same class.
-/

namespace JackStack

open Terminal (Stops Pauses)

theorem Constant.keyword_injective {c d : Constant} (h : c.keyword = d.keyword) : c = d := by
  revert h
  cases c <;> cases d <;> decide

theorem UnaryOp.symbol_injective {a b : UnaryOp} (h : a.symbol = b.symbol) : a = b := by
  revert h
  cases a <;> cases b <;> decide

theorem BinaryOp.symbol_injective {a b : BinaryOp} (h : a.symbol = b.symbol) : a = b := by
  revert h
  cases a <;> cases b <;> decide

/-! ## Expressions -/

/-- A name in front of a text that goes on after it is no variable. -/
theorem Terminal.Pauses.ne_cons {c : Char} {r ts : List Terminal} (h : Pauses r.head?)
    (hc : c ∈ ['(', '.', '[']) : r ≠ .symbol c :: ts := by
  rintro rfl
  exact h.ne_symbol hc rfl

theorem Terminal.stops_cons {c : Char} {r : List Terminal} (hc : c ∈ [')', ']', ';', ',']) :
    Stops (Terminal.symbol c :: r).head? :=
  ⟨c, hc, rfl⟩

/-- A further term, or the end of an expression, is where a term ends. -/
theorem Expression.pauses_moreTerms {more : List (BinaryOp × Term)} {r : List Terminal}
    (hr : Stops r.head?) : Pauses (Expression.moreTerms more ++ r).head? := by
  match more with
  | [] => exact .inl hr
  | (op, t) :: more => exact .inr ⟨op, rfl⟩

/-- A further argument, or the end of a call, is where an expression ends. -/
theorem Call.stops_moreArguments {es : List Expression} {r : List Terminal} :
    Stops (Call.moreArguments es ++ .symbol ')' :: r).head? := by
  match es with
  | [] => exact Terminal.stops_cons (by decide)
  | e :: es => exact Terminal.stops_cons (by decide)

/-- An expression does not start with a closing bracket or a semicolon. -/
theorem Expression.ne_closed (e : Expression) {c : Char} (hc : c ∈ [')', ';'])
    {ts r : List Terminal} : e.terminals ++ ts ≠ .symbol c :: r := by
  obtain ⟨first, rest, he, hf⟩ := e.terminals_eq_cons
  rw [he]
  exact fun h => hf c hc (List.cons.inj h).1

mutual

theorem Term.eq_of_terminals (t t' : Term) {r r' : List Terminal}
    (h : t.terminals ++ r = t'.terminals ++ r') (hr : Pauses r.head?) (hr' : Pauses r'.head?) :
    t = t' ∧ r = r' := by
  match t with
  | .integer digits =>
    cases t' with
    | integer digits' => simpa [Term.terminals] using h
    | call c => cases c <;> simp [Term.terminals, Call.terminals] at h
    | _ => simp [Term.terminals, Terminal.parentheses] at h
  | .text body =>
    cases t' with
    | text body' => simpa [Term.terminals] using h
    | call c => cases c <;> simp [Term.terminals, Call.terminals] at h
    | _ => simp [Term.terminals, Terminal.parentheses] at h
  | .constant c =>
    cases t' with
    | constant c' =>
      simp only [Term.terminals, List.cons_append, List.nil_append, List.cons.injEq,
        Terminal.keyword.injEq] at h
      exact ⟨congrArg _ (Constant.keyword_injective h.1), h.2⟩
    | call c => cases c <;> simp [Term.terminals, Call.terminals] at h
    | _ => simp [Term.terminals, Terminal.parentheses] at h
  | .variable name =>
    cases t' with
    | «variable» name' => simpa [Term.terminals] using h
    | element array index => exact absurd (List.cons.inj h).2 (hr.ne_cons (by decide))
    | call c =>
      cases c with
      | own routine es => exact absurd (List.cons.inj h).2 (hr.ne_cons (by decide))
      | on receiver routine es => exact absurd (List.cons.inj h).2 (hr.ne_cons (by decide))
    | _ => simp [Term.terminals, Terminal.parentheses] at h
  | .element array index =>
    cases t' with
    | «variable» name => exact absurd (List.cons.inj h).2.symm (hr'.ne_cons (by decide))
    | element array' index' =>
      simp only [Term.terminals, Terminal.brackets, List.cons_append, List.append_assoc,
        List.nil_append, List.cons.injEq, Terminal.identifier.injEq, true_and] at h
      obtain ⟨rfl, h⟩ := h
      obtain ⟨rfl, h₁⟩ := Expression.eq_of_terminals index index' h
        (Terminal.stops_cons (by decide)) (Terminal.stops_cons (by decide))
      exact ⟨rfl, (List.cons.inj h₁).2⟩
    | call c =>
      cases c <;> simp [Term.terminals, Call.terminals, Terminal.parentheses,
        Terminal.brackets] at h
    | _ => simp [Term.terminals, Terminal.parentheses] at h
  | .call c =>
    cases t' with
    | «variable» name =>
      cases c with
      | own routine es => exact absurd (List.cons.inj h).2.symm (hr'.ne_cons (by decide))
      | on receiver routine es => exact absurd (List.cons.inj h).2.symm (hr'.ne_cons (by decide))
    | call c' =>
      obtain ⟨rfl, h₁⟩ := Call.eq_of_terminals c c' h
      exact ⟨rfl, h₁⟩
    | _ =>
      cases c <;> simp [Term.terminals, Call.terminals, Terminal.parentheses,
        Terminal.brackets] at h
  | .group inner =>
    cases t' with
    | group inner' =>
      simp only [Term.terminals, Terminal.parentheses, List.cons_append, List.append_assoc,
        List.nil_append, List.cons.injEq, true_and] at h
      obtain ⟨rfl, h₁⟩ := Expression.eq_of_terminals inner inner' h
        (Terminal.stops_cons (by decide)) (Terminal.stops_cons (by decide))
      exact ⟨rfl, (List.cons.inj h₁).2⟩
    | unary op operand => cases op <;> simp [Term.terminals, Terminal.parentheses,
        UnaryOp.symbol] at h
    | call c => cases c <;> simp [Term.terminals, Call.terminals, Terminal.parentheses] at h
    | _ => simp [Term.terminals, Terminal.parentheses] at h
  | .unary op operand =>
    cases t' with
    | unary op' operand' =>
      simp only [Term.terminals, List.cons_append, List.cons.injEq, Terminal.symbol.injEq] at h
      obtain rfl := UnaryOp.symbol_injective h.1
      obtain ⟨rfl, h₁⟩ := Term.eq_of_terminals operand operand' h.2 hr hr'
      exact ⟨rfl, h₁⟩
    | group inner => cases op <;> simp [Term.terminals, Terminal.parentheses,
        UnaryOp.symbol] at h
    | call c => cases c <;> simp [Term.terminals, Call.terminals] at h
    | _ => simp [Term.terminals] at h

theorem Expression.eq_of_terminals (e e' : Expression) {r r' : List Terminal}
    (h : e.terminals ++ r = e'.terminals ++ r') (hr : Stops r.head?) (hr' : Stops r'.head?) :
    e = e' ∧ r = r' := by
  match e, e' with
  | .chain first more, .chain first' more' =>
    simp only [Expression.terminals, List.append_assoc] at h
    obtain ⟨rfl, h₁⟩ := Term.eq_of_terminals first first' h (Expression.pauses_moreTerms hr)
      (Expression.pauses_moreTerms hr')
    obtain ⟨rfl, h₂⟩ := Expression.eq_of_moreTerms more more' h₁ hr hr'
    exact ⟨rfl, h₂⟩

theorem Expression.eq_of_moreTerms (more more' : List (BinaryOp × Term)) {r r' : List Terminal}
    (h : Expression.moreTerms more ++ r = Expression.moreTerms more' ++ r') (hr : Stops r.head?)
    (hr' : Stops r'.head?) : more = more' ∧ r = r' := by
  match more, more' with
  | [], [] => exact ⟨rfl, h⟩
  | [], (op, t) :: more' => exact absurd (congrArg List.head? h) (hr.ne_operator op)
  | (op, t) :: more, [] => exact absurd (congrArg List.head? h).symm (hr'.ne_operator op)
  | (op, t) :: more, (op', t') :: more' =>
    simp only [Expression.moreTerms, List.cons_append, List.append_assoc, List.cons.injEq,
      Terminal.symbol.injEq] at h
    obtain rfl := BinaryOp.symbol_injective h.1
    obtain ⟨rfl, h₁⟩ := Term.eq_of_terminals t t' h.2 (Expression.pauses_moreTerms hr) (Expression.pauses_moreTerms hr')
    obtain ⟨rfl, h₂⟩ := Expression.eq_of_moreTerms more more' h₁ hr hr'
    exact ⟨rfl, h₂⟩

theorem Call.eq_of_terminals (c c' : Call) {r r' : List Terminal}
    (h : c.terminals ++ r = c'.terminals ++ r') : c = c' ∧ r = r' := by
  match c, c' with
  | .own routine es, .own routine' es' =>
    simp only [Call.terminals, Terminal.parentheses, List.cons_append, List.append_assoc,
      List.nil_append, List.cons.injEq, Terminal.identifier.injEq, true_and] at h
    obtain ⟨rfl, h⟩ := h
    obtain ⟨rfl, h₁⟩ := Call.eq_of_list es es' h
    exact ⟨rfl, h₁⟩
  | .on receiver routine es, .on receiver' routine' es' =>
    simp only [Call.terminals, Terminal.parentheses, List.cons_append, List.append_assoc,
      List.nil_append, List.cons.injEq, Terminal.identifier.injEq, true_and] at h
    obtain ⟨rfl, rfl, h⟩ := h
    obtain ⟨rfl, h₁⟩ := Call.eq_of_list es es' h
    exact ⟨rfl, h₁⟩
  | .own routine es, .on receiver' routine' es' =>
    simp [Call.terminals, Terminal.parentheses] at h
  | .on receiver routine es, .own routine' es' =>
    simp [Call.terminals, Terminal.parentheses] at h

theorem Call.eq_of_list (es es' : List Expression) {r r' : List Terminal}
    (h : Call.list es ++ .symbol ')' :: r = Call.list es' ++ .symbol ')' :: r') :
    es = es' ∧ r = r' := by
  match es, es' with
  | [], [] => exact ⟨rfl, (List.cons.inj h).2⟩
  | [], e :: es =>
    simp only [Call.list, List.append_assoc, List.nil_append] at h
    exact absurd h.symm (e.ne_closed (by decide))
  | e :: es, [] =>
    simp only [Call.list, List.append_assoc, List.nil_append] at h
    exact absurd h (e.ne_closed (by decide))
  | e :: es, e' :: es' =>
    simp only [Call.list, List.append_assoc] at h
    obtain ⟨rfl, h₁⟩ := Expression.eq_of_terminals e e' h Call.stops_moreArguments Call.stops_moreArguments
    obtain ⟨rfl, h₂⟩ := Call.eq_of_moreArguments es es' h₁
    exact ⟨rfl, h₂⟩

theorem Call.eq_of_moreArguments (es es' : List Expression) {r r' : List Terminal}
    (h : Call.moreArguments es ++ .symbol ')' :: r = Call.moreArguments es' ++ .symbol ')' :: r') :
    es = es' ∧ r = r' := by
  match es, es' with
  | [], [] => exact ⟨rfl, (List.cons.inj h).2⟩
  | [], e :: es => simp [Call.moreArguments] at h
  | e :: es, [] => simp [Call.moreArguments] at h
  | e :: es, e' :: es' =>
    simp only [Call.moreArguments, List.cons_append, List.append_assoc, List.cons.injEq,
      true_and] at h
    obtain ⟨rfl, h₁⟩ := Expression.eq_of_terminals e e' h Call.stops_moreArguments Call.stops_moreArguments
    obtain ⟨rfl, h₂⟩ := Call.eq_of_moreArguments es es' h₁
    exact ⟨rfl, h₂⟩

end

/-! ## Statements -/

theorem Statement.ne_brace (st : Statement) {ts r : List Terminal} :
    st.terminals ++ ts ≠ .symbol '}' :: r := by
  obtain ⟨k, rest, hst, -⟩ := st.terminals_eq_cons
  rw [hst]
  exact fun h => nomatch (List.cons.inj h).1

theorem Statement.ne_else (body : List Statement) {r : List Terminal} :
    (Statement.list body ++ .symbol '}' :: r).head? ≠ some (.keyword .else) := by
  match body with
  | [] => exact fun h => nomatch h
  | st :: body =>
    obtain ⟨k, rest, hst, hk⟩ := st.terminals_eq_cons
    rw [Statement.list, hst]
    rintro ⟨⟩
    exact hk (by decide)

mutual

theorem Statement.eq_of_terminals (st st' : Statement) {r r' : List Terminal}
    (h : st.terminals ++ r = st'.terminals ++ r') (hr : r.head? ≠ some (.keyword .else))
    (hr' : r'.head? ≠ some (.keyword .else)) : st = st' ∧ r = r' := by
  match st with
  | .assign name value =>
    cases st' with
    | assign name' value' =>
      simp only [Statement.terminals, List.cons_append, List.append_assoc, List.nil_append,
        List.cons.injEq, Terminal.identifier.injEq, true_and] at h
      obtain ⟨rfl, h⟩ := h
      obtain ⟨rfl, h₁⟩ := Expression.eq_of_terminals value value' h
        (Terminal.stops_cons (by decide)) (Terminal.stops_cons (by decide))
      exact ⟨rfl, (List.cons.inj h₁).2⟩
    | «return» o => cases o <;> simp [Statement.terminals] at h
    | _ => simp [Statement.terminals, Terminal.brackets] at h
  | .assignElement array index value =>
    cases st' with
    | assignElement array' index' value' =>
      simp only [Statement.terminals, Terminal.brackets, List.cons_append, List.append_assoc,
        List.nil_append, List.cons.injEq, Terminal.identifier.injEq, true_and] at h
      obtain ⟨rfl, h⟩ := h
      obtain ⟨rfl, h₁⟩ := Expression.eq_of_terminals index index' h
        (Terminal.stops_cons (by decide)) (Terminal.stops_cons (by decide))
      simp only [List.cons.injEq, true_and] at h₁
      obtain ⟨rfl, h₂⟩ := Expression.eq_of_terminals value value' h₁
        (Terminal.stops_cons (by decide)) (Terminal.stops_cons (by decide))
      exact ⟨rfl, (List.cons.inj h₂).2⟩
    | «return» o => cases o <;> simp [Statement.terminals] at h
    | _ => simp [Statement.terminals, Terminal.brackets] at h
  | .branch e body o =>
    cases st' with
    | branch e' body' o' =>
      simp only [Statement.terminals, Terminal.parentheses, Terminal.braces, List.cons_append,
        List.append_assoc, List.nil_append, List.cons.injEq, true_and] at h
      obtain ⟨rfl, h₁⟩ := Expression.eq_of_terminals e e' h
        (Terminal.stops_cons (by decide)) (Terminal.stops_cons (by decide))
      simp only [List.cons.injEq, true_and] at h₁
      obtain ⟨rfl, h₂⟩ := Statement.eq_of_list body body' h₁
      obtain ⟨rfl, h₃⟩ := Statement.eq_of_otherwise o o' h₂ hr hr'
      exact ⟨rfl, h₃⟩
    | «return» o => cases o <;> simp [Statement.terminals] at h
    | _ => simp [Statement.terminals] at h
  | .loop e body =>
    cases st' with
    | loop e' body' =>
      simp only [Statement.terminals, Terminal.parentheses, Terminal.braces, List.cons_append,
        List.append_assoc, List.nil_append, List.cons.injEq, true_and] at h
      obtain ⟨rfl, h₁⟩ := Expression.eq_of_terminals e e' h
        (Terminal.stops_cons (by decide)) (Terminal.stops_cons (by decide))
      simp only [List.cons.injEq, true_and] at h₁
      obtain ⟨rfl, h₂⟩ := Statement.eq_of_list body body' h₁
      exact ⟨rfl, h₂⟩
    | «return» o => cases o <;> simp [Statement.terminals] at h
    | _ => simp [Statement.terminals] at h
  | .perform c =>
    cases st' with
    | perform c' =>
      simp only [Statement.terminals, List.cons_append, List.append_assoc, List.nil_append,
        List.cons.injEq, true_and] at h
      obtain ⟨rfl, h₁⟩ := Call.eq_of_terminals c c' h
      exact ⟨rfl, (List.cons.inj h₁).2⟩
    | «return» o => cases o <;> simp [Statement.terminals] at h
    | _ => simp [Statement.terminals] at h
  | .return none =>
    match st' with
    | .return none => simpa [Statement.terminals] using h
    | .return (some e) =>
      simp only [Statement.terminals, List.cons_append, List.append_assoc, List.nil_append,
        List.cons.injEq, true_and] at h
      exact absurd h.symm (e.ne_closed (by decide))
    | .assign .. | .assignElement .. | .branch .. | .loop .. | .perform _ =>
      simp [Statement.terminals] at h
  | .return (some e) =>
    match st' with
    | .return (some e') =>
      simp only [Statement.terminals, List.cons_append, List.append_assoc, List.nil_append,
        List.cons.injEq, true_and] at h
      obtain ⟨rfl, h₁⟩ := Expression.eq_of_terminals e e' h
        (Terminal.stops_cons (by decide)) (Terminal.stops_cons (by decide))
      exact ⟨rfl, (List.cons.inj h₁).2⟩
    | .return none =>
      simp only [Statement.terminals, List.cons_append, List.append_assoc, List.nil_append,
        List.cons.injEq, true_and] at h
      exact absurd h (e.ne_closed (by decide))
    | .assign .. | .assignElement .. | .branch .. | .loop .. | .perform _ =>
      simp [Statement.terminals] at h

theorem Statement.eq_of_list (body body' : List Statement) {r r' : List Terminal}
    (h : Statement.list body ++ .symbol '}' :: r = Statement.list body' ++ .symbol '}' :: r') :
    body = body' ∧ r = r' := by
  match body, body' with
  | [], [] => exact ⟨rfl, (List.cons.inj h).2⟩
  | [], st :: body' =>
    simp only [Statement.list, List.append_assoc, List.nil_append] at h
    exact absurd h.symm st.ne_brace
  | st :: body, [] =>
    simp only [Statement.list, List.append_assoc, List.nil_append] at h
    exact absurd h st.ne_brace
  | st :: body, st' :: body' =>
    simp only [Statement.list, List.append_assoc] at h
    obtain ⟨rfl, h₁⟩ := Statement.eq_of_terminals st st' h (Statement.ne_else body)
      (Statement.ne_else body')
    obtain ⟨rfl, h₂⟩ := Statement.eq_of_list body body' h₁
    exact ⟨rfl, h₂⟩

theorem Statement.eq_of_otherwise (o o' : Option (List Statement)) {r r' : List Terminal}
    (h : Statement.otherwise o ++ r = Statement.otherwise o' ++ r')
    (hr : r.head? ≠ some (.keyword .else)) (hr' : r'.head? ≠ some (.keyword .else)) :
    o = o' ∧ r = r' := by
  match o, o' with
  | none, none => exact ⟨rfl, h⟩
  | none, some body => exact absurd (congrArg List.head? h) hr
  | some body, none => exact absurd (congrArg List.head? h).symm hr'
  | some body, some body' =>
    simp only [Statement.otherwise, Terminal.braces, List.cons_append, List.append_assoc,
      List.nil_append, List.cons.injEq, true_and] at h
    obtain ⟨rfl, h₁⟩ := Statement.eq_of_list body body' h
    exact ⟨rfl, h₁⟩

end

/-! ## Declarations -/

theorem TypeName.terminal_injective {a b : TypeName} (h : a.terminal = b.terminal) : a = b := by
  cases a <;> cases b <;> simp_all [TypeName.terminal]

theorem TypeName.returned_injective {a b : Option TypeName}
    (h : TypeName.returned a = TypeName.returned b) : a = b := by
  cases a with
  | none =>
    cases b with
    | none => rfl
    | some b => cases b <;> cases h
  | some a =>
    cases b with
    | none => cases a <;> cases h
    | some b => exact congrArg some (TypeName.terminal_injective h)

theorem RoutineKind.keyword_injective {a b : RoutineKind} (h : a.keyword = b.keyword) :
    a = b := by
  revert h
  cases a <;> cases b <;> decide

/-- **Repetition is unambiguous** if items are, and the text behind does not start an item. -/
theorem eq_of_flatMap {α : Type} {f : α → List Terminal} {P : Terminal → Prop}
    (starts : ∀ x, ∃ t ts, f x = t :: ts ∧ P t)
    (one : ∀ x y r r', f x ++ r = f y ++ r' → x = y ∧ r = r') (xs ys : List α)
    {t t' : Terminal} {r r' : List Terminal}
    (h : xs.flatMap f ++ t :: r = ys.flatMap f ++ t' :: r') (ht : ¬ P t) (ht' : ¬ P t') :
    xs = ys ∧ t = t' ∧ r = r' := by
  induction xs generalizing ys with
  | nil =>
    cases ys with
    | nil => exact ⟨rfl, List.cons.inj h⟩
    | cons y ys =>
      obtain ⟨u, us, hy, hu⟩ := starts y
      simp only [List.flatMap_nil, List.nil_append, List.flatMap_cons, hy, List.cons_append] at h
      exact absurd hu ((List.cons.inj h).1 ▸ ht)
  | cons x xs ih =>
    cases ys with
    | nil =>
      obtain ⟨u, us, hx, hu⟩ := starts x
      simp only [List.flatMap_nil, List.nil_append, List.flatMap_cons, hx, List.cons_append] at h
      exact absurd hu ((List.cons.inj h).1 ▸ ht')
    | cons y ys =>
      simp only [List.flatMap_cons, List.append_assoc] at h
      obtain ⟨rfl, h₁⟩ := one x y _ _ h
      obtain ⟨rfl, h₂⟩ := ih ys h₁
      exact ⟨rfl, h₂⟩

theorem VariableList.eq_of_terminals (l l' : VariableList) {r r' : List Terminal}
    (h : l.terminals ++ r = l'.terminals ++ r') : l = l' ∧ r = r' := by
  obtain ⟨type, first, more⟩ := l
  obtain ⟨type', first', more'⟩ := l'
  simp only [VariableList.terminals, List.cons_append, List.append_assoc, List.nil_append,
    List.cons.injEq, Terminal.identifier.injEq] at h
  obtain ⟨ht, rfl, h⟩ := h
  obtain rfl := TypeName.terminal_injective ht
  obtain ⟨rfl, -, h₁⟩ := eq_of_flatMap (P := (· = .symbol ',')) (fun x => ⟨_, _, rfl, rfl⟩)
    (fun x y r r' h => by simpa using h) more more' h (by decide) (by decide)
  exact ⟨rfl, h₁⟩

theorem ClassVariables.eq_of_terminals (v v' : ClassVariables) {r r' : List Terminal}
    (h : v.terminals ++ r = v'.terminals ++ r') : v = v' ∧ r = r' := by
  cases v with
  | statics l =>
    cases v' with
    | statics l' =>
      obtain ⟨rfl, h₁⟩ := VariableList.eq_of_terminals l l' (List.cons.inj h).2
      exact ⟨rfl, h₁⟩
    | fields l' => cases (List.cons.inj h).1
  | fields l =>
    cases v' with
    | statics l' => cases (List.cons.inj h).1
    | fields l' =>
      obtain ⟨rfl, h₁⟩ := VariableList.eq_of_terminals l l' (List.cons.inj h).2
      exact ⟨rfl, h₁⟩

theorem Parameter.eq_of_list (ps ps' : List Parameter) {r r' : List Terminal}
    (h : Parameter.list ps ++ .symbol ')' :: r = Parameter.list ps' ++ .symbol ')' :: r') :
    ps = ps' ∧ r = r' := by
  have hone (p q : Parameter) (r r' : List Terminal)
      (h : p.terminals ++ r = q.terminals ++ r') : p = q ∧ r = r' := by
    obtain ⟨type, name⟩ := p
    obtain ⟨type', name'⟩ := q
    simp only [Parameter.terminals, List.cons_append, List.nil_append, List.cons.injEq,
      Terminal.identifier.injEq] at h
    obtain ⟨ht, rfl, h⟩ := h
    obtain rfl := TypeName.terminal_injective ht
    exact ⟨rfl, h⟩
  have hne (p : Parameter) (ts r : List Terminal) : p.terminals ++ ts ≠ .symbol ')' :: r := by
    obtain ⟨type, name⟩ := p
    cases type <;> simp [Parameter.terminals, TypeName.terminal]
  cases ps with
  | nil =>
    cases ps' with
    | nil => exact ⟨rfl, (List.cons.inj h).2⟩
    | cons p ps' =>
      simp only [Parameter.list, List.append_assoc, List.nil_append] at h
      exact absurd h.symm (hne p _ _)
  | cons p ps =>
    cases ps' with
    | nil =>
      simp only [Parameter.list, List.append_assoc, List.nil_append] at h
      exact absurd h (hne p _ _)
    | cons p' ps' =>
      simp only [Parameter.list, List.append_assoc] at h
      obtain ⟨rfl, h₁⟩ := hone p p' _ _ h
      obtain ⟨rfl, -, h₂⟩ := eq_of_flatMap (P := (· = .symbol ','))
        (fun x => ⟨_, _, rfl, rfl⟩)
        (fun x y r r' h => hone x y r r' (List.cons.inj h).2) ps ps' h₁ (by decide) (by decide)
      exact ⟨rfl, h₂⟩

/-! ## Subroutines and classes -/

theorem Statement.list_eq_cons (body : List Statement) (r : List Terminal) :
    ∃ t ts, Statement.list body ++ .symbol '}' :: r = t :: ts ∧ t ≠ .keyword .var := by
  match body with
  | [] => exact ⟨_, _, rfl, by decide⟩
  | st :: body =>
    obtain ⟨k, rest, hst, hk⟩ := st.terminals_eq_cons
    refine ⟨.keyword k, _, by rw [Statement.list, hst]; rfl, ?_⟩
    rintro ⟨⟩
    exact hk (by decide)

theorem RoutineDecl.eq_of_bodyTerminals (ls ls' : List VariableList) (body body' : List Statement)
    {r r' : List Terminal}
    (h : (ls.flatMap fun l => .keyword .var :: l.terminals) ++ (Statement.list body
        ++ .symbol '}' :: r) = (ls'.flatMap fun l => .keyword .var :: l.terminals)
        ++ (Statement.list body' ++ .symbol '}' :: r')) :
    ls = ls' ∧ body = body' ∧ r = r' := by
  obtain ⟨t, ts, hb, ht⟩ := Statement.list_eq_cons body r
  obtain ⟨t', ts', hb', ht'⟩ := Statement.list_eq_cons body' r'
  rw [hb, hb'] at h
  obtain ⟨rfl, rfl, rfl⟩ := eq_of_flatMap (P := (· = .keyword .var)) (fun x => ⟨_, _, rfl, rfl⟩)
    (fun x y r r' h => VariableList.eq_of_terminals x y (List.cons.inj h).2) ls ls' h ht ht'
  obtain ⟨rfl, h₁⟩ := Statement.eq_of_list body body' (hb.trans hb'.symm)
  exact ⟨rfl, rfl, h₁⟩

theorem RoutineDecl.eq_of_terminals (d d' : RoutineDecl) {r r' : List Terminal}
    (h : d.terminals ++ r = d'.terminals ++ r') : d = d' ∧ r = r' := by
  obtain ⟨kind, returnType, name, ps, ls, body⟩ := d
  obtain ⟨kind', returnType', name', ps', ls', body'⟩ := d'
  simp only [RoutineDecl.terminals, RoutineDecl.bodyTerminals, Terminal.parentheses,
    Terminal.braces, List.cons_append, List.append_assoc, List.nil_append, List.cons.injEq,
    Terminal.identifier.injEq, Terminal.keyword.injEq, true_and] at h
  obtain ⟨hk, ht, rfl, h⟩ := h
  obtain rfl := RoutineKind.keyword_injective hk
  obtain rfl := TypeName.returned_injective ht
  obtain ⟨rfl, h₁⟩ := Parameter.eq_of_list ps ps' h
  obtain ⟨rfl, rfl, h₂⟩ := RoutineDecl.eq_of_bodyTerminals ls ls' body body' (List.cons.inj h₁).2
  exact ⟨rfl, h₂⟩

/-- No variable of the class comes next where its subroutines start. -/
theorem ClassDecl.routines_eq_cons (c : ClassDecl) :
    ∃ t ts, c.routines.flatMap RoutineDecl.terminals ++ [.symbol '}'] = t :: ts ∧
      ¬ (t = .keyword .static ∨ t = .keyword .field) := by
  obtain ⟨name, vs, rs⟩ := c
  cases rs with
  | nil => exact ⟨_, _, rfl, by decide⟩
  | cons r rs => exact ⟨.keyword r.kind.keyword, _, rfl, by cases r.kind <;> decide⟩

/-- **Two classes with the same terminals are the same class.** -/
theorem ClassDecl.terminals_injective {c c' : ClassDecl} (h : c.terminals = c'.terminals) :
    c = c' := by
  obtain ⟨name, vs, rs⟩ := c
  obtain ⟨name', vs', rs'⟩ := c'
  simp only [ClassDecl.terminals, Terminal.braces, List.cons_append, List.append_assoc,
    List.cons.injEq, Terminal.identifier.injEq, true_and] at h
  obtain ⟨rfl, h⟩ := h
  obtain ⟨t, ts, hb, ht⟩ := routines_eq_cons ⟨name, vs, rs⟩
  obtain ⟨t', ts', hb', ht'⟩ := routines_eq_cons ⟨name, vs', rs'⟩
  rw [hb, hb'] at h
  obtain ⟨rfl, rfl, rfl⟩ := eq_of_flatMap (P := fun t => t = .keyword .static ∨ t = .keyword .field)
    (fun v => by cases v <;> exact ⟨_, _, rfl, by simp⟩)
    (fun v v' r r' h => ClassVariables.eq_of_terminals v v' h) vs vs' h ht ht'
  have hend : ¬ ∃ kind : RoutineKind, Terminal.symbol '}' = .keyword kind.keyword := by simp
  obtain ⟨rfl, -, -⟩ := eq_of_flatMap (f := RoutineDecl.terminals)
    (P := fun t => ∃ kind : RoutineKind, t = .keyword kind.keyword)
    (fun r => ⟨_, _, rfl, r.kind, rfl⟩)
    (fun d d' r r' h => RoutineDecl.eq_of_terminals d d' h) rs rs' (hb.trans hb'.symm) hend hend
  rfl

end JackStack
