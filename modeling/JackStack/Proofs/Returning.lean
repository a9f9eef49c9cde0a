import JackStack.Proofs.Discipline
import JackStack.Proofs.Following

/-!
# Proofs/Returning — how subroutines return

A subroutine without a value pushes 0 before every return, and a return ends it whether its source
says so or not. A subroutine with a value ends in a return exactly if its last statement is one. The
compiler decides this by the command that it wrote last, and warns where a return is missing.

* `RoutineDecl.Closed` — what the block of a subroutine keeps.
* `RoutineDecl.warnings`, `Session.Inside.warnings_compilesAll` — the warnings of a class.
* `Session.Arrives`, `Session.run_class_returns` — at the end of each body, the writer has returned
  exactly if the body ends in a return.
* `compileText_returns` — all of it, for every source that compiles.
-/

namespace JackStack

open Vm (Command)

/-! ## The last commands of a block -/

theorem Writer.returned_wrote (w : Writer) {code : List Command} (h : code ≠ []) :
    (w.wrote code).returned = decide (code.getLast? = some .return) := by
  obtain ⟨front, last, rfl⟩ := (List.eq_nil_or_concat' code).resolve_left h
  rw [returned_wrote_concat, List.getLast?_concat]
  exact decide_eq_decide.mpr Option.some_inj.symm

/-- What stands in front of the last command of an initial part. -/
theorem Vm.getElem?_of_initial {front block : List Command} {a b : Command} {i : Nat}
    (h : front ++ [a, b] <+: block) (hi : i + 1 = (front ++ [a, b]).length) :
    ∃ j, i = j + 1 ∧ block[j]? = some a := by
  obtain ⟨rest, rfl⟩ := h
  refine ⟨front.length, ?_, ?_⟩
  · rw [List.length_append] at hi
    exact Nat.succ.inj hi
  · simp

namespace RoutineDecl

variable {r : RoutineDecl} {c : ClassDecl} {m n : Nat}

/-- **How the block of a subroutine returns.** Without a value, 0 is pushed before every return, and
at the end this is done in any case. With a value, a return is at the end exactly if it is the last
statement. -/
structure Closed (r : RoutineDecl) (block : List Command) : Prop where
  preceded : r.returnType = none → ∀ i : Nat, block[i]? = some .return →
    ∃ j, i = j + 1 ∧ block[j]? = some (.push .constant 0)
  ends : r.returnType = none → [.push .constant 0, .return] <:+ block
  last : r.returnType ≠ none →
    (block.getLast? = some .return ↔ Statement.endsInReturn r.body = true)

/-- **The statements end in a return exactly if the commands do** that are written up to their
end. -/
theorem getLast?_body (hk : ∀ name ∈ Statement.listVariables r.body,
    ((r.context c).resolve name).isSome) :
    (r.prologue c ++ Statement.listCode (r.context c) m n r.body).getLast? = some .return ↔
      Statement.endsInReturn r.body = true := by
  have hne : r.prologue c ++ Statement.listCode (r.context c) m n r.body ≠ [] := by
    rw [prologue]
    exact List.cons_ne_nil _ _
  have hprologue : (({} : Writer).wrote (r.prologue c)).returned = false := by
    rw [prologue]
    cases r.kind <;> rfl
  have hbody := Writer.returned_listCode (({} : Writer).wrote (r.prologue c)) m n r.body hk
    fun _ => hprologue
  rw [← Writer.wrote_append, Writer.returned_wrote _ hne] at hbody
  rw [← hbody, decide_eq_true_iff]

theorem code_of_value (h : r.returnType ≠ none) :
    r.code c m n = r.prologue c ++ Statement.listCode (r.context c) m n r.body := by
  rw [code, epilogue, if_neg (by simp [h]), List.append_nil]

theorem returnCode_of_void (h : r.returnType = none) :
    (r.context c).returnCode = [.push .constant 0, .return] := by
  rw [Context.returnCode, context, if_pos (by simp [h])]

/-- A return statement of a subroutine without a value pushes 0 last. -/
theorem code_return_of_void (h : r.returnType = none) (value : Option Expression) :
    ∃ front, (Statement.return value).code (r.context c) m n =
      front ++ [.push .constant 0, .return] := by
  cases value with
  | none => exact ⟨[], by rw [Statement.code, returnCode_of_void h]; rfl⟩
  | some e => exact ⟨e.code (r.context c), by rw [Statement.code, returnCode_of_void h]⟩

/-- **Without a value, 0 is pushed before every return.** A return comes from a statement or from
the end of the subroutine. -/
theorem push_before_return (h : r.returnType = none)
    (hk : ∀ name ∈ Statement.listVariables r.body, ((r.context c).resolve name).isSome) {i : Nat}
    (hi : (r.code c m n)[i]? = some .return) :
    ∃ j, i = j + 1 ∧ (r.code c m n)[j]? = some (.push .constant 0) := by
  have hb := balances hk m n
  obtain ⟨s, hs, hret, hbehind⟩ | ⟨hvoid, hends, hlast, -⟩ := hb.returns i hi
  · obtain ⟨hinitial, m', n', hcode⟩ := hb.lies s hs
    obtain ⟨value, hvalue⟩ : ∃ value, s.statement = .return value := by
      cases hst : s.statement <;> simp [hst, Statement.isReturn] at hret
      exact ⟨_, rfl⟩
    rw [hvalue] at hcode
    obtain ⟨front, hfront⟩ := code_return_of_void (c := c) (m := m') (n := n') h value
    rw [hcode, hfront, ← List.append_assoc] at hinitial
    refine Vm.getElem?_of_initial hinitial ?_
    rw [hbehind, Stretch.behind, hcode, hfront, List.append_assoc, ← List.length_append]
  · have hcode : r.code c m n = r.prologue c ++ Statement.listCode (r.context c) m n r.body
        ++ [.push .constant 0, .return] := by
      rw [code, epilogue, if_pos (by simp [h, hends])]
    rw [hcode] at hlast ⊢
    exact Vm.getElem?_of_initial (List.prefix_refl _) hlast

/-- **Without a value, a block ends by returning 0.** -/
theorem code_ends (h : r.returnType = none)
    (hk : ∀ name ∈ Statement.listVariables r.body, ((r.context c).resolve name).isSome) :
    [.push .constant 0, .return] <:+ r.code c m n := by
  by_cases hends : Statement.endsInReturn r.body = true
  · have hcode : r.code c m n = r.prologue c ++ Statement.listCode (r.context c) m n r.body := by
      rw [code, epilogue, if_neg (by simp [hends]), List.append_nil]
    have hlast : (r.code c m n).getLast? = some .return := by
      rw [hcode]
      exact (getLast?_body hk).mpr hends
    -- the return at the end has its 0 in front of it, like any other
    obtain ⟨front, hfront⟩ := List.getLast?_eq_some_iff.mp hlast
    have hreturn : (r.code c m n)[front.length]? = some .return := by simp [hfront]
    obtain ⟨j, hj, hpush⟩ := push_before_return h hk hreturn
    have hpush : front.getLast? = some (.push .constant 0) := by
      rw [hfront, List.getElem?_append_left (by omega)] at hpush
      rw [List.getLast?_eq_getElem?, hj]
      exact hpush
    obtain ⟨front', rfl⟩ := List.getLast?_eq_some_iff.mp hpush
    exact ⟨front', by rw [hfront, List.append_assoc]; rfl⟩
  · refine ⟨r.prologue c ++ Statement.listCode (r.context c) m n r.body, ?_⟩
    rw [code, epilogue, if_pos (by simp [h, hends])]

/-- **The block of a subroutine is closed.** -/
theorem closed_code (hk : ∀ name ∈ Statement.listVariables r.body,
    ((r.context c).resolve name).isSome) : r.Closed (r.code c m n) where
  preceded h _ hi := push_before_return h hk hi
  ends h := code_ends h hk
  last h := by
    rw [code_of_value h]
    exact getLast?_body hk

end RoutineDecl

/-! ## Warnings -/

/-- **The warnings of a log.** -/
def Writer.warnings (w : Writer) : List Event :=
  w.log.toList.filter (·.level = .warn)

/-- **What the compiler warns of** in a subroutine: a missing return. -/
def RoutineDecl.warnings (c : ClassDecl) (r : RoutineDecl) : List Event :=
  if Statement.endsInReturn r.body then []
  else if r.returnType.isNone then [.returnAdded (qualifiedName c.name r.name)]
  else [.returnMissing (qualifiedName c.name r.name)]

/-- The text of the warning about a subroutine, if there is one. -/
def RoutineDecl.warningText (c : ClassDecl) (r : RoutineDecl) : List String :=
  if Statement.endsInReturn r.body then []
  else if r.returnType.isNone then
    [c.name ++ "." ++ r.name ++ " does not end with a return statement, returning implicitly"]
  else [c.name ++ "." ++ r.name ++ " does not end with a return statement"]

theorem RoutineDecl.map_message_warnings (c : ClassDecl) (r : RoutineDecl) :
    (r.warnings c).map Event.message = r.warningText c := by
  unfold warnings warningText
  split
  · rfl
  · split <;> rfl

namespace Writer

@[simp] theorem warnings_note (w : Writer) (e : Event) :
    (w.note e).warnings = w.warnings ++ if e.level = .warn then [e] else [] := by
  simp only [warnings, note, Array.toList_push, List.filter_append]
  by_cases h : e.level = .warn <;> simp [h]

@[simp] theorem warnings_wrote (w : Writer) (code : List Command) :
    (w.wrote code).warnings = w.warnings := by
  induction code generalizing w with
  | nil => rfl
  | cons command code ih =>
    rw [wrote_cons, ih]
    show (w.note (.commandWritten w.count command)).warnings = w.warnings
    rw [warnings_note, if_neg Level.noConfusion, List.append_nil]

end Writer

namespace Session

variable {s s' t : Session} {c : ClassDecl} {r : RoutineDecl} {routine : Routine}
  {ds : List Declaration} {body : List Statement} {i : Lookahead} {ts : List Terminal}

theorem compiles_iff : s.Compiles ts routine ds body s' ↔
    ∃ i, s.input.Reads ts i ∧ (s.opened routine ds).Knows (Statement.listVariables body) ∧
      (s.bodyDone routine ds body i).Closes s' :=
  Iff.rfl

theorem exists_writer_opened (s : Session) (routine : Routine) (ds : List Declaration) :
    ∃ name locals fields, (s.opened routine ds).writer =
      (s.writer.note (.routineStarted routine.kind name)).wrote
        (Code.prologue routine.kind name locals fields) :=
  ⟨_, _, _, rfl⟩

theorem returned_opened : (s.opened routine ds).writer.returned = false := by
  obtain ⟨name, locals, fields, hw⟩ := s.exists_writer_opened routine ds
  rw [hw]
  cases routine.kind <;> rfl

theorem warnings_opened : (s.opened routine ds).writer.warnings = s.writer.warnings := by
  obtain ⟨name, locals, fields, hw⟩ := s.exists_writer_opened routine ds
  rw [hw, Writer.warnings_wrote, Writer.warnings_note, if_neg Level.noConfusion, List.append_nil]

/-- **Behind the statements, the writer has returned exactly if they end in a return.** -/
theorem returned_bodyDone (hk : (s.opened routine ds).Knows (Statement.listVariables body)) :
    (s.bodyDone routine ds body i).writer.returned = Statement.endsInReturn body :=
  Writer.returned_listCode _ _ _ body hk fun _ => returned_opened

theorem warnings_bodyDone :
    (s.bodyDone routine ds body i).writer.warnings = s.writer.warnings := by
  rw [bodyDone, writer_after, Writer.warnings_wrote, warnings_opened]

/-- **Closing a subroutine warns** of a missing return. -/
theorem Closes.warnings (h : s.Closes s') :
    s'.writer.warnings = s.writer.warnings ++
      if s.writer.returned then []
      else if s.routine.returnsVoid then
        [.returnAdded (qualifiedName s.className s.routine.name)]
      else [.returnMissing (qualifiedName s.className s.routine.name)] := by
  unfold Closes at h
  dsimp only at h
  split at h
  · next hr => simp [h, hr]
  · next hr =>
    split at h
    · next hv =>
      obtain ⟨-, rfl⟩ := h
      simp [hr, hv, wrote, noted, Event.level]
    · next hv => simp [h, hr, hv, noted, Event.level]

/-- **Compiling a subroutine warns** of its missing return. -/
theorem Inside.warnings_compiles (h : s.Inside c)
    (hc : { s with scopes := s.scopes.enterRoutine }.Compiles ts
      ⟨r.kind, r.name, r.returnType.isNone⟩ (r.declarations s.className) r.body s') :
    s'.writer.warnings = s.writer.warnings ++ r.warnings c := by
  obtain ⟨i, -, hk, hc⟩ := compiles_iff.mp hc
  have hclass : ∀ t : Session, (t.bodyDone ⟨r.kind, r.name, r.returnType.isNone⟩
    (r.declarations s.className) r.body i).className = t.className := fun _ => rfl
  have hroutine : ∀ t : Session, (t.bodyDone ⟨r.kind, r.name, r.returnType.isNone⟩
    (r.declarations s.className) r.body i).routine = ⟨r.kind, r.name, r.returnType.isNone⟩ :=
      fun _ => rfl
  rw [hc.warnings, returned_bodyDone hk, warnings_bodyDone, hclass, hroutine, h.className]
  rfl

theorem Inside.warnings_compilesAll {rs : List RoutineDecl} (h : s.Inside c)
    (hc : s.CompilesAll rs s') :
    s'.writer.warnings = s.writer.warnings ++ rs.flatMap (·.warnings c) := by
  induction rs generalizing s with
  | nil =>
    obtain rfl : s' = s := hc
    simp
  | cons r rs ih =>
    obtain ⟨s₁, hone, hrest⟩ := hc
    obtain ⟨-, -, hi, -, -, -⟩ := h.compiles hone
    rw [ih hi hrest, h.warnings_compiles hone, List.flatMap_cons, List.append_assoc]

/-! ## Arriving at the end of a body -/

variable {gs hs rest : List Goal} {us : List Terminal} {input : Lookahead} {sink : Sink}

/-- **A run that succeeds comes to the end of the goals at its front**, and these are done then. -/
theorem exists_proceeds_of_run_append (h : run (gs ++ rest) s = .ok () s') :
    ∃ ts t, Proceeds (gs ++ rest) s ts rest t ∧ Goal.MeansAll gs s t ∧ run rest t = .ok () s' := by
  generalize hagenda : gs ++ rest = agenda at h ⊢
  fun_induction run agenda s generalizing gs with
  | case1 s =>
    obtain ⟨rfl, rfl⟩ := List.append_eq_nil_iff.mp hagenda
    exact ⟨[], s, .refl _ s, rfl, by rw [run]; exact h⟩
  | case2 s g rest' goals s₁ hp ih =>
    cases gs with
    | nil =>
      obtain rfl : rest = g :: rest' := hagenda
      exact ⟨[], s, .refl _ s, rfl, by rw [run_of_perform hp]; exact h⟩
    | cons g' gs =>
      obtain ⟨rfl, rfl⟩ := List.cons.inj hagenda
      obtain ⟨us, t, hproceeds, hmeans, hrun⟩ := ih (List.append_assoc goals gs rest) h
      obtain ⟨ts, hr, -⟩ := exists_reads_of_perform hp
      obtain ⟨u, hgoals, hgs⟩ := Goal.meansAll_append.mp hmeans
      exact ⟨ts ++ us, t, .step hp hr hproceeds, ⟨u, means_of_perform hp hgoals, hgs⟩, hrun⟩
  | case3 => cases h

theorem exists_perform_of_run {g : Goal} (h : run (g :: rest) s = .ok () s') :
    ∃ goals s₁, perform g s = .ok goals s₁ ∧ run (goals ++ rest) s₁ = .ok () s' := by
  cases hp : perform g s with
  | ok goals s₁ => exact ⟨goals, s₁, rfl, by rw [← run_of_perform hp]; exact h⟩
  | error e s₁ =>
    rw [run_of_perform_error hp] at h
    cases h

/-- **A run arrives at the end of a subroutine**: when it has read the terminals `ts`, the next goal
is to decide about a return, and the writer has returned exactly if the statements end in one. -/
def Arrives (gs : List Goal) (s : Session) (ts : List Terminal) (r : RoutineDecl) : Prop :=
  ∃ rest t, Proceeds gs s ts (.epilogue :: rest) t ∧
    t.routine = ⟨r.kind, r.name, r.returnType.isNone⟩ ∧
    t.writer.returned = Statement.endsInReturn r.body

theorem Proceeds.arrives (h : Proceeds gs s ts hs t) (ha : Arrives hs t us r) :
    Arrives gs s (ts ++ us) r := by
  obtain ⟨rest, u, hu, hroutine, hreturned⟩ := ha
  exact ⟨rest, u, h.trans hu, hroutine, hreturned⟩

/-- The terminals of a subroutine with another type, and those in front of the last one. -/
theorem terminals_typed (r : RoutineDecl) (type : Option TypeName) :
    { r with returnType := type }.terminals =
      { r with returnType := type }.terminals.dropLast ++ [.symbol '}'] ∧
    { r with returnType := type }.terminals.dropLast = [.keyword r.kind.keyword] ++
      ([TypeName.returned type] ++ r.terminals.tail.tail.dropLast) := by
  have htail := terminals_tail_tail r
  have hne : r.terminals.tail.tail ≠ [] := by
    rw [htail]
    exact List.concat_ne_nil _ _
  have hall : { r with returnType := type }.terminals =
      .keyword r.kind.keyword :: TypeName.returned type :: r.terminals.tail.tail := rfl
  have hdrop : { r with returnType := type }.terminals.dropLast = [.keyword r.kind.keyword] ++
      ([TypeName.returned type] ++ r.terminals.tail.tail.dropLast) := by
    rw [hall, List.dropLast_cons_of_ne_nil (List.cons_ne_nil _ _),
      List.dropLast_cons_of_ne_nil hne]
    rfl
  refine ⟨?_, hdrop⟩
  rw [hdrop, List.append_assoc, List.append_assoc, ← htail]
  exact hall

/-- **One subroutine**: a run arrives at its end and comes to the subroutines behind it. -/
theorem run_routine (h : run (.routines :: rest) s = .ok () s') :
    (Proceeds (.routines :: rest) s [] rest s ∧ run rest s = .ok () s') ∨
    ∃ r s₁, Arrives (.routines :: rest) s r.terminals.dropLast r ∧
      Proceeds (.routines :: rest) s r.terminals (.routines :: rest) s₁ ∧
      { s with scopes := s.scopes.enterRoutine }.Compiles r.terminals
        ⟨r.kind, r.name, r.returnType.isNone⟩ (r.declarations s.className) r.body s₁ ∧
      run (.routines :: rest) s₁ = .ok () s' := by
  obtain ⟨goals, u, hp, h⟩ := exists_perform_of_run h
  obtain ⟨kind, _, ⟨i₁, h₁, -, rfl⟩, rfl, rfl⟩ | ⟨-, rfl, rfl⟩ := perform_routines.mp hp
  · right
    obtain ⟨goals, u', hp', h⟩ := exists_perform_of_run h
    obtain ⟨type, ⟨i₂, h₂, -, rfl⟩, rfl⟩ := perform_returnType.mp hp'
    obtain ⟨goals, u'', hp'', h⟩ := exists_perform_of_run h
    obtain ⟨-, -, -, -, rfl⟩ := perform_routineName.mp hp''
    have h : run (bodyGoals ++ .epilogue :: .symbol '}' :: .routines :: rest) u'' = .ok () s' := h
    obtain ⟨ts, t, hbody, hmeans, h⟩ := exists_proceeds_of_run_append h
    obtain ⟨r₀, i, rfl, hr, hk, rfl⟩ := means_bodyGoals hp'' hmeans
    have h : run ([.epilogue, .symbol '}'] ++ .routines :: rest) _ = .ok () s' := h
    obtain ⟨us, s₁, hclose, ⟨t, hc, _, ⟨j, hj, -, rfl⟩, rfl⟩, h⟩ := exists_proceeds_of_run_append h
    obtain ⟨name, hname, -⟩ := exists_reads_of_perform hp''
    have hproceeds := Proceeds.step hp h₁ (.step hp' h₂ (.step hp'' hname hbody))
    let r : RoutineDecl := { r₀ with returnType := type }
    obtain ⟨hterminals, hdrop⟩ := terminals_typed r₀ type
    -- what has been read is told by where the stream stands
    have hread : s.input.Reads r.terminals.dropLast i := by
      rw [hdrop]
      exact Lookahead.reads_append.mpr ⟨_, h₁, Lookahead.reads_append.mpr ⟨_, h₂, hr⟩⟩
    rw [hc.input_eq] at hj
    have hall : s.input.Reads r.terminals j := by
      rw [hterminals]
      exact Lookahead.reads_append.mpr ⟨i, hread, hj⟩
    rw [hproceeds.reads.left_unique hread] at hproceeds
    have hbehind := hproceeds.trans hclose
    rw [hbehind.reads.left_unique hall] at hbehind
    exact ⟨r, _, ⟨_, _, hproceeds, rfl, returned_bodyDone hk⟩, hbehind, ⟨j, hall, hk, hc.at⟩, h⟩
  · exact .inl ⟨.last hp rfl, h⟩

/-- **All subroutines**: a run arrives at the end of each, one after the other. -/
theorem run_routines (h : run (.routines :: rest) s = .ok () s') :
    ∃ rs t, s.CompilesAll rs t ∧ run rest t = .ok () s' ∧
      ∀ before r after, rs = before ++ r :: after →
        Arrives (.routines :: rest) s
          (before.flatMap RoutineDecl.terminals ++ r.terminals.dropLast) r := by
  -- by induction on the tokens left: each subroutine reads some
  induction hn : s.input.remaining using Nat.strong_induction_on generalizing s with
  | h n ih =>
    subst hn
    obtain ⟨-, hrun⟩ | ⟨r, s₁, harrives, hproceeds, hc, hrun⟩ := run_routine h
    · exact ⟨[], s, rfl, hrun, fun before r after heq => absurd heq.symm (by simp)⟩
    · have hless : s₁.input.remaining < s.input.remaining := by
        obtain ⟨token, k, hnext, -, hk⟩ := hproceeds.reads
        exact Nat.lt_of_le_of_lt hk.remaining_le (Lookahead.remaining_of_next? hnext)
      obtain ⟨rs, t, hall, hrest, hlater⟩ := ih _ hless hrun rfl
      refine ⟨r :: rs, t, ⟨s₁, hc, hall⟩, hrest, fun before r' after heq => ?_⟩
      cases before with
      | nil =>
        obtain ⟨rfl, rfl⟩ := List.cons.inj heq
        exact harrives
      | cons r₁ before =>
        obtain ⟨rfl, rfl⟩ := List.cons.inj heq
        rw [List.flatMap_cons, List.append_assoc]
        exact hproceeds.arrives (hlater before r' after rfl)

/-- **A class**: the run arrives at the end of each subroutine, and its warnings are those of the
subroutines, in order. -/
theorem run_class_returns (h : run Goal.classGoals (start input sink) = .ok () s') :
    ∃ c : ClassDecl, (∃ j, input.Reads c.terminals j ∧ j.atEnd = true) ∧
      s'.writer.warnings = c.routines.flatMap (·.warnings c) ∧
      ∀ before r after, c.routines = before ++ r :: after →
        Arrives Goal.classGoals (start input sink)
          (openingTerminals c ++ (before.flatMap RoutineDecl.terminals ++ r.terminals.dropLast))
          r := by
  rw [classGoals_eq] at h ⊢
  obtain ⟨ts, t, hproceeds, hmeans, hrun⟩ := exists_proceeds_of_run_append h
  obtain ⟨name, vs, i, hopening⟩ := means_openingGoals hmeans
  obtain ⟨rs, u, hall, hrest, harrives⟩ := run_routines hrun
  obtain ⟨hr, rfl⟩ := hopening rs
  obtain ⟨_, ⟨j, hj, -, rfl⟩, _, ⟨hend, rfl⟩, rfl⟩ := means_of_run hrest
  have hinside := inside_atRoutines ⟨name, vs, rs⟩ sink i
  refine ⟨⟨name, vs, rs⟩, ⟨j, ?_, hend⟩, ?_, fun before r after heq => ?_⟩
  · rw [terminals_eq_opening]
    exact Lookahead.reads_append.mpr
      ⟨_, Lookahead.reads_append.mpr ⟨i, hr, (hinside.compilesAll hall).1⟩, hj⟩
  · have hw := hinside.warnings_compilesAll hall
    exact hw
  · rw [hproceeds.reads.left_unique hr] at hproceeds
    exact hproceeds.arrives (harrives before r after heq)

end Session

/-! ## Sources -/

theorem writer_compileInto {source : String} {input : Lookahead} {s : Session}
    (hi : Lookahead.ofSource (Comment.strip source) = .ok input)
    (hr : Session.run Goal.classGoals (Session.start input {}) = .ok () s) :
    (compileInto source {}).writer = s.writer := by
  have hs : Session.start input {} = { input, writer := { sink := {} } } := rfl
  rw [hs] at hr
  simp only [compileInto, hi, compileTokens, hr]

/-- **What is compiled returns as its source says.** The block of each subroutine is closed; the
warnings of the log are those about missing returns, in the order of the subroutines; and at the
end of each body the writer has returned exactly if the last statement is a return. -/
theorem compileText_returns {source text : String} (h : compileText source = .ok text) :
    ∃ c : ClassDecl, Parses source c ∧ text = Vm.programText c.code ∧
      List.Forall₂ (fun r block => (∃ m n, block = r.code c m n) ∧ r.Closed block) c.routines
        (Vm.blocks c.code) ∧
      (compileInto source {}).writer.warnings.map Event.message =
        c.routines.flatMap (·.warningText c) ∧
      ∃ input, Lookahead.ofSource (Comment.strip source) = .ok input ∧
        ∀ before r after, c.routines = before ++ r :: after →
          Session.Arrives Goal.classGoals (Session.start input {})
            (Session.openingTerminals c ++
              (before.flatMap RoutineDecl.terminals ++ r.terminals.dropLast)) r := by
  obtain ⟨c, hp, hd, rfl⟩ := compileText_eq_ok_iff.mp h
  obtain ⟨input, s, hi, hr, -⟩ := compileText_eq_ok_iff_run.mp h
  obtain ⟨c', hread, hwarnings, harrives⟩ := Session.run_class_returns hr
  obtain rfl : c' = c := hp.unique ((Lookahead.reads_atEnd_iff _).mp ⟨input, hi, hread⟩)
  refine ⟨c', hp, rfl, RoutineDecl.forall₂_blocks (fun r hr m n => ?_) 0 0, ?_, input, hi, harrives⟩
  · exact ⟨⟨m, n, rfl⟩, RoutineDecl.closed_code (hp.declared_iff.mp hd r hr)⟩
  · rw [writer_compileInto hi hr, hwarnings, List.map_flatMap]
    simp only [RoutineDecl.map_message_warnings]

/-- A constructor that ends in a return, a function that ends in a condition with two returns, a
method that ends in a return without a value, and a function without statements. -/
theorem compileText_returns_four :
    let source := "class A\x7bconstructor A new()\x7breturn this;\x7d"
      ++ "function int f(int x)\x7bif(x)\x7breturn 1;\x7delse\x7breturn 2;\x7d\x7d"
      ++ "method void g()\x7breturn;\x7dfunction void h()\x7b\x7d\x7d"
    let text := "function A.new 0\npush constant 0\ncall Memory.alloc 1\npop pointer 0\n"
      ++ "push pointer 0\nreturn\n"
      ++ "function A.f 0\npush argument 0\nnot\nif-goto IF_0\npush constant 1\nreturn\ngoto IF_1\n"
      ++ "label IF_0\npush constant 2\nreturn\nlabel IF_1\n"
      ++ "function A.g 0\npush argument 0\npop pointer 0\npush constant 0\nreturn\n"
      ++ "function A.h 0\npush constant 0\nreturn\n"
    compileText source = .ok text ∧
      (compileInto source {}).writer.warnings.map Event.message =
        ["A.f does not end with a return statement",
          "A.h does not end with a return statement, returning implicitly"] ∧
      ∃ c : ClassDecl, Parses source c ∧ text = Vm.programText c.code ∧
        List.Forall₂ (fun r block => (∃ m n, block = r.code c m n) ∧ r.Closed block) c.routines
          (Vm.blocks c.code) ∧
        (compileInto source {}).writer.warnings.map Event.message =
          c.routines.flatMap (·.warningText c) ∧
        ∃ input, Lookahead.ofSource (Comment.strip source) = .ok input ∧
          ∀ before r after, c.routines = before ++ r :: after →
            Session.Arrives Goal.classGoals (Session.start input {})
              (Session.openingTerminals c ++
                (before.flatMap RoutineDecl.terminals ++ r.terminals.dropLast)) r := by
  intro source text
  have h : compileText source = .ok text := by decide +kernel
  exact ⟨h, by decide +kernel, compileText_returns h⟩

end JackStack
