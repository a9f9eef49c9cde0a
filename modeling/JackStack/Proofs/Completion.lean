import JackStack.Proofs.Acceptance

/-!
# Proofs/Completion — every agenda can be finished

Each goal has a shortest text that does it, `Goal.fill`, and an agenda is finished by the texts of
its goals one after the other. A goal that ends where the next one begins, such as a list of
statements, has to see there that it ends: `Goal.Welcomes` says which tokens tell it so, and
`Goal.Ready` that in an agenda they come next. Doing goals keeps an agenda ready, so whatever was
read, there is a way to go on. Only the variable of an assignment is left out: if no variable is
declared, no text does that goal.

* `Goal.Ready.perform` — doing a goal leaves a ready agenda.
* `Session.perform_fill` — where the text of an agenda follows, its first goal is done.
* `Session.run_fills` — an agenda is finished by its text.
-/

namespace JackStack

open Vm (Command)

namespace Goal

/-! ## The text that finishes an agenda -/

/-- **The shortest text that does a goal**, of those that need no variable. -/
def fill : Goal → List Terminal
  | .symbol c => [.symbol c]
  | .keyword k => [.keyword k]
  | .className | .parameterName _ => [.identifier "x"]
  | .variableType _ => [.keyword .int, .identifier "x", .symbol ';']
  | .variableName .. => [.identifier "x", .symbol ';']
  | .moreVariables .. | .returned => [.symbol ';']
  | .returnType _ =>
    [.keyword .void, .identifier "x", .symbol '(', .symbol ')', .symbol '{', .symbol '}']
  | .routineName .. => [.identifier "x", .symbol '(', .symbol ')', .symbol '{', .symbol '}']
  | .parameterType => [.keyword .int, .identifier "x"]
  | .assignment _ => [.symbol '=', .integer "0", .symbol ';']
  | .conditional | .loop => [.symbol '(', .integer "0", .symbol ')', .symbol '{', .symbol '}']
  | .performed | .callee _ => [.identifier "x", .symbol '(', .symbol ')']
  | .expression | .term => [.integer "0"]
  | .reference .. | .call _ => [.symbol '(', .symbol ')']
  | .receiver .. | .arguments .. | .moreArguments .. => [.symbol ')']
  | _ => []

/-- **The text that finishes an agenda.** -/
def fills (gs : List Goal) : List Terminal :=
  gs.flatMap fill

@[simp] theorem fills_nil : fills [] = [] := rfl

@[simp] theorem fills_cons (g : Goal) (gs : List Goal) : fills (g :: gs) = g.fill ++ fills gs := rfl

@[simp] theorem fills_append (gs hs : List Goal) : fills (gs ++ hs) = fills gs ++ fills hs :=
  List.flatMap_append

/-! ## Agendas that can be finished -/

/-- **The token that may come behind the text of a goal**, and what the goal has to be like. -/
def Welcomes : Goal → Option Terminal → Prop
  | .symbol c, _ => isSymbol c = true
  | .keyword k, _ => k ≠ .let
  | .operate operator unary, _ => (Command.ofOperator? operator unary).isSome
  | .classVariables, next | .routines, next | .localVariables, next | .statements, next
  | .conditional, next | .otherwise, next => next = some (.symbol '}')
  | .parameters, next | .parameterType, next | .parameterName _, next
  | .moreParameters, next => next = some (.symbol ')')
  | .expression, next | .moreTerms, next => Terminal.Stops next
  | .sourceEnd, next => next = none
  | _, _ => True

/-- **An agenda is ready** if behind each of its goals comes what the goal welcomes, and none but
the first is the variable of an assignment. -/
def Ready : List Goal → Prop
  | [] => True
  | g :: gs => g.Welcomes (fills gs).head? ∧ .assigned ∉ gs ∧ Ready gs

@[simp] theorem ready_nil : Ready [] := trivial

@[simp] theorem ready_cons {g : Goal} {gs : List Goal} :
    Ready (g :: gs) ↔ g.Welcomes (fills gs).head? ∧ .assigned ∉ gs ∧ Ready gs := Iff.rfl

@[simp] theorem stops_symbol {c : Char} :
    Terminal.Stops (some (.symbol c)) ↔ c ∈ [')', ']', ';', ','] := by
  simp [Terminal.Stops]

theorem Ready.ne_let {g : Goal} {gs : List Goal} (h : Ready (g :: gs)) : g ≠ .keyword .let := by
  rintro rfl
  exact h.1 rfl

theorem Ready.eq_cons_of_mem {gs : List Goal} (h : Ready gs) (ha : .assigned ∈ gs) :
    ∃ rest, gs = .assigned :: rest := by
  cases gs with
  | nil => cases ha
  | cons g gs =>
    rcases List.mem_cons.mp ha with rfl | ha
    · exact ⟨gs, rfl⟩
    · exact absurd ha h.2.1

theorem ready_classGoals : Ready classGoals := by
  simp [classGoals, Welcomes, fill]
  decide

open Session JackStack.Action in
/-- **Doing a goal leaves a ready agenda.** -/
theorem Ready.perform {g : Goal} {gs rest : List Goal} {s s' : Session} (h : Ready (g :: rest))
    (hp : Returns (Session.perform g) s gs s') : Ready (gs ++ rest) := by
  obtain ⟨hw, ha, hr⟩ := h
  cases g with
  | symbol c =>
    obtain ⟨-, rfl⟩ := perform_symbol.mp hp
    exact hr
  | keyword k =>
    obtain ⟨-, rfl⟩ := perform_keyword.mp hp
    exact hr
  | write commands =>
    obtain ⟨-, rfl⟩ := perform_write.mp hp
    exact hr
  | operate operator unary =>
    obtain ⟨-, rfl⟩ := perform_operate.mp hp
    exact hr
  | className =>
    obtain ⟨name, s₁, -, -, rfl⟩ := perform_className.mp hp
    exact hr
  | announceClass =>
    obtain ⟨-, rfl⟩ := perform_announceClass.mp hp
    exact hr
  | classVariables =>
    rcases perform_classVariables.mp hp with ⟨-, rfl⟩ | ⟨-, rfl⟩ | ⟨-, -, rfl⟩
    · simp_all [Welcomes]
    · simp_all [Welcomes]
    · exact hr
  | routines =>
    rcases perform_routines.mp hp with ⟨kind, s₁, -, -, rfl⟩ | ⟨-, -, rfl⟩
    · simp_all [Welcomes]
    · exact hr
  | sourceEnd =>
    obtain ⟨-, -, rfl⟩ := perform_sourceEnd.mp hp
    exact hr
  | variableType kind =>
    obtain ⟨type, -, rfl⟩ := perform_variableType.mp hp
    simp_all [Welcomes]
  | variableName kind type =>
    obtain ⟨name, s₁, -, -, rfl⟩ := perform_variableName.mp hp
    simp_all [Welcomes]
  | moreVariables kind type =>
    rcases perform_moreVariables.mp hp with ⟨-, rfl⟩ | ⟨-, -, rfl⟩
    · simp_all [Welcomes]
    · simp_all [Welcomes, isSymbol, symbols]
  | returnType kind =>
    obtain ⟨type, -, rfl⟩ := perform_returnType.mp hp
    simp_all [Welcomes]
  | routineName kind returnsVoid =>
    obtain ⟨name, s₁, -, -, rfl⟩ := perform_routineName.mp hp
    simp_all [routineGoals, Welcomes, fill, isSymbol, symbols]
  | parameters =>
    obtain ⟨-, ⟨-, rfl⟩ | ⟨-, rfl⟩⟩ := perform_parameters.mp hp
    · exact hr
    · simp_all [Welcomes]
  | parameterType =>
    obtain ⟨type, -, rfl⟩ := perform_parameterType.mp hp
    simp_all [Welcomes]
  | parameterName type =>
    obtain ⟨name, s₁, -, -, rfl⟩ := perform_parameterName.mp hp
    simp_all [Welcomes]
  | moreParameters =>
    rcases perform_moreParameters.mp hp with ⟨-, rfl⟩ | ⟨-, -, rfl⟩
    · simp_all [Welcomes]
    · exact hr
  | announceRoutine =>
    obtain ⟨-, rfl⟩ := perform_announceRoutine.mp hp
    exact hr
  | localVariables =>
    rcases perform_localVariables.mp hp with ⟨-, rfl⟩ | ⟨-, -, rfl⟩
    · simp_all [Welcomes]
    · exact hr
  | prologue =>
    obtain ⟨-, rfl⟩ := perform_prologue.mp hp
    exact hr
  | epilogue =>
    obtain ⟨-, rfl⟩ := perform_epilogue.mp hp
    exact hr
  | statements =>
    rcases perform_statements.mp hp with ⟨k, goals, hk, -, rfl⟩ | ⟨-, -, rfl⟩
    · cases k with
      | «let» | «if» | «while» | «do» | «return» =>
        cases hk
        simp_all [Welcomes, fill, isSymbol, symbols]
      | _ => cases hk
    · exact hr
  | assigned =>
    obtain ⟨name, v, -, -, rfl⟩ := perform_assigned.mp hp
    simp_all [Welcomes]
  | assignment target =>
    rcases perform_assignment.mp hp with ⟨-, rfl⟩ | ⟨-, -, rfl⟩
    · simp_all [Welcomes, fill, isSymbol, symbols, Command.ofOperator?]
    · simp_all [Welcomes, fill, isSymbol, symbols]
  | conditional =>
    obtain ⟨-, rfl⟩ := perform_conditional.mp hp
    simp_all [condition, block, Welcomes, fill, isSymbol, symbols, Command.ofOperator?]
  | loop =>
    obtain ⟨-, rfl⟩ := perform_loop.mp hp
    simp_all [condition, block, Welcomes, fill, isSymbol, symbols, Command.ofOperator?]
  | otherwise =>
    rcases perform_otherwise.mp hp with ⟨-, rfl⟩ | ⟨-, -, rfl⟩
    · simp_all [block, Welcomes, fill, isSymbol, symbols]
    · exact hr
  | performed =>
    obtain ⟨name, -, rfl⟩ := perform_performed.mp hp
    simp_all [Welcomes]
  | returned =>
    obtain ⟨-, ⟨-, rfl⟩ | ⟨-, rfl⟩⟩ := perform_returned.mp hp
    · simp_all [Welcomes, isSymbol, symbols]
    · simp_all [Welcomes, fill, isSymbol, symbols]
  | expression =>
    obtain ⟨-, rfl⟩ := perform_expression.mp hp
    simp_all [Welcomes]
  | moreTerms =>
    rcases perform_moreTerms.mp hp with ⟨op, -, rfl⟩ | ⟨-, -, rfl⟩
    · simp_all [Welcomes, ofOperator?_binary]
    · exact hr
  | term =>
    rcases perform_term_cases hp with
      ⟨digits, ht⟩ | ⟨body, ht⟩ | ⟨c, ht⟩ | ht | ⟨op, ht⟩ | ⟨name, ht⟩
    · obtain ⟨s₁, -, -, rfl⟩ := (perform_term_integer ht).mp hp
      exact hr
    · obtain ⟨s₁, -, -, rfl⟩ := (perform_term_text ht).mp hp
      exact hr
    · obtain ⟨s₁, -, -, rfl⟩ := (perform_term_constant ht).mp hp
      exact hr
    · obtain ⟨-, rfl⟩ := (perform_term_group ht).mp hp
      simp_all [Welcomes, fill, isSymbol, symbols]
    · obtain ⟨-, rfl⟩ := (perform_term_unary ht).mp hp
      simp_all [Welcomes, ofOperator?_unary]
    · obtain ⟨line, hiff⟩ := perform_term_identifier ht
      obtain ⟨-, rfl⟩ := hiff.mp hp
      simp_all [Welcomes]
  | reference name line =>
    rcases perform_reference.mp hp with ⟨-, -, rfl⟩ | ⟨v, s₁, -, -, -, rfl⟩ | ⟨-, v, -, -, rfl⟩
    · simp_all [Welcomes]
    · simp_all [Welcomes, fill, isSymbol, symbols, Command.ofOperator?]
    · exact hr
  | call name =>
    rcases perform_call.mp hp with ⟨s₁, -, -, rfl⟩ | ⟨-, -, rfl⟩
    · simp_all [Welcomes]
    · simp_all [Welcomes, isSymbol, symbols]
  | callee receiver =>
    obtain ⟨routine, -, rfl⟩ := perform_callee.mp hp
    simp_all [Welcomes, isSymbol, symbols]
  | receiver name routine =>
    rcases perform_receiver.mp hp with ⟨v, -, -, rfl⟩ | ⟨-, -, rfl⟩
    · simp_all [Welcomes]
    · simp_all [Welcomes]
  | arguments routine count =>
    obtain ⟨-, ⟨-, rfl⟩ | ⟨-, rfl⟩⟩ := perform_arguments.mp hp
    · simp_all [Welcomes, isSymbol, symbols]
    · simp_all [Welcomes, fill]
  | moreArguments routine count =>
    rcases perform_moreArguments.mp hp with ⟨-, rfl⟩ | ⟨-, -, rfl⟩
    · simp_all [Welcomes, fill]
    · simp_all [Welcomes, isSymbol, symbols]

end Goal

namespace Lookahead

/-- A stream that is read to its end shows what is read first. -/
theorem Reads.terminal?_eq_head? {i j : Lookahead} {ts : List Terminal} (h : i.Reads ts j)
    (hj : j.terminal? = none) : i.terminal? = ts.head? := by
  cases ts with
  | nil =>
    cases h
    exact hj
  | cons t ts => exact h.terminal?

end Lookahead

namespace Session

open JackStack.Action (Returns)
open Goal (fill fills)
open Lookahead (reads_cons_iff_exists)

variable {s : Session} {g : Goal} {gs : List Goal} {ts : List Terminal} {e : Lookahead}

/-- **The goal is done, and the text goes on**: what has to be read for the goals in its place is
the rest of what had to be read for it. -/
def GoesOn (g : Goal) (s : Session) (ts : List Terminal) (e : Lookahead) : Prop :=
  ∃ gs s', Returns (perform g) s gs s' ∧ .assigned ∉ gs ∧ s'.Unlimited ∧
    s'.input.Reads (fills gs ++ ts) e

/-- **Where the text of an agenda follows, its first goal is done.** -/
theorem perform_fill (hg : g ≠ .assigned) (hw : g.Welcomes ts.head?) (hs : s.Unlimited)
    (he : e.terminal? = none) (hr : s.input.Reads (g.fill ++ ts) e) : GoesOn g s ts e := by
  have hhead := hr.terminal?_eq_head? he
  cases g with
  | symbol c =>
    obtain ⟨i, hi, hr⟩ := reads_cons_iff_exists.mp hr
    exact ⟨_, _, perform_symbol.mpr ⟨takes_of_reads hi, rfl⟩, by simp, hs, hr⟩
  | keyword k =>
    obtain ⟨i, hi, hr⟩ := reads_cons_iff_exists.mp hr
    exact ⟨_, _, perform_keyword.mpr ⟨takes_of_reads hi, rfl⟩, by simp, hs, hr⟩
  | write commands =>
    exact ⟨[], s.wrote commands, perform_write.mpr ⟨hs.writes _, rfl⟩, by simp,
      by simpa [wrote] using hs, hr⟩
  | operate operator unary =>
    obtain ⟨c, hc⟩ := Option.isSome_iff_exists.mp hw
    exact ⟨[], s.wrote [c], perform_operate.mpr ⟨⟨c, hc, hs.writes _⟩, rfl⟩, by simp,
      by simpa [wrote] using hs, hr⟩
  | className =>
    obtain ⟨i, hi, hr⟩ := reads_cons_iff_exists.mp hr
    exact ⟨_, _, perform_className.mpr ⟨"x", _, takes_of_reads hi, rfl, rfl⟩, by simp, hs, hr⟩
  | announceClass =>
    exact ⟨_, _, perform_announceClass.mpr ⟨rfl, rfl⟩, by simp, hs, hr⟩
  | classVariables =>
    have hn : s.input.terminal? = some (.symbol '}') := hhead.trans hw
    exact ⟨[], s, perform_classVariables.mpr (.inr (.inr ⟨by simp [hn], rfl, rfl⟩)), by simp, hs,
      hr⟩
  | routines =>
    have hn : s.input.terminal? = some (.symbol '}') := hhead.trans hw
    exact ⟨[], s, perform_routines.mpr (.inr ⟨by simp [hn], rfl, rfl⟩), by simp, hs, hr⟩
  | sourceEnd =>
    have hn : s.input.terminal? = none := hhead.trans hw
    have ha : s.input.atEnd = true := by simpa [Lookahead.atEnd, Lookahead.terminal?] using hn
    exact ⟨[], s, perform_sourceEnd.mpr ⟨ha, rfl, rfl⟩, by simp, hs, hr⟩
  | variableType kind =>
    obtain ⟨i, hi, hr⟩ := reads_cons_iff_exists.mp hr
    exact ⟨_, _, perform_variableType.mpr ⟨.int, takes_of_reads hi, rfl⟩, by simp, hs, hr⟩
  | variableName kind type =>
    obtain ⟨i, hi, hr⟩ := reads_cons_iff_exists.mp hr
    exact ⟨_, _, perform_variableName.mpr ⟨"x", _, takes_of_reads hi, rfl, rfl⟩, by simp, hs, hr⟩
  | moreVariables kind type =>
    have hn : s.input.terminal? ≠ some (.symbol ',') := by simp [hhead, Goal.fill]
    exact ⟨_, _, perform_moreVariables.mpr (.inr ⟨hn, rfl, rfl⟩), by simp, hs, hr⟩
  | returnType kind =>
    obtain ⟨i, hi, hr⟩ := reads_cons_iff_exists.mp hr
    exact ⟨_, _, perform_returnType.mpr ⟨none, takes_of_reads hi, rfl⟩, by simp, hs, hr⟩
  | routineName kind returnsVoid =>
    obtain ⟨i, hi, hr⟩ := reads_cons_iff_exists.mp hr
    exact ⟨_, _, perform_routineName.mpr ⟨"x", _, takes_of_reads hi, rfl, rfl⟩,
      by simp [routineGoals], hs, hr⟩
  | parameters =>
    have hn : s.input.terminal? = some (.symbol ')') := hhead.trans hw
    exact ⟨[], s, perform_parameters.mpr ⟨rfl, .inl ⟨hn, rfl⟩⟩, by simp, hs, hr⟩
  | parameterType =>
    obtain ⟨i, hi, hr⟩ := reads_cons_iff_exists.mp hr
    exact ⟨_, _, perform_parameterType.mpr ⟨.int, takes_of_reads hi, rfl⟩, by simp, hs, hr⟩
  | parameterName type =>
    obtain ⟨i, hi, hr⟩ := reads_cons_iff_exists.mp hr
    exact ⟨_, _, perform_parameterName.mpr ⟨"x", _, takes_of_reads hi, rfl, rfl⟩, by simp, hs, hr⟩
  | moreParameters =>
    have hn : s.input.terminal? = some (.symbol ')') := hhead.trans hw
    exact ⟨[], s, perform_moreParameters.mpr (.inr ⟨by simp [hn], rfl, rfl⟩), by simp, hs, hr⟩
  | announceRoutine =>
    exact ⟨_, _, perform_announceRoutine.mpr ⟨rfl, rfl⟩, by simp, hs, hr⟩
  | localVariables =>
    have hn : s.input.terminal? = some (.symbol '}') := hhead.trans hw
    exact ⟨[], s, perform_localVariables.mpr (.inr ⟨by simp [hn], rfl, rfl⟩), by simp, hs, hr⟩
  | prologue =>
    exact ⟨[], s.wrote s.prologueCode, perform_prologue.mpr ⟨hs.writes _, rfl⟩, by simp,
      by simpa [wrote] using hs, hr⟩
  | epilogue =>
    obtain ⟨s', hc⟩ := hs.closes
    exact ⟨[], s', perform_epilogue.mpr ⟨hc, rfl⟩, by simp, hc.unlimited hs, hc.input_eq ▸ hr⟩
  | statements =>
    have hn : s.input.terminal? = some (.symbol '}') := hhead.trans hw
    exact ⟨[], s, perform_statements.mpr (.inr ⟨by simp [hn], rfl, rfl⟩), by simp, hs, hr⟩
  | assigned => exact absurd rfl hg
  | assignment target =>
    have hn : s.input.terminal? ≠ some (.symbol '[') := by simp [hhead, Goal.fill]
    exact ⟨_, _, perform_assignment.mpr (.inr ⟨hn, rfl, rfl⟩), by simp, hs, hr⟩
  | conditional =>
    exact ⟨_, _, perform_conditional.mpr ⟨rfl, rfl⟩, by simp [Goal.condition, Goal.block], hs, hr⟩
  | loop =>
    exact ⟨_, _, perform_loop.mpr ⟨rfl, rfl⟩, by simp [Goal.condition, Goal.block], hs, hr⟩
  | otherwise =>
    have hn : s.input.terminal? = some (.symbol '}') := hhead.trans hw
    exact ⟨[], s, perform_otherwise.mpr (.inr ⟨by simp [hn], rfl, rfl⟩), by simp, hs, hr⟩
  | performed =>
    obtain ⟨i, hi, hr⟩ := reads_cons_iff_exists.mp hr
    exact ⟨_, _, perform_performed.mpr ⟨"x", takes_of_reads hi, rfl⟩, by simp, hs, hr⟩
  | returned =>
    exact ⟨_, _, perform_returned.mpr ⟨rfl, .inl ⟨hhead, rfl⟩⟩, by simp, hs, hr⟩
  | expression =>
    exact ⟨_, _, perform_expression.mpr ⟨rfl, rfl⟩, by simp, hs, hr⟩
  | moreTerms =>
    have hn : Terminal.Stops s.input.terminal? := hhead ▸ hw
    exact ⟨[], s, perform_moreTerms.mpr (.inr ⟨hn.ne_operator, rfl, rfl⟩), by simp, hs, hr⟩
  | term =>
    obtain ⟨i, hi, hr⟩ := reads_cons_iff_exists.mp hr
    have hu : (s.after i [] 0 0).Unlimited := hs
    exact ⟨_, _, (perform_term_integer hhead).mpr ⟨_, takes_of_reads hi, hu.writes _, rfl⟩, by simp,
      by simpa [wrote] using hs, hr⟩
  | reference name line =>
    exact ⟨_, _, perform_reference.mpr (.inl ⟨.inl hhead, rfl, rfl⟩), by simp, hs, hr⟩
  | call name =>
    obtain ⟨i, hi, hr⟩ := reads_cons_iff_exists.mp hr
    have hu : (s.after i [] 0 0).Unlimited := hs
    exact ⟨_, _, perform_call.mpr (.inl ⟨_, takes_of_reads hi, hu.writes _, rfl⟩), by simp,
      by simpa [wrote] using hs, hr⟩
  | callee receiver =>
    obtain ⟨i, hi, hr⟩ := reads_cons_iff_exists.mp hr
    exact ⟨_, _, perform_callee.mpr ⟨"x", takes_of_reads hi, rfl⟩, by simp, hs, hr⟩
  | receiver name routine =>
    cases hv : s.context.resolve name with
    | some v =>
      exact ⟨_, _, perform_receiver.mpr (.inl ⟨v, hv, hs.writes _, rfl⟩), by simp,
        by simpa [wrote] using hs, hr⟩
    | none => exact ⟨_, s, perform_receiver.mpr (.inr ⟨hv, rfl, rfl⟩), by simp, hs, hr⟩
  | arguments routine count =>
    exact ⟨_, _, perform_arguments.mpr ⟨rfl, .inl ⟨hhead, rfl⟩⟩, by simp, hs, hr⟩
  | moreArguments routine count =>
    have hn : s.input.terminal? ≠ some (.symbol ',') := by simp [hhead, Goal.fill]
    exact ⟨_, _, perform_moreArguments.mpr (.inr ⟨hn, rfl, rfl⟩), by simp, hs, hr⟩

/-- **An agenda is finished by its text.** -/
theorem run_fills (h : Goal.Ready gs) (ha : .assigned ∉ gs) (hs : s.Unlimited)
    (he : e.terminal? = none) (hr : s.input.Reads (fills gs) e) : ∃ s', run gs s = .ok () s' := by
  fun_induction run gs s with
  | case1 s => exact ⟨s, rfl⟩
  | case2 s g rest goals s' hp ih =>
    obtain ⟨hg, hrest⟩ := not_or.mp (mt List.mem_cons.mpr ha)
    obtain ⟨gs', t, hp', hn, hu, hr'⟩ := perform_fill (Ne.symm hg) h.1 hs he hr
    cases hp.symm.trans hp'
    refine ih (h.perform hp) ?_ hu ?_
    · simp [hn, hrest]
    · rwa [Goal.fills_append]
  | case3 s g rest e' s' hp =>
    obtain ⟨hg, -⟩ := not_or.mp (mt List.mem_cons.mpr ha)
    obtain ⟨gs', t, hp', -⟩ := perform_fill (Ne.symm hg) h.1 hs he hr
    cases hp.symm.trans hp'

end Session

end JackStack
