import JackStack.Proofs.Descent
import JackStack.Proofs.ErrorLine
import JackStack.Proofs.Literals
import JackStack.Proofs.Positions

/-!
# Proofs/Guards — errors that cannot come up

Some steps are guarded twice. A reader can be asked for a token behind the last one, but is asked
whether there is one before; an operator without a command can be written, but none is read; the
digits of an integer constant can be too many for a word, but the token was cut off with its value
checked. In each case the second guard never has anything to do, since the first one stands in its
way somewhere else in the program.

So a guard that never fires can be left out, and nothing changes. Here the guarded readers and goals
are written down, and shown to be equal to those without.

* `Reader.nextGuarded_eq` — asking first is enough.
* `Session.asks_perform` — a goal asks for nothing but what it wants.
* `Session.performGuarded_eq` — digits that were read once can be read again.
* `compileInto_error_possible` — the errors that come up.
-/

namespace JackStack

/-! ## Asking whether there is a token -/

/-- Only malformed pieces of a source are errors among its items. -/
theorem exists_lexical_of_mem_scan {source : String} {e : CompileError}
    (h : Except.error e ∈ scan source) : ∃ line cause, e = .lexical line cause := by
  obtain ⟨p, -, hp⟩ := List.mem_map.mp h
  obtain ⟨cause, -, rfl⟩ := Piece.of_item_eq_error hp
  exact ⟨_, cause, rfl⟩

namespace Reader

/-- **The next item, guarded**: one is asked for only if there is one, and the step must have made a
token current. -/
def nextGuarded (r : Reader) : Option (Except CompileError Token) × Reader :=
  if r.hasNext then
    match r.advance with
    | (.ok (), r') => (some (r'.current.elim (.error .noMoreTokens) .ok), r')
    | (.error e, r') => (some (.error e), r')
  else (none, r)

theorem nextGuarded_eq (r : Reader) : r.nextGuarded = r.next := by
  obtain ⟨current, pending⟩ := r
  rcases pending with _ | ⟨_ | token, rest⟩ <;> rfl

/-- What a reader of a source gives is a token or a malformed piece. -/
theorem exists_lexical_of_next_steps {source : String} {n : Nat} {e : CompileError}
    (h : ((ofSource source).steps n).next.1 = some (.error e)) :
    ∃ line cause, e = .lexical line cause := by
  rw [next_steps] at h
  exact exists_lexical_of_mem_scan (List.mem_of_getElem? h)

end Reader

/-! ## What a goal asks for -/

theorem Lookahead.apostrophes_ne (text : String) : apostrophes text ≠ "integer constant" := by
  intro h
  have hhead := congrArg (fun s => s.toList.head?) h
  simp [apostrophes] at hhead

theorem Goal.wanted?_ne {g : Goal} {expected : String} (h : g.wanted? = some expected) :
    expected ≠ "integer constant" := by
  unfold wanted? at h
  split at h
  · cases h
    exact Lookahead.apostrophes_ne _
  · cases h
    exact Lookahead.apostrophes_ne _
  all_goals cases h <;> decide

namespace Session

variable {α β : Type} {wanted : Option String} {s : Session}

/-- **An action asks for nothing but `wanted`**: if it stops with a syntax error, this was hidden in
the stream before, or says that `wanted` is missing where the stream stands. -/
def Asks (wanted : Option String) (a : Action Session α) (s : Session) : Prop :=
  ∀ ⦃e s'⦄, a s = .error e s' → e.isUnexpected = true →
    .error e ∈ s.input.pending ∨ ∃ expected, wanted = some expected ∧
      e = s.input.unexpected expected

/-- **What looks at a token asks for what is wanted.** Behind the token nothing is asked for, and
away from the stream neither. -/
theorem Looks.asks {lined : Bool} {raises : CompileError → Prop} {R : α → α → Prop}
    {t : Option Terminal} {a b : Action Session α} (h : Looks lined raises wanted t R a b)
    (ht : s.input.terminal? = t) : Asks wanted a s := by
  induction h generalizing s with
  | quiet h =>
    intro e s' he hu
    rw [h.isUnexpected_eq he] at hu
    cases hu
  | @fail _ _ expected h =>
    intro e s' he hu
    cases he
    exact .inr ⟨expected, h, rfl⟩
  | pass h =>
    intro e s' he hu
    obtain ⟨u, rfl⟩ := Option.isSome_iff_exists.mp h
    rw [pass_apply, passThen] at he
    split at he
    · cases he
    · next hp =>
      cases he
      obtain ⟨token, rest, -, hpending, -⟩ := Lookahead.pass_eq_error ht hp
      exact .inl (hpending ▸ List.mem_cons_self)
  | input _ ih => exact ih s.input s.input ⟨rfl, fun _ => rfl⟩ ht ht
  | get _ ih => exact ih s s ⟨rfl, rfl, rfl, rfl⟩ ht
  | @before _ _ _ a _ _ _ ha _ ih =>
    intro e s' he hu
    rw [Action.bind_apply] at he
    cases hx : a s with
    | ok x s₁ =>
      rw [hx] at he
      have hi := ha.input_eq hx
      rw [← hi]
      exact ih x (by rw [hi, ht]) he hu
    | error e₁ s₁ =>
      rw [hx] at he
      cases he
      rw [ha.isUnexpected_eq hx] at hu
      cases hu
  | @behind _ _ _ a _ _ _ _ hf ih =>
    intro e s' he hu
    rw [Action.bind_apply] at he
    cases hx : a s with
    | ok x s₁ =>
      rw [hx] at he
      rw [(hf x).isUnexpected_eq he] at hu
      cases hu
    | error e₁ s₁ =>
      rw [hx] at he
      cases he
      exact ih ht hx hu
  | congr h _ ih =>
    intro e s' he hu
    rw [(h s ht).1] at he
    exact ih ht he hu

/-- **A goal asks for nothing but what it wants.** -/
theorem asks_perform (g : Goal) (s : Session) : Asks g.wanted? (perform g) s :=
  have h : Looks true g.Raises g.wanted? s.input.terminal? (g.Leaves true) (perform g) (perform g) :=
    looks_perform g _
  h.asks rfl

/-! ## Reading digits again -/

/-- **Does a goal, guarded**: the digits of an integer constant are read again, in words, and if
they do not fit, an integer constant is missing. -/
def performGuarded : Goal → Action Session (List Goal)
  | .term => do
    match (← input?).terminal? with
    | some (.integer digits) =>
      onInput (discard (Lookahead.passGuarded "integer constant"))
      match Text.Decimal.word? digits.toList with
      | some n =>
        write [.push .constant n]
        return []
      | none => fail "integer constant"
    | _ => perform .term
  | g => perform g

/-- **All tokens of a session are spelled as a source spells them.** -/
def Spelled (s : Session) : Prop :=
  ∀ t ∈ s.input.terminals, t.Spelled

theorem Spelled.perform {g : Goal} {gs : List Goal} {s' : Session} (h : s.Spelled)
    (hp : perform g s = .ok gs s') : s'.Spelled := by
  obtain ⟨ts, hr, -⟩ := exists_reads_of_perform hp
  intro t ht
  refine h t ?_
  rw [hr.terminals_eq.1]
  exact List.mem_append_right ts ht

theorem perform_term_of_integer {digits : String} (h : s.input.terminal? = some (.integer digits)) :
    perform .term s = (do
      pass
      write [.push .constant (Text.Decimal.value digits.toList)]
      return [] : Action Session (List Goal)) s := by
  obtain ⟨token, hc, ht⟩ := exists_token h
  rw [perform, input?_bind_apply, hc, Option.bind_some, termGoals?, ht]

/-- **Digits that were read once can be read again.** -/
theorem performGuarded_eq (h : s.Spelled) (g : Goal) : performGuarded g s = perform g s := by
  cases g with
  | term =>
    rw [performGuarded, input?_bind_apply]
    rcases ht : s.input.terminal? with _ | ⟨k | c | digits | body | name⟩
    case some.integer =>
      have hmem : .integer digits ∈ s.input.terminals := by
        rw [Lookahead.terminals, ht]
        exact List.mem_append_left _ (List.mem_singleton_self _)
      obtain ⟨hne, hdigits, hle⟩ := h _ hmem
      have hpass : onInput (discard (Lookahead.passGuarded "integer constant")) s = pass s := by
        rw [Lookahead.passGuarded_eq, pass]
        refine onInput_congr ?_
        rw [discard_apply, discard_apply, Lookahead.pass_congr ht "integer constant" "token"]
      simp only [Text.Decimal.word?_of_le hne hdigits hle]
      rw [perform_term_of_integer ht, Action.bind_apply, Action.bind_apply, hpass]
    all_goals rfl
  | _ => rfl

/-- Runs agree if their goals are done alike in every session that one of them comes to. -/
theorem runFor_congr {act : Goal → Action Session (List Goal)} {P : Session → Prop}
    (hact : ∀ g s, P s → act g s = perform g s)
    (hstep : ∀ g s gs s', P s → perform g s = .ok gs s' → P s') (fuel : Nat) (gs : List Goal)
    (hs : P s) : runFor act fuel gs s = runFor perform fuel gs s := by
  fun_induction runFor act fuel gs s with
  | case1 => simp [runFor]
  | case2 => simp [runFor]
  | case3 n g rest s goals s' hp ih =>
    rw [hact g s hs] at hp
    rw [runFor, hp]
    exact ih (hstep g s goals s' hs hp)
  | case4 n g rest s e s' hp =>
    rw [hact g s hs] at hp
    rw [runFor, hp]

end Session

/-! ## What is left -/

/-- **The errors that come up.** The compilation of any source into a sink without limit succeeds,
or stops at a malformed token, at an undefined name, or where a goal does not find what it wants,
which is never called an integer constant.

With all guards in place it is the same: the stream may ask its reader first, and the goals may read
the digits of a constant again. A reader of a source that is asked first gives what it gives anyway,
and reports malformed tokens only. -/
theorem compileInto_error_possible (source : String) {sink : Sink} (hs : sink.limit = none) :
    (∀ e, (compileInto source sink).result = .error e →
      (∃ line cause, e = .lexical line cause) ∨ (∃ line name, e = .undefinedVariable line name) ∨
        ∃ line expected found g, e = .unexpected line expected found ∧
          Goal.wanted? g = some expected ∧ expected ≠ "integer constant") ∧
    (Lookahead.ofReader (.ofSource (Comment.strip source))
      = Lookahead.ofSource (Comment.strip source) ∧
      (∀ expected, Lookahead.passGuarded expected = Lookahead.pass expected) ∧
      ∀ input, Lookahead.ofSource (Comment.strip source) = .ok input →
        ∀ fuel, Session.cost Goal.classGoals (Session.start input sink) ≤ fuel →
          Session.runFor Session.performGuarded fuel Goal.classGoals (Session.start input sink)
            = some (Session.run Goal.classGoals (Session.start input sink))) ∧
    ∀ n, ((Reader.ofSource source).steps n).nextGuarded = ((Reader.ofSource source).steps n).next ∧
      ∀ e, ((Reader.ofSource source).steps n).next.1 = some (.error e) →
        ∃ line cause, e = .lexical line cause := by
  refine ⟨fun e h => ?_, ⟨Lookahead.ofReader_ofSource _, Lookahead.passGuarded_eq,
    fun input hi fuel hfuel => ?_⟩, fun n => ⟨Reader.nextGuarded_eq _, fun e he =>
      Reader.exists_lexical_of_next_steps he⟩⟩
  · rcases compileInto_eq_error_iff_run.mp h with hi | ⟨input, s, hi, hrun⟩
    · exact .inl (exists_lexical_of_mem_scan (Lookahead.mem_of_ofItems_eq_error hi))
    have hpending : input.pending ⊆ scan (Comment.strip source) :=
      (Lookahead.terminals_ofItems hi).2
    cases Session.halts_of_run hs hrun with
    | malformed hr hc hp =>
      refine .inl (exists_lexical_of_mem_scan (hpending (hr.terminals_eq.2 ?_)))
      exact hp ▸ List.mem_cons_self
    | undefined hr hn he => exact .inr (.inl ⟨_, _, he⟩)
    | unexpected hr he =>
      -- The goal that stopped tells what was missing; behind a token no syntax error is hidden.
      have hu : e.isUnexpected = true := by rw [he]; rfl
      obtain ⟨input', s', ts, g, rest, t, hi', -, hpr, hp, -, -⟩ := exists_stop h hu
      rcases Session.asks_perform g t hp hu with hhidden | ⟨expected, hwanted, he'⟩
      · rw [(hpr.reads.of_source hi').2 e hhidden] at hu
        cases hu
      · exact .inr (.inr ⟨_, expected, _, g, he', hwanted, Goal.wanted?_ne hwanted⟩)
  · have hspelled : (Session.start input sink).Spelled := by
      intro t ht
      have hterminals : input.terminals = Lookahead.terminalsOf (scan (Comment.strip source)) :=
        (Lookahead.terminals_ofItems hi).1
      exact Terminal.spelled_of_mem_scan (hterminals ▸ ht)
    rw [Session.runFor_congr (P := Session.Spelled) (fun g s h => Session.performGuarded_eq h g)
      (fun g s gs s' h hp => h.perform hp) fuel _ hspelled]
    exact Session.runFor_eq_run hfuel

theorem compileInto_error_possible_missing_term :
    let source := "class A\x7bfunction int f()\x7breturn 007+;\x7d\x7d"
    (compileInto source {}).result = .error (.unexpected 1 "term" "symbol ';'") ∧
      (∃ g, Goal.wanted? g = some "term") ∧
      ∀ input, Lookahead.ofSource (Comment.strip source) = .ok input → ∃ fuel,
        Session.runFor Session.performGuarded fuel Goal.classGoals (Session.start input {})
          = some (Session.run Goal.classGoals (Session.start input {})) := by
  intro source
  have h : (compileInto source {}).result = .error (.unexpected 1 "term" "symbol ';'") := by
    decide +kernel
  obtain ⟨herrors, ⟨-, -, hguarded⟩, -⟩ := @compileInto_error_possible source {} rfl
  refine ⟨h, ?_, fun input hi => ⟨_, hguarded input hi _ (Nat.le_refl _)⟩⟩
  obtain ⟨_, _, he⟩ | ⟨_, _, he⟩ | ⟨_, _, _, g, he, hg, -⟩ := herrors _ h
  · cases he
  · cases he
  · cases he
    exact ⟨g, hg⟩

end JackStack
