import JackStack.Proofs.Consumption
import JackStack.Proofs.Translation

/-!
# Proofs/Passage — what the actions of a session do

An action that succeeds has passed some terminals and written some commands. `Session.Passes` says
this in one relation, and each action of a session is described by it exactly.

* `Session.Passes.trans` — passages compose: their terminals, names and commands are concatenated.
-/

namespace JackStack

open Vm (Command)

/-! ## Sequences of actions -/

namespace Action

variable {σ α β : Type}

/-- **An action succeeds**: in the state `s` it returns `x` and leaves `s'`. -/
def Returns (a : Action σ α) (s : σ) (x : α) (s' : σ) : Prop :=
  a s = .ok x s'

variable {a : Action σ α} {f : α → Action σ β} {s t s' : σ} {x : α} {y : β}

theorem returns_bind : Returns (a >>= f) s y s' ↔ ∃ x t, Returns a s x t ∧ Returns (f x) t y s' :=
  bind_eq_ok

theorem returns_pure {z : α} : Returns (pure x) s z s' ↔ x = z ∧ s = s' := by
  show EStateM.Result.ok x s = .ok z s' ↔ _
  simp

theorem returns_get_bind {f : σ → Action σ β} :
    Returns (get >>= f) s y s' ↔ Returns (f s) s y s' := Iff.rfl

theorem returns_modify {f : σ → σ} {u : PUnit} : Returns (modify f) s u s' ↔ s' = f s := by
  show EStateM.Result.ok PUnit.unit (f s) = .ok u s' ↔ _
  simp [eq_comm]

theorem returns_throw {e : CompileError} : ¬ Returns (throw e : Action σ α) s x s' :=
  fun h => nomatch h

theorem returns_discard {u : PUnit} : Returns (discard a) s u s' ↔ ∃ x, Returns a s x s' := by
  constructor
  · intro h
    obtain ⟨x, t, ha, hp⟩ := returns_bind.mp h
    obtain ⟨-, rfl⟩ := returns_pure.mp hp
    exact ⟨x, ha⟩
  · rintro ⟨x, ha⟩
    exact returns_bind.mpr ⟨x, s', ha, rfl⟩

end Action

open JackStack.Action (Returns returns_bind returns_pure returns_get_bind returns_modify returns_throw
  returns_discard)

/-! ## Writing -/

theorem Vm.programText_append (code code' : List Command) :
    Vm.programText (code ++ code') = Vm.programText code ++ Vm.programText code' := by
  simp [Vm.programText]

/-- **The sink with commands written** to it. -/
def Sink.wrote (s : Sink) (code : List Command) : Sink :=
  { s with text := s.text ++ Vm.programText code }

theorem Sink.wrote_append (s : Sink) (code code' : List Command) :
    s.wrote (code ++ code') = (s.wrote code).wrote code' := by
  simp [wrote, Vm.programText_append, String.append_assoc]

namespace Writer

/-- **The writer after a command** that its sink accepts. -/
def wroteOne (w : Writer) (c : Command) : Writer where
  sink := { w.sink with text := w.sink.text ++ c.line }
  log := w.log.push (.commandWritten w.count c)
  count := w.count + 1
  returned := c = .return

/-- **The writer after commands.** -/
def wrote (w : Writer) (code : List Command) : Writer :=
  code.foldl wroteOne w

@[simp] theorem wrote_nil (w : Writer) : w.wrote [] = w := rfl

@[simp] theorem wrote_cons (w : Writer) (c : Command) (code : List Command) :
    w.wrote (c :: code) = (w.wroteOne c).wrote code := rfl

@[simp] theorem wrote_append (w : Writer) (code code' : List Command) :
    w.wrote (code ++ code') = (w.wrote code).wrote code' :=
  List.foldl_append

/-- What a sink holds grows by the lines of the commands. -/
theorem sink_wrote (w : Writer) (code : List Command) :
    (w.wrote code).sink = w.sink.wrote code := by
  induction code generalizing w with
  | nil => simp [Sink.wrote, Vm.programText]
  | cons c code ih => simp [ih, wroteOne, Sink.wrote, Vm.programText, String.append_assoc]

theorem returned_wrote_concat (w : Writer) (code : List Command) (c : Command) :
    (w.wrote (code ++ [c])).returned = decide (c = .return) := by
  simp [wroteOne]

/-- A command that is written has been accepted. -/
theorem eq_of_emit {w w' : Writer} {c : Command} {u : Unit} (h : emit c w = .ok u w') :
    w' = w.wroteOne c := by
  obtain ⟨sink, log, count, returned⟩ := w
  by_cases hf : sink.fits c.line = true
  · simp only [emit, Sink.write, if_pos hf, EStateM.Result.ok.injEq, true_and] at h
    exact h.symm
  · simp only [emit, Sink.write, if_neg hf] at h
    cases h

theorem eq_of_emitAll {w w' : Writer} {code : List Command} {u : Unit}
    (h : emitAll code w = .ok u w') : w' = w.wrote code := by
  induction code generalizing w with
  | nil => cases h; rfl
  | cons c code ih =>
    obtain ⟨v, w₁, he, hr⟩ := Action.bind_eq_ok.mp h
    rw [ih hr, eq_of_emit he]
    rfl

/-- A sink without a limit accepts every command. -/
theorem emit_eq_ok {w : Writer} (h : w.sink.limit = none) (c : Command) :
    emit c w = .ok () (w.wroteOne c) := by
  obtain ⟨⟨text, refused, limit⟩, log, count, returned⟩ := w
  cases h
  rfl

theorem emitAll_eq_ok {w : Writer} (h : w.sink.limit = none) (code : List Command) :
    emitAll code w = .ok () (w.wrote code) := by
  induction code generalizing w with
  | nil => rfl
  | cons c code ih => exact Action.bind_eq_ok.mpr ⟨(), _, emit_eq_ok h c, ih h⟩

end Writer

/-! ## Passages of a session -/

namespace Session

/-- **The context of the code** that a session writes. -/
def context (s : Session) : Context where
  resolve := s.scopes.lookup
  className := s.className
  returnsVoid := s.routine.returnsVoid

/-- Its sink has no limit. -/
def Unlimited (s : Session) : Prop :=
  s.writer.sink.limit = none

/-- **The sink accepts the commands.** -/
def Accepts (s : Session) (code : List Command) : Prop :=
  Writer.emitAll code s.writer = .ok () (s.writer.wrote code)

theorem Unlimited.accepts {s : Session} (h : s.Unlimited) (code : List Command) : s.Accepts code :=
  Writer.emitAll_eq_ok h code

/-- **The session at another point of its input**, with commands written and labels taken. -/
def after (s : Session) (i : Lookahead) (code : List Command) (m n : Nat) : Session :=
  { s with
    input := i
    writer := s.writer.wrote code
    conditions := s.conditions + m
    loops := s.loops + n }

/-- Every name means a variable. -/
def Knows (s : Session) (names : List String) : Prop :=
  ∀ name ∈ names, (s.context.resolve name).isSome

/-- **A passage**: the session passes the terminals, finds the names declared, writes the commands,
and takes `m` labels of conditions and `n` of loops. -/
def Passes (s : Session) (ts : List Terminal) (names : List String) (code : List Command)
    (m n : Nat) (s' : Session) : Prop :=
  ∃ i, s.input.Reads ts i ∧ s.Knows names ∧ s' = s.after i code m n

/-- **A session takes a terminal** if it passes that and does nothing else. -/
def Takes (s : Session) (t : Terminal) (s' : Session) : Prop :=
  s.Passes [t] [] [] 0 0 s'

variable {s s' s'' : Session} {ts ts' : List Terminal} {names names' : List String}
  {code code' : List Command} {m n m' n' : Nat}

@[simp] theorem context_after (i : Lookahead) :
    (s.after i code m n).context = s.context := rfl

@[simp] theorem className_context : s.context.className = s.className := rfl

@[simp] theorem after_self : s.after s.input [] 0 0 = s := rfl

theorem after_after (i j : Lookahead) :
    (s.after i code m n).after j code' m' n' = s.after j (code ++ code') (m + m') (n + n') := by
  simp [after, Nat.add_assoc]

@[simp] theorem knows_nil : s.Knows [] := fun _ h => nomatch h

theorem knows_append : s.Knows (names ++ names') ↔ s.Knows names ∧ s.Knows names' :=
  List.forall_mem_append

theorem knows_cons {name : String} :
    s.Knows (name :: names) ↔ (s.context.resolve name).isSome ∧ s.Knows names :=
  List.forall_mem_cons

theorem Passes.refl (s : Session) : s.Passes [] [] [] 0 0 s :=
  ⟨s.input, rfl, knows_nil, rfl⟩

/-- **Passages compose.** -/
theorem Passes.trans (h : s.Passes ts names code m n s')
    (h' : s'.Passes ts' names' code' m' n' s'') :
    s.Passes (ts ++ ts') (names ++ names') (code ++ code') (m + m') (n + n') s'' := by
  obtain ⟨i, hi, hk, rfl⟩ := h
  obtain ⟨j, hj, hk', rfl⟩ := h'
  exact ⟨j, Lookahead.reads_append.mpr ⟨i, hi, hj⟩, knows_append.mpr ⟨hk, hk'⟩, after_after i j⟩

/-- A passage of a concatenation falls into two. -/
theorem Passes.split (h : s.Passes (ts ++ ts') (names ++ names') (code ++ code') (m + m') (n + n')
    s'') : ∃ s', s.Passes ts names code m n s' ∧ s'.Passes ts' names' code' m' n' s'' := by
  obtain ⟨j, hj, hk, rfl⟩ := h
  obtain ⟨i, hi, hj⟩ := Lookahead.reads_append.mp hj
  obtain ⟨hk, hk'⟩ := knows_append.mp hk
  exact ⟨s.after i code m n, ⟨i, hi, hk, rfl⟩, ⟨j, hj, hk', (after_after i j).symm⟩⟩

theorem Passes.context_eq (h : s.Passes ts names code m n s') : s'.context = s.context := by
  obtain ⟨i, -, -, rfl⟩ := h
  rfl

theorem Passes.conditions_eq (h : s.Passes ts names code m n s') :
    s'.conditions = s.conditions + m := by
  obtain ⟨i, -, -, rfl⟩ := h
  rfl

theorem Passes.loops_eq (h : s.Passes ts names code m n s') : s'.loops = s.loops + n := by
  obtain ⟨i, -, -, rfl⟩ := h
  rfl

theorem Passes.unlimited (h : s.Passes ts names code m n s') (hs : s.Unlimited) : s'.Unlimited := by
  obtain ⟨i, -, -, rfl⟩ := h
  rw [Unlimited, after, Writer.sink_wrote]
  exact hs

theorem Passes.remaining_le (h : s.Passes ts names code m n s') :
    s'.input.remaining ≤ s.input.remaining := by
  obtain ⟨i, hi, -, rfl⟩ := h
  exact hi.remaining_le

/-! ## The actions on the tokens -/

variable {α β : Type} {t : Terminal}

theorem takes_iff : s.Takes t s' ↔ ∃ i, s.input.Reads [t] i ∧ s' = { s with input := i } := by
  simp [Takes, Passes, after]

/-- A terminal that is taken was shown before. -/
theorem Takes.terminal? (h : s.Takes t s') : s.input.terminal? = some t := by
  obtain ⟨i, hi, -⟩ := takes_iff.mp h
  exact hi.terminal?

theorem Takes.context_eq {t : Terminal} (h : s.Takes t s') : s'.context = s.context :=
  Passes.context_eq h

theorem returns_input?_bind {f : Lookahead → Action Session β} {y : β} :
    Returns (input? >>= f) s y s' ↔ Returns (f s.input) s y s' := Iff.rfl

theorem returns_onInput {a : Action Lookahead α} {x : α} :
    Returns (onInput a) s x s' ↔ ∃ i, Returns a s.input x i ∧ s' = { s with input := i } := by
  obtain ⟨input, scopes, writer, className, routine, conditions, loops⟩ := s
  simp only [Returns, onInput]
  cases a input with
  | ok y i =>
    constructor
    · rintro ⟨⟩
      exact ⟨i, rfl, rfl⟩
    · rintro ⟨_, ⟨⟩, rfl⟩
      rfl
  | error e i => simp

theorem returns_fail {expected : String} {x : α} : ¬ Returns (fail expected) s x s' := by
  intro h
  obtain ⟨i, hf, -⟩ := returns_onInput.mp h
  cases hf

theorem returns_lookaheadPass {expected : String} {i j : Lookahead} {token : Token} :
    Returns (Lookahead.pass expected) i token j ↔ i.next? = some (token, j) :=
  Lookahead.pass_eq_ok_iff

/-- **Passing the current token takes it.** -/
theorem returns_pass {u : Unit} (h : s.input.terminal? = some t) :
    Returns pass s u s' ↔ s.Takes t s' := by
  simp only [pass, returns_onInput, returns_discard, returns_lookaheadPass, takes_iff,
    Lookahead.reads_singleton]
  constructor
  · rintro ⟨i, ⟨token, hn⟩, rfl⟩
    refine ⟨i, ⟨token, hn, ?_⟩, rfl⟩
    rw [Lookahead.terminal?_of_next? hn] at h
    exact Option.some.inj h
  · rintro ⟨i, ⟨token, hn, -⟩, rfl⟩
    exact ⟨i, ⟨token, hn⟩, rfl⟩

theorem symbol?_eq_some {i : Lookahead} {c : Char} :
    i.symbol? = some c ↔ i.terminal? = some (.symbol c) := by
  simp only [Lookahead.symbol?, Option.bind_eq_some_iff]
  constructor
  · rintro ⟨t, ht, hc⟩
    cases t <;> simp_all [Terminal.symbol?]
  · intro h
    exact ⟨_, h, rfl⟩

theorem keyword?_eq_some {i : Lookahead} {k : Keyword} :
    i.keyword? = some k ↔ i.terminal? = some (.keyword k) := by
  simp only [Lookahead.keyword?, Option.bind_eq_some_iff]
  constructor
  · rintro ⟨t, ht, hc⟩
    cases t <;> simp_all [Terminal.keyword?]
  · intro h
    exact ⟨_, h, rfl⟩

theorem isSymbol_iff {i : Lookahead} {c : Char} :
    i.isSymbol c = true ↔ i.terminal? = some (.symbol c) := by
  rw [← symbol?_eq_some]
  simp [Lookahead.isSymbol]

theorem returns_expectSymbol {c : Char} {u : Unit} :
    Returns (expectSymbol c) s u s' ↔ s.Takes (.symbol c) s' := by
  by_cases h : s.input.isSymbol c = true
  · rw [← returns_pass (u := u) (isSymbol_iff.mp h)]
    have hp (token : Token) (i : Lookahead) :
        Returns (Lookahead.expectSymbol c) s.input token i ↔ s.input.next? = some (token, i) := by
      rw [Returns, Lookahead.expectSymbol, if_pos h, Lookahead.pass_eq_ok_iff]
    simp only [expectSymbol, pass, returns_onInput, returns_discard, hp, returns_lookaheadPass]
  · constructor
    · intro ha
      obtain ⟨i, ha, -⟩ := returns_onInput.mp ha
      obtain ⟨x, ha⟩ := returns_discard.mp ha
      simp [Returns, Lookahead.expectSymbol, h, Lookahead.fail] at ha
    · intro ht
      exact absurd (isSymbol_iff.mpr ht.terminal?) h

theorem returns_expectKeyword {k : Keyword} {u : Unit} :
    Returns (expectKeyword k) s u s' ↔ s.Takes (.keyword k) s' := by
  by_cases h : s.input.keyword? = some k
  · rw [← returns_pass (u := u) (keyword?_eq_some.mp h)]
    have hp (token : Token) (i : Lookahead) :
        Returns (Lookahead.expectKeyword k) s.input token i ↔ s.input.next? = some (token, i) := by
      rw [Returns, Lookahead.expectKeyword, if_pos h, Lookahead.pass_eq_ok_iff]
    simp only [expectKeyword, pass, returns_onInput, returns_discard, hp, returns_lookaheadPass]
  · constructor
    · intro ha
      obtain ⟨i, ha, -⟩ := returns_onInput.mp ha
      obtain ⟨x, ha⟩ := returns_discard.mp ha
      simp [Returns, Lookahead.expectKeyword, h, Lookahead.fail] at ha
    · intro ht
      exact absurd (keyword?_eq_some.mpr ht.terminal?) h

theorem returns_expectName {what name : String} :
    Returns (expectName what) s name s' ↔ s.Takes (.identifier name) s' := by
  have hl (i j : Lookahead) : Returns (Lookahead.expectName what) i name j ↔
      ∃ token, i.next? = some (token, j) ∧ token.terminal = .identifier name := by
    simp only [Returns, Lookahead.expectName]
    split
    · next other hi =>
      constructor
      · intro ha
        obtain ⟨u, k, hd, hp⟩ := returns_bind.mp ha
        obtain ⟨token, hn⟩ := returns_discard.mp hd
        obtain ⟨rfl, rfl⟩ := returns_pure.mp hp
        have hn := returns_lookaheadPass.mp hn
        rw [Lookahead.terminal?_of_next? hn] at hi
        exact ⟨token, hn, Option.some.inj hi⟩
      · rintro ⟨token, hn, ht⟩
        rw [Lookahead.terminal?_of_next? hn, ht] at hi
        cases hi
        have hd : Returns (discard (Lookahead.pass what)) i PUnit.unit j :=
          returns_discard.mpr ⟨token, returns_lookaheadPass.mpr hn⟩
        exact returns_bind.mpr ⟨PUnit.unit, j, hd, rfl⟩
    · next hi =>
      constructor
      · intro ha
        cases ha
      · rintro ⟨token, hn, ht⟩
        exact absurd ((Lookahead.terminal?_of_next? hn).trans (congrArg some ht)) (hi name)
  simp only [expectName, returns_onInput, hl, takes_iff, Lookahead.reads_singleton]

/-- **Types are exactly the terminals of type names.** -/
theorem isType_iff {t : Terminal} : t.isType = true ↔ ∃ type : TypeName, type.terminal = t := by
  constructor
  · intro h
    cases t with
    | keyword k =>
      cases k with
      | int => exact ⟨.int, rfl⟩
      | char => exact ⟨.char, rfl⟩
      | boolean => exact ⟨.boolean, rfl⟩
      | _ => cases h
    | identifier name => exact ⟨.ofClass name, rfl⟩
    | symbol c => cases h
    | integer digits => cases h
    | text body => cases h
  · rintro ⟨type, rfl⟩
    cases type <;> rfl

theorem returns_expectType {name : String} :
    Returns expectType s name s' ↔
      ∃ type : TypeName, type.text = name ∧ s.Takes type.terminal s' := by
  simp only [expectType, returns_input?_bind]
  split
  · next t ht =>
    obtain ⟨ht, hty⟩ := Option.filter_eq_some_iff.mp ht
    obtain ⟨type, rfl⟩ := isType_iff.mp hty
    simp only [returns_bind, returns_pass ht, returns_pure]
    constructor
    · rintro ⟨u, s₁, hp, rfl, rfl⟩
      exact ⟨type, rfl, hp⟩
    · rintro ⟨type', rfl, h⟩
      have heq : type.terminal = type'.terminal := Option.some.inj (ht.symm.trans h.terminal?)
      exact ⟨(), s', heq ▸ h, congrArg Terminal.spelling heq, rfl⟩
  · next hn =>
    constructor
    · intro h
      exact absurd h returns_fail
    · rintro ⟨type, -, h⟩
      have ht : s.input.terminal?.filter Terminal.isType = some type.terminal :=
        Option.filter_eq_some_iff.mpr ⟨h.terminal?, isType_iff.mpr ⟨type, rfl⟩⟩
      rw [ht] at hn
      cases hn

/-! ## The other actions -/

/-- The session with commands written. -/
def wrote (s : Session) (code : List Command) : Session :=
  s.after s.input code 0 0

/-- **A session writes commands** that its sink accepts. -/
def Writes (s : Session) (code : List Command) (s' : Session) : Prop :=
  s.Accepts code ∧ s' = s.wrote code

theorem Writes.passes (h : s.Writes code s') : s.Passes [] [] code 0 0 s' :=
  ⟨s.input, rfl, knows_nil, h.2⟩

theorem Writes.context_eq (h : s.Writes code s') : s'.context = s.context :=
  h.passes.context_eq

theorem Unlimited.writes (hs : s.Unlimited) (code : List Command) : s.Writes code (s.wrote code) :=
  ⟨hs.accepts code, rfl⟩

theorem returns_onWriter {a : Action Writer α} {x : α} :
    Returns (onWriter a) s x s' ↔ ∃ w, Returns a s.writer x w ∧ s' = { s with writer := w } := by
  obtain ⟨input, scopes, writer, className, routine, conditions, loops⟩ := s
  simp only [Returns, onWriter]
  cases a writer with
  | ok y w =>
    constructor
    · rintro ⟨⟩
      exact ⟨w, rfl, rfl⟩
    · rintro ⟨_, ⟨⟩, rfl⟩
      rfl
  | error e w => simp

theorem returns_write {u : Unit} : Returns (write code) s u s' ↔ s.Writes code s' := by
  constructor
  · intro h
    obtain ⟨w, he, rfl⟩ := returns_onWriter.mp h
    obtain rfl := Writer.eq_of_emitAll he
    exact ⟨he, rfl⟩
  · rintro ⟨ha, rfl⟩
    exact returns_onWriter.mpr ⟨_, ha, rfl⟩

theorem returns_operate {operator : Char} {unary : Bool} {u : Unit} :
    Returns (operate operator unary) s u s' ↔
      ∃ c, Command.ofOperator? operator unary = some c ∧ s.Writes [c] s' := by
  cases hc : Command.ofOperator? operator unary with
  | some c =>
    have hw : Returns (operate operator unary) s u s' ↔ Returns (write [c]) s u s' := by
      simp only [operate, write, returns_onWriter]
      simp [Returns, Writer.emitOperator, hc, Writer.emitAll]
    rw [hw, returns_write]
    simp
  | none =>
    simp only [operate, returns_onWriter, Writer.emitOperator, hc]
    constructor
    · rintro ⟨w, h, -⟩
      cases h
    · rintro ⟨c, h, -⟩
      cases h

/-- The session with an event in its log. -/
def noted (s : Session) (e : Event) : Session :=
  { s with writer := s.writer.note e }

theorem returns_note {e : Event} {u : Unit} : Returns (note e) s u s' ↔ s' = s.noted e := by
  simp only [note, returns_onWriter, returns_modify]
  constructor
  · rintro ⟨w, rfl, rfl⟩
    rfl
  · rintro rfl
    exact ⟨_, rfl, rfl⟩

theorem returns_resolve {name : String} {line : Nat} {v : Variable} :
    Returns (resolve name line) s v s' ↔ s.context.resolve name = some v ∧ s = s' := by
  simp only [resolve, returns_get_bind]
  split
  · next w hw =>
    have hw : s.context.resolve name = some w := hw
    rw [hw, returns_pure, Option.some.injEq]
  · next hn =>
    have hn : s.context.resolve name = none := hn
    rw [hn]
    simp [returns_throw]

end Session

end JackStack
