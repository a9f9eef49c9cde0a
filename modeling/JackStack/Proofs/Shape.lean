import JackStack.Compile.Perform
import JackStack.Proofs.Passage

/-!
# Proofs/Shape — how a goal is done

A goal is done by looking at the current token. The session then complains about it, leaves it, or
passes it, once at most; the rest is work away from the stream: commands are written, names are
declared and looked up. `Session.Quiet` is that work, and `Session.Looks` says how an action is made
of it and of a look at the token.

Both speak of the same action in two sessions. These may differ in what the stream holds behind its
token and in what has been written, and in lines if the flag `lined` is not set. What follows for
one session or for two is proved along the way an action is made, not goal by goal.

* `Goal.wanted?`, `Goal.Raises`, `Goal.Leaves` — what a goal may find missing, raise, and leave.
* `Session.looks_perform` — how every goal is done.
-/

namespace JackStack

variable {lined : Bool}

/-! ## What is alike but for lines -/

/-- The error with its line forgotten. -/
def CompileError.unlined : CompileError → CompileError
  | .lexical _ cause => .lexical 0 cause
  | .unexpected _ expected found => .unexpected 0 expected found
  | .undefinedVariable _ name => .undefinedVariable 0 name
  | e => e

/-- **Two errors are alike** if they differ in their lines at most, and not in these if lines are
compared. -/
def CompileError.Alike (lined : Bool) (e e' : CompileError) : Prop :=
  e.unlined = e'.unlined ∧ (lined = true → e = e')

/-- The grammar wanted something else. -/
def CompileError.isUnexpected : CompileError → Bool
  | .unexpected .. => true
  | _ => false

/-- The goal with its line forgotten. -/
def Goal.unlined : Goal → Goal
  | .reference name _ => .reference name 0
  | g => g

/-- **Two agendas are alike** if they differ in their lines at most, and not in these if lines are
compared. -/
def Goal.Alike (lined : Bool) (gs hs : List Goal) : Prop :=
  gs.map Goal.unlined = hs.map Goal.unlined ∧ (lined = true → gs = hs)

/-- **Two streams show the same**, on the same line if lines are compared. -/
def Lookahead.Alike (lined : Bool) (i j : Lookahead) : Prop :=
  i.terminal? = j.terminal? ∧ (lined = true → i.line = j.line)

theorem CompileError.Alike.refl (e : CompileError) : e.Alike lined e :=
  ⟨rfl, fun _ => rfl⟩

theorem Goal.Alike.refl (gs : List Goal) : Goal.Alike lined gs gs :=
  ⟨rfl, fun _ => rfl⟩

theorem Goal.Alike.append {gs hs gs' hs' : List Goal} (h : Goal.Alike lined gs hs)
    (h' : Goal.Alike lined gs' hs') : Goal.Alike lined (gs ++ gs') (hs ++ hs') := by
  refine ⟨?_, fun hl => ?_⟩
  · rw [List.map_append, List.map_append, h.1, h'.1]
  · rw [h.2 hl, h'.2 hl]

theorem Goal.Alike.of_cons {g : Goal} {gs hs : List Goal} (h : Goal.Alike lined (g :: gs) hs) :
    ∃ g' gs', hs = g' :: gs' ∧ Goal.Alike lined [g] [g'] ∧ Goal.Alike lined gs gs' := by
  obtain ⟨hm, hl⟩ := h
  cases hs with
  | nil => cases hm
  | cons g' gs' =>
    obtain ⟨hg, hgs⟩ := List.cons.inj hm
    refine ⟨g', gs', rfl, ⟨congrArg (fun g => [g]) hg, fun ht => ?_⟩, hgs, fun ht => ?_⟩
    · rw [(List.cons.inj (hl ht)).1]
    · exact (List.cons.inj (hl ht)).2

/-- **A goal is alike to itself**, and a reference to one on another line. -/
theorem Goal.Alike.cases {g g' : Goal} (h : Goal.Alike lined [g] [g']) :
    g' = g ∨ ∃ name line line', g = .reference name line ∧ g' = .reference name line' ∧
      (lined = true → line = line') := by
  have hg : g.unlined = g'.unlined := (List.cons.inj h.1).1
  have hl (ht : lined = true) : g = g' := (List.cons.inj (h.2 ht)).1
  cases g with
  | reference name line =>
    cases g' with
    | reference name' line' =>
      cases hg
      exact .inr ⟨name, line, line', rfl, rfl, fun ht => (Goal.reference.inj (hl ht)).2⟩
    | _ => cases hg
  | _ =>
    cases g' with
    | reference name' line' => cases hg
    | _ => exact .inl hg.symm

namespace Lookahead

variable {i j : Lookahead}

theorem Alike.keyword? (h : i.Alike lined j) : i.keyword? = j.keyword? := by
  rw [Lookahead.keyword?, h.1, Lookahead.keyword?]

theorem Alike.symbol? (h : i.Alike lined j) : i.symbol? = j.symbol? := by
  rw [Lookahead.symbol?, h.1, Lookahead.symbol?]

theorem Alike.isSymbol (h : i.Alike lined j) (c : Char) : i.isSymbol c = j.isSymbol c := by
  rw [Lookahead.isSymbol, h.symbol?, Lookahead.isSymbol]

theorem Alike.atEnd (h : i.Alike lined j) : i.atEnd = j.atEnd := by
  have heq (k : Lookahead) : k.atEnd = k.terminal?.isNone := by
    simp [Lookahead.atEnd, Lookahead.terminal?]
  rw [heq, heq, h.1]

theorem found_eq (i : Lookahead) :
    i.found = (i.terminal?.map Terminal.describe).getD "end of input" := by
  unfold found terminal?
  cases i.current <;> rfl

theorem Alike.unexpected (h : i.Alike lined j) (expected : String) :
    (i.unexpected expected).Alike lined (j.unexpected expected) := by
  have hf : i.found = j.found := by rw [found_eq, found_eq, h.1]
  refine ⟨?_, fun hl => ?_⟩
  · simp [Lookahead.unexpected, CompileError.unlined, hf]
  · simp [Lookahead.unexpected, h.2 hl, hf]

/-- Where a token is shown, passing it does not depend on what messages call it. -/
theorem pass_congr {t : Terminal} (h : i.terminal? = some t) (expected expected' : String) :
    pass expected i = pass expected' i := by
  obtain ⟨current, pending, lastLine⟩ := i
  cases current with
  | none => cases h
  | some token => rfl

end Lookahead

/-! ## Results and what comes after them -/

/-- A result is passed on to another action. -/
def Action.andThen {σ α β : Type} (r : EStateM.Result CompileError σ α) (f : α → Action σ β) :
    EStateM.Result CompileError σ β :=
  match r with
  | .ok x s => f x s
  | .error e s => .error e s

theorem Action.bind_apply {σ α β : Type} (a : Action σ α) (f : α → Action σ β) (s : σ) :
    (a >>= f) s = andThen (a s) f := by
  show EStateM.bind a f s = _
  unfold EStateM.bind andThen
  cases a s <;> rfl

namespace Session

variable {α β : Type}

/-! ## Work away from the stream -/

/-- **The session on another stream**, with another writer. -/
def moved (s : Session) (i : Lookahead) (w : Writer) : Session :=
  { s with input := i, writer := w }

/-- **Two sessions share** what work away from the stream may look at. -/
structure Shares (s s' : Session) : Prop where
  scopes : s.scopes = s'.scopes
  className : s.className = s'.className
  routine : s.routine = s'.routine
  returned : s.writer.returned = s'.writer.returned

/-- **Two actions do the same away from the stream**: they are made alike of writing, of changes to
the rest of the session and looks at it, and of errors that are allowed. Their values are
related. -/
inductive Quiet (lined : Bool) (raises : CompileError → Prop) :
    {α : Type} → (α → α → Prop) → Action Session α → Action Session α → Prop
  | pure {α : Type} {R : α → α → Prop} {x y : α} (h : R x y) :
    Quiet lined raises R (Pure.pure x) (Pure.pure y)
  | throw {α : Type} {R : α → α → Prop} {e e' : CompileError} (hr : raises e)
    (hu : e.isUnexpected = false) (h : e.Alike lined e') :
    Quiet lined raises R (MonadExcept.throw e) (MonadExcept.throw e')
  | emit (c : Vm.Command) :
    Quiet lined raises Eq (onWriter (Writer.emit c)) (onWriter (Writer.emit c))
  | note (e : Event) : Quiet lined raises Eq (Session.note e) (Session.note e)
  | change {α : Type} {f : Session → α × Session}
    (h : ∀ s i w, f (s.moved i w) = ((f s).1, (f s).2.moved i w)) :
    Quiet lined raises Eq (modifyGet f) (modifyGet f)
  | get {α : Type} {R : α → α → Prop} {f g : Session → Action Session α}
    (h : ∀ s s', s.Shares s' → Quiet lined raises R (f s) (g s')) :
    Quiet lined raises R (MonadState.get >>= f) (MonadState.get >>= g)
  | bind {α β : Type} {R : β → β → Prop} {a b : Action Session α} {f g : α → Action Session β}
    (ha : Quiet lined raises Eq a b) (hf : ∀ x, Quiet lined raises R (f x) (g x)) :
    Quiet lined raises R (a >>= f) (b >>= g)

/-- **Two actions do the same at a token**: where the stream shows `t`, they look at it, and
complain about it if that is `wanted` or pass it, with work away from the stream before and
behind. -/
inductive Looks (lined : Bool) (raises : CompileError → Prop) (wanted : Option String)
    (t : Option Terminal) : {α : Type} → (α → α → Prop) → Action Session α → Action Session α → Prop
  | quiet {α : Type} {R : α → α → Prop} {a b : Action Session α} (h : Quiet lined raises R a b) :
    Looks lined raises wanted t R a b
  | fail {α : Type} {R : α → α → Prop} {expected : String} (h : wanted = some expected) :
    Looks lined raises wanted t R (Session.fail expected) (Session.fail expected)
  | pass (h : t.isSome = true) : Looks lined raises wanted t Eq Session.pass Session.pass
  | input {α : Type} {R : α → α → Prop} {f g : Lookahead → Action Session α}
    (h : ∀ i j, i.Alike lined j → i.terminal? = t → Looks lined raises wanted t R (f i) (g j)) :
    Looks lined raises wanted t R (input? >>= f) (input? >>= g)
  | get {α : Type} {R : α → α → Prop} {f g : Session → Action Session α}
    (h : ∀ s s', s.Shares s' → Looks lined raises wanted t R (f s) (g s')) :
    Looks lined raises wanted t R (MonadState.get >>= f) (MonadState.get >>= g)
  | before {α β : Type} {R : β → β → Prop} {a b : Action Session α} {f g : α → Action Session β}
    (ha : Quiet lined raises Eq a b) (hf : ∀ x, Looks lined raises wanted t R (f x) (g x)) :
    Looks lined raises wanted t R (a >>= f) (b >>= g)
  | behind {α β : Type} {R : β → β → Prop} {a b : Action Session α} {f g : α → Action Session β}
    (ha : Looks lined raises wanted t Eq a b) (hf : ∀ x, Quiet lined raises R (f x) (g x)) :
    Looks lined raises wanted t R (a >>= f) (b >>= g)
  | congr {α : Type} {R : α → α → Prop} {a b a' b' : Action Session α}
    (h : ∀ s : Session, s.input.terminal? = t → a s = a' s ∧ b s = b' s)
    (h' : Looks lined raises wanted t R a' b') : Looks lined raises wanted t R a b

/-! ## The actions of a session -/

theorem onInput_congr {a b : Action Lookahead α} {s : Session} (h : a s.input = b s.input) :
    onInput a s = onInput b s := by
  cases s
  simp only [onInput]
  rw [h]

theorem onInput_bind (a : Action Lookahead α) (f : α → Action Lookahead β) :
    onInput (a >>= f) = onInput a >>= fun x => onInput (f x) := by
  funext s
  obtain ⟨input, scopes, writer, className, routine, conditions, loops⟩ := s
  simp only [onInput, Action.bind_apply]
  cases a input <;> rfl

theorem discard_apply (a : Action Lookahead α) (i : Lookahead) :
    discard a i = Action.andThen (a i) fun _ => pure () :=
  Action.bind_apply a _ i

theorem onWriter_bind (a : Action Writer α) (f : α → Action Writer β) :
    onWriter (a >>= f) = onWriter a >>= fun x => onWriter (f x) := by
  funext s
  obtain ⟨input, scopes, writer, className, routine, conditions, loops⟩ := s
  simp only [onWriter, Action.bind_apply]
  cases a writer <;> rfl

section

variable {f : Session → α × Session}

theorem input_of_moved (h : ∀ s i w, f (s.moved i w) = ((f s).1, (f s).2.moved i w))
    (s : Session) : (f s).2.input = s.input :=
  congrArg (·.2.input) (h s s.input s.writer)

theorem writer_of_moved (h : ∀ s i w, f (s.moved i w) = ((f s).1, (f s).2.moved i w))
    (s : Session) : (f s).2.writer = s.writer :=
  congrArg (·.2.writer) (h s s.input s.writer)

end

section Actions

variable {raises : CompileError → Prop} {wanted : Option String} {t : Option Terminal}

theorem quiet_write (code : List Vm.Command) :
    Quiet lined raises Eq (write code) (write code) := by
  induction code with
  | nil => exact .pure (x := ()) rfl
  | cons c code ih =>
    rw [write, Writer.emitAll, onWriter_bind]
    exact .bind (.emit c) fun _ => ih

theorem quiet_operate {operator : Char} {unary : Bool}
    (h : Vm.Command.ofOperator? operator unary = none → raises (.unknownOperator operator)) :
    Quiet lined raises Eq (operate operator unary) (operate operator unary) := by
  unfold operate Writer.emitOperator
  split
  · exact .emit _
  · next hc => exact .throw (h hc) rfl (.refl _)

theorem quiet_modify {f : Session → Session}
    (h : ∀ s i w, f (s.moved i w) = (f s).moved i w) :
    Quiet lined raises Eq (modify f) (modify f) :=
  .change fun s i w => congrArg (Prod.mk PUnit.unit) (h s i w)

theorem quiet_declare (name type : String) (kind : VariableKind) :
    Quiet lined raises Eq (declare name type kind) (declare name type kind) :=
  quiet_modify fun _ _ _ => rfl

theorem quiet_declareReceiver (kind : RoutineKind) :
    Quiet lined raises Eq (declareReceiver kind) (declareReceiver kind) := by
  unfold declareReceiver
  split
  · refine .get fun s s' h => ?_
    rw [h.className]
    exact quiet_declare ..
  · exact .pure rfl

/-- A name means the same on every line, and nothing on every line. -/
theorem quiet_resolve {name : String} {line line' : Nat} (h : lined = true → line = line')
    (hr : raises (.undefinedVariable line name)) :
    Quiet lined raises Eq (resolve name line) (resolve name line') := by
  refine .get fun s s' hs => ?_
  rw [hs.scopes]
  split
  · exact .pure rfl
  · exact .throw hr rfl ⟨rfl, fun hl => by rw [h hl]⟩

theorem looks_of_eq {R : α → α → Prop} {a a' : Action Session α}
    (h : ∀ s : Session, s.input.terminal? = t → a s = a' s)
    (h' : Looks lined raises wanted t R a' a') : Looks lined raises wanted t R a a :=
  .congr (fun s hs => ⟨h s hs, h s hs⟩) h'

theorem looks_expectSymbol {c : Char}
    (h : wanted = some (Lookahead.apostrophes (String.singleton c))) :
    Looks lined raises wanted t Eq (expectSymbol c) (expectSymbol c) := by
  by_cases ht : t = some (.symbol c)
  · have hpass (s : Session) (hs : s.input.terminal? = t) : expectSymbol c s = pass s := by
      have hs := hs.trans ht
      refine onInput_congr ?_
      rw [discard_apply, discard_apply, Lookahead.expectSymbol, if_pos (isSymbol_iff.mpr hs),
        Lookahead.pass_congr hs "symbol" "token"]
    exact looks_of_eq hpass (.pass (by rw [ht]; rfl))
  · have hfail (s : Session) (hs : s.input.terminal? = t) : expectSymbol c s
        = fail (Lookahead.apostrophes (String.singleton c)) s := by
      have hn : ¬ s.input.isSymbol c = true := fun hc => ht (hs.symm.trans (isSymbol_iff.mp hc))
      refine onInput_congr ?_
      rw [discard_apply, Lookahead.expectSymbol, if_neg hn]
      rfl
    exact looks_of_eq hfail (.fail h)

theorem looks_expectKeyword {k : Keyword} (h : wanted = some (Lookahead.apostrophes k.text)) :
    Looks lined raises wanted t Eq (expectKeyword k) (expectKeyword k) := by
  by_cases ht : t = some (.keyword k)
  · have hpass (s : Session) (hs : s.input.terminal? = t) : expectKeyword k s = pass s := by
      have hs := hs.trans ht
      refine onInput_congr ?_
      rw [discard_apply, discard_apply, Lookahead.expectKeyword, if_pos (keyword?_eq_some.mpr hs),
        Lookahead.pass_congr hs "keyword" "token"]
    exact looks_of_eq hpass (.pass (by rw [ht]; rfl))
  · have hfail (s : Session) (hs : s.input.terminal? = t) : expectKeyword k s
        = fail (Lookahead.apostrophes k.text) s := by
      have hn : ¬ s.input.keyword? = some k := fun hk => ht (hs.symm.trans (keyword?_eq_some.mp hk))
      refine onInput_congr ?_
      rw [discard_apply, Lookahead.expectKeyword, if_neg hn]
      rfl
    exact looks_of_eq hfail (.fail h)

theorem looks_expectName {what : String} (h : wanted = some what) :
    Looks lined raises wanted t Eq (expectName what) (expectName what) := by
  by_cases ht : ∃ name, t = some (.identifier name)
  · obtain ⟨name, rfl⟩ := ht
    have hpass (s : Session) (hs : s.input.terminal? = some (.identifier name)) :
        expectName what s = (pass >>= fun _ => pure name : Action Session String) s := by
      have hname : Lookahead.expectName what s.input
          = (discard (Lookahead.pass "token") >>= fun _ => pure name) s.input := by
        rw [Lookahead.expectName, hs]
        dsimp only
        rw [Action.bind_apply, Action.bind_apply, discard_apply, discard_apply,
          Lookahead.pass_congr hs what "token"]
      exact (onInput_congr hname).trans (by rw [onInput_bind]; rfl)
    exact looks_of_eq hpass (.behind (.pass rfl) fun _ => .pure rfl)
  · have hfail (s : Session) (hs : s.input.terminal? = t) : expectName what s = fail what s := by
      refine onInput_congr ?_
      rw [Lookahead.expectName, hs]
      split
      · next name => exact absurd ⟨name, rfl⟩ ht
      · rfl
    exact looks_of_eq hfail (.fail h)

theorem looks_expectType (h : wanted = some "type") :
    Looks lined raises wanted t Eq expectType expectType := by
  refine .input fun i j hij hi => ?_
  rw [← hij.1, hi]
  split
  · next type ht =>
    have hs : t = some type := (Option.filter_eq_some_iff.mp ht).1
    exact .behind (.pass (by rw [hs]; rfl)) fun _ => .pure rfl
  · exact .fail h

end Actions

end Session

/-! ## What a goal may do -/

namespace Goal

/-- **What a goal may find missing**, as messages call it. The others look at the current token only
to choose between agendas, or not at all. -/
def wanted? : Goal → Option String
  | .symbol c => some (Lookahead.apostrophes (String.singleton c))
  | .keyword k => some (Lookahead.apostrophes k.text)
  | .className => some "class name"
  | .sourceEnd => some "end of input after class"
  | .variableType _ | .returnType _ | .parameterType => some "type"
  | .variableName _ _ | .assigned => some "variable name"
  | .routineName _ _ | .performed | .callee _ => some "subroutine name"
  | .parameterName _ => some "parameter name"
  | .term => some "term"
  | _ => none

/-- **What a goal may raise besides**: that an operator has no command, or a name no meaning. -/
def Raises : Goal → CompileError → Prop
  | .operate operator unary, e =>
    Vm.Command.ofOperator? operator unary = none ∧ e = .unknownOperator operator
  | .assigned, e | .reference .., e => ∃ line name, e = .undefinedVariable line name
  | _, _ => False

/-- The goal is a reference to a name that has been read. -/
def isReference : Goal → Bool
  | .reference .. => true
  | _ => false

/-- **None of the goals is a reference.** -/
def Plain (gs : List Goal) : Prop :=
  gs.all (!·.isReference) = true

theorem plain_append {gs hs : List Goal} : Plain (gs ++ hs) ↔ Plain gs ∧ Plain hs := by
  simp [Plain]

theorem plain_cons {g : Goal} {gs : List Goal} :
    Plain (g :: gs) ↔ g.isReference = false ∧ Plain gs := by
  simp [Plain]

theorem plain_statement {k : Keyword} {gs : List Goal} (h : statement? k = some gs) :
    Plain gs := by
  revert h
  cases k <;> rintro ⟨⟩ <;> rfl

/-- **What two sessions put in the place of a goal**: agendas that are alike, and only for a term
with a reference. -/
def Leaves (lined : Bool) (g : Goal) (gs hs : List Goal) : Prop :=
  Alike lined gs hs ∧ (g ≠ .term → Plain gs)

theorem Leaves.of_plain {g : Goal} {gs : List Goal} (h : Plain gs) : g.Leaves lined gs gs :=
  ⟨.refl gs, fun _ => h⟩

end Goal

/-! ## Doing a goal -/

namespace Session

open Goal (Plain Leaves)

variable {raises : CompileError → Prop} {wanted : Option String} {t : Option Terminal} {g : Goal}
  {gs hs : List Goal} {i : Lookahead}

theorem isSome_of_keyword? {k : Keyword} (hi : i.terminal? = t) (h : i.keyword? = some k) :
    t.isSome = true := by
  rw [← hi, keyword?_eq_some.mp h]
  rfl

theorem isSome_of_symbol? {c : Char} (hi : i.terminal? = t) (h : i.symbol? = some c) :
    t.isSome = true := by
  rw [← hi, symbol?_eq_some.mp h]
  rfl

theorem isSome_of_isSymbol {c : Char} (hi : i.terminal? = t) (h : i.isSymbol c = true) :
    t.isSome = true := by
  rw [← hi, isSymbol_iff.mp h]
  rfl

theorem quiet_goals (h : Plain gs) : Quiet lined raises (g.Leaves lined) (pure gs) (pure gs) :=
  .pure (.of_plain h)

theorem looks_goals (h : Plain gs) :
    Looks lined raises wanted t (g.Leaves lined) (pure gs) (pure gs) :=
  .quiet (quiet_goals h)

theorem looks_pass_goals (ht : t.isSome = true) (h : Plain gs) :
    Looks lined raises wanted t (g.Leaves lined) (do pass; return gs) (do pass; return gs) :=
  .behind (.pass ht) fun _ => quiet_goals h

/-- A choice between agendas, made by a token that is passed or left. -/
theorem looks_choice {p : Prop} [Decidable p] (hp : p → t.isSome = true) (hgs : Plain gs)
    (hhs : Plain hs) :
    Looks lined raises wanted t (g.Leaves lined) (if p then (do pass; return gs) else return hs)
      (if p then (do pass; return gs) else return hs) := by
  split
  · next h => exact looks_pass_goals (hp h) hgs
  · exact looks_goals hhs

/-- **A reference is done alike on every line.** -/
theorem looks_reference (name : String) {line line' : Nat} (h : lined = true → line = line') :
    Looks lined (Goal.reference name line).Raises none t ((Goal.reference name line).Leaves lined)
      (perform (.reference name line)) (perform (.reference name line')) := by
  have hresolve : Quiet lined (Goal.reference name line).Raises Eq (resolve name line)
      (resolve name line') := quiet_resolve h ⟨line, name, rfl⟩
  refine .input fun i j hij hi => ?_
  rw [← hij.symbol?]
  split
  · exact looks_goals rfl
  · exact looks_goals rfl
  · next hc =>
    refine .before hresolve fun v => .behind (.pass (isSome_of_symbol? hi hc)) fun _ => ?_
    exact .bind (quiet_write _) fun _ => quiet_goals rfl
  · exact .quiet (.bind hresolve fun v => .bind (quiet_write _) fun _ => quiet_goals rfl)

theorem termGoals?_eq_none {token : Token} {c : Char} (h : token.terminal = .symbol c)
    (hc : c ∉ ['(', '-', '~']) : termGoals? token = none := by
  rw [termGoals?, h]
  split <;> simp_all

/-- **A term is done by its first token**, whose line only a reference keeps. -/
theorem looks_termGoals? {token token' : Token} (ht : t.isSome = true)
    (h : token.terminal = token'.terminal) (hl : lined = true → token.line = token'.line) :
    Looks lined raises (some "term") t (Goal.term.Leaves lined)
      (match termGoals? token with
        | some goals => goals
        | none => fail "term")
      (match termGoals? token' with
        | some goals => goals
        | none => fail "term") := by
  cases htoken : token'.terminal with
  | integer digits =>
    simp only [termGoals?, h, htoken]
    exact .behind (.pass ht) fun _ => .bind (quiet_write _) fun _ => quiet_goals rfl
  | text body =>
    simp only [termGoals?, h, htoken]
    exact .behind (.pass ht) fun _ => .bind (quiet_write _) fun _ => quiet_goals rfl
  | keyword k =>
    simp only [termGoals?, h, htoken]
    cases Code.keywordConstant? k with
    | none => exact .fail rfl
    | some code =>
      exact .before (quiet_write code) fun _ => looks_pass_goals ht rfl
  | symbol c =>
    by_cases hc : c ∈ ['(', '-', '~']
    · simp only [List.mem_cons, List.not_mem_nil, or_false] at hc
      rcases hc with rfl | rfl | rfl
      all_goals
        simp only [termGoals?, h, htoken]
        exact looks_pass_goals ht rfl
    · rw [termGoals?_eq_none (h.trans htoken) hc, termGoals?_eq_none htoken hc]
      exact .fail rfl
  | identifier name =>
    simp only [termGoals?, h, htoken]
    refine .behind (.pass ht) fun _ => .pure ⟨⟨rfl, fun hlined => ?_⟩, fun hn => absurd rfl hn⟩
    rw [hl hlined]

/-- **How every goal is done.** -/
theorem looks_perform (g : Goal) (t : Option Terminal) :
    Looks lined g.Raises g.wanted? t (g.Leaves lined) (perform g) (perform g) := by
  cases g with
  | symbol c => exact .behind (looks_expectSymbol rfl) fun _ => quiet_goals rfl
  | keyword k => exact .behind (looks_expectKeyword rfl) fun _ => quiet_goals rfl
  | write commands => exact .quiet (.bind (quiet_write _) fun _ => quiet_goals rfl)
  | operate operator unary =>
    exact .quiet (.bind (quiet_operate fun h => ⟨h, rfl⟩) fun _ => quiet_goals rfl)
  | className =>
    exact .behind (looks_expectName rfl) fun _ => .bind (quiet_modify fun _ _ _ => rfl) fun _ =>
      quiet_goals rfl
  | announceClass =>
    refine .quiet (.get fun s s' h => ?_)
    rw [h.className]
    exact .bind (.note _) fun _ => quiet_goals rfl
  | classVariables =>
    refine .input fun i j h hi => ?_
    rw [← h.keyword?]
    split
    · next hk => exact looks_pass_goals (isSome_of_keyword? hi hk) rfl
    · next hk => exact looks_pass_goals (isSome_of_keyword? hi hk) rfl
    · exact looks_goals rfl
  | routines =>
    refine .input fun i j h hi => ?_
    rw [← h.keyword?]
    split
    · next kind hk =>
      obtain ⟨k, hk, -⟩ := Option.bind_eq_some_iff.mp hk
      exact .behind (.pass (isSome_of_keyword? hi hk)) fun _ =>
        .bind (quiet_modify fun _ _ _ => rfl) fun _ => quiet_goals rfl
    · exact looks_goals rfl
  | sourceEnd =>
    refine .input fun i j h _ => ?_
    rw [← h.atEnd]
    split
    · exact looks_goals rfl
    · exact .fail rfl
  | variableType kind => exact .behind (looks_expectType rfl) fun _ => quiet_goals rfl
  | variableName kind type =>
    exact .behind (looks_expectName rfl) fun _ => .bind (quiet_declare ..) fun _ => quiet_goals rfl
  | moreVariables kind type =>
    refine .input fun i j h hi => ?_
    rw [← h.isSymbol]
    exact looks_choice (isSome_of_isSymbol hi) rfl rfl
  | returnType kind =>
    refine .input fun i j h hi => ?_
    rw [← h.keyword?]
    split
    · next hk => exact looks_pass_goals (isSome_of_keyword? hi hk) rfl
    · exact .behind (.behind (looks_expectType rfl) fun _ => .pure rfl) fun _ => quiet_goals rfl
  | routineName kind returnsVoid =>
    exact .behind (looks_expectName rfl) fun _ => .bind (quiet_modify fun _ _ _ => rfl) fun _ =>
      .bind (quiet_declareReceiver kind) fun _ => quiet_goals rfl
  | parameters =>
    refine .input fun i j h _ => ?_
    rw [← h.isSymbol]
    split
    · exact looks_goals rfl
    · exact looks_goals rfl
  | parameterType => exact .behind (looks_expectType rfl) fun _ => quiet_goals rfl
  | parameterName type =>
    exact .behind (looks_expectName rfl) fun _ => .bind (quiet_declare ..) fun _ => quiet_goals rfl
  | moreParameters =>
    refine .input fun i j h hi => ?_
    rw [← h.isSymbol]
    exact looks_choice (isSome_of_isSymbol hi) rfl rfl
  | announceRoutine =>
    refine .quiet (.get fun s s' h => ?_)
    rw [h.className, h.routine]
    exact .bind (.note _) fun _ => quiet_goals rfl
  | localVariables =>
    refine .input fun i j h hi => ?_
    rw [← h.keyword?]
    exact looks_choice (isSome_of_keyword? hi) rfl rfl
  | prologue =>
    refine .quiet (.get fun s s' h => ?_)
    rw [h.className, h.routine, h.scopes]
    exact .bind (quiet_write _) fun _ => quiet_goals rfl
  | epilogue =>
    refine .quiet (.get fun s s' h => ?_)
    rw [h.className, h.routine, h.returned]
    dsimp only
    split
    · exact quiet_goals rfl
    split
    · exact .bind (.note _) fun _ => .bind (quiet_write _) fun _ => quiet_goals rfl
    · exact .bind (.note _) fun _ => quiet_goals rfl
  | statements =>
    refine .input fun i j h hi => ?_
    rw [← h.keyword?]
    split
    · next goals hk =>
      obtain ⟨k, hk, hgoals⟩ := Option.bind_eq_some_iff.mp hk
      exact looks_pass_goals (isSome_of_keyword? hi hk)
        (Goal.plain_append.mpr ⟨Goal.plain_statement hgoals, rfl⟩)
    · exact looks_goals rfl
  | assigned =>
    exact .input fun i j h _ => .behind (looks_expectName rfl) fun name =>
      .bind (quiet_resolve h.2 ⟨_, name, rfl⟩) fun _ => quiet_goals rfl
  | assignment target =>
    refine .input fun i j h hi => ?_
    rw [← h.isSymbol]
    exact looks_choice (isSome_of_isSymbol hi) rfl rfl
  | conditional => exact .quiet (.bind (.change fun _ _ _ => rfl) fun _ => quiet_goals rfl)
  | loop => exact .quiet (.bind (.change fun _ _ _ => rfl) fun _ => quiet_goals rfl)
  | otherwise =>
    refine .input fun i j h hi => ?_
    rw [← h.keyword?]
    exact looks_choice (isSome_of_keyword? hi) rfl rfl
  | performed => exact .behind (looks_expectName rfl) fun _ => quiet_goals rfl
  | returned =>
    refine .get fun s s' hs => .input fun i j h _ => ?_
    rw [← h.isSymbol, hs.routine]
    split
    · exact looks_goals rfl
    · exact looks_goals rfl
  | expression => exact looks_goals rfl
  | moreTerms =>
    refine .input fun i j h hi => ?_
    rw [← h.symbol?]
    split
    · next c hc => exact looks_choice (fun _ => isSome_of_symbol? hi hc) rfl rfl
    · exact looks_goals rfl
  | term =>
    refine .input fun i j h hi => ?_
    obtain ⟨current, pending, lastLine⟩ := i
    obtain ⟨current', pending', lastLine'⟩ := j
    cases current with
    | none =>
      cases current' with
      | none => exact .fail rfl
      | some token' => exact nomatch h.1
    | some token =>
      cases current' with
      | none => exact nomatch h.1
      | some token' => exact looks_termGoals? (by rw [← hi]; rfl) (Option.some.inj h.1) h.2
  | reference name line => exact looks_reference name fun _ => rfl
  | call name =>
    refine .input fun i j h hi => ?_
    rw [← h.isSymbol]
    split
    · next hc =>
      refine .behind (.pass (isSome_of_isSymbol hi hc)) fun _ => .bind (quiet_write _) fun _ =>
        .get fun s s' hs => ?_
      rw [hs.className]
      exact quiet_goals rfl
    · exact looks_goals rfl
  | callee receiver => exact .behind (looks_expectName rfl) fun _ => quiet_goals rfl
  | receiver name routine =>
    refine .quiet (.get fun s s' h => ?_)
    rw [h.scopes]
    split
    · exact .bind (quiet_write _) fun _ => quiet_goals rfl
    · exact quiet_goals rfl
  | arguments routine count =>
    refine .input fun i j h _ => ?_
    rw [← h.isSymbol]
    split
    · exact looks_goals rfl
    · exact looks_goals rfl
  | moreArguments routine count =>
    refine .input fun i j h hi => ?_
    rw [← h.isSymbol]
    exact looks_choice (isSome_of_isSymbol hi) rfl rfl

end Session

end JackStack
