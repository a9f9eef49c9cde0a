import JackStack.Proofs.Viability
import JackStack.Token.Reader

/-!
# Proofs/Positions — a stream is a position in its items

Whatever is asked of a stream, in whatever order, it answers as a position in its items does. What
is answered depends on the token at the position and on the line there. An operation that takes
this token moves the position one item on. If a malformed item comes up, its error is the answer and
the token is lost: the position shows no token any more, and stays where it is.

* `Lookahead.passGuarded_eq` — a stream that asks its reader for the next token gets it.
* `Lookahead.Operation`, `Lookahead.answers` — what can be asked of a stream, and what it answers.
* `Lookahead.Operation.runFed` — the same where the stream asks a reader for every token.
* `Lookahead.Operation.runAt` — the same of a position.
* `Lookahead.Shows.run` — a stream that shows a position answers one operation as the position does.
* `Lookahead.answers_ofSource` — the stream of a source answers all operations so.
-/

namespace JackStack

/-- **Takes the next token out of a reader**, if there is one. -/
def Reader.pull (r : Reader) : Except CompileError (Option Token) × Reader :=
  if r.hasNext then
    match r.advance with
    | (.ok (), r') => (.ok r'.take.1, r'.take.2)
    | (.error e, r') => (.error e, r')
  else (.ok none, r)

namespace Lookahead

variable {items : List (Except CompileError Token)} {p : Nat} {i : Lookahead} {e : CompileError}
  {token : Token}

/-! ## Operations on a stream -/

/-- **What can be asked of a stream.** -/
inductive Operation where
  | current
  | terminal
  | keyword
  | symbol
  | isSymbol (c : Char)
  | atEnd
  | line
  | pass (expected : String)
  | accept (c : Char)
  | expectSymbol (c : Char)
  | expectKeyword (k : Keyword)
  | expectOneOf (ks : List Keyword)
  | expectName (what : String)
  | unexpected (expected : String)
  deriving DecidableEq, Repr

/-- **What a stream can answer.** -/
inductive Answer where
  | current (token : Option Token)
  | terminal (t : Option Terminal)
  | keyword (k : Option Keyword)
  | symbol (c : Option Char)
  | truth (b : Bool)
  | line (n : Nat)
  | token (token : Token)
  | oneOf (k : Keyword)
  | name (name : String)
  | error (e : CompileError)
  deriving DecidableEq, Repr

/-- **The answer refuses**: it is `false`, or the error that something else was expected. -/
def Answer.refuses : Answer → Bool
  | .truth b => !b
  | .error e => e.isUnexpected
  | _ => false

/-- **The answer of an action**, and the stream that the action leaves. -/
def answered {α : Type} (f : α → Answer) :
    EStateM.Result CompileError Lookahead α → Answer × Lookahead
  | .ok x i => (f x, i)
  | .error e i => (.error e, i)

/-- **Does an operation**: what the stream answers, and the stream that is left. -/
def Operation.run (i : Lookahead) : Operation → Answer × Lookahead
  | .current => (.current i.current, i)
  | .terminal => (.terminal i.terminal?, i)
  | .keyword => (.keyword i.keyword?, i)
  | .symbol => (.symbol i.symbol?, i)
  | .isSymbol c => (.truth (i.isSymbol c), i)
  | .atEnd => (.truth i.atEnd, i)
  | .line => (.line i.line, i)
  | .pass expected => answered .token (Lookahead.pass expected i)
  | .accept c => answered .truth (Lookahead.accept c i)
  | .expectSymbol c => answered .token (Lookahead.expectSymbol c i)
  | .expectKeyword k => answered .token (Lookahead.expectKeyword k i)
  | .expectOneOf ks => answered .oneOf (Lookahead.expectOneOf ks i)
  | .expectName what => answered .name (Lookahead.expectName what i)
  | .unexpected expected => (.error (i.unexpected expected), i)

/-! ## Streams that a reader feeds -/

/-- **The stream that a reader feeds**, which needs its first token to be well-formed. -/
def ofReader (r : Reader) : Except CompileError Lookahead :=
  match r.pull with
  | (.ok current, r') => .ok ⟨current, r'.pending, 1⟩
  | (.error e, _) => .error e

theorem ofReader_ofSource (source : String) : ofReader (.ofSource source) = ofSource source := by
  rw [Reader.ofSource, ofSource]
  rcases scan source with _ | ⟨_ | token, rest⟩ <;> rfl

/-- **Consumes the current token, guarded**: the reader behind the stream is asked for another one
only if it has one. -/
def passGuarded (expected : String) : Action Lookahead Token := fun s =>
  match s.current with
  | none => fail expected s
  | some token =>
    match Reader.pull ⟨none, s.pending⟩ with
    | (.ok current, r) => .ok token ⟨current, r.pending, token.line⟩
    | (.error e, r) => .error e ⟨none, r.pending, token.line⟩

theorem passGuarded_eq (expected : String) : passGuarded expected = pass expected := by
  funext s
  obtain ⟨current, pending, lastLine⟩ := s
  rcases current with _ | token
  · rfl
  · rcases pending with _ | ⟨_ | ahead, rest⟩ <;> rfl

/-- **Does an operation on a stream that a reader feeds**: where a token is consumed, the reader is
asked for the next one, and that token is taken out of it. -/
def Operation.runFed (i : Lookahead) : Operation → Answer × Lookahead
  | .pass expected => answered .token (passGuarded expected i)
  | .accept c =>
    if i.isSymbol c then answered (fun _ => .truth true) (passGuarded "symbol" i)
    else (.truth false, i)
  | .expectSymbol c =>
    if i.isSymbol c then answered .token (passGuarded "symbol" i)
    else (.error (i.unexpected (apostrophes (String.singleton c))), i)
  | .expectKeyword k =>
    if i.keyword? = some k then answered .token (passGuarded "keyword" i)
    else (.error (i.unexpected (apostrophes k.text)), i)
  | .expectOneOf ks =>
    match i.keyword?.filter ks.contains with
    | some k => answered (fun _ => .oneOf k) (passGuarded "keyword" i)
    | none =>
      (.error (i.unexpected
        ("one of " ++ String.intercalate ", " (ks.map (apostrophes ·.text)))), i)
  | .expectName what =>
    match i.terminal? with
    | some (.identifier name) => answered (fun _ => .name name) (passGuarded what i)
    | _ => (.error (i.unexpected what), i)
  | op => op.run i

theorem answered_then {α : Type} (what : String) (x : α) (f : α → Answer) (i : Lookahead) :
    answered f ((do discard <| pass what; pure x : Action Lookahead α) i)
      = answered (fun _ => f x) (pass what i) := by
  obtain ⟨current, pending, lastLine⟩ := i
  rcases current with - | token
  · rfl
  · rcases pending with - | ⟨_ | _, _⟩ <;> rfl

/-- **A stream that a reader feeds answers as one that holds its items.** -/
theorem Operation.runFed_eq (op : Operation) (i : Lookahead) : op.runFed i = op.run i := by
  cases op with
  | pass expected => rw [runFed, run, passGuarded_eq]
  | accept c =>
    rw [runFed, run, Lookahead.accept, passGuarded_eq]
    split
    · exact (answered_then "symbol" true .truth i).symm
    · rfl
  | expectSymbol c =>
    rw [runFed, run, Lookahead.expectSymbol, passGuarded_eq]
    split <;> rfl
  | expectKeyword k =>
    rw [runFed, run, Lookahead.expectKeyword, passGuarded_eq]
    split <;> rfl
  | expectOneOf ks =>
    rw [runFed, run, Lookahead.expectOneOf]
    cases i.keyword? with
    | none => rfl
    | some k =>
      by_cases hk : ks.contains k = true
      · simp only [Option.filter_some, hk, if_true, passGuarded_eq]
        exact (answered_then "keyword" k .oneOf i).symm
      · simp only [Option.filter_some, hk]
        rfl
  | expectName what =>
    rw [runFed, run, Lookahead.expectName]
    rcases i.terminal? with - | ⟨k | c | digits | body | name⟩
    case some.identifier =>
      simp only [passGuarded_eq]
      exact (answered_then what name .name i).symm
    all_goals rfl
  | _ => rfl

/-! ## Several operations -/

/-- **The answers to operations**, done one after the other. -/
def answers (i : Lookahead) : List Operation → List Answer
  | [] => []
  | op :: ops => (op.run i).1 :: answers (op.run i).2 ops

/-- **The stream that operations leave.** -/
def left (i : Lookahead) (ops : List Operation) : Lookahead :=
  ops.foldl (fun i op => (op.run i).2) i

/-! ## Operations on a position -/

/-- **The token at a position**: none behind the last item, and none if the item is malformed. -/
def tokenAt (items : List (Except CompileError Token)) (p : Nat) : Option Token :=
  items[p]?.bind Except.toOption

/-- **The line of the token before a position**, at the start the first line. -/
def lineBefore (items : List (Except CompileError Token)) : Nat → Nat
  | 0 => 1
  | p + 1 => ((tokenAt items p).map Token.line).getD 1

/-- **The line at a position**: that of its token, or else of the token before it. -/
def lineAt (items : List (Except CompileError Token)) (p : Nat) : Nat :=
  ((tokenAt items p).map Token.line).getD (lineBefore items p)

/-- **The answer when a position comes up**: the error of a malformed item there, or else the given
one. -/
def answerBefore (items : List (Except CompileError Token)) (p : Nat) (answer : Answer) : Answer :=
  match items[p]? with
  | some (.error e) => .error e
  | _ => answer

namespace Operation

/-- **What an operation answers that takes the token**, if it does. -/
def takes? (token : Token) : Operation → Option Answer
  | .pass _ => some (.token token)
  | .accept c => if token.terminal = .symbol c then some (.truth true) else none
  | .expectSymbol c => if token.terminal = .symbol c then some (.token token) else none
  | .expectKeyword k => if token.terminal = .keyword k then some (.token token) else none
  | .expectOneOf ks =>
    match token.terminal with
    | .keyword k => if k ∈ ks then some (.oneOf k) else none
    | _ => none
  | .expectName _ =>
    match token.terminal with
    | .identifier name => some (.name name)
    | _ => none
  | _ => none

/-- **What an operation expects** to find, as the error says that complains about something else. -/
def expected : Operation → String
  | .pass expected | .expectName expected | .unexpected expected => expected
  | .expectSymbol c => apostrophes (String.singleton c)
  | .expectKeyword k => apostrophes k.text
  | .expectOneOf ks => "one of " ++ String.intercalate ", " (ks.map (apostrophes ·.text))
  | _ => ""

/-- **What an operation answers that takes no token**, where a token may stand on a line. -/
def looks (current : Option Token) (line : Nat) (op : Operation) : Answer :=
  match op with
  | .current => .current current
  | .terminal => .terminal (current.map Token.terminal)
  | .keyword => .keyword (current.bind (·.terminal.keyword?))
  | .symbol => .symbol (current.bind (·.terminal.symbol?))
  | .isSymbol c => .truth (current.any (·.terminal = .symbol c))
  | .atEnd => .truth current.isNone
  | .line => .line line
  | .accept _ => .truth false
  | .pass _ | .expectSymbol _ | .expectKeyword _ | .expectOneOf _ | .expectName _ | .unexpected _ =>
    .error (.unexpected line op.expected
      ((current.map (·.terminal.describe)).getD "end of input"))

/-- **Does an operation at a position**: the answer, and the position that is left. -/
def runAt (items : List (Except CompileError Token)) (p : Nat) (op : Operation) : Answer × Nat :=
  match (tokenAt items p).bind op.takes? with
  | none => (op.looks (tokenAt items p) (lineAt items p), p)
  | some answer => (answerBefore items (p + 1) answer, p + 1)

end Operation

/-- **The answers to operations from a position on.** -/
def answersAt (items : List (Except CompileError Token)) (p : Nat) : List Operation → List Answer
  | [] => []
  | op :: ops => (op.runAt items p).1 :: answersAt items (op.runAt items p).2 ops

/-! ## What an operation does to a stream -/

/-- **Takes the current token** and gives an answer, unless a malformed item comes up. -/
def taking (i : Lookahead) (answer : Answer) : Answer × Lookahead :=
  answered (fun _ => answer) (pass "" i)

theorem answered_pass (h : i.current = some token) (expected : String) :
    answered .token (pass expected i) = i.taking (.token token) := by
  obtain ⟨current, pending, lastLine⟩ := i
  obtain rfl : current = some token := h
  rcases pending with - | ⟨_ | _, _⟩ <;> rfl

theorem answered_pass_then {α : Type} (h : i.current = some token) (what : String) (x : α)
    (f : α → Answer) :
    answered f ((do discard <| pass what; pure x : Action Lookahead α) i) = i.taking (f x) := by
  obtain ⟨current, pending, lastLine⟩ := i
  obtain rfl : current = some token := h
  rcases pending with - | ⟨_ | _, _⟩ <;> rfl

theorem answered_fail {α : Type} (expected : String) (f : α → Answer) :
    answered f (fail expected i) = (.error (i.unexpected expected), i) :=
  rfl

theorem terminal?_of_current (h : i.current = some token) : i.terminal? = some token.terminal := by
  rw [terminal?, h]
  rfl

theorem unexpected_of_current (h : i.current = some token) (expected : String) :
    i.unexpected expected = .unexpected i.line expected token.terminal.describe := by
  rw [unexpected, found, h]

namespace Operation

/-- **An operation takes the current token or leaves the stream as it is.** -/
theorem run_eq (op : Operation) (i : Lookahead) :
    op.run i = match i.current.bind op.takes? with
      | none => (op.looks i.current i.line, i)
      | some answer => i.taking answer := by
  cases hc : i.current with
  | none =>
    obtain ⟨current, pending, lastLine⟩ := i
    obtain rfl : current = none := hc
    cases op <;> rfl
  | some token =>
    have ht := terminal?_of_current hc
    have hfail := unexpected_of_current hc
    have hsymbol (c : Char) : i.symbol? = some c ↔ token.terminal = .symbol c := by
      rw [Session.symbol?_eq_some, ht, Option.some_inj]
    have hkeyword (k : Keyword) : i.keyword? = some k ↔ token.terminal = .keyword k := by
      rw [Session.keyword?_eq_some, ht, Option.some_inj]
    cases op with
    | current => simp [run, takes?, looks, hc]
    | terminal => simp [run, takes?, looks, ht]
    | keyword => simp [run, takes?, looks, Lookahead.keyword?, ht]
    | symbol => simp [run, takes?, looks, Lookahead.symbol?, ht]
    | isSymbol c => simp [run, takes?, looks, Lookahead.isSymbol, hsymbol]
    | atEnd => simp [run, takes?, looks, Lookahead.atEnd, hc]
    | line => simp [run, takes?, looks]
    | unexpected what => simp [run, takes?, looks, hfail, expected]
    | pass what => exact answered_pass hc what
    | accept c =>
      by_cases h : token.terminal = .symbol c
      · simp only [run, Lookahead.accept, Lookahead.isSymbol, hsymbol, h, decide_true, if_true,
          answered_pass_then hc, Option.bind_some, takes?]
      · simp [run, Lookahead.accept, Lookahead.isSymbol, hsymbol, h, takes?, looks, answered]
    | expectSymbol c =>
      by_cases h : token.terminal = .symbol c
      · simp [run, Lookahead.expectSymbol, Lookahead.isSymbol, hsymbol, h, takes?, answered_pass hc]
      · simp [run, Lookahead.expectSymbol, Lookahead.isSymbol, hsymbol, h, takes?, looks,
          answered_fail, hfail, expected]
    | expectKeyword k =>
      by_cases h : token.terminal = .keyword k
      · simp [run, Lookahead.expectKeyword, hkeyword, h, takes?, answered_pass hc]
      · simp [run, Lookahead.expectKeyword, hkeyword, h, takes?, looks, answered_fail, hfail,
          expected]
    | expectOneOf ks =>
      cases h : token.terminal with
      | keyword k =>
        by_cases hk : k ∈ ks
        · simp only [run, Lookahead.expectOneOf, (hkeyword k).mpr h, List.contains_iff_mem.mpr hk,
            if_true, answered_pass_then hc, Option.bind_some, takes?, h, hk]
        · simp [run, Lookahead.expectOneOf, (hkeyword k).mpr h, hk, takes?, h, looks, answered_fail,
            hfail, expected, expectOneOf.oneOf]
      | _ =>
        simp [run, Lookahead.expectOneOf, Lookahead.keyword?, Terminal.keyword?, ht, h, takes?,
          looks, answered_fail, hfail, expected, expectOneOf.oneOf]
    | expectName what =>
      cases h : token.terminal with
      | identifier name =>
        simp only [run, Lookahead.expectName, ht, h, answered_pass_then hc, Option.bind_some,
          takes?]
      | _ => simp [run, Lookahead.expectName, ht, h, answered_fail, takes?, looks, hfail, expected]

/-- An operation that takes a token answers neither with an error nor with a refusal. -/
theorem of_takes? {op : Operation} {answer : Answer} (h : op.takes? token = some answer) :
    answer.refuses = false ∧ ∀ e, answer ≠ .error e := by
  cases op <;> grind [takes?, Answer.refuses]

/-- An operation that takes no token complains about what it sees, if it answers with an error. -/
theorem isUnexpected_of_looks {op : Operation} {current : Option Token} {line : Nat}
    (h : op.looks current line = .error e) : e.isUnexpected = true := by
  cases op <;> cases h <;> rfl

/-- Where there is no token, an operation changes nothing. -/
theorem run_of_ended (h : i.current = none) (op : Operation) : (op.run i).2 = i := by
  rw [run_eq, h]
  rfl

end Operation

/-! ## Streams that show a position -/

/-- **A stream shows a position** in a sequence of items. What it hides behind a malformed item does
not matter: it is never looked at again. -/
structure Shows (items : List (Except CompileError Token)) (p : Nat) (i : Lookahead) : Prop where
  current : i.current = tokenAt items p
  pending : i.current ≠ none → i.pending = items.drop (p + 1)
  lastLine : i.lastLine = lineBefore items p

theorem shows_ofItems (h : ofItems items = .ok i) : Shows items 0 i := by
  cases items with
  | nil =>
    cases h
    exact ⟨rfl, fun _ => rfl, rfl⟩
  | cons item rest =>
    cases item with
    | ok token =>
      cases h
      exact ⟨rfl, fun _ => rfl, rfl⟩
    | error e => cases h

namespace Shows

theorem line (h : Shows items p i) : i.line = lineAt items p := by
  rw [Lookahead.line, lineAt, ← h.current, ← h.lastLine]
  cases i.current <;> rfl

/-- **Taking the token moves the position one item on.** -/
theorem taking (h : Shows items p i) (hc : i.current = some token) (answer : Answer) :
    (i.taking answer).1 = answerBefore items (p + 1) answer ∧
      Shows items (p + 1) (i.taking answer).2 := by
  obtain ⟨current, pending, lastLine⟩ := i
  obtain rfl : current = some token := hc
  have htoken : tokenAt items p = some token := h.current.symm
  have hpending : pending = items.drop (p + 1) := h.pending (Option.some_ne_none token)
  have hitem : items[p + 1]? = pending.head? := by rw [hpending, List.head?_drop]
  have hline : token.line = lineBefore items (p + 1) := by simp [lineBefore, htoken]
  unfold answerBefore
  cases pending with
  | nil =>
    rw [hitem]
    exact ⟨rfl, by rw [tokenAt, hitem]; rfl, fun hnone => absurd rfl hnone, hline⟩
  | cons item rest =>
    rw [hitem]
    cases item with
    | ok ahead =>
      refine ⟨rfl, by rw [tokenAt, hitem]; rfl, fun _ => ?_, hline⟩
      show rest = items.drop (p + 1 + 1)
      rw [← List.tail_drop, ← hpending, List.tail_cons]
    | error e => exact ⟨rfl, by rw [tokenAt, hitem]; rfl, fun hnone => absurd rfl hnone, hline⟩

/-- **One operation**: a stream answers as the position that it shows, and shows the position that
is left. -/
theorem run (h : Shows items p i) (op : Operation) :
    (op.run i).1 = (op.runAt items p).1 ∧ Shows items (op.runAt items p).2 (op.run i).2 := by
  rw [op.run_eq, Operation.runAt, ← h.line, ← h.current]
  cases hc : i.current with
  | none => exact ⟨rfl, h⟩
  | some token =>
    cases htakes : op.takes? token with
    | none =>
      rw [Option.bind_some, htakes]
      exact ⟨rfl, h⟩
    | some answer =>
      rw [Option.bind_some, htakes]
      exact h.taking hc answer

/-- **All operations** are answered as the position answers them. -/
theorem answers_eq (h : Shows items p i) (ops : List Operation) :
    i.answers ops = answersAt items p ops := by
  induction ops generalizing p i with
  | nil => rfl
  | cons op ops ih =>
    obtain ⟨hanswer, hshows⟩ := h.run op
    rw [answers, answersAt, hanswer, ih hshows]

theorem left (h : Shows items p i) (ops : List Operation) : ∃ q, Shows items q (i.left ops) := by
  induction ops generalizing p i with
  | nil => exact ⟨p, h⟩
  | cons op ops ih => exact ih (h.run op).2

/-- **An operation that refuses changes nothing**, if no item is itself such an error. -/
theorem run_of_refuses (h : Shows items p i)
    (hitems : ∀ e, Except.error e ∈ items → e.isUnexpected = false) {op : Operation}
    (hr : (op.run i).1.refuses = true) : (op.run i).2 = i := by
  rw [op.run_eq] at hr ⊢
  cases hc : i.current with
  | none => rfl
  | some token =>
    cases htakes : op.takes? token with
    | none => simp only [Option.bind_some, htakes]
    | some answer =>
      exfalso
      simp only [hc, Option.bind_some, htakes, (h.taking hc answer).1, answerBefore] at hr
      split at hr
      · next e he =>
        have hlexical := hitems e (List.mem_of_getElem? he)
        simp [Answer.refuses, hlexical] at hr
      · simp [(Operation.of_takes? htakes).1] at hr

end Shows

/-- A stream without a current token stays as it is. -/
theorem left_of_ended (h : i.current = none) (ops : List Operation) : i.left ops = i := by
  induction ops with
  | nil => rfl
  | cons op ops ih => rw [left, List.foldl_cons, op.run_of_ended h]; exact ih

/-- **An error that is no complaint about the current token** is that of a malformed item. The token
is lost, and the stream is left at its end. -/
theorem run_of_lost {op : Operation} (hr : (op.run i).1 = .error e) (he : e.isUnexpected = false) :
    ∃ token, i.current = some token ∧ (op.run i).2.current = none ∧
      (op.run i).2.lastLine = token.line := by
  have hlooks : op.looks i.current i.line ≠ .error e := by
    intro h
    simp [Operation.isUnexpected_of_looks h] at he
  rw [op.run_eq] at hr ⊢
  cases hc : i.current with
  | none => exact absurd (by simpa [hc] using hr) hlooks
  | some token =>
    refine ⟨token, rfl, ?_⟩
    cases htakes : op.takes? token with
    | none => exact absurd (by simpa [hc, htakes] using hr) hlooks
    | some answer =>
      simp only [hc, Option.bind_some, htakes] at hr ⊢
      obtain ⟨current, pending, lastLine⟩ := i
      obtain rfl : current = some token := hc
      rcases pending with - | ⟨_ | _, _⟩
      · exact absurd hr ((Operation.of_takes? htakes).2 e)
      · exact ⟨rfl, rfl⟩
      · exact absurd hr ((Operation.of_takes? htakes).2 e)

/-! ## Streams of sources -/

/-- **The stream of a source is a position in its items.** The stream that a reader of the source
feeds is the one that holds its items, and every operation does the same on both. All operations, in
any order, are answered as the position answers them. One that refuses changes nothing. One that
answers with the error of a malformed item has lost its token, and the stream is at its end for
good, on the line of that token. -/
theorem answers_ofSource {source : String} (h : ofReader (.ofSource source) = .ok i) :
    ofSource source = .ok i ∧ (∀ (op : Operation) (j : Lookahead), op.runFed j = op.run j) ∧
      (∀ ops, i.answers ops = answersAt (scan source) 0 ops) ∧
      ∀ (before : List Operation) (op : Operation),
        ((op.run (i.left before)).1.refuses = true → (op.run (i.left before)).2 = i.left before) ∧
        ∀ e, (op.run (i.left before)).1 = .error e → e.isUnexpected = false →
          ∃ token, (i.left before).current = some token ∧ ∀ after,
            ((op.run (i.left before)).2.left after).atEnd = true ∧
            ((op.run (i.left before)).2.left after).line = token.line := by
  rw [ofReader_ofSource] at h
  have hstart : Shows (scan source) 0 i := shows_ofItems h
  refine ⟨h, Operation.runFed_eq, hstart.answers_eq,
    fun before op => ⟨fun hr => ?_, fun e hr he => ?_⟩⟩
  · obtain ⟨p, hp⟩ := hstart.left before
    exact hp.run_of_refuses (fun e => isUnexpected_of_mem_scan) hr
  · obtain ⟨token, htoken, hended, hline⟩ := run_of_lost hr he
    refine ⟨token, htoken, fun after => ?_⟩
    rw [left_of_ended hended after]
    exact ⟨by rw [atEnd, hended]; rfl, by rw [line, hended, hline]⟩

/-- A source whose third token is too large a number. -/
def overflowing : String :=
  "f\n( 40000 )"

/-- A parenthesis is refused where the name stands. Behind the name it is lost: the stream ends on
its line, the second one. -/
theorem answers_overflowing :
    ∃ i, ofReader (.ofSource overflowing) = .ok i ∧ ofSource overflowing = .ok i ∧
      i.answers [.accept '(', .expectName "name", .line, .accept '(', .line, .pass "token"] =
        [.truth false, .name "f", .line 2, .error (.lexical 2 (.integerTooLarge "40000")), .line 2,
          .error (.unexpected 2 "token" "end of input")] ∧
      ((Operation.accept '(').run i).2 = i ∧
      ((Operation.accept '(').runFed (i.left [.expectName "name"])).1
        = .error (.lexical 2 (.integerTooLarge "40000")) ∧
      ∃ token, (i.left [.expectName "name"]).current = some token ∧ ∀ after,
        (((Operation.accept '(').run (i.left [.expectName "name"])).2.left after).atEnd = true ∧
        (((Operation.accept '(').run (i.left [.expectName "name"])).2.left after).line =
          token.line := by
  have hok : (ofReader (.ofSource overflowing)).isOk = true := by decide +kernel
  cases hi : ofReader (.ofSource overflowing) with
  | error e => rw [hi] at hok; cases hok
  | ok i =>
    obtain ⟨hsource, hfed, hanswers, hsteps⟩ := answers_ofSource hi
    have hrefused : i.answers [.accept '('] = [.truth false] :=
      (hanswers _).trans (by decide +kernel)
    have hboth : i.answers [.expectName "name", .accept '('] =
        [.name "f", .error (.lexical 2 (.integerTooLarge "40000"))] :=
      (hanswers _).trans (by decide +kernel)
    have hlost : ((Operation.accept '(').run (i.left [.expectName "name"])).1
        = .error (.lexical 2 (.integerTooLarge "40000")) :=
      (List.cons.inj (List.cons.inj hboth).2).1
    refine ⟨i, rfl, hsource, (hanswers _).trans (by decide +kernel), ?_, ?_, ?_⟩
    · refine (hsteps [] (.accept '(')).1 ?_
      exact congrArg Answer.refuses (List.cons.inj hrefused).1
    · rw [hfed, hlost]
    · exact (hsteps [.expectName "name"] (.accept '(')).2
        (.lexical 2 (.integerTooLarge "40000")) hlost rfl

end Lookahead

end JackStack
