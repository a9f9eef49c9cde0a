import JackStack.Proofs.Blanking
import JackStack.Proofs.Stopping

/-!
# Proofs/ErrorLine — errors are on the lines of the source

Lines are counted where tokens are cut, in what is left of a source without its comments. The line
of an error is nevertheless one of the source itself: that on which the token stands that the error
is about. At the end of the source it is the line of the last token.

* `Lookahead.Stands` — which tokens of a sequence a stream has behind it.
* `CompileError.Located` — what an error is about, and where that stands in the source.
* `compileText_error_located` — every error of a compilation is located so.
-/

namespace JackStack

/-! ## Where a stream stands -/

namespace Lookahead

/-- **A stream stands behind tokens** of a sequence: they come first in it, the rest is what the
stream shows and hides, and the line of the last of them is kept. -/
structure Stands (items : List (Except CompileError Token)) (read : List Token) (i : Lookahead) :
    Prop where
  items_eq : items = read.map .ok ++ ((i.current.map .ok).toList ++ i.pending)
  ended : i.current = none → i.pending = []
  lastLine : i.lastLine = (read.getLast?.map Token.line).getD 1

variable {items rest : List (Except CompileError Token)} {read : List Token} {token : Token}
  {i j : Lookahead} {ts : List Terminal}

theorem stands_ofItems (h : ofItems items = .ok i) : Stands items [] i := by
  match items, h with
  | [], rfl => exact ⟨rfl, fun _ => rfl, rfl⟩
  | .ok token :: rest, rfl => exact ⟨rfl, nofun, rfl⟩

theorem exists_of_ofItems_eq_error {e : CompileError} (h : ofItems items = .error e) :
    ∃ rest, items = .error e :: rest := by
  match items, h with
  | .error e :: rest, rfl => exact ⟨rest, rfl⟩

namespace Stands

/-- Consuming a token puts it behind the stream. -/
theorem next (h : Stands items read i) (hn : i.next? = some (token, j)) :
    Stands items (read ++ [token]) j := by
  obtain ⟨current, pending, lastLine⟩ := i
  have hitems := h.items_eq
  match current, pending, hn with
  | some token, [], rfl => exact ⟨by simpa using hitems, fun _ => rfl, by simp⟩
  | some token, .ok ahead :: rest, rfl => exact ⟨by simpa using hitems, nofun, by simp⟩

/-- **What is read comes to stand behind the stream.** -/
theorem reads (h : Stands items read i) (hr : i.Reads ts j) :
    ∃ more, more.map Token.terminal = ts ∧ Stands items (read ++ more) j := by
  induction ts generalizing i read with
  | nil =>
    obtain rfl := hr
    exact ⟨[], rfl, by rwa [List.append_nil]⟩
  | cons t ts ih =>
    obtain ⟨token, k, hn, rfl, hk⟩ := hr
    obtain ⟨more, rfl, hj⟩ := ih (h.next hn) hk
    exact ⟨token :: more, rfl, by rwa [List.append_assoc] at hj⟩

theorem items_of_current (h : Stands items read i) (hc : i.current = some token) :
    items = read.map .ok ++ .ok token :: i.pending := by
  rw [h.items_eq, hc]
  rfl

theorem items_of_ended (h : Stands items read i) (hc : i.current = none) :
    items = read.map .ok := by
  rw [h.items_eq, hc, h.ended hc]
  exact List.append_nil _

theorem lastLine_concat (h : Stands items (read ++ [token]) i) : i.lastLine = token.line := by
  simp [h.lastLine]

end Stands

end Lookahead

/-! ## Where a piece stands -/

namespace Piece

/-- **A piece comes behind terminals**: the pieces before it are tokens, with these terminals. -/
def ComesBehind (p : Piece) (source : String) (ts : List Terminal) : Prop :=
  ∃ earlier later, pieces (Comment.strip source) = earlier ++ p :: later ∧
    earlier.map outcome = ts.map .ok

/-- **A piece starts on a line of the source**: its first character stands in the source, behind as
many line feeds as there are lines before. -/
def StartsOn (p : Piece) (source : String) (line : Nat) : Prop :=
  ∃ before c behind, source.toList = before ++ c :: behind ∧ p.taken.head? = some c ∧
    p.StartsBehind source before ∧ line = 1 + before.count '\n'

variable {p : Piece} {source : String} {ts : List Terminal} {token : Token} {e : CompileError}

theorem of_item_eq_ok (h : p.item = .ok token) :
    p.outcome = .ok token.terminal ∧ token.line = p.start.line := by
  rw [item] at h
  split at h
  · next ho =>
    cases h
    exact ⟨ho, rfl⟩
  · cases h

theorem of_item_eq_error (h : p.item = .error e) :
    ∃ cause, p.outcome = .error cause ∧ e = .lexical p.start.line cause := by
  rw [item] at h
  split at h
  · cases h
  · next cause ho =>
    cases h
    exact ⟨cause, ho, rfl⟩

/-- **The line of a piece is one of the source.** -/
theorem ComesBehind.startsOn (h : p.ComesBehind source ts) : p.StartsOn source p.start.line := by
  obtain ⟨earlier, later, hpieces, -⟩ := h
  have hmem : p ∈ pieces (Comment.strip source) := by simp [hpieces]
  obtain ⟨before, hbefore⟩ := exists_startsBehind hmem
  obtain ⟨c, behind, hsource, hc⟩ := hbefore.source_eq
  exact ⟨before, c, behind, hsource, hc, hbefore, hbefore.line⟩

theorem outcome_of_items {ps : List Piece} {read : List Token} (h : ps.map item = read.map .ok) :
    ps.map outcome = (read.map Token.terminal).map .ok := by
  induction ps generalizing read with
  | nil =>
    cases read with
    | nil => rfl
    | cons token read => cases h
  | cons p ps ih =>
    cases read with
    | nil => cases h
    | cons token read =>
      obtain ⟨hp, hps⟩ := List.cons.inj h
      exact congrArg₂ _ (of_item_eq_ok hp).1 (ih hps)

/-- **The piece of an item** comes behind the tokens before that. -/
theorem exists_of_scan {read : List Token} {item : Except CompileError Token}
    {rest : List (Except CompileError Token)}
    (h : scan (Comment.strip source) = read.map .ok ++ item :: rest) :
    ∃ p : Piece, p.ComesBehind source (read.map Token.terminal) ∧ p.item = item := by
  obtain ⟨earlier, others, hpieces, hearlier, hothers⟩ := List.map_eq_append_iff.mp h
  obtain ⟨p, later, rfl, hp, -⟩ := List.map_eq_cons_iff.mp hothers
  exact ⟨p, ⟨earlier, later, hpieces, outcome_of_items hearlier⟩, hp⟩

/-- **A token of a source stands on its line.** -/
theorem exists_of_token {read : List Token} {rest : List (Except CompileError Token)}
    (h : scan (Comment.strip source) = read.map .ok ++ .ok token :: rest) :
    ∃ p : Piece, p.ComesBehind source (read.map Token.terminal) ∧
      p.outcome = .ok token.terminal ∧ p.StartsOn source token.line := by
  obtain ⟨p, hp, hitem⟩ := exists_of_scan h
  obtain ⟨ho, hline⟩ := of_item_eq_ok hitem
  exact ⟨p, hp, ho, hline ▸ hp.startsOn⟩

end Piece

/-! ## What an error is about -/

/-- **A compilation stops behind terminals**: it ends with the error in the session `s`, and the
terminals are what it has read. -/
def StopsBehind (source : String) (ts : List Terminal) (e : CompileError) (s : Session) : Prop :=
  ∃ input, Lookahead.ofSource (Comment.strip source) = .ok input ∧
    Session.run Goal.classGoals (Session.start input {}) = .error e s ∧ input.Reads ts s.input

/-- **What an error is about**, and that its line is where this stands in the source. -/
inductive CompileError.Located (source : String) : CompileError → Prop
  /-- The first malformed token. -/
  | malformed {ts : List Terminal} {p : Piece} {line : Nat} {cause : LexicalCause}
    (hp : p.ComesBehind source ts) (ho : p.outcome = .error cause) (hl : p.StartsOn source line) :
    Located source (.lexical line cause)
  /-- The current token, which comes behind those read. -/
  | unexpected {ts : List Terminal} {s : Session} {p : Piece} {t : Terminal} {line : Nat}
    {expected : String} (hs : StopsBehind source ts (.unexpected line expected t.describe) s)
    (hc : s.input.terminal? = some t) (hp : p.ComesBehind source ts) (ho : p.outcome = .ok t)
    (hl : p.StartsOn source line) : Located source (.unexpected line expected t.describe)
  /-- The end behind the last token: all are read, and the line is that of the last. -/
  | ended {ts : List Terminal} {s : Session} {p : Piece} {t : Terminal} {line : Nat}
    {expected : String}
    (hs : StopsBehind source (ts ++ [t]) (.unexpected line expected "end of input") s)
    (hc : s.input.terminal? = none) (hp : p.ComesBehind source ts) (ho : p.outcome = .ok t)
    (hlast : (pieces (Comment.strip source)).length = ts.length + 1)
    (hl : p.StartsOn source line) : Located source (.unexpected line expected "end of input")
  /-- The end of a source without tokens. -/
  | empty {s : Session} {expected : String}
    (hs : StopsBehind source [] (.unexpected 1 expected "end of input") s)
    (hc : s.input.terminal? = none) (hp : pieces (Comment.strip source) = []) :
    Located source (.unexpected 1 expected "end of input")
  /-- The name read last, which no scope has. -/
  | undefined {ts : List Terminal} {s : Session} {p : Piece} {line : Nat} {name : String}
    (hs : StopsBehind source (ts ++ [.identifier name]) (.undefinedVariable line name) s)
    (hp : p.ComesBehind source ts) (ho : p.outcome = .ok (.identifier name))
    (hn : s.scopes.lookup name = none) (hl : p.StartsOn source line) :
    Located source (.undefinedVariable line name)

namespace CompileError.Located

/-- A malformed item is an error on the line of its piece. -/
theorem of_item {source : String} {e : CompileError} {rest : List (Except CompileError Token)}
    (read : List Token)
    (h : scan (Comment.strip source) = read.map .ok ++ .error e :: rest) :
    e.Located source := by
  obtain ⟨p, hp, hitem⟩ := Piece.exists_of_scan h
  obtain ⟨cause, ho, rfl⟩ := Piece.of_item_eq_error hitem
  exact .malformed hp ho hp.startsOn

variable {source : String} {input : Lookahead} {s : Session} {ts : List Terminal}

/-- **A complaint about what a stream shows.** -/
theorem of_unexpected {expected : String}
    (hi : Lookahead.ofSource (Comment.strip source) = .ok input)
    (hrun : Session.run Goal.classGoals (Session.start input {})
      = .error (s.input.unexpected expected) s) (hr : input.Reads ts s.input) :
    (s.input.unexpected expected).Located source := by
  have hstops : StopsBehind source ts (s.input.unexpected expected) s := ⟨input, hi, hrun, hr⟩
  obtain ⟨read, rfl, hs⟩ := (Lookahead.stands_ofItems hi).reads hr
  rw [List.nil_append] at hs
  cases hc : s.input.current with
  | some token =>
    obtain ⟨p, hp, ho, hl⟩ := Piece.exists_of_token (hs.items_of_current hc)
    have he : s.input.unexpected expected
        = .unexpected token.line expected token.terminal.describe := by
      simp [Lookahead.unexpected, Lookahead.line, Lookahead.found, hc]
    rw [he] at hstops ⊢
    exact .unexpected hstops (by rw [Lookahead.terminal?, hc]; rfl) hp ho hl
  | none =>
    have hitems := hs.items_of_ended hc
    have hnone : s.input.terminal? = none := by rw [Lookahead.terminal?, hc]; rfl
    have he : s.input.unexpected expected
        = .unexpected s.input.lastLine expected "end of input" := by
      simp [Lookahead.unexpected, Lookahead.line, Lookahead.found, hc]
    rw [he] at hstops ⊢
    rcases List.eq_nil_or_concat' read with rfl | ⟨earlier, token, rfl⟩
    · have hline : s.input.lastLine = 1 := hs.lastLine
      rw [hline] at hstops ⊢
      exact .empty hstops hnone (List.map_eq_nil_iff.mp hitems)
    · have hline := hs.lastLine_concat
      rw [List.map_append] at hitems hstops
      obtain ⟨p, hp, ho, hl⟩ := Piece.exists_of_token hitems
      have hlast : (pieces (Comment.strip source)).length
          = (earlier.map Token.terminal).length + 1 := by
        have hlength := congrArg List.length hitems
        simpa [scan] using hlength
      exact .ended hstops hnone hp ho hlast (hline ▸ hl)

/-- **A name in no scope.** -/
theorem of_undefined {name : String}
    (hi : Lookahead.ofSource (Comment.strip source) = .ok input)
    (hrun : Session.run Goal.classGoals (Session.start input {})
      = .error (.undefinedVariable s.input.lastLine name) s)
    (hr : input.Reads (ts ++ [.identifier name]) s.input) (hn : s.scopes.lookup name = none) :
    (CompileError.undefinedVariable s.input.lastLine name).Located source := by
  obtain ⟨read, hread, hs⟩ := (Lookahead.stands_ofItems hi).reads hr
  rw [List.nil_append] at hs
  obtain ⟨earlier, others, rfl, rfl, hothers⟩ := List.map_eq_append_iff.mp hread
  obtain ⟨token, rfl, htoken⟩ := List.map_eq_singleton_iff.mp hothers
  have hitems := hs.items_eq
  rw [List.map_append, List.append_assoc] at hitems
  obtain ⟨p, hp, ho, hl⟩ := Piece.exists_of_token hitems
  exact .undefined ⟨input, hi, hrun, hr⟩ hp (htoken ▸ ho) hn (hs.lastLine_concat ▸ hl)

end CompileError.Located

/-- **Where a source is not compiled**, its first token is malformed or the run of its class
stops. -/
theorem compileInto_eq_error_iff_run {source : String} {sink : Sink} {e : CompileError} :
    (compileInto source sink).result = .error e ↔
      Lookahead.ofSource (Comment.strip source) = .error e ∨
        ∃ input s, Lookahead.ofSource (Comment.strip source) = .ok input ∧
          Session.run Goal.classGoals (Session.start input sink) = .error e s := by
  rw [compileInto]
  cases Lookahead.ofSource (Comment.strip source) with
  | error e' => simp
  | ok input =>
    simp only [compileTokens]
    have hs : Session.start input sink = { input, writer := { sink } } := rfl
    cases hr : Session.run Goal.classGoals { input, writer := { sink } } with
    | ok u s => simp [hs, hr]
    | error e' s => simp [hs, hr]

theorem compileText_eq_error_iff_run {source : String} {e : CompileError} :
    compileText source = .error e ↔ Lookahead.ofSource (Comment.strip source) = .error e ∨
      ∃ input s, Lookahead.ofSource (Comment.strip source) = .ok input ∧
        Session.run Goal.classGoals (Session.start input {}) = .error e s := by
  rw [← compileInto_eq_error_iff_run, compileText]
  cases (compileInto source {}).result <;> simp [Except.map]

/-- **Errors are on the lines of the source.** Where a source is not compiled, the error is about a
malformed token, an unexpected token, the end of the source or an undefined name, and its line is
the one on which this stands in the source, comments counted. -/
theorem compileText_error_located {source : String} {e : CompileError}
    (h : compileText source = .error e) : e.Located source := by
  rcases compileText_eq_error_iff_run.mp h with hi | ⟨input, s, hi, hrun⟩
  · obtain ⟨rest, hitems⟩ := Lookahead.exists_of_ofItems_eq_error hi
    exact .of_item [] hitems
  · cases Session.halts_of_run rfl hrun with
    | unexpected hr he =>
      subst he
      exact .of_unexpected hi hrun hr
    | @malformed _ _ token _ hr hc hp =>
      obtain ⟨read, -, hs⟩ := (Lookahead.stands_ofItems hi).reads hr
      have hitems := hs.items_of_current hc
      rw [hp] at hitems
      exact .of_item (read ++ [token]) (by simpa using hitems)
    | undefined hr hn he =>
      subst he
      exact .of_undefined hi hrun hr hn

theorem compileText_error_located_behind_comment :
    let source := "class A \x7b\n/* y\n*/ function int f() \x7b\nreturn // y\ny; \x7d \x7d"
    compileText source = .error (.undefinedVariable 5 "y") ∧
      (CompileError.undefinedVariable 5 "y").Located source := by
  intro source
  have h : compileText source = .error (.undefinedVariable 5 "y") := by decide +kernel
  exact ⟨h, compileText_error_located h⟩

end JackStack
