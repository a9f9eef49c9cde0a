import JackStack.Proofs.Course
import JackStack.Proofs.Spelling

/-!
# Proofs/Viability — a syntax error comes at the earliest token

The tokens that were read before a syntax error can be completed to a class that compiles, and those
together with the token that the error complains about cannot. There is one exception: where no
variable can be named, `let` is a dead end already, but the error comes at the token behind it.

* `compileInto_unexpected_earliest` — what can and what cannot follow the tokens before an error.
-/

namespace JackStack

/-! ## Token sequences that compile -/

/-- **The tokens compile**: some source has exactly these, and compiles. -/
def Terminal.Compilable (ts : List Terminal) : Prop :=
  ∃ source text, compileText source = .ok text ∧
    Lookahead.terminalsOf (scan (Comment.strip source)) = ts

namespace Lookahead

variable {i j : Lookahead} {ts : List Terminal}

/-- The terminals that a stream shows and hides. -/
def terminals (i : Lookahead) : List Terminal :=
  i.terminal?.toList ++ terminalsOf i.pending

theorem terminals_of_next? {token : Token} (h : i.next? = some (token, j)) :
    i.terminals = token.terminal :: j.terminals ∧ j.pending ⊆ i.pending := by
  obtain ⟨current, pending, lastLine⟩ := i
  match current, pending, h with
  | some token, [], rfl => exact ⟨rfl, List.Subset.refl _⟩
  | some token, .ok ahead :: rest, rfl => exact ⟨rfl, List.subset_cons_self _ _⟩

/-- **What was read is the front of what there is.** -/
theorem Reads.terminals_eq (h : i.Reads ts j) :
    i.terminals = ts ++ j.terminals ∧ j.pending ⊆ i.pending := by
  induction ts generalizing i with
  | nil =>
    obtain rfl := h
    exact ⟨rfl, List.Subset.refl _⟩
  | cons t ts ih =>
    obtain ⟨token, k, hn, rfl, hk⟩ := h
    obtain ⟨hi, hik⟩ := terminals_of_next? hn
    obtain ⟨hk, hkj⟩ := ih hk
    exact ⟨by rw [hi, hk]; rfl, List.Subset.trans hkj hik⟩

theorem terminals_ofItems {items : List (Except CompileError Token)} (h : ofItems items = .ok i) :
    i.terminals = terminalsOf items ∧ i.pending ⊆ items := by
  match items, h with
  | [], rfl => exact ⟨rfl, List.Subset.refl _⟩
  | .ok token :: rest, rfl => exact ⟨rfl, List.subset_cons_self _ _⟩

theorem mem_of_ofItems_eq_error {items : List (Except CompileError Token)} {e : CompileError}
    (h : ofItems items = .error e) : Except.error e ∈ items := by
  match items, h with
  | .error e :: rest, rfl => exact List.mem_cons_self

end Lookahead

/-- Cutting a source gives lexical errors only. -/
theorem isUnexpected_of_mem_scan {source : String} {e : CompileError}
    (h : Except.error e ∈ scan source) : e.isUnexpected = false := by
  obtain ⟨p, -, hp⟩ := List.mem_map.mp h
  rw [Piece.item] at hp
  split at hp
  · cases hp
  · cases hp
    rfl

/-- **What is read from a source** is spelled out in it, and nothing hidden behind it is a syntax
error. -/
theorem Lookahead.Reads.of_source {source : String} {input j : Lookahead} {ts : List Terminal}
    (h : input.Reads ts j) (hi : Lookahead.ofSource source = .ok input) :
    (∀ t ∈ ts, t.Spelled) ∧ ∀ e, Except.error e ∈ j.pending → e.isUnexpected = false := by
  obtain ⟨hitems, hpending⟩ := Lookahead.terminals_ofItems hi
  obtain ⟨hterminals, hsub⟩ := h.terminals_eq
  refine ⟨fun t ht => ?_, fun e he => isUnexpected_of_mem_scan (hpending (hsub he))⟩
  have hmem : t ∈ Lookahead.terminalsOf (scan source) := by
    rw [← hitems, hterminals]
    exact List.mem_append_left _ ht
  exact Terminal.spelled_of_mem_scan hmem

namespace Session

open Terminal (Compilable)

variable {sink : Sink} {ts us : List Terminal}

/-- Whether a class compiles does not depend on what the sink holds. -/
theorem exists_run_sink {sink' : Sink} {input : Lookahead} {s : Session} (hs : sink'.limit = none)
    (h : run Goal.classGoals (start input sink) = .ok () s) :
    ∃ s', run Goal.classGoals (start input sink') = .ok () s' := by
  obtain ⟨c, ⟨j, hr, hj⟩, hk, -⟩ := run_class_sound h
  exact run_class_complete hs hr hj hk

/-- **Tokens compile** if a session that has them all to read works through a class. -/
theorem compilable_of_run (sink : Sink) (h : ∀ t ∈ ts, t.Spelled)
    (hrun : ∀ input e, input.Reads ts e → e.terminal? = none →
      ∃ s, run Goal.classGoals (start input sink) = .ok () s) : Compilable ts := by
  obtain ⟨hts, he⟩ := Terminal.scan_strip_lines h
  obtain ⟨input, hi, e, hr, hend⟩ := (Lookahead.reads_atEnd_iff _).mpr ⟨he, hts.symm⟩
  obtain ⟨s, hrun⟩ := hrun input e hr (by simpa [Lookahead.atEnd, Lookahead.terminal?] using hend)
  have hlimit : ({} : Sink).limit = none := rfl
  obtain ⟨s', hrun'⟩ := exists_run_sink hlimit hrun
  exact ⟨Terminal.lines ts, _, compileText_eq_ok_iff_run.mpr ⟨input, s', hi, hrun', rfl⟩, hts⟩

/-- **If tokens compile**, a session that has them all to read works through a class. -/
theorem exists_run_of_compilable (hs : sink.limit = none) (h : Compilable ts) :
    ∃ input e s, input.Reads ts e ∧ e.terminal? = none ∧ (∀ t ∈ ts, t.Spelled) ∧
      run Goal.classGoals (start input sink) = .ok () s := by
  obtain ⟨source, text, hc, rfl⟩ := h
  obtain ⟨input, s, hi, hrun, -⟩ := compileText_eq_ok_iff_run.mp hc
  obtain ⟨c, hc, -, -⟩ := run_class_sound hrun
  obtain ⟨he, -⟩ := (Lookahead.reads_atEnd_iff _).mp ⟨input, hi, hc⟩
  obtain ⟨input', hi', e, hr, hend⟩ := (Lookahead.reads_atEnd_iff _).mpr ⟨he, rfl⟩
  cases hi.symm.trans hi'
  obtain ⟨s', hrun'⟩ := exists_run_sink hs hrun
  exact ⟨input, e, s', hr, by simpa [Lookahead.atEnd, Lookahead.terminal?] using hend,
    fun t ht => Terminal.spelled_of_mem_scan ht, hrun'⟩

/-! ## Behind an error -/

variable {input : Lookahead} {g : Goal} {rest as : List Goal} {s t u : Session} {e : CompileError}

/-- **What stands at a syntax error cannot be gone on with.** -/
theorem Proceeds.not_compilable
    (h : Proceeds Goal.classGoals (start input sink) ts (g :: rest) t) (hs : sink.limit = none)
    (hp : perform g t = .error e s) (hu : e.isUnexpected = true)
    (hpend : ∀ e, Except.error e ∈ t.input.pending → e.isUnexpected = false)
    (hus : us.head? = t.input.terminal?) : ¬ Compilable (ts ++ us) := by
  intro hc
  obtain ⟨input', e', s', hr, hend, -, hrun⟩ := exists_run_of_compilable hs hc
  obtain ⟨j, hj, hj'⟩ := Lookahead.reads_append.mp hr
  have hshow : t.input.terminal? = j.terminal? := by rw [← hus, hj'.terminal?_eq_head? hend]
  obtain ⟨_, halike, hpr⟩ := h.follow (.refl _) hj hshow
  obtain ⟨g', rest', rfl, hg', -⟩ := halike.of_cons
  obtain ⟨-, expected, t', -, hp'⟩ := perform_stops hg' ⟨hshow, nofun⟩ hp hu hpend
  have hrun' := hpr.run_eq.trans (run_of_perform_error hp')
  cases hrun.symm.trans hrun'

/-! ## Before an error -/

/-- **The agenda and the session behind tokens**, whatever follows these. -/
def Settles (sink : Sink) (ts : List Terminal) (as : List Goal) (u : Session) : Prop :=
  ∀ j j', j.Reads ts j' → ∃ as', Goal.Alike false as as' ∧
    Proceeds Goal.classGoals (start j sink) ts as' (u.reading j')

/-- **Tokens can be completed** if the agenda behind them can be worked through. -/
theorem Settles.compilable (h : Settles sink ts as u) (hs : sink.limit = none)
    (hts : ∀ t ∈ ts, t.Spelled) (hus : ∀ t ∈ us, t.Spelled)
    (hrun : ∀ as' j e, Goal.Alike false as as' → Goal.Ready as' → (u.reading j).Unlimited →
      j.Reads us e → e.terminal? = none → ∃ s, run as' (u.reading j) = .ok () s) :
    Compilable (ts ++ us) := by
  refine compilable_of_run sink (List.forall_mem_append.mpr ⟨hts, hus⟩) fun j e hr he => ?_
  obtain ⟨j', hj, hj'⟩ := Lookahead.reads_append.mp hr
  obtain ⟨as', has, hpr⟩ := h j j' hj
  obtain ⟨s, hrun⟩ := hrun as' j' e has (hpr.ready Goal.ready_classGoals)
    (hpr.unlimited Goal.ready_classGoals hs) hj' he
  exact ⟨s, hpr.run_eq.trans hrun⟩

/-- An agenda without the variable of an assignment is completed by its text. -/
theorem Settles.compilable_fills (h : Settles sink ts as u) (hs : sink.limit = none)
    (hts : ∀ t ∈ ts, t.Spelled) (hr : Goal.Ready as) (hn : .assigned ∉ as) :
    Compilable (ts ++ Goal.fills as) := by
  refine h.compilable hs hts hr.spelled_fills fun as' j e has hr' hu hj he => ?_
  exact run_fills hr' (mt has.assigned_mem.mpr hn) hu he (has.fills_eq ▸ hj)

/-- The variable of an assignment is one that is declared. -/
theorem Settles.compilable_assigned {name : String} {v : Variable}
    (h : Settles sink ts (.assigned :: as) u) (hs : sink.limit = none)
    (hts : ∀ t ∈ ts, t.Spelled) (hr : Goal.Ready (.assigned :: as))
    (hname : (Terminal.identifier name).Spelled) (hv : u.scopes.lookup name = some v) :
    Compilable (ts ++ .identifier name :: Goal.fills (.assignment v :: as)) := by
  have hspelled : ∀ t ∈ Goal.fills (.assignment v :: as), t.Spelled :=
    Goal.Ready.spelled_fills ⟨trivial, hr.2⟩
  refine h.compilable hs hts (List.forall_mem_cons.mpr ⟨hname, hspelled⟩)
    fun as' j e has hr' hu hj he => ?_
  obtain ⟨as'', rfl, has'⟩ := has.eq_assigned
  obtain ⟨j', hj₁, hj₂⟩ := Lookahead.reads_cons_iff_exists.mp hj
  have hp : perform .assigned (u.reading j) = .ok [.assignment v] ((u.reading j).after j' [] 0 0) :=
    perform_assigned.mpr ⟨name, v, takes_of_reads hj₁, hv, rfl⟩
  have hj₂ : j'.Reads (Goal.fills ([.assignment v] ++ as'')) e := by
    rwa [Goal.fills_cons, has'.fills_eq] at hj₂
  obtain ⟨s, hrun⟩ := run_fills (s := (u.reading j).after j' [] 0 0) (hr'.perform hp)
    (by simpa using hr'.2.1) hu he hj₂
  exact ⟨s, (run_of_perform hp).trans hrun⟩

/-- **No variable can be named**: the object of a method is no name that can be written. -/
def Unassignable (s : Session) : Prop :=
  ∀ name, (s.scopes.lookup name).isSome → name = "this"

/-- An assignment is a dead end if no variable can be named. -/
theorem Settles.not_compilable (h : Settles sink ts (.assigned :: as) u) (hs : sink.limit = none)
    (hu : u.Unassignable) : ¬ Compilable (ts ++ us) := by
  intro hc
  obtain ⟨input, e, s, hr, he, hsp, hrun⟩ := exists_run_of_compilable hs hc
  obtain ⟨j, hj, hj'⟩ := Lookahead.reads_append.mp hr
  obtain ⟨as', has, hpr⟩ := h input j hj
  obtain ⟨as'', rfl, has'⟩ := has.eq_assigned
  rw [hpr.run_eq] at hrun
  cases hp : perform .assigned (u.reading j) with
  | error e' s' => cases hrun.symm.trans (run_of_perform_error hp)
  | ok gs s' =>
    obtain ⟨name, v, ht, hv, -⟩ := perform_assigned.mp hp
    obtain rfl := hu name (Option.isSome_of_eq_some hv)
    have hmem : Terminal.identifier "this" ∈ us := by
      refine List.mem_of_mem_head? ?_
      rw [← hj'.terminal?_eq_head? he]
      exact ht.terminal?
    have hsp := (hsp _ (List.mem_append_right ts hmem)).2.1
    exact absurd hsp (by decide)

theorem resolve_apply (name : String) (line : Nat) (s : Session) :
    resolve name line s = match s.scopes.lookup name with
      | some v => .ok v s
      | none => .error (.undefinedVariable line name) s := by
  show (match s.scopes.lookup name with
    | some v => pure v
    | none => throw (.undefinedVariable line name) : Action Session Variable) s = _
  cases s.scopes.lookup name <;> rfl

/-- Looking for the variable of an assignment changes no scope. -/
theorem scopes_of_assigned (h : perform .assigned u = .error e s) : s.scopes = u.scopes := by
  have h : Action.andThen (expectName "variable name" u) (fun name =>
      resolve name u.input.line >>= fun v => pure [Goal.assignment v]) = .error e s :=
    (Action.bind_apply _ _ u).symm.trans h
  cases hn : expectName "variable name" u with
  | ok name s₁ =>
    rw [hn] at h
    obtain ⟨i, -, rfl⟩ := takes_iff.mp (returns_expectName.mp hn)
    have h := (Action.bind_apply _ _ _).symm.trans h
    rw [resolve_apply] at h
    split at h
    · cases h
    · cases h
      rfl
  | error e' s₁ =>
    rw [hn] at h
    cases h
    simp only [expectName, onInput] at hn
    split at hn
    · cases hn
    · cases hn
      rfl

/-- Where the variable of an assignment is looked for, no goal is done without a token. -/
theorem Proceeds.eq_of_assigned {hs : List Goal} (h : Proceeds (.assigned :: as) u [] hs t) :
    hs = .assigned :: as ∧ t = u := by
  generalize hts : ([] : List Terminal) = ts, hgs : .assigned :: as = gs at h
  cases h with
  | refl => exact ⟨rfl, rfl⟩
  | step hp hr hn =>
    cases hgs
    obtain ⟨name, v, ht, -⟩ := perform_assigned.mp hp
    obtain ⟨i, hi, rfl⟩ := takes_iff.mp ht
    obtain rfl := hr.left_unique hi
    cases hts

/-- **What was read can be completed**, unless the variable of an assignment comes next and none can
be named. -/
theorem Proceeds.exists_compilable_iff
    (h : Proceeds Goal.classGoals (start input sink) ts (g :: rest) t) (hs : sink.limit = none)
    (hts : ∀ x ∈ ts, x.Spelled) (hp : perform g t = .error e s) :
    (∃ us, Compilable (ts ++ us)) ↔
      ¬ (ts.getLast? = some (.keyword .let) ∧ s.Unassignable) := by
  obtain ⟨as, u, has, hlast, hlet, hset⟩ :=
    h.settled Goal.ready_classGoals (by simp [Goal.classGoals])
  have hset : Settles sink ts as u := hset
  have hready : Goal.Ready as := has.ready Goal.ready_classGoals
  by_cases ha : .assigned ∈ as
  -- behind `let` only a variable in scope helps, and a name in scope was itself among the tokens
  · obtain ⟨as, rfl⟩ := hready.eq_cons_of_mem ha
    obtain ⟨hg, rfl⟩ := hlast.eq_of_assigned
    cases hg
    have hun : s.Unassignable ↔ t.Unassignable := by
      rw [Unassignable, scopes_of_assigned hp, Unassignable]
    rw [hun]
    constructor
    · rintro ⟨us, hc⟩ ⟨-, hu⟩
      exact hset.not_compilable hs hu hc
    · intro hn
      have hu : ∃ name, (t.scopes.lookup name).isSome ∧ name ≠ "this" := by
        by_contra hno
        exact hn ⟨hlet.mp ha, fun name hname => by_contra fun hne => hno ⟨name, hname, hne⟩⟩
      obtain ⟨name, hname, hne⟩ := hu
      obtain ⟨v, hv⟩ := Option.isSome_iff_exists.mp hname
      have hspelled : (Terminal.identifier name).Spelled := by
        rcases h.scopes Goal.ready_classGoals hname with h | h | h
        · cases h
        · exact absurd h hne
        · exact hts _ h
      exact ⟨_, hset.compilable_assigned hs hts hready hspelled hv⟩
  -- anywhere else the texts of the goals left over finish the class
  · have hl : ts.getLast? ≠ some (.keyword .let) := mt hlet.mpr ha
    exact iff_of_true ⟨_, hset.compilable_fills hs hts hready ha⟩ fun h => hl h.1

end Session

open Terminal (Compilable)

/-- **Where a source stops with a syntax error**, goals have been done reading some tokens, and the
next goal complains about what the session shows. -/
theorem exists_stop {source : String} {sink : Sink} {e : CompileError}
    (h : (compileInto source sink).result = .error e) (hu : e.isUnexpected = true) :
    ∃ input s ts g rest t, Lookahead.ofSource (Comment.strip source) = .ok input ∧
      Session.run Goal.classGoals (Session.start input sink) = .error e s ∧
      Session.Proceeds Goal.classGoals (Session.start input sink) ts (g :: rest) t ∧
      Session.perform g t = .error e s ∧ s.input = t.input ∧
      ∃ expected, e = t.input.unexpected expected := by
  unfold compileInto at h
  split at h
  · next input hi =>
    unfold compileTokens at h
    split at h
    · cases h
    · next e' s hrun =>
      cases h
      obtain ⟨ts, g, rest, t, hpr, hp⟩ := Session.exists_proceeds_of_run hrun
      have hself : t.input.Alike true t.input := ⟨rfl, fun _ => rfl⟩
      obtain ⟨hin, expected, -, he, -⟩ :=
        Session.perform_stops (.refl [g]) hself hp hu (hpr.reads.of_source hi).2
      exact ⟨input, s, ts, g, rest, t, hi, hrun, hpr, hp, hin, expected, he⟩
  · next e' hi =>
    cases h
    simp [isUnexpected_of_mem_scan (Lookahead.mem_of_ofItems_eq_error hi)] at hu

/-- **A syntax error comes at the earliest token.** Where a source stops with one, the tokens `ts`
have been read. They can be completed to tokens that compile, unless the last is a `let` where no
variable can be named; if a token comes next, no tokens that go on with it compile, and if none
does, the tokens read do not compile. The message names what comes next. -/
theorem compileInto_unexpected_earliest {source : String} {sink : Sink} {line : Nat}
    {expected found : String} (hs : sink.limit = none)
    (h : (compileInto source sink).result = .error (.unexpected line expected found)) :
    ∃ input s ts, Lookahead.ofSource (Comment.strip source) = .ok input ∧
      Session.run Goal.classGoals (Session.start input sink)
        = .error (.unexpected line expected found) s ∧
      input.Reads ts s.input ∧
      ((∃ us, Compilable (ts ++ us)) ↔
        ¬ (ts.getLast? = some (.keyword .let) ∧ s.Unassignable)) ∧
      (∀ t, s.input.terminal? = some t →
        (∀ us, ¬ Compilable (ts ++ t :: us)) ∧ found = t.describe) ∧
      (s.input.terminal? = none → ¬ Compilable ts ∧ found = "end of input") := by
  obtain ⟨input, s, ts, g, rest, t, hi, hrun, hpr, hp, hin, expected', he⟩ := exists_stop h rfl
  have hr : input.Reads ts t.input := hpr.reads
  obtain ⟨hspelled, hlexical⟩ := hr.of_source hi
  have hfound : found = (t.input.terminal?.map Terminal.describe).getD "end of input" := by
    rw [← Lookahead.found_eq]
    exact (CompileError.unexpected.inj he).2.2
  have hstuck {us : List Terminal} (hus : us.head? = t.input.terminal?) :
      ¬ Compilable (ts ++ us) := hpr.not_compilable hs hp rfl hlexical hus
  refine ⟨input, s, ts, hi, hrun, hin ▸ hr, hpr.exists_compilable_iff hs hspelled hp, ?_, ?_⟩
  · intro x hx
    rw [hin] at hx
    exact ⟨fun us => hstuck hx.symm, by rw [hfound, hx]; rfl⟩
  · intro hx
    rw [hin] at hx
    have hnone : ([] : List Terminal).head? = t.input.terminal? := hx.symm
    exact ⟨by simpa using hstuck hnone, by rw [hfound, hx]; rfl⟩

/-- A missing semicolon in a loop. -/
theorem compileInto_unexpected_earliest_semicolon :
    let source := "class P\x7bfield int n;method int f(int x)\x7b"
      ++ "while(x)\x7blet n=n+x\x7dreturn n;\x7d\x7d"
    (compileInto source {}).result = .error (.unexpected 1 "';'" "symbol '\x7d'") ∧
    ∃ input s ts, Lookahead.ofSource (Comment.strip source) = .ok input ∧
      Session.run Goal.classGoals (Session.start input {})
        = .error (.unexpected 1 "';'" "symbol '\x7d'") s ∧
      input.Reads ts s.input ∧
      ((∃ us, Compilable (ts ++ us)) ↔
        ¬ (ts.getLast? = some (.keyword .let) ∧ s.Unassignable)) ∧
      (∀ t, s.input.terminal? = some t →
        (∀ us, ¬ Compilable (ts ++ t :: us)) ∧ "symbol '\x7d'" = t.describe) ∧
      (s.input.terminal? = none → ¬ Compilable ts ∧ "symbol '\x7d'" = "end of input") :=
  ⟨by decide +kernel, compileInto_unexpected_earliest rfl (by decide +kernel)⟩

/-- **Behind `let` the error can come too late**: where no variable is declared, nothing that starts
with the tokens read compiles, and yet `let` is one of them. -/
theorem compileInto_let_dead_end :
    let source := "class A \x7b\nfunction void f() \x7b\nlet\n;\n\x7d\n\x7d"
    let ts : List Terminal := [.keyword .class, .identifier "A", .symbol '{', .keyword .function,
      .keyword .void, .identifier "f", .symbol '(', .symbol ')', .symbol '{', .keyword .let]
    ∃ input s, Lookahead.ofSource (Comment.strip source) = .ok input ∧
      Session.run Goal.classGoals (Session.start input {})
        = .error (.unexpected 4 "variable name" "symbol ';'") s ∧
      input.Reads ts s.input ∧ ∀ us, ¬ Compilable (ts ++ us) := by
  intro source ts
  let behind : List Terminal := [.symbol ';', .symbol '}', .symbol '}']
  have h : (compileInto source {}).result
      = .error (.unexpected 4 "variable name" "symbol ';'") := by
    decide +kernel
  obtain ⟨input, s, read, g, rest, t, hi, hrun, hpr, hp, hin, -⟩ := exists_stop h rfl
  have hr : input.Reads read t.input := hpr.reads
  have hstop : (match Lookahead.ofSource (Comment.strip source) with
      | .error _ => none
      | .ok input =>
        match Session.run Goal.classGoals (Session.start input {}) with
        | .error _ s => some (input.terminals, s.input.terminals,
            s.scopes.classScope.isEmpty, s.scopes.routineScope.isEmpty)
        | .ok _ _ => none) = some (ts ++ behind, behind, true, true) := by
    decide +kernel
  simp only [hi, hrun, Option.some.injEq, Prod.mk.injEq, List.isEmpty_iff] at hstop
  obtain ⟨hall, hbehind, hclass, hroutine⟩ := hstop
  obtain rfl : read = ts := by
    rw [hr.terminals_eq.1, ← hin, hbehind] at hall
    exact List.append_cancel_right hall
  refine ⟨input, s, hi, hrun, hin ▸ hr, fun us hc => ?_⟩
  have hiff := hpr.exists_compilable_iff rfl (hr.of_source hi).1 hp
  refine hiff.mp ⟨us, hc⟩ ⟨rfl, fun name hname => ?_⟩
  simp [Scopes.lookup, hclass, hroutine] at hname

end JackStack
