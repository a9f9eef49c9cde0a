import JackStack.Proofs.Viability

/-!
# Proofs/Stopping — how a compilation stops

A compilation into a sink without a limit stops in one of three ways: at a token that the grammar
does not want, in front of a malformed token, or behind a name that no scope has. Nothing else goes
wrong: the sink takes every command, and an operator that is read has a command.

* `Quiet.succeeds`, `Looks.steady` — how an action may stop, by its shape.
* `Session.perform_blocks` — a goal that raises nothing stops at its input only.
* `Session.Proceeds.refers` — a reference is to the token read last.
* `Session.halts_of_run` — the three ways in which a run of a class stops.
-/

namespace JackStack

open Vm (Command)

/-! ## Stopping at a stream -/

namespace Lookahead

/-- **An action stops at a stream** with an error: the error complains about what the stream shows,
which stays as it is, or the item behind the current token is malformed. -/
def Blocks (i : Lookahead) (e : CompileError) (j : Lookahead) : Prop :=
  (∃ expected, e = i.unexpected expected ∧ j = i) ∨
    ∃ token rest, i.current = some token ∧ i.pending = .error e :: rest

theorem blocks_pass {expected : String} {i j : Lookahead} {e : CompileError}
    (h : pass expected i = .error e j) : i.Blocks e j := by
  obtain ⟨current, pending, lastLine⟩ := i
  match current, pending with
  | none, _ =>
    cases h
    exact .inl ⟨expected, rfl, rfl⟩
  | some token, [] => cases h
  | some token, .ok ahead :: rest => cases h
  | some token, .error e' :: rest =>
    cases h
    exact .inr ⟨token, rest, rfl, rfl⟩

theorem lines_of_next? {i j : Lookahead} {token : Token} (h : i.next? = some (token, j)) :
    i.line = token.line ∧ j.lastLine = token.line := by
  obtain ⟨current, pending, lastLine⟩ := i
  match current, pending, h with
  | some token, [], rfl => exact ⟨rfl, rfl⟩
  | some token, .ok ahead :: rest, rfl => exact ⟨rfl, rfl⟩

/-- Behind a token that was read, its line is the last one. -/
theorem Reads.lastLine_eq {i j : Lookahead} {t : Terminal} (h : i.Reads [t] j) :
    j.lastLine = i.line := by
  obtain ⟨token, hn, -⟩ := reads_singleton.mp h
  obtain ⟨hi, hj⟩ := lines_of_next? hn
  rw [hi, hj]

end Lookahead

namespace Session

variable {α β : Type} {raises : CompileError → Prop} {R : α → α → Prop} {a b : Action Session α}
  {g : Goal} {gs hs rest : List Goal} {s s' t : Session} {ts us : List Terminal}
  {e : CompileError}

/-! ## Actions that stop at their input only -/

/-- **Work away from the stream succeeds** if it may raise nothing and the sink has no limit. -/
theorem Quiet.succeeds {lined : Bool} (h : Quiet lined raises R a b) (hr : ∀ e, ¬ raises e)
    (hs : s.Unlimited) : ∃ x s', a s = .ok x s' ∧ s'.Unlimited := by
  induction h generalizing s with
  | @pure _ _ x _ _ => exact ⟨x, s, rfl, hs⟩
  | throw he _ _ => exact absurd he (hr _)
  | emit c => exact ⟨(), _, onWriter_of_ok s (Writer.emit_eq_ok hs c), hs⟩
  | note e => exact ⟨(), s.noted e, rfl, hs⟩
  | @change _ f h => exact ⟨(f s).1, (f s).2, rfl, by rwa [Unlimited, writer_of_moved h]⟩
  | get _ ih => exact ih s s ⟨rfl, rfl, rfl, rfl⟩ hs
  | bind _ _ iha ihf =>
    obtain ⟨x, t, hx, ht⟩ := iha hs
    obtain ⟨y, u, hy, hu⟩ := ihf x ht
    exact ⟨y, u, Action.bind_eq_ok.mpr ⟨x, t, hx, hy⟩, hu⟩

/-- **A result is steady**: it is a success in a session without a limit, or stops at the stream. -/
def Result.Steady (i : Lookahead) : Result α → Prop
  | .ok _ s => s.Unlimited
  | .error e s => i.Blocks e s.input

/-- **What looks at a token stops at it only**, or in front of the next one. -/
theorem Looks.steady {wanted : Option String} {t : Option Terminal}
    (h : Looks true raises wanted t R a b) (hr : ∀ e, ¬ raises e) (ht : s.input.terminal? = t)
    (hs : s.Unlimited) : Result.Steady s.input (a s) := by
  induction h generalizing s with
  | quiet h =>
    obtain ⟨x, s', hx, hs'⟩ := h.succeeds hr hs
    rw [hx]
    exact hs'
  | @fail _ _ expected _ => exact .inl ⟨expected, rfl, rfl⟩
  | pass _ =>
    rw [pass_apply, passThen]
    split
    · exact hs
    · next hp => exact Lookahead.blocks_pass hp
  | input _ ih => exact ih s.input s.input ⟨rfl, fun _ => rfl⟩ ht ht hs
  | get _ ih => exact ih s s ⟨rfl, rfl, rfl, rfl⟩ ht hs
  | before ha _ ih =>
    obtain ⟨x, s', hx, hs'⟩ := ha.succeeds hr hs
    have hi := ha.input_eq hx
    rw [Action.bind_apply, hx, ← hi]
    exact ih x (by rw [hi, ht]) hs'
  | @behind _ _ _ a _ _ _ _ hf ih =>
    have ha := ih ht hs
    rw [Action.bind_apply]
    cases hx : a s with
    | ok x s' =>
      rw [hx] at ha
      obtain ⟨y, s'', hy, hs''⟩ := (hf x).succeeds hr ha
      rw [Action.andThen, hy]
      exact hs''
    | error e s' =>
      rw [hx] at ha
      exact ha
  | congr h _ ih =>
    rw [(h s ht).1]
    exact ih ht hs

/-! ## Doing a goal -/

/-- **A goal that raises nothing stops at its input only.** -/
theorem perform_blocks (hr : ∀ e, ¬ g.Raises e) (hs : s.Unlimited)
    (h : perform g s = .error e s') : s.input.Blocks e s'.input := by
  have hsteady := (looks_perform g s.input.terminal?).steady hr rfl hs
  rwa [h] at hsteady

/-- Operators have commands, so only names are left to be looked up in vain. -/
theorem not_raises_of_welcomes {next : Option Terminal} (hw : g.Welcomes next)
    (hassigned : g ≠ .assigned) (href : g.isReference = false) (e : CompileError) :
    ¬ g.Raises e := by
  unfold Goal.Raises
  split
  · rintro ⟨hc, -⟩
    simp [Goal.Welcomes, hc] at hw
  · exact absurd rfl hassigned
  · cases href
  · exact id

theorem input?_bind_apply (f : Lookahead → Action Session β) (s : Session) :
    (input? >>= f) s = f s.input s := rfl

/-- **A name that is looked up first** is in no scope, or what comes then stops at its input. -/
theorem resolve_bind_error {name : String} {line : Nat} {f : Variable → Action Session α}
    (hf : ∀ v, Looks true (fun _ => False) none s.input.terminal? R (f v) (f v))
    (hs : s.Unlimited) (h : (resolve name line >>= f) s = .error e s') :
    s.input.Blocks e s'.input ∨
      e = .undefinedVariable line name ∧ s.scopes.lookup name = none ∧ s' = s := by
  rw [Action.bind_apply, resolve_apply] at h
  cases hv : s.scopes.lookup name with
  | some v =>
    rw [hv] at h
    have hsteady := (hf v).steady (fun _ => id) rfl hs
    rw [show f v s = .error e s' from h] at hsteady
    exact .inl hsteady
  | none =>
    rw [hv] at h
    cases h
    exact .inr ⟨rfl, rfl, rfl⟩

/-- **A reference stops at the input, or because its name is in no scope**, which changes
nothing. -/
theorem perform_reference_error {name : String} {line : Nat} (hs : s.Unlimited)
    (h : perform (.reference name line) s = .error e s') :
    s.input.Blocks e s'.input ∨
      e = .undefinedVariable line name ∧ s.scopes.lookup name = none ∧ s' = s := by
  revert h
  rw [perform, input?_bind_apply]
  generalize hc : s.input.symbol? = c
  split
  · exact nofun
  · exact nofun
  · refine resolve_bind_error (R := fun _ _ => True) (fun v => ?_) hs
    exact .behind (.pass (isSome_of_symbol? rfl hc)) fun _ =>
      .bind (quiet_write _) fun _ => .pure trivial
  · refine resolve_bind_error (R := fun _ _ => True) (fun v => ?_) hs
    exact .quiet (.bind (quiet_write _) fun _ => .pure trivial)

/-- **The variable of an assignment stops at the input, or behind its name.** -/
theorem perform_assigned_error (hs : s.Unlimited) (h : perform .assigned s = .error e s') :
    s.input.Blocks e s'.input ∨
      ∃ name, s.Takes (.identifier name) s' ∧ s'.scopes.lookup name = none ∧
        e = .undefinedVariable s.input.line name := by
  rw [perform, input?_bind_apply, Action.bind_apply] at h
  cases hn : expectName "variable name" s with
  | ok name t =>
    rw [hn, Action.andThen, Action.bind_apply, resolve_apply] at h
    cases hv : t.scopes.lookup name with
    | some v =>
      rw [hv] at h
      cases h
    | none =>
      rw [hv] at h
      cases h
      exact .inr ⟨name, returns_expectName.mp hn, hv, rfl⟩
  | error e' t =>
    rw [hn] at h
    cases h
    have hsteady : Result.Steady s.input (expectName "variable name" s) :=
      (looks_expectName rfl).steady (fun _ => id) rfl hs
    rw [hn] at hsteady
    exact .inl hsteady

/-! ## A reference is to the token read last -/

open Goal (Plain)

/-- **Only a term leaves a reference.** -/
theorem plain_of_perform (hg : g ≠ .term) (h : perform g s = .ok gs s') : Goal.Plain gs := by
  have hf : Follows true (g.Leaves true) (perform g) (perform g) := follows_perform (.refl [g])
  have ho := hf s s.input ⟨rfl, fun _ => rfl⟩
  rw [h] at ho
  rcases ho.of_ok with ⟨-, gs', hgs, -⟩ | ⟨token, hn, hnext⟩
  · exact hgs.2 hg
  · obtain ⟨gs', hgs, -⟩ := hnext token s'.input hn
    exact hgs.2 hg

/-- **The goals refer to what has been read**: only the first may be a reference, and it is to the
token read last. -/
def Refers (read : List Terminal) (i : Lookahead) : List Goal → Prop
  | [] => True
  | g :: gs => Plain gs ∧ ∀ name line, g = .reference name line →
      read.getLast? = some (.identifier name) ∧ line = i.lastLine

theorem refers_of_plain {read : List Terminal} {i : Lookahead} (h : Plain gs) :
    Refers read i gs := by
  cases gs with
  | nil => trivial
  | cons g gs =>
    obtain ⟨hg, hgs⟩ := Goal.plain_cons.mp h
    refine ⟨hgs, ?_⟩
    rintro name line rfl
    cases hg

theorem Refers.plain_tail {read : List Terminal} {i : Lookahead} (h : Refers read i (g :: gs)) :
    Plain gs :=
  h.1

/-- **A term that is done leaves a reference to the name that it has read**, or none. -/
theorem perform_term_refers (h : perform .term s = .ok gs s') :
    Plain gs ∨
      ∃ name, s.Takes (.identifier name) s' ∧ gs = [.reference name s'.input.lastLine] := by
  rcases perform_term_cases h with ⟨digits, ht⟩ | ⟨body, ht⟩ | ⟨c, ht⟩ | ht | ⟨op, ht⟩ | ⟨name, ht⟩
  · obtain ⟨_, -, -, rfl⟩ := (perform_term_integer ht).mp h
    exact .inl rfl
  · obtain ⟨_, -, -, rfl⟩ := (perform_term_text ht).mp h
    exact .inl rfl
  · obtain ⟨_, -, -, rfl⟩ := (perform_term_constant ht).mp h
    exact .inl rfl
  · obtain ⟨-, rfl⟩ := (perform_term_group ht).mp h
    exact .inl rfl
  · obtain ⟨-, rfl⟩ := (perform_term_unary ht).mp h
    exact .inl rfl
  · obtain ⟨token, hc, hi⟩ := exists_token ht
    have ha : termGoals? token = some (do pass; return [.reference name token.line]) := by
      rw [termGoals?, hi]
    obtain ⟨htake, rfl⟩ := (returns_pass_then ht).mp ((perform_term_of hc ha).mp h)
    obtain ⟨i, hr, rfl⟩ := takes_iff.mp htake
    have hline : s.input.line = token.line := by rw [Lookahead.line, hc]
    exact .inr ⟨name, htake, by rw [← hline, ← hr.lastLine_eq]⟩

/-- **Doing a goal keeps the goals referring** to what has been read. -/
theorem Refers.perform {read : List Terminal} (h : Refers read s.input (g :: rest))
    (hp : perform g s = .ok gs s') (hr : s.input.Reads ts s'.input) :
    Refers (read ++ ts) s'.input (gs ++ rest) := by
  have hplain (hgs : Plain gs) : Refers (read ++ ts) s'.input (gs ++ rest) :=
    refers_of_plain (Goal.plain_append.mpr ⟨hgs, h.plain_tail⟩)
  by_cases hterm : g = .term
  · subst hterm
    rcases perform_term_refers hp with hgs | ⟨name, ht, rfl⟩
    · exact hplain hgs
    · obtain ⟨i, hi, rfl⟩ := takes_iff.mp ht
      obtain rfl := hr.left_unique hi
      refine ⟨h.plain_tail, ?_⟩
      rintro _ _ ⟨⟩
      exact ⟨by simp, rfl⟩
  · exact hplain (plain_of_perform hterm hp)

/-- **A reference is to the token read last**, all along a run. -/
theorem Proceeds.refers (read : List Terminal) (h : Proceeds gs s ts hs t)
    (hrefers : Refers read s.input gs) : Refers (read ++ ts) t.input hs := by
  -- The terminals read before a step belong to the front of those read before the next.
  induction h generalizing read with
  | refl => rwa [List.append_nil]
  | step hp hr hn ih =>
    rw [← List.append_assoc]
    exact ih _ (hrefers.perform hp hr)

end Session

/-! ## How a run stops -/

namespace Session

/-- **The ways in which the compilation of a stream stops** with an error in a session `s`. -/
inductive Halts (input : Lookahead) (e : CompileError) (s : Session) : Prop
  /-- What the stream shows is not what the grammar wants. -/
  | unexpected {ts : List Terminal} {expected : String} (hr : input.Reads ts s.input)
    (he : e = s.input.unexpected expected)
  /-- The token behind the current one is malformed. -/
  | malformed {ts : List Terminal} {i : Lookahead} {token : Token}
    {rest : List (Except CompileError Token)} (hr : input.Reads ts i)
    (hc : i.current = some token) (hp : i.pending = .error e :: rest)
  /-- The name read last is in no scope. -/
  | undefined {ts : List Terminal} {name : String}
    (hr : input.Reads (ts ++ [.identifier name]) s.input) (hn : s.scopes.lookup name = none)
    (he : e = .undefinedVariable s.input.lastLine name)

variable {input i : Lookahead} {ts : List Terminal} {e : CompileError} {s : Session}

theorem halts_of_blocks (hr : input.Reads ts i) (h : i.Blocks e s.input) : Halts input e s := by
  rcases h with ⟨expected, he, hi⟩ | ⟨token, rest, hc, hp⟩
  · rw [← hi] at hr he
    exact .unexpected hr he
  · exact .malformed hr hc hp

/-- **The compilation of a class into an unlimited sink stops in these ways only.** -/
theorem halts_of_run {sink : Sink} (hs : sink.limit = none)
    (h : run Goal.classGoals (start input sink) = .error e s) : Halts input e s := by
  obtain ⟨ts, g, rest, t, hpr, hp⟩ := exists_proceeds_of_run h
  have hr : input.Reads ts t.input := hpr.reads
  have ht : t.Unlimited := hpr.unlimited Goal.ready_classGoals hs
  have hready : Goal.Ready (g :: rest) := hpr.ready Goal.ready_classGoals
  have hrefers : Refers ts t.input (g :: rest) :=
    hpr.refers [] (refers_of_plain rfl)
  -- The two goals that look up a name are taken apart.
  by_cases hassigned : g = .assigned
  · subst hassigned
    rcases perform_assigned_error ht hp with hb | ⟨name, htake, hn, rfl⟩
    · exact halts_of_blocks hr hb
    · obtain ⟨i, hi, rfl⟩ := takes_iff.mp htake
      exact .undefined (Lookahead.reads_append.mpr ⟨_, hr, hi⟩) hn (by rw [hi.lastLine_eq])
  cases hg : g.isReference with
  | false =>
    exact halts_of_blocks hr (perform_blocks (not_raises_of_welcomes hready.1 hassigned hg) ht hp)
  | true =>
    cases g with
    | reference name line =>
      rcases perform_reference_error ht hp with hb | ⟨rfl, hn, rfl⟩
      · exact halts_of_blocks hr hb
      · obtain ⟨hlast, rfl⟩ := hrefers.2 name line rfl
        obtain ⟨us, rfl⟩ := List.getLast?_eq_some_iff.mp hlast
        exact .undefined hr hn rfl
    | _ => cases hg

end Session

end JackStack
