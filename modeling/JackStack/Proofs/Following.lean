import JackStack.Compile.Agenda
import JackStack.Proofs.Shape

/-!
# Proofs/Following — two sessions that show the same token do the same

A goal looks at the current token only, and passes it at most once. So two sessions that differ in
their streams only, and show the same token, do a goal alike, whatever stands behind that token.

`Session.Outcome` says this of two results. It is carried along the way an action is made: results
echo one another where the stream is left alone, and still do behind a token that was passed.

* `Quiet.silent`, `Looks.outcome` — what the shape of an action says about two results.
* `Session.perform_follows` — a goal that is done reading some terminals is done alike on every
  stream that has these terminals.
* `Session.perform_stops` — a goal that stops at a token stops at it on every stream.
-/

namespace JackStack

variable {lined : Bool}

namespace Lookahead

variable {i j k : Lookahead} {ts us : List Terminal}

/-- A token that is shown is passed unless the next item is malformed. -/
theorem pass_eq_error {t : Terminal} (h : i.terminal? = some t) {expected : String}
    {e : CompileError} (hp : pass expected i = .error e j) :
    ∃ token rest, i.current = some token ∧ i.pending = .error e :: rest ∧
      j = ⟨none, rest, token.line⟩ := by
  obtain ⟨current, pending, lastLine⟩ := i
  cases current with
  | none => cases h
  | some token =>
    match pending, hp with
    | .error e :: rest, rfl => exact ⟨token, rest, rfl, rfl, rfl⟩

/-- Reading to where one is reads nothing. -/
theorem Reads.eq_nil (h : i.Reads ts i) : ts = [] := by
  cases ts with
  | nil => rfl
  | cons t ts =>
    obtain ⟨token, k, hn, -, hk⟩ := h
    exact absurd hk.remaining_le (Nat.not_le.mpr (remaining_of_next? hn))

/-- Where a stream leads to tells what has been read. -/
theorem Reads.left_unique (h : i.Reads ts j) (h' : i.Reads us j) : ts = us := by
  induction ts generalizing i us with
  | nil =>
    cases h
    exact h'.eq_nil.symm
  | cons t ts ih =>
    obtain ⟨token, k, hn, rfl, hk⟩ := h
    cases us with
    | nil =>
      cases h'
      exact absurd hk.remaining_le (Nat.not_le.mpr (remaining_of_next? hn))
    | cons u us =>
      obtain ⟨token', k', hn', rfl, hk'⟩ := h'
      rw [hn] at hn'
      cases hn'
      rw [ih hk hk']

/-- Streams that show the same after reading the same have shown the same before. -/
theorem Reads.terminal?_congr {i' j' : Lookahead} (hi : i.Reads ts i') (hj : j.Reads ts j')
    (h : i'.terminal? = j'.terminal?) : i.terminal? = j.terminal? := by
  cases ts with
  | nil =>
    cases hi
    cases hj
    exact h
  | cons t ts => rw [hi.terminal?, hj.terminal?]

end Lookahead

/-! ## Results on two streams -/

namespace Session

/-- **The session on another stream.** -/
def reading (s : Session) (i : Lookahead) : Session :=
  { s with input := i }

@[simp] theorem input_reading (s : Session) (i : Lookahead) : (s.reading i).input = i := rfl

@[simp] theorem reading_self (s : Session) : s.reading s.input = s := rfl

variable {α β : Type}

/-- The result of a session. -/
abbrev Result (α : Type) := EStateM.Result CompileError Session α

/-- **One result echoes the other**: both are successes with related values, or both the same error,
which is no complaint about a token. Neither has left its stream. -/
inductive Echo (lined : Bool) (R : α → α → Prop) (i j : Lookahead) : Result α → Result α → Prop
  | ok {x y : α} {s : Session} (h : R x y) :
    Echo lined R i j (.ok x (s.reading i)) (.ok y (s.reading j))
  | error {e e' : CompileError} {s : Session} (h : e.Alike lined e')
    (hu : e.isUnexpected = false) :
    Echo lined R i j (.error e (s.reading i)) (.error e' (s.reading j))

/-- **Passes the current token** of a stream, and goes on from the stream behind it. -/
def passThen (i : Lookahead) (s : Session) (k : Lookahead → Result α) : Result α :=
  match Lookahead.pass "token" i with
  | .ok _ i' => k i'
  | .error e i' => .error e (s.reading i')

/-- **What two sessions come to** that show the same token: they echo one another, or stop at this
token, or pass it and echo one another then. -/
inductive Outcome (lined : Bool) (R : α → α → Prop) (i j : Lookahead) : Result α → Result α → Prop
  | stay {r r' : Result α} (h : Echo lined R i j r r') : Outcome lined R i j r r'
  | stop (expected : String) (s : Session) :
    Outcome lined R i j (.error (i.unexpected expected) (s.reading i))
      (.error (j.unexpected expected) (s.reading j))
  | pass {t : Terminal} (ht : i.terminal? = some t) (s : Session) {k k' : Lookahead → Result α}
    (h : ∀ i' j', Echo lined R i' j' (k i') (k' j')) :
    Outcome lined R i j (passThen i s k) (passThen j s k')

/-- **Neither action looks at its stream**, and their results echo one another. -/
def Silent (lined : Bool) (R : α → α → Prop) (a b : Action Session α) : Prop :=
  ∀ s i j, Echo lined R i j (a (reading s i)) (b (reading s j))

/-- **The actions look at the current token only**, and pass it at most once. -/
def Follows (lined : Bool) (R : α → α → Prop) (a b : Action Session α) : Prop :=
  ∀ s j, s.input.Alike lined j → Outcome lined R s.input j (a s) (b (s.reading j))

/-! ## Actions in sequence -/

variable {R : β → β → Prop} {Q : α → α → Prop}

theorem Echo.andThen {i j : Lookahead} {r r' : Result α} {f g : α → Action Session β}
    (h : Echo lined Eq i j r r') (hf : ∀ x, Silent lined R (f x) (g x)) :
    Echo lined R i j (Action.andThen r f) (Action.andThen r' g) := by
  cases h with
  | ok h =>
    cases h
    exact hf _ _ i j
  | error h hu => exact .error h hu

theorem andThen_passThen (i : Lookahead) (s : Session) (k : Lookahead → Result α)
    (f : α → Action Session β) :
    Action.andThen (passThen i s k) f = passThen i s fun i' => Action.andThen (k i') f := by
  unfold passThen
  cases Lookahead.pass "token" i <;> rfl

/-- **What looks at the token may be followed by what does not.** -/
theorem Outcome.andThen {i j : Lookahead} {r r' : Result α} {f g : α → Action Session β}
    (h : Outcome lined Eq i j r r') (hf : ∀ x, Silent lined R (f x) (g x)) :
    Outcome lined R i j (Action.andThen r f) (Action.andThen r' g) := by
  cases h with
  | stay h => exact .stay (h.andThen hf)
  | stop expected s => exact .stop expected s
  | pass ht s h =>
    rw [andThen_passThen, andThen_passThen]
    exact .pass ht s fun i' j' => (h i' j').andThen hf

/-- **What does not look at the token may go first.** -/
theorem Echo.outcome {i j : Lookahead} {r r' : Result α} {f g : α → Action Session β}
    (h : Echo lined Eq i j r r')
    (hf : ∀ x (s : Session), Outcome lined R i j (f x (s.reading i)) (g x (s.reading j))) :
    Outcome lined R i j (Action.andThen r f) (Action.andThen r' g) := by
  cases h with
  | @ok x y s h =>
    cases h
    exact hf x s
  | error h hu => exact .stay (.error h hu)

/-! ## The shape of an action -/

theorem onInput_of_ok {a : Action Lookahead α} (s : Session) {x : α} {i : Lookahead}
    (h : a s.input = .ok x i) : onInput a s = .ok x (s.reading i) := by
  cases s
  simp only [onInput]
  rw [h]
  rfl

theorem onInput_of_error {a : Action Lookahead α} (s : Session) {e : CompileError} {i : Lookahead}
    (h : a s.input = .error e i) : onInput a s = .error e (s.reading i) := by
  cases s
  simp only [onInput]
  rw [h]
  rfl

theorem pass_reading (s : Session) (i : Lookahead) :
    pass (s.reading i) = passThen i s fun i' => .ok () (s.reading i') := by
  rw [pass, passThen]
  cases h : Lookahead.pass "token" i with
  | ok token i' => exact onInput_of_ok _ (by rw [discard_apply, input_reading, h]; rfl)
  | error e i' => exact onInput_of_error _ (by rw [discard_apply, input_reading, h]; rfl)

theorem pass_apply (s : Session) :
    pass s = passThen s.input s fun i' => .ok () (s.reading i') :=
  pass_reading s s.input

theorem onWriter_of_ok {a : Action Writer α} (s : Session) {x : α} {w : Writer}
    (h : a s.writer = .ok x w) : onWriter a s = .ok x { s with writer := w } := by
  cases s
  simp only [onWriter]
  rw [h]

theorem onWriter_of_error {a : Action Writer α} (s : Session) {e : CompileError} {w : Writer}
    (h : a s.writer = .error e w) : onWriter a s = .error e { s with writer := w } := by
  cases s
  simp only [onWriter]
  rw [h]

theorem isUnexpected_of_emit {c : Vm.Command} {w w' : Writer} {e : CompileError}
    (h : Writer.emit c w = .error e w') : e.isUnexpected = false := by
  unfold Writer.emit at h
  split at h
  split at h
  · cases h
  · cases h
    rfl

theorem silent_emit (c : Vm.Command) :
    Silent lined Eq (onWriter (Writer.emit c)) (onWriter (Writer.emit c)) := by
  intro s i j
  cases h : Writer.emit c s.writer with
  | ok x w =>
    rw [onWriter_of_ok (s.reading i) h, onWriter_of_ok (s.reading j) h]
    exact .ok (s := { s with writer := w }) rfl
  | error e w =>
    rw [onWriter_of_error (s.reading i) h, onWriter_of_error (s.reading j) h]
    exact .error (s := { s with writer := w }) (.refl e) (isUnexpected_of_emit h)

theorem silent_change {f : Session → α × Session}
    (h : ∀ s i w, f (s.moved i w) = ((f s).1, (f s).2.moved i w)) :
    Silent lined Eq (modifyGet f) (modifyGet f) := by
  intro s i j
  have hf (k : Lookahead) : (modifyGet f : Action Session α) (s.reading k)
      = .ok (f s).1 (reading { (f s).2 with writer := s.writer } k) :=
    congrArg (fun r : α × Session => EStateM.Result.ok r.1 r.2) (h s k s.writer)
  rw [hf, hf]
  exact .ok rfl

/-- **Work away from the stream leaves it alone**, and does the same on another one. -/
theorem Quiet.silent {raises : CompileError → Prop} {a b : Action Session α}
    (h : Quiet lined raises Q a b) : Silent lined Q a b := by
  induction h with
  | pure h => exact fun s i j => .ok h
  | throw hr hu h => exact fun s i j => .error h hu
  | emit c => exact silent_emit c
  | note e => exact fun s i j => .ok (s := s.noted e) rfl
  | change h => exact silent_change h
  | get h ih => exact fun s i j => ih (s.reading i) (s.reading j) ⟨rfl, rfl, rfl, rfl⟩ s i j
  | bind ha hf iha ihf =>
    intro s i j
    rw [Action.bind_apply, Action.bind_apply]
    exact (iha s i j).andThen ihf

/-- **What looks at the token only** comes to the same on every stream that shows it. -/
theorem Looks.outcome {raises : CompileError → Prop} {wanted : Option String}
    {t : Option Terminal} {a b : Action Session α} (h : Looks lined raises wanted t Q a b)
    {s : Session} {j : Lookahead} (ht : s.input.terminal? = t) (hj : s.input.Alike lined j) :
    Outcome lined Q s.input j (a s) (b (s.reading j)) := by
  induction h generalizing s j with
  | quiet h => exact .stay (h.silent s s.input j)
  | fail h => exact .stop _ s
  | pass hs =>
    obtain ⟨u, rfl⟩ := Option.isSome_iff_exists.mp hs
    rw [pass_apply, pass_reading]
    exact .pass ht s fun i' j' => .ok rfl
  | input h ih => exact ih s.input j hj ht ht hj
  | get h ih => exact ih s (s.reading j) ⟨rfl, rfl, rfl, rfl⟩ ht hj
  | before ha hf ih =>
    rw [Action.bind_apply, Action.bind_apply]
    exact (ha.silent s s.input j).outcome fun x s' => ih x (s := s'.reading s.input) ht hj
  | behind ha hf ih =>
    rw [Action.bind_apply, Action.bind_apply]
    exact (ih ht hj).andThen fun x => (hf x).silent
  | congr h _ ih =>
    rw [(h s ht).1, (h (s.reading j) (hj.1.symm.trans ht)).2]
    exact ih ht hj

/-! ## One goal on two streams -/

section

variable {R : α → α → Prop} {i j : Lookahead} {x : α} {s' : Session} {r' : Result α}

theorem Echo.of_ok (h : Echo lined R i j (.ok x s') r') :
    s'.input = i ∧ ∃ y, R x y ∧ r' = .ok y (s'.reading j) := by
  cases h with
  | ok h => exact ⟨rfl, _, h, rfl⟩

theorem Echo.of_error {e : CompileError} (h : Echo lined R i j (.error e s') r') :
    e.isUnexpected = false := by
  cases h with
  | error h hu => exact hu

theorem Echo.alike_of_error {e : CompileError} (h : Echo lined R i j (.error e s') r') :
    s'.input = i ∧ ∃ e', e.Alike lined e' ∧ r' = .error e' (s'.reading j) := by
  cases h with
  | error h hu => exact ⟨rfl, _, h, rfl⟩

theorem Quiet.input_eq {raises : CompileError → Prop} {a b : Action Session α} {s : Session}
    (h : Quiet lined raises R a b) (hs : a s = .ok x s') : s'.input = s.input := by
  have hecho := h.silent s s.input s.input
  rw [reading_self, hs] at hecho
  exact hecho.of_ok.1

/-- Work away from the stream does not complain about a token. -/
theorem Quiet.isUnexpected_eq {raises : CompileError → Prop} {a b : Action Session α} {s : Session}
    {e : CompileError} (h : Quiet lined raises R a b) (hs : a s = .error e s') :
    e.isUnexpected = false := by
  have hecho := h.silent s s.input s.input
  rw [reading_self, hs] at hecho
  exact hecho.of_error

/-- A success stays at the current token or passes it. -/
theorem Outcome.of_ok (h : Outcome lined R i j (.ok x s') r') :
    (s'.input = i ∧ ∃ y, R x y ∧ r' = .ok y (s'.reading j)) ∨
    ∃ token, i.next? = some (token, s'.input) ∧
      ∀ token' j', j.next? = some (token', j') → ∃ y, R x y ∧ r' = .ok y (s'.reading j') := by
  generalize hr : EStateM.Result.ok x s' = r at h
  cases h with
  | stay h =>
    subst hr
    exact .inl h.of_ok
  | stop expected s => cases hr
  | pass ht s h =>
    unfold passThen at hr ⊢
    split at hr
    · next token i' hp =>
      have hk (j' : Lookahead) := hr ▸ h i' j'
      refine .inr ⟨token, (hk j).of_ok.1 ▸ Lookahead.pass_eq_ok_iff.mp hp, fun token' j' hj => ?_⟩
      rw [Lookahead.pass_eq_ok_iff.mpr hj]
      exact (hk j').of_ok.2
    · cases hr

/-- A complaint about a token is made before it is passed. -/
theorem Outcome.of_unexpected {e : CompileError} (h : Outcome lined R i j (.error e s') r')
    (hu : e.isUnexpected = true)
    (hp : ∀ e, Except.error e ∈ i.pending → e.isUnexpected = false) :
    s'.input = i ∧ ∃ expected t, e = i.unexpected expected ∧
      r' = .error (j.unexpected expected) t := by
  generalize hr : EStateM.Result.error e s' = r at h
  cases h with
  | stay h =>
    subst hr
    simp [h.of_error] at hu
  | stop expected s =>
    cases hr
    exact ⟨rfl, expected, _, rfl, rfl⟩
  | pass ht s h =>
    unfold passThen at hr
    split at hr
    · next token i' hpass =>
      have hecho := h i' j
      rw [← hr] at hecho
      simp [hecho.of_error] at hu
    · next e' i' hpass =>
      cases hr
      obtain ⟨token, rest, -, hpend, -⟩ := Lookahead.pass_eq_error ht hpass
      simp [hp e (hpend ▸ List.mem_cons_self)] at hu

/-- A failure stays at the current token, or comes behind it, or the item behind it is malformed. -/
theorem Outcome.of_error {e : CompileError} (h : Outcome lined R i j (.error e s') r')
    (hij : i.Alike lined j) :
    (s'.input = i ∧ ∃ e', e.Alike lined e' ∧ r' = .error e' (s'.reading j)) ∨
    (∃ token, i.next? = some (token, s'.input) ∧ ∀ token' j', j.next? = some (token', j') →
      ∃ e', e.Alike lined e' ∧ r' = .error e' (s'.reading j')) ∨
    ∃ token rest, i.current = some token ∧ i.pending = .error e :: rest ∧
      s'.input = ⟨none, rest, token.line⟩ ∧
      ∀ token' e' rest', j.current = some token' → j.pending = .error e' :: rest' →
        ∃ j', r' = .error e' (s'.reading j') := by
  generalize hr : EStateM.Result.error e s' = r at h
  cases h with
  | stay h =>
    subst hr
    exact .inl h.alike_of_error
  | stop expected s =>
    cases hr
    exact .inl ⟨rfl, _, hij.unexpected expected, rfl⟩
  | pass ht s h =>
    unfold passThen at hr ⊢
    split at hr
    · next token i' hp =>
      have hk (j' : Lookahead) := hr ▸ h i' j'
      refine .inr (.inl ⟨token, (hk j).alike_of_error.1 ▸ Lookahead.pass_eq_ok_iff.mp hp,
        fun token' j' hj => ?_⟩)
      rw [Lookahead.pass_eq_ok_iff.mpr hj]
      exact (hk j').alike_of_error.2
    · next e' i' hp =>
      cases hr
      obtain ⟨token, rest, hc, hpend, hi⟩ := Lookahead.pass_eq_error ht hp
      refine .inr (.inr ⟨token, rest, hc, hpend, hi, fun token' e' rest' hc' hpend' => ?_⟩)
      have hpass : Lookahead.pass "token" j = .error e' ⟨none, rest', token'.line⟩ := by
        simp only [Lookahead.pass, hc', hpend']
      rw [hpass]
      exact ⟨_, rfl⟩

end

variable {g g' : Goal} {gs : List Goal} {s s' : Session} {j j' : Lookahead} {ts : List Terminal}

/-- Goals that are alike are done alike. -/
theorem follows_perform (h : Goal.Alike lined [g] [g']) :
    Follows lined (g.Leaves lined) (perform g) (perform g') := by
  intro s j hj
  rcases h.cases with rfl | ⟨name, line, line', rfl, rfl, hl⟩
  · exact (looks_perform _ s.input.terminal?).outcome rfl hj
  · exact (looks_reference name hl).outcome rfl hj

/-- **A goal reads one terminal at most.** -/
theorem exists_reads_of_perform (h : perform g s = .ok gs s') :
    ∃ ts, s.input.Reads ts s'.input ∧ ts.length ≤ 1 := by
  have hf : Follows true (g.Leaves true) (perform g) (perform g) := follows_perform (.refl [g])
  have ho := hf s s.input ⟨rfl, fun _ => rfl⟩
  rw [h] at ho
  rcases ho.of_ok with ⟨hi, -⟩ | ⟨token, hn, -⟩
  · exact ⟨[], hi, Nat.zero_le 1⟩
  · exact ⟨[token.terminal], Lookahead.reads_singleton.mpr ⟨token, hn, rfl⟩, Nat.le_refl 1⟩

/-- **A goal that is done reading some terminals** is done alike on every stream that has these
terminals, and shows the same even if it has none. -/
theorem perform_follows (hg : Goal.Alike lined [g] [g']) (hj : s.input.Alike lined j)
    (h : perform g s = .ok gs s') (hs : s.input.Reads ts s'.input) (hr : j.Reads ts j') :
    ∃ gs', Goal.Alike lined gs gs' ∧ perform g' (s.reading j) = .ok gs' (s'.reading j') := by
  have ho := follows_perform hg s j hj
  rw [h] at ho
  rcases ho.of_ok with ⟨hi, gs', hgs, hp⟩ | ⟨token, hn, hnext⟩
  · rw [hi] at hs
    obtain rfl := hs.eq_nil
    obtain rfl := hr
    exact ⟨gs', hgs.1, hp⟩
  · obtain rfl := hs.left_unique (Lookahead.reads_singleton.mpr ⟨token, hn, rfl⟩)
    obtain ⟨token', hn', -⟩ := Lookahead.reads_singleton.mp hr
    obtain ⟨gs', hgs, hp⟩ := hnext token' j' hn'
    exact ⟨gs', hgs.1, hp⟩

/-- **A goal that complains about a token** does so on every stream that shows it. -/
theorem perform_stops (hg : Goal.Alike lined [g] [g']) (hj : s.input.Alike lined j)
    {e : CompileError} (h : perform g s = .error e s') (hu : e.isUnexpected = true)
    (hp : ∀ e, Except.error e ∈ s.input.pending → e.isUnexpected = false) :
    s'.input = s.input ∧ ∃ expected t, e = s.input.unexpected expected ∧
      perform g' (s.reading j) = .error (j.unexpected expected) t := by
  have ho := follows_perform hg s j hj
  rw [h] at ho
  exact ho.of_unexpected hu hp

/-- **A goal that cannot be done** leaves the stream where it is, or one token further, or has come
upon a malformed item. -/
theorem perform_error_cases {e : CompileError} (h : perform g s = .error e s') :
    s'.input = s.input ∨ (∃ t, s.input.Reads [t] s'.input) ∨
      ∃ token rest, s.input.current = some token ∧ s.input.pending = .error e :: rest ∧
        s'.input = ⟨none, rest, token.line⟩ := by
  have hself : s.input.Alike true s.input := ⟨rfl, fun _ => rfl⟩
  have ho := follows_perform (.refl [g]) s s.input hself
  rw [h] at ho
  rcases ho.of_error hself with ⟨hi, -⟩ | ⟨token, hn, -⟩ | ⟨token, rest, hc, hp, hi, -⟩
  · exact .inl hi
  · exact .inr (.inl ⟨_, Lookahead.reads_singleton.mpr ⟨token, hn, rfl⟩⟩)
  · exact .inr (.inr ⟨token, rest, hc, hp, hi⟩)

/-! ## Several goals on two streams -/

/-- **An agenda leads to another**: the goals at its front are done one by one, and the terminals
are read meanwhile. -/
inductive Proceeds : List Goal → Session → List Terminal → List Goal → Session → Prop
  | refl (gs : List Goal) (s : Session) : Proceeds gs s [] gs s
  | step {g : Goal} {rest goals hs : List Goal} {s s₁ t : Session} {ts us : List Terminal}
    (h : perform g s = .ok goals s₁) (hr : s.input.Reads ts s₁.input)
    (hn : Proceeds (goals ++ rest) s₁ us hs t) : Proceeds (g :: rest) s (ts ++ us) hs t

variable {rest gs' hs hs' : List Goal} {t u : Session} {us : List Terminal}

theorem run_cons (g : Goal) (rest : List Goal) (s : Session) :
    run (g :: rest) s = Action.andThen (perform g s) fun goals => run (goals ++ rest) := by
  rw [run]
  cases perform g s <;> rfl

theorem run_of_perform {goals : List Goal} (h : perform g s = .ok goals s') :
    run (g :: rest) s = run (goals ++ rest) s' := by
  rw [run_cons, h]
  rfl

theorem run_of_perform_error {e : CompileError} (h : perform g s = .error e s') :
    run (g :: rest) s = .error e s' := by
  rw [run_cons, h]
  rfl

theorem Proceeds.trans (h : Proceeds gs s ts hs t) (h' : Proceeds hs t us hs' u) :
    Proceeds gs s (ts ++ us) hs' u := by
  induction h with
  | refl => exact h'
  | step hp hr _ ih =>
    rw [List.append_assoc]
    exact .step hp hr (ih h')

theorem Proceeds.last {goals : List Goal} (h : perform g s = .ok goals s')
    (hr : s.input.Reads ts s'.input) : Proceeds (g :: rest) s ts (goals ++ rest) s' := by
  rw [← List.append_nil ts]
  exact .step h hr (.refl _ s')

theorem Proceeds.reads (h : Proceeds gs s ts hs t) : s.input.Reads ts t.input := by
  induction h with
  | refl => rfl
  | step _ hr _ ih => exact Lookahead.reads_append.mpr ⟨_, hr, ih⟩

theorem Proceeds.run_eq (h : Proceeds gs s ts hs t) : run gs s = run hs t := by
  induction h with
  | refl => rfl
  | step hp _ _ ih => rw [run_of_perform hp, ih]

/-- **A run that succeeds** has done all its goals. -/
theorem exists_proceeds_of_run_ok (h : run gs s = .ok () s') : ∃ ts, Proceeds gs s ts [] s' := by
  fun_induction run gs s with
  | case1 s =>
    cases h
    exact ⟨[], .refl [] _⟩
  | case2 s g rest goals s₁ hp ih =>
    obtain ⟨us, hn⟩ := ih h
    obtain ⟨ts, hr, -⟩ := exists_reads_of_perform hp
    exact ⟨ts ++ us, .step hp hr hn⟩
  | case3 => cases h

/-- **A run that stops** has come to a goal that cannot be done. -/
theorem exists_proceeds_of_run {e : CompileError} (h : run gs s = .error e s') :
    ∃ ts g rest t, Proceeds gs s ts (g :: rest) t ∧ perform g t = .error e s' := by
  fun_induction run gs s with
  | case1 s => cases h
  | case2 s g rest goals s₁ hp ih =>
    obtain ⟨us, g', rest', t, hn, ht⟩ := ih h
    obtain ⟨ts, hr, -⟩ := exists_reads_of_perform hp
    exact ⟨ts ++ us, g', rest', t, .step hp hr hn, ht⟩
  | case3 s g rest e' s₁ hp =>
    cases h
    exact ⟨[], g, rest, s, .refl _ s, hp⟩

/-- **An agenda leads to an alike one on every stream** that has the terminals read and then shows
the same. -/
theorem Proceeds.follow (h : Proceeds gs s ts hs t) (hg : Goal.Alike false gs gs')
    (hj : j.Reads ts j') (ht : t.input.terminal? = j'.terminal?) :
    ∃ hs', Goal.Alike false hs hs' ∧ Proceeds gs' (s.reading j) ts hs' (t.reading j') := by
  induction h generalizing gs' j with
  | refl gs s =>
    obtain rfl := hj
    exact ⟨gs', hg, .refl gs' _⟩
  | @step g rest goals hs s s₁ t ts us hp hr hn ih =>
    obtain ⟨j₁, hj₁, hj'⟩ := Lookahead.reads_append.mp hj
    obtain ⟨g', rest', rfl, hhead, hrest⟩ := hg.of_cons
    -- what both inputs show is known at the end only; it is carried back over the tokens read
    have h₁ : s₁.input.terminal? = j₁.terminal? := hn.reads.terminal?_congr hj' ht
    have h₀ : s.input.terminal? = j.terminal? := hr.terminal?_congr hj₁ h₁
    obtain ⟨goals', hgoals, hp'⟩ := perform_follows hhead ⟨h₀, nofun⟩ hp hr hj₁
    obtain ⟨hs', hhs, hn'⟩ := ih (hgoals.append hrest) hj' ht
    exact ⟨hs', hhs, .step hp' hj₁ hn'⟩

/-- **The last token that was read** was read by one of the goals, and none was read after it. -/
theorem Proceeds.eq_nil_or_last (h : Proceeds gs s ts hs t) :
    ts = [] ∨ ∃ us x g rest goals s₀ s₁, ts = us ++ [x] ∧ Proceeds gs s us (g :: rest) s₀ ∧
      perform g s₀ = .ok goals s₁ ∧ s₀.input.Reads [x] s₁.input ∧
      Proceeds (goals ++ rest) s₁ [] hs t := by
  induction h with
  | refl => exact .inl rfl
  | @step g rest goals hs s s₁ t ts us hp hr hn ih =>
    rcases ih with rfl | ⟨us, x, g', rest', goals', s₀, s₂, rfl, hn', hp', hx, hlast⟩
    · obtain ⟨ts', hr', hle⟩ := exists_reads_of_perform hp
      obtain rfl := hr.left_unique hr'
      rw [List.append_nil]
      cases ts with
      | nil => exact .inl rfl
      | cons x ts =>
        obtain rfl := List.eq_nil_of_length_eq_zero (Nat.le_zero.mp (Nat.le_of_succ_le_succ hle))
        exact .inr ⟨[], x, g, rest, goals, s, s₁, rfl, .refl _ s, hp, hr, hn⟩
    · exact .inr ⟨ts ++ us, x, g', rest', goals', s₀, s₂, (List.append_assoc ..).symm,
        .step hp hr hn', hp', hx, hlast⟩

end Session

end JackStack
