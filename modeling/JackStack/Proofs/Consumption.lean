import JackStack.Compile.Session

/-!
# Proofs/Consumption — which terminals a stream passes

`Lookahead.Reads i ts j` says that consuming tokens from the stream `i` passes exactly the terminals
`ts` and leads to the stream `j`, with no malformed token coming up on the way.

* `Lookahead.reads_append` — passing two texts in turn is passing their concatenation.
* `Lookahead.reads_atEnd_iff` — a stream is read to its end exactly if all its items are tokens.
-/

namespace JackStack

namespace Lookahead

/-! ## One token -/

/-- **The current token and the stream behind it**, if both are well-formed. -/
def next? (i : Lookahead) : Option (Token × Lookahead) :=
  match i.current, i.pending with
  | none, _ => none
  | some token, [] => some (token, ⟨none, [], token.line⟩)
  | some token, .ok ahead :: rest => some (token, ⟨some ahead, rest, token.line⟩)
  | some _, .error _ :: _ => none

theorem pass_eq_ok_iff {expected : String} {i j : Lookahead} {token : Token} :
    pass expected i = .ok token j ↔ i.next? = some (token, j) := by
  obtain ⟨current, pending, lastLine⟩ := i
  cases current with
  | none => simp [pass, next?, fail]
  | some t =>
    match pending with
    | [] => simp [pass, next?]
    | .ok ahead :: rest => simp [pass, next?]
    | .error e :: rest => simp [pass, next?]

theorem terminal?_of_next? {i j : Lookahead} {token : Token} (h : i.next? = some (token, j)) :
    i.terminal? = some token.terminal := by
  obtain ⟨current, pending, lastLine⟩ := i
  cases current with
  | none => simp [next?] at h
  | some t =>
    have ht : t = token := by
      match pending with
      | [] => simp [next?] at h; exact h.1
      | .ok ahead :: rest => simp [next?] at h; exact h.1
      | .error e :: rest => simp [next?] at h
    subst ht
    rfl

theorem remaining_of_next? {i j : Lookahead} {token : Token} (h : i.next? = some (token, j)) :
    j.remaining < i.remaining :=
  have hp : pass "" i = .ok token j := pass_eq_ok_iff.mpr h
  pass_remaining hp

/-! ## Several tokens -/

/-- **Reading passes the terminals** `ts` on the way from `i` to `j`. -/
def Reads (i : Lookahead) : List Terminal → Lookahead → Prop
  | [], j => j = i
  | t :: ts, j => ∃ token k, i.next? = some (token, k) ∧ token.terminal = t ∧ k.Reads ts j

variable {i j k : Lookahead} {t : Terminal} {ts us : List Terminal}

@[simp] theorem reads_nil : i.Reads [] j ↔ j = i := Iff.rfl

theorem reads_cons :
    i.Reads (t :: ts) j ↔ ∃ token k, i.next? = some (token, k) ∧ token.terminal = t ∧
      k.Reads ts j := Iff.rfl

theorem reads_singleton :
    i.Reads [t] j ↔ ∃ token, i.next? = some (token, j) ∧ token.terminal = t := by
  simp only [reads_cons, reads_nil]
  constructor
  · rintro ⟨token, k, hn, ht, rfl⟩
    exact ⟨token, hn, ht⟩
  · rintro ⟨token, hn, ht⟩
    exact ⟨token, j, hn, ht, rfl⟩

/-- **Passing two texts in turn is passing their concatenation.** -/
theorem reads_append : i.Reads (ts ++ us) j ↔ ∃ k, i.Reads ts k ∧ k.Reads us j := by
  induction ts generalizing i with
  | nil => simp
  | cons t ts ih =>
    simp only [List.cons_append, reads_cons, ih]
    constructor
    · rintro ⟨token, k, hn, ht, l, hk, hl⟩
      exact ⟨l, ⟨token, k, hn, ht, hk⟩, hl⟩
    · rintro ⟨l, ⟨token, k, hn, ht, hk⟩, hl⟩
      exact ⟨token, k, hn, ht, l, hk, hl⟩

theorem reads_cons_iff_exists : i.Reads (t :: ts) j ↔ ∃ k, i.Reads [t] k ∧ k.Reads ts j := by
  rw [← List.singleton_append, reads_append]

/-- The stream shows the first terminal that reading passes. -/
theorem Reads.terminal? (h : i.Reads (t :: ts) j) : i.terminal? = some t := by
  obtain ⟨token, k, hn, ht, -⟩ := h
  rw [terminal?_of_next? hn, ht]

/-- Reading brings up no new tokens. -/
theorem Reads.remaining_le (h : i.Reads ts j) : j.remaining ≤ i.remaining := by
  induction ts generalizing i with
  | nil => cases h; exact Nat.le_refl _
  | cons t ts ih =>
    obtain ⟨token, k, hn, -, hk⟩ := h
    exact Nat.le_trans (ih hk) (Nat.le_of_lt (remaining_of_next? hn))

/-! ## All tokens of a source -/

/-- The terminals of the tokens among items. -/
def terminalsOf (items : List (Except CompileError Token)) : List Terminal :=
  items.filterMap fun item => item.toOption.map Token.terminal

/-- The stream that shows a token before others. -/
theorem reads_atEnd_of_current (ts : List Terminal) (token : Token)
    (pending : List (Except CompileError Token)) (line : Nat) :
    (∃ j, Reads ⟨some token, pending, line⟩ ts j ∧ j.atEnd = true) ↔
      (∀ e, Except.error e ∉ pending) ∧ ts = token.terminal :: terminalsOf pending := by
  induction pending generalizing token line ts with
  | nil =>
    constructor
    · rintro ⟨j, hr, hj⟩
      cases ts with
      | nil => cases hr; cases hj
      | cons t ts =>
        obtain ⟨token', k, hn, rfl, hk⟩ := hr
        cases hn
        cases ts with
        | nil => simp [terminalsOf]
        | cons t ts =>
          obtain ⟨_, _, hn, -⟩ := hk
          simp [next?] at hn
    · rintro ⟨-, rfl⟩
      exact ⟨⟨none, [], token.line⟩, ⟨token, _, rfl, rfl, rfl⟩, rfl⟩
  | cons item rest ih =>
    cases item with
    | error e =>
      constructor
      · rintro ⟨j, hr, hj⟩
        cases ts with
        | nil => cases hr; cases hj
        | cons t ts =>
          obtain ⟨_, _, hn, -⟩ := hr
          simp [next?] at hn
      · rintro ⟨he, -⟩
        exact absurd List.mem_cons_self (he e)
    | ok ahead =>
      have hnext : next? ⟨some token, .ok ahead :: rest, line⟩
          = some (token, ⟨some ahead, rest, token.line⟩) := rfl
      constructor
      · rintro ⟨j, hr, hj⟩
        cases ts with
        | nil => cases hr; cases hj
        | cons t ts =>
          obtain ⟨token', k, hn, rfl, hk⟩ := hr
          rw [hnext] at hn
          cases hn
          obtain ⟨he, rfl⟩ := (ih ts ahead token.line).mp ⟨j, hk, hj⟩
          refine ⟨fun e hm => ?_, rfl⟩
          rcases List.mem_cons.mp hm with h | h
          · cases h
          · exact he e h
      · rintro ⟨he, rfl⟩
        obtain ⟨j, hk, hj⟩ := (ih (ahead.terminal :: terminalsOf rest) ahead token.line).mpr
          ⟨fun e hm => he e (List.mem_cons_of_mem _ hm), rfl⟩
        exact ⟨j, ⟨token, _, hnext, rfl, hk⟩, hj⟩

/-- **A stream is read to its end exactly if all its items are tokens**, and then it passes their
terminals. -/
theorem reads_atEnd_iff (items : List (Except CompileError Token)) :
    (∃ i, ofItems items = .ok i ∧ ∃ j, i.Reads ts j ∧ j.atEnd = true) ↔
      (∀ e, Except.error e ∉ items) ∧ ts = terminalsOf items := by
  cases items with
  | nil =>
    constructor
    · rintro ⟨i, hi, j, hr, -⟩
      cases hi
      cases ts with
      | nil => simp [terminalsOf]
      | cons t ts =>
        obtain ⟨_, _, hn, -⟩ := hr
        simp [next?] at hn
    · rintro ⟨-, rfl⟩
      exact ⟨_, rfl, _, rfl, rfl⟩
  | cons item rest =>
    cases item with
    | error e =>
      constructor
      · rintro ⟨i, hi, -⟩
        cases hi
      · rintro ⟨he, -⟩
        exact absurd List.mem_cons_self (he e)
    | ok token =>
      have h := reads_atEnd_of_current ts token rest 1
      constructor
      · rintro ⟨i, hi, hr⟩
        cases hi
        obtain ⟨he, rfl⟩ := h.mp hr
        refine ⟨fun e hm => ?_, rfl⟩
        rcases List.mem_cons.mp hm with h | h
        · cases h
        · exact he e h
      · rintro ⟨he, rfl⟩
        exact ⟨_, rfl, h.mpr ⟨fun e hm => he e (List.mem_cons_of_mem _ hm), rfl⟩⟩

end Lookahead

end JackStack
