import JackStack.Proofs.ErrorLine
import JackStack.Proofs.Skipping

/-!
# Proofs/Agreement — sources that agree are compiled alike

A compilation is decided by the items of its source, taken one by one: by the terminal of a token,
and by the cause of an error. Where these stand in the source only shows in the line of an error.
And a compilation that stops has seen no more than the items up to the current one, so what stands
behind that makes no difference.

Both facts come from one: a run on a stream can be followed on another one that agrees with it in
the items read and in the one shown then.

* `Lookahead.Agree` — two streams agree in the items that come next.
* `Session.Proceeds.agree` — goals are done alike on streams that agree.
* `compileInto_layout` — sources with the same items but for lines are compiled alike.
* `compileInto_lookahead` — a failure depends on the items up to the current one alone.
-/

namespace JackStack

variable {lined : Bool} {n : Nat}

/-! ## Items that agree -/

namespace Item

/-- **Two items are alike**: they are tokens with the same terminal, or errors that are alike. -/
def Alike (lined : Bool) : Except CompileError Token → Except CompileError Token → Prop
  | .ok token, .ok token' =>
    token.terminal = token'.terminal ∧ (lined = true → token.line = token'.line)
  | .error e, .error e' => e.Alike lined e'
  | _, _ => False

/-- **Two sequences agree in their first `n` items**: these are alike, and where one sequence ends
among them, so does the other. -/
inductive Agree (lined : Bool) :
    Nat → List (Except CompileError Token) → List (Except CompileError Token) → Prop
  | zero {xs ys : List (Except CompileError Token)} : Agree lined 0 xs ys
  | nil {n : Nat} : Agree lined n [] []
  | cons {n : Nat} {x y : Except CompileError Token} {xs ys : List (Except CompileError Token)}
    (h : Alike lined x y) (hs : Agree lined n xs ys) : Agree lined (n + 1) (x :: xs) (y :: ys)

variable {x y : Except CompileError Token} {xs ys : List (Except CompileError Token)}
  {token : Token} {e : CompileError}

theorem Alike.of_token (h : Alike lined (.ok token) y) :
    ∃ token', y = .ok token' ∧ token.terminal = token'.terminal ∧
      (lined = true → token.line = token'.line) := by
  cases y with
  | ok token' => exact ⟨token', rfl, h⟩
  | error e' => cases h

theorem Alike.of_error (h : Alike lined (.error e) y) : ∃ e', y = .error e' ∧ e.Alike lined e' := by
  cases y with
  | ok token' => cases h
  | error e' => exact ⟨e', rfl, h⟩

theorem Agree.of_cons (h : Agree lined (n + 1) (x :: xs) ys) :
    ∃ y ys', ys = y :: ys' ∧ Alike lined x y ∧ Agree lined n xs ys' := by
  cases h with
  | cons h hs => exact ⟨_, _, rfl, h, hs⟩

theorem Agree.of_nil (h : Agree lined (n + 1) [] ys) : ys = [] := by
  cases h with
  | nil => rfl

/-- **An item without its place**: the terminal of a token, or an error with its line forgotten. -/
def unplaced : Except CompileError Token → Except CompileError Terminal
  | .ok token => .ok token.terminal
  | .error e => .error e.unlined

theorem alike_of_unplaced_eq (h : unplaced x = unplaced y) : Alike false x y := by
  cases x with
  | ok token =>
    cases y with
    | ok token' => exact ⟨Except.ok.inj h, nofun⟩
    | error e' => cases h
  | error e =>
    cases y with
    | ok token' => cases h
    | error e' => exact ⟨Except.error.inj h, nofun⟩

theorem alike_of_reading_eq (h : reading x = reading y) : Alike true x y := by
  cases x with
  | ok token =>
    cases y with
    | ok token' =>
      obtain ⟨ht, hl⟩ := Prod.mk.inj (Except.ok.inj h)
      exact ⟨ht, fun _ => hl⟩
    | error e' => cases h
  | error e =>
    cases y with
    | ok token' => cases h
    | error e' =>
      obtain rfl := Except.error.inj h
      exact .refl e

/-- Sequences that are the same but for places agree in any number of items. -/
theorem agree_of_unplaced_eq (h : xs.map unplaced = ys.map unplaced) (n : Nat) :
    Agree false n xs ys := by
  induction xs generalizing ys n with
  | nil =>
    obtain rfl := List.map_eq_nil_iff.mp h.symm
    exact .nil
  | cons x xs ih =>
    obtain ⟨y, ys, rfl, hy, hys⟩ := List.map_eq_cons_iff.mp h.symm
    cases n with
    | zero => exact .zero
    | succ n => exact .cons (alike_of_unplaced_eq hy.symm) (ih hys.symm n)

/-- Sequences that read the same up to an item agree so far. -/
theorem agree_of_readings_eq
    (h : ∀ m < n, (xs.map reading)[m]? = (ys.map reading)[m]?) : Agree true n xs ys := by
  induction n generalizing xs ys with
  | zero => exact .zero
  | succ n ih =>
    have hhead := h 0 (Nat.succ_pos n)
    have htail (m : Nat) (hm : m < n) := h (m + 1) (Nat.succ_lt_succ hm)
    cases xs with
    | nil =>
      cases ys with
      | nil => exact .nil
      | cons y ys => simp at hhead
    | cons x xs =>
      cases ys with
      | nil => simp at hhead
      | cons y ys =>
        refine .cons (alike_of_reading_eq (by simpa using hhead)) (ih fun m hm => ?_)
        simpa using htail m hm

end Item

/-! ## Streams that agree -/

namespace Lookahead

/-- **The items of a stream**, from the current token on. -/
def items (i : Lookahead) : List (Except CompileError Token) :=
  match i.current with
  | some token => .ok token :: i.pending
  | none => []

/-- **Two streams agree in the next `n` items**, and behind the same line if lines are compared. -/
structure Agree (lined : Bool) (n : Nat) (i j : Lookahead) : Prop where
  items : Item.Agree lined n i.items j.items
  lastLine : lined = true → i.lastLine = j.lastLine

variable {i i' j : Lookahead} {xs ys : List (Except CompileError Token)} {token : Token}
  {e : CompileError} {ts : List Terminal}

theorem items_ofItems (h : ofItems xs = .ok i) : i.items = xs ∧ i.lastLine = 1 := by
  match xs, h with
  | [], rfl => exact ⟨rfl, rfl⟩
  | .ok token :: rest, rfl => exact ⟨rfl, rfl⟩

theorem agree_ofItems (hs : Item.Agree lined n xs ys) (hi : ofItems xs = .ok i)
    (hj : ofItems ys = .ok j) : i.Agree lined n j := by
  obtain ⟨hi, hil⟩ := items_ofItems hi
  obtain ⟨hj, hjl⟩ := items_ofItems hj
  exact ⟨by rwa [hi, hj], fun _ => by rw [hil, hjl]⟩

theorem exists_ofItems_of_agree (hs : Item.Agree lined (n + 1) xs ys) (h : ofItems xs = .ok i) :
    ∃ j, ofItems ys = .ok j := by
  match xs, h with
  | [], rfl =>
    obtain rfl := hs.of_nil
    exact ⟨_, rfl⟩
  | .ok token :: rest, rfl =>
    obtain ⟨y, ys', rfl, hy, -⟩ := hs.of_cons
    obtain ⟨token', rfl, -⟩ := hy.of_token
    exact ⟨_, rfl⟩

theorem ofItems_eq_error_of_agree (hs : Item.Agree lined (n + 1) xs ys)
    (h : ofItems xs = .error e) : ∃ e', ofItems ys = .error e' ∧ e.Alike lined e' := by
  obtain ⟨rest, rfl⟩ := exists_of_ofItems_eq_error h
  obtain ⟨y, ys', rfl, hy, -⟩ := hs.of_cons
  obtain ⟨e', rfl, he⟩ := hy.of_error
  exact ⟨e', rfl, he⟩

namespace Agree

theorem of_current (h : i.Agree lined (n + 1) j) (hc : i.current = some token) :
    ∃ token', j.current = some token' ∧ token.terminal = token'.terminal ∧
      (lined = true → token.line = token'.line) ∧ Item.Agree lined n i.pending j.pending := by
  have hi : i.items = .ok token :: i.pending := by rw [Lookahead.items, hc]
  obtain ⟨y, ys, hj, hy, hys⟩ := (hi ▸ h.items).of_cons
  obtain ⟨token', rfl, ht, hl⟩ := hy.of_token
  unfold Lookahead.items at hj
  split at hj
  · next hc' =>
    cases hj
    exact ⟨token', hc', ht, hl, hys⟩
  · cases hj

theorem of_ended (h : i.Agree lined (n + 1) j) (hc : i.current = none) : j.current = none := by
  have hi : i.items = [] := by rw [Lookahead.items, hc]
  have hj := (hi ▸ h.items).of_nil
  unfold Lookahead.items at hj
  split at hj
  · cases hj
  · next hc' => exact hc'

/-- Streams that agree in an item show the same. -/
theorem alike (h : i.Agree lined n j) (hn : 0 < n) : i.Alike lined j := by
  obtain ⟨n, rfl⟩ := Nat.exists_eq_succ_of_ne_zero hn.ne'
  cases hc : i.current with
  | some token =>
    obtain ⟨token', hc', ht, hl, -⟩ := h.of_current hc
    refine ⟨by simp [terminal?, hc, hc', ht], fun hlined => ?_⟩
    simpa [line, hc, hc'] using hl hlined
  | none =>
    have hc' := h.of_ended hc
    refine ⟨by simp [terminal?, hc, hc'], fun hlined => ?_⟩
    simpa [line, hc, hc'] using h.lastLine hlined

/-- A token that is passed on one stream is passed on the other, if they agree in the item that
comes up. -/
theorem next (h : i.Agree lined (n + 2) j) (hn : i.next? = some (token, i')) :
    ∃ token' j', j.next? = some (token', j') ∧ token.terminal = token'.terminal ∧
      i'.Agree lined (n + 1) j' := by
  obtain ⟨current, pending, lastLine⟩ := i
  match current, pending, hn with
  | some token, [], rfl =>
    obtain ⟨token', hc, ht, hl, hs⟩ := h.of_current rfl
    have hp : j.pending = [] := hs.of_nil
    refine ⟨token', ⟨none, [], token'.line⟩, ?_, ht, .nil, hl⟩
    rw [next?, hc, hp]
  | some token, .ok ahead :: rest, rfl =>
    obtain ⟨token', hc, ht, hl, hs⟩ := h.of_current rfl
    obtain ⟨y, ys, hp, hy, -⟩ := hs.of_cons
    obtain ⟨ahead', rfl, -⟩ := hy.of_token
    refine ⟨token', ⟨some ahead', ys, token'.line⟩, ?_, ht, ?_, hl⟩
    · rw [next?, hc, hp]
    · rwa [hp] at hs

/-- **What is read from one stream can be read from the other**, if they agree in one item more. -/
theorem reads (h : i.Agree lined n j) (hr : i.Reads ts i') (hn : ts.length < n) :
    ∃ j', j.Reads ts j' ∧ i'.Agree lined (n - ts.length) j' := by
  induction ts generalizing i j n with
  | nil =>
    obtain rfl := hr
    exact ⟨j, rfl, h⟩
  | cons t ts ih =>
    obtain ⟨token, k, hk, rfl, hr⟩ := hr
    obtain ⟨n, rfl⟩ : ∃ m, n = m + 2 := ⟨n - 2, by simp only [List.length_cons] at hn; omega⟩
    obtain ⟨token', k', hk', ht, hagree⟩ := h.next hk
    obtain ⟨j', hj', hrest⟩ := ih hagree hr (Nat.lt_of_succ_lt_succ hn)
    exact ⟨j', ⟨token', k', hk', ht.symm, hj'⟩, by simpa using hrest⟩

end Agree

end Lookahead

/-! ## Runs that agree -/

namespace Session

variable {g g' : Goal} {gs gs' hs : List Goal} {s s' t : Session} {ts : List Terminal}
  {j : Lookahead} {e : CompileError}

/-- **Goals are done alike on streams that agree** in what is read and in the item shown then. -/
theorem Proceeds.agree (h : Proceeds gs s ts hs t) (hg : Goal.Alike lined gs gs')
    (hj : s.input.Agree lined n j) (hn : ts.length < n) :
    ∃ hs' j', Goal.Alike lined hs hs' ∧ Proceeds gs' (s.reading j) ts hs' (t.reading j') ∧
      t.input.Agree lined (n - ts.length) j' := by
  induction h generalizing gs' j n with
  | refl gs s => exact ⟨gs', j, hg, .refl gs' _, hj⟩
  | @step g rest goals hs s s₁ t ts us hp hr _ ih =>
    rw [List.length_append] at hn ⊢
    obtain ⟨j₁, hj₁, hagree⟩ := hj.reads hr (by omega)
    obtain ⟨g', rest', rfl, hhead, hrest⟩ := hg.of_cons
    obtain ⟨goals', hgoals, hp'⟩ :=
      perform_follows hhead (hj.alike (by omega)) hp hr hj₁
    obtain ⟨hs', j', hhs, hn', hagree'⟩ := ih (hgoals.append hrest) hagree (by omega)
    exact ⟨hs', j', hhs, .step hp' hj₁ hn', by rwa [Nat.sub_sub] at hagree'⟩

/-- **A goal that cannot be done** cannot be done on a stream that agrees in the items it has seen:
the current one, and the next if it has gone on to that. -/
theorem perform_error_agree (hg : Goal.Alike lined [g] [g']) (hj : s.input.Agree lined n j)
    (hp : perform g s = .error e s') (hn : 0 < n) (hnext : s'.input ≠ s.input → 1 < n) :
    ∃ e' j', e.Alike lined e' ∧ perform g' (s.reading j) = .error e' (s'.reading j') := by
  have hshow := hj.alike hn
  have ho := follows_perform hg s j hshow
  rw [hp] at ho
  rcases ho.of_error hshow with ⟨-, e', he, hp'⟩ | ⟨token, hi, hnext?⟩ |
    ⟨token, rest, hc, hpend, hi, hmalformed⟩
  · exact ⟨e', j, he, hp'⟩
  · have hmoved : s'.input ≠ s.input := fun h =>
      absurd (Lookahead.remaining_of_next? hi) (by rw [h]; exact Nat.lt_irrefl _)
    obtain ⟨n, rfl⟩ : ∃ m, n = m + 2 := ⟨n - 2, by have := hnext hmoved; omega⟩
    obtain ⟨token', j', hj', -⟩ := hj.next hi
    obtain ⟨e', he, hp'⟩ := hnext? token' j' hj'
    exact ⟨e', j', he, hp'⟩
  · have hmoved : s'.input ≠ s.input := fun h => by
      rw [← h, hi] at hc
      cases hc
    obtain ⟨n, rfl⟩ : ∃ m, n = m + 2 := ⟨n - 2, by have := hnext hmoved; omega⟩
    obtain ⟨token', hc', -, -, hs⟩ := hj.of_current hc
    obtain ⟨y, ys, hpend', hy, -⟩ := (hpend ▸ hs).of_cons
    obtain ⟨e', rfl, he⟩ := hy.of_error
    obtain ⟨j', hp'⟩ := hmalformed token' e' ys hc' hpend'
    exact ⟨e', j', he, hp'⟩

theorem run_ok_agree (h : run gs s = .ok () s') (hg : Goal.Alike lined gs gs')
    (hj : ∀ n, s.input.Agree lined n j) : ∃ j', run gs' (s.reading j) = .ok () (s'.reading j') := by
  obtain ⟨ts, hpr⟩ := exists_proceeds_of_run_ok h
  obtain ⟨hs', j', halike, hpr', -⟩ := hpr.agree hg (hj (ts.length + 1)) (Nat.lt_succ_self _)
  obtain rfl : hs' = [] := List.map_eq_nil_iff.mp halike.1.symm
  exact ⟨j', by rw [hpr'.run_eq, run]⟩

/-- **A run that stops is followed to the same error** on a stream that agrees in the items read, in
the one shown then, and in the next if the last goal has gone on to that. -/
theorem Proceeds.run_error_agree {rest : List Goal} (h : Proceeds gs s ts (g :: rest) t)
    (hp : perform g t = .error e s') (hg : Goal.Alike lined gs gs')
    (hj : s.input.Agree lined n j) (hn : ts.length < n)
    (hnext : s'.input ≠ t.input → ts.length + 1 < n) :
    ∃ e' j', e.Alike lined e' ∧ run gs' (s.reading j) = .error e' (s'.reading j') := by
  obtain ⟨hs', j', halike, hpr', hagree⟩ := h.agree hg hj hn
  obtain ⟨g', rest', rfl, hg', -⟩ := halike.of_cons
  obtain ⟨e', j'', he, hp'⟩ := perform_error_agree hg' hagree hp (by omega)
    fun hmoved => by have := hnext hmoved; omega
  exact ⟨e', j'', he, by rw [hpr'.run_eq, run_of_perform_error hp']⟩

end Session

/-! ## Compiling sources that agree -/

section

variable {source source' : String} {sink : Sink} {e : CompileError} {input : Lookahead}
  {s : Session}

theorem compileInto_of_malformed (hi : Lookahead.ofSource (Comment.strip source) = .error e) :
    compileInto source sink = ⟨{ sink }, .error e⟩ := by
  rw [compileInto, hi]

theorem compileInto_of_run_ok (hi : Lookahead.ofSource (Comment.strip source) = .ok input)
    (h : Session.run Goal.classGoals (Session.start input sink) = .ok () s) :
    compileInto source sink = ⟨s.writer, .ok s.className⟩ := by
  rw [Session.start] at h
  rw [compileInto, hi]
  simp only [compileTokens, h]

theorem compileInto_of_run_error (hi : Lookahead.ofSource (Comment.strip source) = .ok input)
    (h : Session.run Goal.classGoals (Session.start input sink) = .error e s) :
    compileInto source sink = ⟨s.writer, .error e⟩ := by
  rw [Session.start] at h
  rw [compileInto, hi]
  simp only [compileTokens, h]

end

/-- **Layout makes no difference.** Two sources with the same items but for lines are compiled alike
into every sink: what is written and logged is the same, and both give the name of the class or both
fail, with errors that differ in their lines at most. -/
theorem compileInto_layout {source source' : String} (sink : Sink)
    (h : (scan (Comment.strip source)).map Item.unplaced
      = (scan (Comment.strip source')).map Item.unplaced) :
    (compileInto source sink).writer = (compileInto source' sink).writer ∧
      ((∃ name, (compileInto source sink).result = .ok name ∧
          (compileInto source' sink).result = .ok name) ∨
        ∃ e e', (compileInto source sink).result = .error e ∧
          (compileInto source' sink).result = .error e' ∧ e.unlined = e'.unlined) := by
  have hitems := Item.agree_of_unplaced_eq h
  cases hi : Lookahead.ofSource (Comment.strip source) with
  | error e =>
    obtain ⟨e', hi', he⟩ := Lookahead.ofItems_eq_error_of_agree (hitems 1) hi
    rw [compileInto_of_malformed hi, compileInto_of_malformed hi']
    exact ⟨rfl, .inr ⟨e, e', rfl, rfl, he.1⟩⟩
  | ok input =>
    obtain ⟨input', hi'⟩ := Lookahead.exists_ofItems_of_agree (hitems 1) hi
    have hagree (n : Nat) : input.Agree false n input' :=
      Lookahead.agree_ofItems (hitems n) hi hi'
    cases hrun : Session.run Goal.classGoals (Session.start input sink) with
    | ok u s =>
      obtain ⟨j, hrun'⟩ := Session.run_ok_agree hrun (.refl _) hagree
      rw [compileInto_of_run_ok hi hrun, compileInto_of_run_ok hi' hrun']
      exact ⟨rfl, .inl ⟨s.className, rfl, rfl⟩⟩
    | error e s =>
      obtain ⟨ts, g, rest, t, hpr, hp⟩ := Session.exists_proceeds_of_run hrun
      obtain ⟨e', j, he, hrun'⟩ := hpr.run_error_agree hp (.refl _) (hagree (ts.length + 2))
        (by omega) fun _ => by omega
      rw [compileInto_of_run_error hi hrun, compileInto_of_run_error hi' hrun']
      exact ⟨rfl, .inr ⟨e, e', rfl, rfl, he.1⟩⟩

/-- A comment and a line break move the error, and nothing else. -/
theorem compileInto_layout_comment :
    (scan (Comment.strip "class A\x7bfunction int f()\x7breturn 1+y;\x7d\x7d")).map Item.unplaced
        = (scan (Comment.strip
          "class A \x7b\n/* 1 */ function int f() \x7b return 1 //\n + y; \x7d\n\x7d")).map
          Item.unplaced ∧
      (compileInto "class A\x7bfunction int f()\x7breturn 1+y;\x7d\x7d" {}).result
        = .error (.undefinedVariable 1 "y") ∧
      (compileInto "class A \x7b\n/* 1 */ function int f() \x7b return 1 //\n + y; \x7d\n\x7d"
        {}).result = .error (.undefinedVariable 3 "y") ∧
      (compileInto "class A\x7bfunction int f()\x7breturn 1+y;\x7d\x7d" {}).writer
        = (compileInto "class A \x7b\n/* 1 */ function int f() \x7b return 1 //\n + y; \x7d\n\x7d"
          {}).writer :=
  have h := by decide +kernel
  ⟨h, by decide +kernel, by decide +kernel, (compileInto_layout {} h).1⟩

/-! ## Where a compilation stops -/

/-- **What is read of a source**, comments left out: its tokens, each with its line, and its
errors. -/
def readings (source : String) : List (Except CompileError (Terminal × Nat)) :=
  (scan (Comment.strip source)).map reading

/-- **A compilation stops at item `k`** with an error: the item is this error, or it is shown, or
the end is, when the tokens before it have been read. -/
inductive StopsAt (source : String) (sink : Sink) (e : CompileError) (k : Nat) : Prop
  | malformed (h : (compileInto source sink).result = .error e)
    (hk : (readings source)[k]? = some (.error e))
  | shown {input : Lookahead} {s : Session} {ts : List Terminal}
    (hi : Lookahead.ofSource (Comment.strip source) = .ok input)
    (hrun : Session.run Goal.classGoals (Session.start input sink) = .error e s)
    (hr : input.Reads ts s.input) (hk : ts.length = k)

section

variable {source source' : String} {sink : Sink} {e : CompileError} {k : Nat}
  {items rest : List (Except CompileError Token)} {read : List Token}

/-- Behind tokens alone an error can come. -/
theorem length_le_of_reading_eq_error (hitems : items = read.map .ok ++ rest)
    (hk : (items.map reading)[k]? = some (.error e)) : read.length ≤ k := by
  by_contra hlt
  have hlt : k < read.length := Nat.not_le.mp hlt
  simp [hitems, List.getElem?_append_left, hlt, reading, Except.map] at hk

theorem reading_eq_error (read : List Token) (hitems : items = read.map .ok ++ .error e :: rest) :
    (items.map reading)[read.length]? = some (.error e) := by
  simp [hitems, reading, Except.map]

/-- **Every failure stops at an item**, if the sink has no limit. -/
theorem exists_stopsAt (hs : sink.limit = none) (h : (compileInto source sink).result = .error e) :
    ∃ k, StopsAt source sink e k := by
  rcases compileInto_eq_error_iff_run.mp h with hi | ⟨input, s, hi, hrun⟩
  · obtain ⟨rest, hitems⟩ := Lookahead.exists_of_ofItems_eq_error hi
    exact ⟨0, .malformed h (reading_eq_error [] hitems)⟩
  · cases Session.halts_of_run hs hrun with
    | unexpected hr _ => exact ⟨_, .shown hi hrun hr rfl⟩
    | @malformed _ _ token _ hr hc hp =>
      obtain ⟨read, -, hstands⟩ := (Lookahead.stands_ofItems hi).reads hr
      have hitems := hstands.items_of_current hc
      rw [hp] at hitems
      exact ⟨_, .malformed h (reading_eq_error (read ++ [token]) (by simpa using hitems))⟩
    | undefined hr _ _ => exact ⟨_, .shown hi hrun hr rfl⟩

/-- **A compilation that stops at an item has seen no more than this one**: the goals done before
the failure have read the tokens `ts`, and neither those, nor the token that the last goal has gone
on to, go beyond it. -/
theorem StopsAt.bound (h : StopsAt source sink e k) {input : Lookahead} {s t : Session} {g : Goal}
    {ts : List Terminal} (hi : Lookahead.ofSource (Comment.strip source) = .ok input)
    (hrun : Session.run Goal.classGoals (Session.start input sink) = .error e s)
    (hr : input.Reads ts t.input) (hp : Session.perform g t = .error e s) :
    ts.length ≤ k ∧ (s.input ≠ t.input → ts.length < k) := by
  obtain ⟨read, hread, hstands⟩ := (Lookahead.stands_ofItems hi).reads hr
  rw [List.nil_append] at hstands
  have hlength : read.length = ts.length := by rw [← hread, List.length_map]
  cases h with
  | malformed _ hk =>
    cases hc : t.input.current with
    | some token =>
      have hitems : scan (Comment.strip source) = (read ++ [token]).map .ok ++ t.input.pending := by
        simpa using hstands.items_of_current hc
      have hle := length_le_of_reading_eq_error hitems hk
      rw [List.length_append, List.length_singleton] at hle
      omega
    | none =>
      -- all items are tokens, so none of them is the error
      have hitems := hstands.items_of_ended hc
      rw [readings, hitems] at hk
      obtain ⟨token, -, htoken⟩ := by simpa [Option.map_eq_some_iff] using hk
      cases htoken
  | shown hi' hrun' hr' hk =>
    cases hi.symm.trans hi'
    cases hrun.symm.trans hrun'
    rcases Session.perform_error_cases hp with hin | ⟨x, hx⟩ | ⟨token, rest, hc, hpend, hin⟩
    · obtain rfl := hr'.left_unique (hin ▸ hr)
      exact ⟨hk.le, fun hmoved => absurd hin hmoved⟩
    · obtain rfl := hr'.left_unique (Lookahead.reads_append.mpr ⟨_, hr, hx⟩)
      rw [List.length_append, List.length_singleton] at hk
      omega
    · -- behind a malformed item nothing is read
      obtain ⟨read', -, hstands'⟩ := (Lookahead.stands_ofItems hi).reads hr'
      have hitems' := hstands'.items_of_ended (by rw [hin])
      have hmem : Except.error e ∈ scan (Comment.strip source) := by
        rw [hstands.items_of_current hc, hpend]
        simp
      rw [hitems'] at hmem
      simp at hmem

end

/-- **A failure depends on the items up to the current one alone.** Where a source is not compiled,
it stops at one of its items, or at its end; and any other source that agrees with it up to and with
the item where it stops is not compiled either, with the same error, and the same is written and
logged before. -/
theorem compileInto_lookahead {source : String} {sink : Sink} {e : CompileError}
    (hs : sink.limit = none) (h : (compileInto source sink).result = .error e) :
    (∃ k, StopsAt source sink e k) ∧
      ∀ k source', StopsAt source sink e k →
        (∀ n ≤ k, (readings source)[n]? = (readings source')[n]?) →
        (compileInto source' sink).result = .error e ∧
          (compileInto source' sink).writer = (compileInto source sink).writer := by
  refine ⟨exists_stopsAt hs h, fun k source' hstops hagree => ?_⟩
  have hitems : Item.Agree true (k + 1) (scan (Comment.strip source))
      (scan (Comment.strip source')) :=
    Item.agree_of_readings_eq fun n hn => hagree n (Nat.le_of_lt_succ hn)
  rcases compileInto_eq_error_iff_run.mp h with hi | ⟨input, s, hi, hrun⟩
  · obtain ⟨e', hi', he⟩ := Lookahead.ofItems_eq_error_of_agree hitems hi
    obtain rfl := he.2 rfl
    rw [compileInto_of_malformed hi, compileInto_of_malformed hi']
    exact ⟨rfl, rfl⟩
  · obtain ⟨input', hi'⟩ := Lookahead.exists_ofItems_of_agree hitems hi
    obtain ⟨ts, g, rest, t, hpr, hp⟩ := Session.exists_proceeds_of_run hrun
    obtain ⟨hle, hlt⟩ := hstops.bound hi hrun hpr.reads hp
    obtain ⟨e', j, he, hrun'⟩ := hpr.run_error_agree hp (.refl _)
      (Lookahead.agree_ofItems hitems hi hi') (by omega) fun hmoved => by have := hlt hmoved; omega
    obtain rfl := he.2 rfl
    rw [compileInto_of_run_error hi hrun, compileInto_of_run_error hi' hrun']
    exact ⟨rfl, rfl⟩

/-- A term is missing in front of a semicolon, and it makes no difference which malformed token
comes behind that. -/
theorem compileInto_lookahead_semicolon :
    let source := "class A \x7b function int f() \x7b return 1 + ; 40000"
    let source' := "class A \x7b function int f() \x7b return 1 + ; \"open"
    StopsAt source {} (.unexpected 1 "term" "symbol ';'") 12 ∧
      (∀ n ≤ 12, (readings source)[n]? = (readings source')[n]?) ∧
      (compileInto source' {}).result = .error (.unexpected 1 "term" "symbol ';'") ∧
      (compileInto source' {}).writer = (compileInto source {}).writer := by
  intro source source'
  have h : (compileInto source {}).result = .error (.unexpected 1 "term" "symbol ';'") := by
    decide +kernel
  have hagree : ∀ n ≤ 12, (readings source)[n]? = (readings source')[n]? := by
    let read : List (Except CompileError (Terminal × Nat)) := [.ok (.keyword .class, 1),
      .ok (.identifier "A", 1), .ok (.symbol '{', 1), .ok (.keyword .function, 1),
      .ok (.keyword .int, 1), .ok (.identifier "f", 1), .ok (.symbol '(', 1),
      .ok (.symbol ')', 1), .ok (.symbol '{', 1), .ok (.keyword .return, 1),
      .ok (.integer "1", 1), .ok (.symbol '+', 1), .ok (.symbol ';', 1)]
    have hread : (readings source).take 13 = read := by decide +kernel
    have hread' : (readings source').take 13 = read := by decide +kernel
    intro n hn
    have hlt : n < 13 := Nat.lt_succ_of_le hn
    rw [← List.getElem?_take_of_lt hlt, hread, ← hread', List.getElem?_take_of_lt hlt]
  have hstops : StopsAt source {} (.unexpected 1 "term" "symbol ';'") 12 := by
    obtain ⟨input, s, ts, g, rest, t, hi, hrun, hpr, -, hin, -⟩ := exists_stop h rfl
    have hr : input.Reads ts s.input := hin ▸ hpr.reads
    have hlengths : (match Lookahead.ofSource (Comment.strip source) with
        | .error _ => none
        | .ok input =>
          match Session.run Goal.classGoals (Session.start input {}) with
          | .error _ s => some (input.terminals.length, s.input.terminals.length)
          | .ok _ _ => none) = some (13, 1) := by decide +kernel
    simp only [hi, hrun, Option.some.injEq, Prod.mk.injEq] at hlengths
    rw [hr.terminals_eq.1, List.length_append] at hlengths
    exact .shown hi hrun hr (by omega)
  exact ⟨hstops, hagree, (compileInto_lookahead rfl h).2 12 source' hstops hagree⟩

end JackStack
