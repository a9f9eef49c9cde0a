import JackStack.Compile.Perform

/-!
# Compile/Agenda — working through the goals of a class

`run` works through an agenda until it is empty or a goal fails.

The agenda ends for a simple reason. A goal that consumes no token leaves lighter goals, and one
that does consume a token leaves goals that weigh less than the token counts.

* `perform_pays` — every goal pays for the goals that it leaves.
-/

namespace JackStack

namespace Session

open Goal (weights)

/-! ## Every goal pays for what it leaves -/

/-- **What a token counts** in the cost of an agenda: more than any goal leaves behind. -/
def tokenWeight : Nat := 16

/-- **The cost of an agenda** in a session. -/
def cost (goals : List Goal) (s : Session) : Nat :=
  weights goals + tokenWeight * s.input.remaining

/-- **An action pays**: with `n` for the goal it does, the goals it leaves cost less. -/
def Pays (n : Nat) (a : Action Session (List Goal)) : Prop :=
  ∀ ⦃s gs s'⦄, a s = .ok gs s' → cost gs s' < n + tokenWeight * s.input.remaining

variable {α : Type} {n : Nat}

theorem pays_pure {gs : List Goal} (h : weights gs < n) : Pays n (pure gs) := by
  intro s gs' s' hs
  cases hs
  exact Nat.add_lt_add_right h _

theorem pays_keep {a : Action Session α} {f : α → Action Session (List Goal)} (ha : Keeps a)
    (hf : ∀ x, Pays n (f x)) : Pays n (a >>= f) := by
  intro s gs s' hs
  obtain ⟨x, t, hx, ht⟩ := Action.bind_eq_ok.mp hs
  have h₁ := ha hx
  have h₂ := hf x ht
  simp only [tokenWeight] at *
  omega

theorem pays_consume {a : Action Session α} {f : α → Action Session (List Goal)} (ha : Consumes a)
    (hf : ∀ x, Pays (n + tokenWeight) (f x)) : Pays n (a >>= f) := by
  intro s gs s' hs
  obtain ⟨x, t, hx, ht⟩ := Action.bind_eq_ok.mp hs
  have h₁ := ha hx
  have h₂ := hf x ht
  simp only [tokenWeight] at *
  omega

theorem pays_fail (expected : String) : Pays n (fail expected) := by
  intro s gs s' hs
  cases hs

theorem keeps_bind {β : Type} {a : Action Session α} {f : α → Action Session β} (ha : Keeps a)
    (hf : ∀ x, Keeps (f x)) : Keeps (a >>= f) := by
  intro s y s' hs
  obtain ⟨x, t, hx, ht⟩ := Action.bind_eq_ok.mp hs
  exact Nat.le_trans (hf x ht) (ha hx)

theorem keeps_pure (x : α) : Keeps (pure x : Action Session α) := by
  intro s y s' hs
  cases hs
  exact Nat.le_refl _

theorem keeps_modifyGet {f : Session → α × Session} (h : ∀ s, (f s).2.input = s.input) :
    Keeps (modifyGet f : Action Session α) := by
  intro s x s' hs
  cases hs
  exact Nat.le_of_eq (congrArg _ (h s))

theorem keeps_declare (name type : String) (kind : VariableKind) : Keeps (declare name type kind) :=
  keeps_modify fun _ => rfl

theorem keeps_declareReceiver (kind : RoutineKind) : Keeps (declareReceiver kind) := by
  unfold declareReceiver
  split
  · exact keeps_bind keeps_get fun _ => keeps_declare _ _ _
  · exact keeps_pure _

theorem keeps_resolve (name : String) (line : Nat) : Keeps (resolve name line) := by
  refine keeps_bind keeps_get fun s => ?_
  split
  · exact keeps_pure _
  · intro s x s' hs
    cases hs

theorem keeps_note (e : Event) : Keeps (note e) :=
  keeps_onWriter _

theorem keeps_write (commands : List Vm.Command) : Keeps (write commands) :=
  keeps_onWriter _

theorem consumes_bind {β : Type} {a : Action Session α} {f : α → Action Session β} (ha : Consumes a)
    (hf : ∀ x, Keeps (f x)) : Consumes (a >>= f) := by
  intro s y s' hs
  obtain ⟨x, t, hx, ht⟩ := Action.bind_eq_ok.mp hs
  exact Nat.lt_of_le_of_lt (hf x ht) (ha hx)

theorem consumes_of_keeps {β : Type} {a : Action Session α} {f : α → Action Session β}
    (ha : Keeps a) (hf : ∀ x, Consumes (f x)) : Consumes (a >>= f) := by
  intro s y s' hs
  obtain ⟨x, t, hx, ht⟩ := Action.bind_eq_ok.mp hs
  exact Nat.lt_of_lt_of_le (hf x ht) (ha hx)

theorem consumes_expectType : Consumes expectType := by
  refine consumes_of_keeps keeps_input? fun input => ?_
  split
  · exact consumes_bind consumes_pass fun _ => keeps_pure _
  · exact consumes_fail _

theorem weights_statement {k : Keyword} {gs : List Goal} (h : Goal.statement? k = some gs) :
    weights gs ≤ 14 := by
  revert h
  cases k <;> rintro ⟨⟩ <;> decide

theorem pays_term {token : Token} {a : Action Session (List Goal)} (h : termGoals? token = some a) :
    Pays 1 a := by
  unfold termGoals? at h
  split at h
  · cases h
    exact pays_consume consumes_pass fun _ => pays_keep (keeps_write _) fun _ =>
      pays_pure (by decide)
  · cases h
    exact pays_consume consumes_pass fun _ => pays_keep (keeps_write _) fun _ =>
      pays_pure (by decide)
  · obtain ⟨code, -, rfl⟩ := Option.map_eq_some_iff.mp h
    exact pays_keep (keeps_write _) fun _ => pays_consume consumes_pass fun _ =>
      pays_pure (by decide)
  · cases h
    exact pays_consume consumes_pass fun _ => pays_pure (by decide)
  · cases h
    exact pays_consume consumes_pass fun _ => pays_pure (by decide)
  · cases h
    exact pays_consume consumes_pass fun _ => pays_pure (by decide)
  · cases h
  · cases h
    exact pays_consume consumes_pass fun _ => pays_pure (by simp [Goal.weight, tokenWeight])

/-- **Every goal pays for the goals that it leaves.** -/
theorem perform_pays (g : Goal) : Pays g.weight (perform g) := by
  cases g with
  | symbol c =>
    exact pays_consume (consumes_expectSymbol c) fun _ =>
      pays_pure (by simp [Goal.weight, tokenWeight])
  | keyword k =>
    exact pays_consume (consumes_expectKeyword k) fun _ =>
      pays_pure (by simp [Goal.weight, tokenWeight])
  | write commands =>
    exact pays_keep (keeps_write commands) fun _ => pays_pure (by simp [Goal.weight])
  | operate operator unary =>
    exact pays_keep (keeps_onWriter _) fun _ => pays_pure (by simp [Goal.weight])
  | className =>
    exact pays_consume (consumes_expectName _) fun _ =>
      pays_keep (keeps_modify fun _ => rfl) fun _ => pays_pure (by decide)
  | announceClass =>
    exact pays_keep keeps_get fun _ => pays_keep (keeps_note _) fun _ => pays_pure (by decide)
  | classVariables =>
    refine pays_keep keeps_input? fun input => ?_
    split
    · exact pays_consume consumes_pass fun _ => pays_pure (by decide)
    · exact pays_consume consumes_pass fun _ => pays_pure (by decide)
    · exact pays_pure (by decide)
  | routines =>
    refine pays_keep keeps_input? fun input => ?_
    split
    · exact pays_consume consumes_pass fun _ => pays_keep (keeps_modify fun _ => rfl) fun _ =>
        pays_pure (by simp [Goal.weight, tokenWeight])
    · exact pays_pure (by decide)
  | sourceEnd =>
    refine pays_keep keeps_input? fun input => ?_
    split
    · exact pays_pure (by decide)
    · exact pays_fail _
  | variableType kind =>
    exact pays_consume consumes_expectType fun _ => pays_pure (by simp [Goal.weight, tokenWeight])
  | variableName kind type =>
    exact pays_consume (consumes_expectName _) fun _ => pays_keep (keeps_declare _ _ _) fun _ =>
      pays_pure (by simp [Goal.weight, tokenWeight])
  | moreVariables kind type =>
    refine pays_keep keeps_input? fun input => ?_
    split
    · exact pays_consume consumes_pass fun _ => pays_pure (by simp [Goal.weight, tokenWeight])
    · exact pays_pure (by simp [Goal.weight])
  | returnType kind =>
    refine pays_keep keeps_input? fun input => ?_
    split
    · exact pays_consume consumes_pass fun _ => pays_pure (by simp [Goal.weight, tokenWeight])
    · exact pays_consume (consumes_bind consumes_expectType fun _ => keeps_pure _) fun _ =>
        pays_pure (by simp [Goal.weight, tokenWeight])
  | routineName kind returnsVoid =>
    exact pays_consume (consumes_expectName _) fun _ =>
      pays_keep (keeps_modify fun _ => rfl) fun _ => pays_keep (keeps_declareReceiver _) fun _ =>
      pays_pure (by simp [Goal.weight, tokenWeight])
  | parameters =>
    refine pays_keep keeps_input? fun input => ?_
    split
    · exact pays_pure (by decide)
    · exact pays_pure (by decide)
  | parameterType =>
    exact pays_consume consumes_expectType fun _ => pays_pure (by simp [Goal.weight, tokenWeight])
  | parameterName type =>
    exact pays_consume (consumes_expectName _) fun _ => pays_keep (keeps_declare _ _ _) fun _ =>
      pays_pure (by simp [Goal.weight, tokenWeight])
  | moreParameters =>
    refine pays_keep keeps_input? fun input => ?_
    split
    · exact pays_consume consumes_pass fun _ => pays_pure (by decide)
    · exact pays_pure (by decide)
  | announceRoutine =>
    exact pays_keep keeps_get fun _ => pays_keep (keeps_note _) fun _ => pays_pure (by decide)
  | localVariables =>
    refine pays_keep keeps_input? fun input => ?_
    split
    · exact pays_consume consumes_pass fun _ => pays_pure (by decide)
    · exact pays_pure (by decide)
  | prologue =>
    exact pays_keep keeps_get fun _ => pays_keep (keeps_write _) fun _ => pays_pure (by decide)
  | epilogue =>
    refine pays_keep keeps_get fun s => ?_
    dsimp only
    split
    · exact pays_pure (by decide)
    split
    · exact pays_keep (keeps_note _) fun _ => pays_keep (keeps_write _) fun _ =>
        pays_pure (by decide)
    · exact pays_keep (keeps_note _) fun _ => pays_pure (by decide)
  | statements =>
    refine pays_keep keeps_input? fun input => ?_
    split
    · next goals h =>
      obtain ⟨k, -, hk⟩ := Option.bind_eq_some_iff.mp h
      have := weights_statement hk
      exact pays_consume consumes_pass fun _ => pays_pure (by
        simp only [Goal.weights_append, Goal.weights_cons, Goal.weights_nil, Goal.weight,
          tokenWeight]
        omega)
    · exact pays_pure (by decide)
  | assigned =>
    exact pays_keep keeps_input? fun _ => pays_consume (consumes_expectName _) fun _ =>
      pays_keep (keeps_resolve _ _) fun _ => pays_pure (by simp [Goal.weight, tokenWeight])
  | assignment target =>
    refine pays_keep keeps_input? fun input => ?_
    split
    · exact pays_consume consumes_pass fun _ => pays_pure (by simp [Goal.weight, tokenWeight])
    · exact pays_pure (by simp [Goal.weight])
  | conditional =>
    refine pays_keep (keeps_modifyGet fun _ => rfl) fun labels => ?_
    exact pays_pure (by simp [Goal.condition, Goal.block, Goal.weight])
  | loop =>
    refine pays_keep (keeps_modifyGet fun _ => rfl) fun labels => ?_
    exact pays_pure (by simp [Goal.condition, Goal.block, Goal.weight])
  | otherwise =>
    refine pays_keep keeps_input? fun input => ?_
    split
    · exact pays_consume consumes_pass fun _ => pays_pure (by decide)
    · exact pays_pure (by decide)
  | performed =>
    exact pays_consume (consumes_expectName _) fun _ =>
      pays_pure (by simp [Goal.weight, tokenWeight])
  | returned =>
    refine pays_keep keeps_get fun s => pays_keep keeps_input? fun input => ?_
    split
    · exact pays_pure (by simp [Goal.weight])
    · exact pays_pure (by simp [Goal.weight])
  | expression => exact pays_pure (by decide)
  | moreTerms =>
    refine pays_keep keeps_input? fun input => ?_
    split
    · split
      · exact pays_consume consumes_pass fun _ =>
          pays_pure (by simp [Goal.weight, tokenWeight])
      · exact pays_pure (by decide)
    · exact pays_pure (by decide)
  | term =>
    refine pays_keep keeps_input? fun input => ?_
    split
    · next h =>
      obtain ⟨token, -, ht⟩ := Option.bind_eq_some_iff.mp h
      exact pays_term ht
    · exact pays_fail _
  | reference name line =>
    refine pays_keep keeps_input? fun input => ?_
    split
    · exact pays_pure (by simp [Goal.weight])
    · exact pays_pure (by simp [Goal.weight])
    · exact pays_keep (keeps_resolve _ _) fun _ => pays_consume consumes_pass fun _ =>
        pays_keep (keeps_write _) fun _ => pays_pure (by simp [Goal.weight, tokenWeight])
    · exact pays_keep (keeps_resolve _ _) fun _ => pays_keep (keeps_write _) fun _ =>
        pays_pure (by simp [Goal.weight])
  | call name =>
    refine pays_keep keeps_input? fun input => ?_
    split
    · exact pays_consume consumes_pass fun _ => pays_keep (keeps_write _) fun _ =>
        pays_keep keeps_get fun _ => pays_pure (by simp [Goal.weight, tokenWeight])
    · exact pays_pure (by simp [Goal.weight])
  | callee name =>
    exact pays_consume (consumes_expectName _) fun _ =>
      pays_pure (by simp [Goal.weight, tokenWeight])
  | receiver name routine =>
    refine pays_keep keeps_get fun s => ?_
    split
    · exact pays_keep (keeps_write _) fun _ => pays_pure (by simp [Goal.weight])
    · exact pays_pure (by simp [Goal.weight])
  | arguments routine count =>
    refine pays_keep keeps_input? fun input => ?_
    split
    · exact pays_pure (by simp [Goal.weight])
    · exact pays_pure (by simp [Goal.weight])
  | moreArguments routine count =>
    refine pays_keep keeps_input? fun input => ?_
    split
    · exact pays_consume consumes_pass fun _ => pays_pure (by simp [Goal.weight, tokenWeight])
    · exact pays_pure (by simp [Goal.weight])

/-! ## Working through an agenda -/

/-- **Works through an agenda** until it is empty or a goal fails. -/
def run (agenda : List Goal) (s : Session) : EStateM.Result CompileError Session Unit :=
  match agenda with
  | [] => .ok () s
  | g :: rest =>
    match _h : perform g s with
    | .ok goals s' => run (goals ++ rest) s'
    | .error e s' => .error e s'
termination_by cost agenda s
decreasing_by
  have := perform_pays g _h
  simp only [cost, Goal.weights_append, Goal.weights_cons] at *
  omega

end Session

end JackStack
