import Mathlib.Data.List.DropRight
import JackStack.Variable

/-!
# Proofs/History — the scopes are determined by their history

Scopes are made by declaring variables and entering subroutines, in any order and with any name any
number of times. What they say of a name, and the number they give to a variable, can be read off
the list of those operations: the class remembers all of it, a subroutine what was done since it was
entered.

* `Scopes.declared` — how many variables of a kind the history declares.
* `Scopes.Latest` — a variable comes from the latest declaration of its name in a scope.
* `Scopes.ofHistory_remembers` — scopes tell the latest declaration, and number by counting.
-/

namespace JackStack.Scopes

/-- **An operation on scopes.** -/
inductive Operation where
  | declare (name type : String) (kind : VariableKind)
  | enterRoutine
  deriving DecidableEq

namespace Operation

/-- **The scopes after an operation.** -/
def apply (s : Scopes) : Operation → Scopes
  | .declare name type kind => (s.define name type kind).2
  | .enterRoutine => s.enterRoutine

/-- The operation declares a variable of the kind. -/
def declares (kind : VariableKind) : Operation → Bool
  | .declare _ _ k => k = kind
  | .enterRoutine => false

/-- The operation declares the name, in the class or in a subroutine. -/
def binds (ofClass : Bool) (name : String) : Operation → Bool
  | .declare n _ k => n = name ∧ k.ofClass = ofClass
  | .enterRoutine => false

end Operation

/-- **The scopes that operations lead to**, from the first to the last. -/
def ofHistory (ops : List Operation) : Scopes :=
  ops.foldl Operation.apply {}

/-- **What a scope remembers of a history**: the class all of it, a subroutine what was done since
it was entered. -/
def remembered (ofClass : Bool) (ops : List Operation) : List Operation :=
  if ofClass then ops else ops.rtakeWhile (· ≠ .enterRoutine)

/-- **How many variables of a kind a history declares**, as far as their scope remembers it. -/
def declared (kind : VariableKind) (ops : List Operation) : Nat :=
  (remembered kind.ofClass ops).countP (Operation.declares kind)

/-- **A variable comes from the latest declaration of its name** in a scope. No other one of that
name and scope stands behind it, and no subroutine has been entered if it belongs to one. Its number
is how many of its kind were declared before. -/
def Latest (ofClass : Bool) (name : String) (ops : List Operation) (v : Variable) : Prop :=
  ∃ before after, ops = before ++ .declare name v.type v.kind :: after ∧
    v.kind.ofClass = ofClass ∧ (ofClass = false → .enterRoutine ∉ after) ∧
    (∀ op ∈ after, op.binds ofClass name = false) ∧ v.index = declared v.kind before

/-! ## Counting -/

variable {ops before behind : List Operation} {name name' type : String} {v v' : Variable}
  {ofClass : Bool}

/-- What follows without a new subroutine is remembered. -/
theorem remembered_append (h : ofClass = false → .enterRoutine ∉ behind) :
    remembered ofClass (before ++ behind) = remembered ofClass before ++ behind := by
  cases ofClass with
  | true => rfl
  | false =>
    induction behind using List.reverseRecOn with
    | nil => simp
    | append_singleton rest op ih =>
      simp only [List.mem_append, List.mem_singleton, not_or, forall_const] at h
      have hop : decide (op ≠ .enterRoutine) = true := decide_eq_true (Ne.symm h.2)
      have hrest := ih fun _ => h.1
      simp only [remembered, Bool.false_eq_true, if_false] at hrest ⊢
      rw [← List.append_assoc, List.rtakeWhile_concat_pos _ _ op hop, hrest, List.append_assoc]

theorem declared_append {kind : VariableKind}
    (h : kind.ofClass = false → .enterRoutine ∉ behind) :
    declared kind (before ++ behind) =
      declared kind before + behind.countP (Operation.declares kind) := by
  rw [declared, remembered_append h, List.countP_append, declared]

theorem declared_concat_declare (kind k : VariableKind) :
    declared k (ops ++ [.declare name type kind]) =
      declared k ops + if k = kind then 1 else 0 := by
  rw [declared_append (by simp)]
  simp [Operation.declares, List.countP_singleton, eq_comm]

theorem declared_concat_enterRoutine (k : VariableKind) :
    declared k (ops ++ [.enterRoutine]) = if k.ofClass then declared k ops else 0 := by
  cases k with
  | static | field =>
    rw [declared_append (by simp [VariableKind.ofClass])]
    rfl
  | argument | «local» => simp [declared, remembered, VariableKind.ofClass]

theorem ofHistory_concat (op : Operation) :
    ofHistory (ops ++ [op]) = op.apply (ofHistory ops) := by
  rw [ofHistory, List.foldl_append]
  rfl

/-- **The counters count the declarations** of the history. -/
theorem count_ofHistory (ops : List Operation) (kind : VariableKind) :
    (ofHistory ops).count kind = declared kind ops := by
  induction ops using List.reverseRecOn with
  | nil => cases kind <;> rfl
  | append_singleton ops op ih =>
    rw [ofHistory_concat]
    cases op with
    | declare name type k =>
      rw [declared_concat_declare, ← ih]
      exact count_declare ..
    | enterRoutine =>
      rw [declared_concat_enterRoutine, ← ih]
      exact count_enterRoutine ..

/-! ## The latest declaration -/

/-- The declarations of the class, or those of the subroutine. -/
def entries (s : Scopes) (ofClass : Bool) : Scope :=
  if ofClass then s.classScope else s.routineScope

theorem entries_declare (s : Scopes) (name type : String) (kind : VariableKind) :
    (s.declare name type kind).entries ofClass =
      if kind.ofClass = ofClass then (name, s.fresh type kind) :: s.entries ofClass
      else s.entries ofClass := by
  cases kind <;> cases ofClass <;> rfl

theorem entries_enterRoutine (s : Scopes) :
    s.enterRoutine.entries ofClass = if ofClass then s.entries ofClass else [] := by
  cases ofClass <;> rfl

theorem not_latest_nil : ¬ Latest ofClass name [] v := by
  rintro ⟨before, after, h, -⟩
  simp at h

/-- An operation at the end is the latest declaration of the name, or leaves what was it. -/
theorem latest_concat {op : Operation} :
    Latest ofClass name (ops ++ [op]) v ↔
      op = .declare name v.type v.kind ∧ v.kind.ofClass = ofClass ∧ v.index = declared v.kind ops ∨
      Latest ofClass name ops v ∧ op.binds ofClass name = false ∧
        (ofClass = false → op ≠ .enterRoutine) := by
  constructor
  · rintro ⟨before, after, hops, hscope, henter, hbinds, hindex⟩
    -- Either the declaration is the last operation, or the last operation is behind it.
    rcases List.eq_nil_or_concat after with rfl | ⟨rest, last, rfl⟩
    · obtain ⟨rfl, hop⟩ := List.append_inj' hops rfl
      exact .inl ⟨List.singleton_inj.1 hop, hscope, hindex⟩
    · rw [List.concat_eq_append] at hops henter hbinds
      rw [← List.cons_append, ← List.append_assoc] at hops
      obtain ⟨rfl, hop⟩ := List.append_inj' hops rfl
      obtain rfl := List.singleton_inj.1 hop
      simp only [List.mem_append, List.mem_singleton, not_or] at henter
      simp only [List.forall_mem_append, List.forall_mem_singleton] at hbinds
      exact .inr ⟨⟨before, rest, rfl, hscope, fun h => (henter h).1, hbinds.1, hindex⟩, hbinds.2,
        fun h => Ne.symm (henter h).2⟩
  · rintro (⟨rfl, hscope, hindex⟩ | ⟨⟨before, after, rfl, hscope, henter, hbinds, hindex⟩, hop, he⟩)
    · exact ⟨ops, [], rfl, hscope, by simp, by simp, hindex⟩
    · refine ⟨before, after ++ [op], by simp, hscope, fun h => ?_, ?_, hindex⟩
      · simp only [List.mem_append, List.mem_singleton, not_or]
        exact ⟨henter h, Ne.symm (he h)⟩
      · simp only [List.forall_mem_append, List.forall_mem_singleton]
        exact ⟨hbinds, hop⟩

/-- **Each scope tells the latest declaration** of a name. -/
theorem lookup_entries_ofHistory (ops : List Operation) (ofClass : Bool) (name : String)
    (v : Variable) :
    ((ofHistory ops).entries ofClass).lookup name = some v ↔ Latest ofClass name ops v := by
  induction ops using List.reverseRecOn with
  | nil =>
    refine iff_of_false ?_ not_latest_nil
    cases ofClass <;> simp [ofHistory, entries]
  | append_singleton ops op ih =>
    rw [ofHistory_concat, latest_concat, ← ih]
    cases op with
    | enterRoutine =>
      rw [Operation.apply, entries_enterRoutine]
      cases ofClass <;> simp [Operation.binds]
    | declare n type kind =>
      rw [Operation.apply, define, entries_declare]
      obtain ⟨vtype, vkind, vindex⟩ := v
      by_cases hscope : kind.ofClass = ofClass
      · by_cases hname : n = name
        · subst hname hscope
          rw [if_pos rfl, List.lookup_cons_self, fresh, count_ofHistory]
          grind [Operation.binds]
        · have hne : (name == n) = false := beq_false_of_ne (Ne.symm hname)
          simp [hscope, List.lookup_cons, hne, Operation.binds, hname]
      · rw [if_neg hscope]
        grind [Operation.binds]

/-- The subroutine's declaration comes before the class's. -/
theorem lookup_ofHistory (ops : List Operation) (name : String) (v : Variable) :
    (ofHistory ops).lookup name = some v ↔
      Latest false name ops v ∨
      Latest true name ops v ∧ ¬ ∃ u, Latest false name ops u := by
  simp only [← lookup_entries_ofHistory]
  change (((ofHistory ops).entries false).lookup name).or
    (((ofHistory ops).entries true).lookup name) = some v ↔ _
  cases ((ofHistory ops).entries false).lookup name with
  | none => simp
  | some u => simp

/-! ## Numbers -/

/-- A declaration is counted behind itself. -/
theorem declared_lt {kind : VariableKind} (h : kind.ofClass = false → .enterRoutine ∉ behind) :
    declared kind before < declared kind (before ++ .declare name type kind :: behind) := by
  rw [declared_append (by simpa using h), List.countP_cons_of_pos (by simp [Operation.declares])]
  omega

theorem Latest.index_lt (h : Latest ofClass name ops v) : v.index < declared v.kind ops := by
  obtain ⟨before, after, rfl, hscope, henter, -, hindex⟩ := h
  rw [hindex]
  exact declared_lt fun hk => henter (hscope.symm.trans hk)

/-- Of two declarations of a kind the later one counts the earlier. -/
theorem declared_lt_of_cons {kind : VariableKind} {type' : String}
    {mid after after' : List Operation}
    (h : Operation.declare name type kind :: after = mid ++ .declare name' type' kind :: after')
    (hn : name ≠ name') (he : kind.ofClass = false → .enterRoutine ∉ after) :
    declared kind before < declared kind (before ++ mid) := by
  cases mid with
  | nil => exact absurd (Operation.declare.inj (List.cons.inj h).1).1 hn
  | cons op mid =>
    obtain ⟨rfl, rfl⟩ := List.cons.inj h
    exact declared_lt fun hk hmem => he hk (List.mem_append_left _ hmem)

/-- **Different names do not share a number.** -/
theorem Latest.index_ne {ofClass' : Bool} (h : Latest ofClass name ops v)
    (h' : Latest ofClass' name' ops v') (hk : v.kind = v'.kind) (hn : name ≠ name') :
    v.index ≠ v'.index := by
  obtain ⟨before, after, rfl, hscope, henter, -, hindex⟩ := h
  obtain ⟨before', after', hops, hscope', henter', -, hindex'⟩ := h'
  rw [hindex, hindex', ← hk]
  rw [← hk] at hops hscope'
  rcases List.append_eq_append_iff.1 hops with ⟨mid, rfl, hrest⟩ | ⟨mid, rfl, hrest⟩
  · exact Nat.ne_of_lt (declared_lt_of_cons hrest hn fun h => henter (hscope.symm.trans h))
  · exact Nat.ne_of_gt (declared_lt_of_cons hrest hn.symm fun h => henter' (hscope'.symm.trans h))

theorem exists_latest (h : (ofHistory ops).lookup name = some v) :
    ∃ ofClass, Latest ofClass name ops v := by
  rcases (lookup_ofHistory ops name v).1 h with h | ⟨h, -⟩
  · exact ⟨false, h⟩
  · exact ⟨true, h⟩

/-- **Scopes remember exactly their history.** A name means its latest declaration in the
subroutine, else its latest in the class, else nothing. A declaration gets, and its variable keeps,
the number of declarations of its kind before it, and the counters tell that number. So two names
never share a variable, and no number reaches its counter. -/
theorem ofHistory_remembers (ops : List Operation) :
    (∀ name v, (ofHistory ops).lookup name = some v ↔
      Latest false name ops v ∨
      Latest true name ops v ∧ ¬ ∃ u, Latest false name ops u) ∧
    (∀ name type kind, ((ofHistory ops).define name type kind).1 = declared kind ops) ∧
    (∀ kind, (ofHistory ops).count kind = declared kind ops) ∧
    (∀ name name' v v', (ofHistory ops).lookup name = some v →
      (ofHistory ops).lookup name' = some v' → v.kind = v'.kind → name ≠ name' →
      v.index ≠ v'.index) ∧
    ∀ name v, (ofHistory ops).lookup name = some v → v.index < (ofHistory ops).count v.kind := by
  refine ⟨lookup_ofHistory ops, fun _ _ kind => count_ofHistory ops kind, count_ofHistory ops,
    fun name name' v v' h h' hk hn => ?_, fun name v h => ?_⟩
  · obtain ⟨_, h⟩ := exists_latest h
    obtain ⟨_, h'⟩ := exists_latest h'
    exact h.index_ne h' hk hn
  · obtain ⟨_, h⟩ := exists_latest h
    rw [count_ofHistory]
    exact h.index_lt

/-- A history in which a name changes its kind, one hides a field, and one is forgotten. -/
def redeclared : List Operation :=
  [.declare "x" "int" .field, .declare "y" "int" .argument, .enterRoutine,
    .declare "a" "int" .local, .declare "x" "char" .local, .declare "a" "int" .argument,
    .declare "b" "int" .local]

theorem ofHistory_remembers_redeclared :
    (ofHistory redeclared).lookup "y" = none ∧
    (ofHistory redeclared).lookup "a" = some ⟨"int", .argument, 0⟩ ∧
    (ofHistory redeclared).count .local = 3 ∧
    ∃ v v', (ofHistory redeclared).lookup "x" = some v ∧
      (ofHistory redeclared).lookup "b" = some v' ∧ v.kind = v'.kind ∧ v.index ≠ v'.index ∧
      v'.index < (ofHistory redeclared).count .local := by
  have hx : (ofHistory redeclared).lookup "x" = some ⟨"char", .local, 1⟩ := by decide
  have hb : (ofHistory redeclared).lookup "b" = some ⟨"int", .local, 2⟩ := by decide
  obtain ⟨-, -, -, hne, hlt⟩ := ofHistory_remembers redeclared
  exact ⟨by decide, by decide, by decide, _, _, hx, hb, rfl, hne _ _ _ _ hx hb rfl (by decide),
    hlt _ _ hb⟩

end JackStack.Scopes
