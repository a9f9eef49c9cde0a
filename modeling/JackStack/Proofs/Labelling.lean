import Mathlib.Data.List.Nodup
import JackStack.Proofs.Loading
import JackStack.Proofs.Translation

/-!
# Proofs/Labelling — labels, jumps and the blocks of functions

Whatever a tree is, its commands are of a few kinds: expressions and assignments move values and
call, statements put labels and jumps around them. Labels are numbered as they are made, so no two
are equal, and a statement jumps to its own labels only; so no jump leaves the block of commands
that belongs to one `function` line.

* `Context.Issues` — the commands of expressions and assignments.
* `Statement.labelled` — the labels and jumps of statements.
* `RoutineDecl.forall₂_blocks` — the blocks of a class are those of its subroutines, in order.
-/

namespace JackStack

open Vm (Command)

/-! ## Commands of expressions and assignments -/

/-- Commands on places that belong to no variable. -/
def placeCommands : List Command :=
  [.push .pointer 0, .pop .pointer 0, .pop .pointer 1, .push .that 0, .pop .that 0, .push .temp 0,
    .pop .temp 0]

/-- **The commands of expressions and assignments**, whatever names and numbers they hold. -/
inductive Context.Issues (c : Context) : Command → Prop where
  | constant (n : Nat) : c.Issues (.push .constant n)
  | load {name : String} {v : Variable} (h : c.resolve name = some v) : c.Issues v.push
  | store {name : String} {v : Variable} (h : c.resolve name = some v) : c.Issues v.pop
  | place {command : Command} (h : command ∈ placeCommands) : c.Issues command
  | arith (op : Vm.ArithOp) : c.Issues (.arith op)
  | call (name : String) (n : Nat) : c.Issues (.call name n)

namespace Context

variable {c : Context} {command : Command}

theorem Issues.function? (h : c.Issues command) : command.function? = none := by
  cases h with
  | place h => exact (by decide : ∀ command ∈ placeCommands, command.function? = none) _ h
  | _ => rfl

theorem Issues.label? (h : c.Issues command) : command.label? = none := by
  cases h with
  | place h => exact (by decide : ∀ command ∈ placeCommands, command.label? = none) _ h
  | _ => rfl

theorem Issues.target? (h : c.Issues command) : command.target? = none := by
  cases h with
  | place h => exact (by decide : ∀ command ∈ placeCommands, command.target? = none) _ h
  | _ => rfl

theorem Issues.ne_return (h : c.Issues command) : command ≠ .return := by
  cases h with
  | place h => exact (by decide : ∀ command ∈ placeCommands, command ≠ .return) _ h
  | _ => exact Command.noConfusion

theorem issues_pushName (c : Context) (name : String) :
    ∀ command ∈ c.pushName name, c.Issues command := by
  intro command h
  obtain ⟨v, hv, rfl⟩ := List.mem_map.1 h
  exact .load (Option.mem_toList.1 hv)

theorem issues_popName (c : Context) (name : String) :
    ∀ command ∈ c.popName name, c.Issues command := by
  intro command h
  obtain ⟨v, hv, rfl⟩ := List.mem_map.1 h
  exact .store (Option.mem_toList.1 hv)

theorem issues_callOn (c : Context) (receiver routine : String) (n : Nat) :
    c.Issues (c.callOn receiver routine n) := by
  rw [callOn]
  split <;> exact .call _ _

end Context

theorem Constant.issues (k : Constant) (c : Context) : ∀ command ∈ k.code, c.Issues command := by
  cases k with
  | «true» =>
    simp only [Constant.code, List.forall_mem_cons]
    exact ⟨.constant 1, .arith _, nofun⟩
  | «false» | null => exact List.forall_mem_singleton.2 (.constant 0)
  | this => exact List.forall_mem_singleton.2 (.place (by decide))

theorem BinaryOp.issues (op : BinaryOp) (c : Context) : c.Issues op.command := by
  cases op with
  | multiply | divide => exact .call _ _
  | _ => exact .arith _

theorem issues_textCode (body : String) (c : Context) :
    ∀ command ∈ textCode body, c.Issues command := by
  simp only [textCode, List.forall_mem_append, List.forall_mem_cons, List.forall_mem_flatMap]
  exact ⟨⟨.constant _, .call _ _, nofun⟩, fun x _ => ⟨.constant _, .call _ _, nofun⟩⟩

mutual

theorem Term.issues (t : Term) (c : Context) : ∀ command ∈ t.code c, c.Issues command := by
  cases t with
  | integer digits => exact List.forall_mem_singleton.2 (.constant _)
  | text body => exact issues_textCode body c
  | constant k => exact k.issues c
  | «variable» name => exact c.issues_pushName name
  | element array index =>
    rw [Term.code, List.forall_mem_append, List.forall_mem_append]
    refine ⟨⟨c.issues_pushName array, index.issues c⟩, ?_⟩
    simp only [List.forall_mem_cons]
    exact ⟨.arith _, .place (by decide), .place (by decide), nofun⟩
  | call f =>
    rw [Term.code]
    exact f.issues c
  | group inner =>
    rw [Term.code]
    exact inner.issues c
  | unary op operand =>
    rw [Term.code, List.forall_mem_append, List.forall_mem_singleton]
    refine ⟨operand.issues c, ?_⟩
    cases op <;> exact .arith _

theorem Expression.issues (e : Expression) (c : Context) :
    ∀ command ∈ e.code c, c.Issues command := by
  obtain ⟨first, more⟩ := e
  rw [Expression.code, List.forall_mem_append]
  exact ⟨first.issues c, Expression.issues_more more c⟩

theorem Expression.issues_more (more : List (BinaryOp × Term)) (c : Context) :
    ∀ command ∈ Expression.moreCode c more, c.Issues command := by
  cases more with
  | nil => exact nofun
  | cons head rest =>
    obtain ⟨op, t⟩ := head
    rw [Expression.moreCode, List.forall_mem_append, List.forall_mem_cons]
    exact ⟨t.issues c, op.issues c, Expression.issues_more rest c⟩

theorem Call.issues (f : Call) (c : Context) : ∀ command ∈ f.code c, c.Issues command := by
  cases f with
  | own routine arguments =>
    rw [Call.code, List.forall_mem_cons, List.forall_mem_append, List.forall_mem_singleton]
    exact ⟨.place (by decide), Call.issues_list arguments c, .call _ _⟩
  | on receiver routine arguments =>
    rw [Call.code, List.forall_mem_append, List.forall_mem_append, List.forall_mem_singleton]
    exact ⟨⟨c.issues_pushName receiver, Call.issues_list arguments c⟩, c.issues_callOn _ _ _⟩

theorem Call.issues_list (arguments : List Expression) (c : Context) :
    ∀ command ∈ Call.listCode c arguments, c.Issues command := by
  cases arguments with
  | nil => exact nofun
  | cons e rest =>
    rw [Call.listCode, List.forall_mem_append]
    exact ⟨e.issues c, Call.issues_list rest c⟩

end

/-! ## Commands of statements -/

/-- **A command of control flow** inside a function. -/
def Vm.Command.isControl : Command → Bool
  | .label _ | .goto _ | .ifGoto _ | .return => true
  | _ => false

theorem Context.issues_returnCode (c : Context) :
    ∀ command ∈ c.returnCode, c.Issues command ∨ command.isControl = true := by
  rw [Context.returnCode]
  split
  · simp only [List.forall_mem_cons]
    exact ⟨.inl (.constant 0), .inr rfl, nofun⟩
  · exact List.forall_mem_singleton.2 (.inr rfl)

mutual

/-- **The commands of a statement** are those of its expressions, and control flow. -/
theorem Statement.issues (st : Statement) (c : Context) (m n : Nat) :
    ∀ command ∈ st.code c m n, c.Issues command ∨ command.isControl = true := by
  have plain {code : List Command} (h : ∀ command ∈ code, c.Issues command) :
      ∀ command ∈ code, c.Issues command ∨ command.isControl = true :=
    fun command hc => .inl (h command hc)
  cases st with
  | assign name value =>
    rw [Statement.code, List.forall_mem_append]
    exact ⟨plain (value.issues c), plain (c.issues_popName name)⟩
  | assignElement array index value =>
    rw [Statement.code]
    refine plain ?_
    simp only [List.forall_mem_append, List.forall_mem_cons]
    exact ⟨⟨index.issues c, c.issues_pushName array⟩, .arith _, value.issues c,
      .place (by decide), .place (by decide), .place (by decide), .place (by decide), nofun⟩
  | branch condition body otherwise =>
    simp only [Statement.code, List.forall_mem_append, List.forall_mem_cons]
    exact ⟨⟨⟨⟨⟨plain (condition.issues c), .inl (.arith _), .inr rfl, nofun⟩,
      Statement.issues_list body c _ _⟩, .inr rfl, .inr rfl, nofun⟩,
      Statement.issues_otherwise otherwise c _ _⟩, .inr rfl, nofun⟩
  | loop condition body =>
    simp only [Statement.code, List.forall_mem_append, List.forall_mem_cons]
    exact ⟨.inr rfl, ⟨⟨plain (condition.issues c), .inl (.arith _), .inr rfl, nofun⟩,
      Statement.issues_list body c _ _⟩, .inr rfl, .inr rfl, nofun⟩
  | perform f =>
    rw [Statement.code, List.forall_mem_append, List.forall_mem_singleton]
    exact ⟨plain (f.issues c), .inl (.place (by decide))⟩
  | «return» value =>
    cases value with
    | none =>
      rw [Statement.code]
      exact c.issues_returnCode
    | some e =>
      rw [Statement.code, List.forall_mem_append]
      exact ⟨plain (e.issues c), c.issues_returnCode⟩

theorem Statement.issues_list (body : List Statement) (c : Context) (m n : Nat) :
    ∀ command ∈ Statement.listCode c m n body,
      c.Issues command ∨ command.isControl = true := by
  cases body with
  | nil =>
    rw [Statement.listCode]
    exact nofun
  | cons st rest =>
    rw [Statement.listCode, List.forall_mem_append]
    exact ⟨st.issues c m n, Statement.issues_list rest c _ _⟩

theorem Statement.issues_otherwise (otherwise : Option (List Statement)) (c : Context)
    (m n : Nat) : ∀ command ∈ Statement.otherwiseCode c m n otherwise,
      c.Issues command ∨ command.isControl = true := by
  cases otherwise with
  | none =>
    rw [Statement.otherwiseCode]
    exact nofun
  | some body =>
    rw [Statement.otherwiseCode]
    exact Statement.issues_list body c m n

end

/-! ## Labels -/

theorem ifLabel_inj {k k' : Nat} (h : ifLabel k = ifLabel k') : k = k' := by
  have hlist := congrArg String.toList h
  rw [ifLabel, ifLabel, String.toList_append, String.toList_append, List.append_cancel_left_eq,
    toList_toString, toList_toString] at hlist
  rw [← value_toDigits k, hlist, value_toDigits]

theorem whileLabel_inj {k k' : Nat} (h : whileLabel k = whileLabel k') : k = k' := by
  have hlist := congrArg String.toList h
  rw [whileLabel, whileLabel, String.toList_append, String.toList_append,
    List.append_cancel_left_eq, toList_toString, toList_toString] at hlist
  rw [← value_toDigits k, hlist, value_toDigits]

theorem ifLabel_ne_whileLabel (k k' : Nat) : ifLabel k ≠ whileLabel k' := by
  intro h
  have hhead := congrArg (fun name => name.toList.head?) h
  simp [ifLabel, whileLabel] at hhead

/-- **Labels are numbered in ranges**: those of conditions from `m` and those of loops from `n` on,
each once. -/
structure Numbered (m m' n n' : Nat) (names : List String) : Prop where
  nodup : names.Nodup
  range : ∀ name ∈ names, (∃ k, m ≤ k ∧ k < m' ∧ name = ifLabel k) ∨
    ∃ k, n ≤ k ∧ k < n' ∧ name = whileLabel k

namespace Numbered

variable {m m' m'' n n' n'' : Nat} {names names' : List String}

theorem nil (m n : Nat) : Numbered m m n n [] :=
  ⟨List.nodup_nil, nofun⟩

theorem ofIf (m n : Nat) : Numbered m (m + 1) n n [ifLabel m] := by
  refine ⟨List.nodup_singleton _, fun name h => ?_⟩
  exact .inl ⟨m, Nat.le_refl _, Nat.lt_succ_self _, List.mem_singleton.1 h⟩

theorem ofWhile (m n : Nat) : Numbered m m n (n + 1) [whileLabel n] := by
  refine ⟨List.nodup_singleton _, fun name h => ?_⟩
  exact .inr ⟨n, Nat.le_refl _, Nat.lt_succ_self _, List.mem_singleton.1 h⟩

/-- Labels that are numbered one behind the other all differ. -/
theorem append (h : Numbered m m' n n' names) (h' : Numbered m' m'' n' n'' names')
    (hm : m ≤ m') (hm' : m' ≤ m'') (hn : n ≤ n') (hn' : n' ≤ n'') :
    Numbered m m'' n n'' (names ++ names') := by
  refine ⟨List.nodup_append.2 ⟨h.nodup, h'.nodup, fun x hx y hy => ?_⟩, fun x hx => ?_⟩
  · rintro rfl
    obtain ⟨k, -, hk, rfl⟩ | ⟨k, -, hk, rfl⟩ := h.range x hx
    · obtain ⟨k', hk', -, he⟩ | ⟨k', -, -, he⟩ := h'.range _ hy
      · have := ifLabel_inj he
        omega
      · exact ifLabel_ne_whileLabel k k' he
    · obtain ⟨k', -, -, he⟩ | ⟨k', hk', -, he⟩ := h'.range _ hy
      · exact ifLabel_ne_whileLabel k' k he.symm
      · have := whileLabel_inj he
        omega
  · obtain hx | hx := List.mem_append.1 hx
    · obtain ⟨k, hk, hk', rfl⟩ | ⟨k, hk, hk', rfl⟩ := h.range x hx
      · exact .inl ⟨k, hk, by omega, rfl⟩
      · exact .inr ⟨k, hk, by omega, rfl⟩
    · obtain ⟨k, hk, hk', rfl⟩ | ⟨k, hk, hk', rfl⟩ := h'.range x hx
      · exact .inl ⟨k, by omega, hk', rfl⟩
      · exact .inr ⟨k, by omega, hk', rfl⟩

theorem perm (h : Numbered m m' n n' names) (hp : names.Perm names') :
    Numbered m m' n n' names' :=
  ⟨hp.nodup_iff.1 h.nodup, fun name hn => h.range name (hp.mem_iff.2 hn)⟩

end Numbered

/-- **Code is labelled**: its labels are numbered in ranges, and its jumps go to them. -/
structure Vm.Labelled (m m' n n' : Nat) (code : List Command) : Prop where
  conditions_le : m ≤ m'
  loops_le : n ≤ n'
  numbered : Numbered m m' n n' (code.filterMap Command.label?)
  closed : ∀ name ∈ code.filterMap Command.target?, name ∈ code.filterMap Command.label?

namespace Vm.Labelled

variable {m m' m'' n n' n'' : Nat} {code code' : List Command}

/-- Commands without labels and jumps. -/
theorem of_plain (h : ∀ command ∈ code, command.label? = none ∧ command.target? = none)
    (m n : Nat) : Labelled m m n n code := by
  have hl : code.filterMap Command.label? = [] :=
    List.filterMap_eq_nil_iff.2 fun command hc => (h command hc).1
  have ht : code.filterMap Command.target? = [] :=
    List.filterMap_eq_nil_iff.2 fun command hc => (h command hc).2
  refine ⟨Nat.le_refl _, Nat.le_refl _, ?_, ?_⟩
  · rw [hl]
    exact Numbered.nil m n
  · rw [ht]
    exact nofun

theorem nil (m n : Nat) : Labelled m m n n [] :=
  ⟨Nat.le_refl _, Nat.le_refl _, Numbered.nil m n, nofun⟩

theorem of_issues {c : Context} (h : ∀ command ∈ code, c.Issues command) (m n : Nat) :
    Labelled m m n n code :=
  of_plain (fun command hc => ⟨(h command hc).label?, (h command hc).target?⟩) m n

theorem append (h : Labelled m m' n n' code) (h' : Labelled m' m'' n' n'' code') :
    Labelled m m'' n n'' (code ++ code') := by
  refine ⟨Nat.le_trans h.conditions_le h'.conditions_le, Nat.le_trans h.loops_le h'.loops_le,
    ?_, ?_⟩
  · rw [List.filterMap_append]
    exact h.numbered.append h'.numbered h.conditions_le h'.conditions_le h.loops_le h'.loops_le
  · rw [List.filterMap_append, List.filterMap_append, List.forall_mem_append]
    exact ⟨fun name hn => List.mem_append_left _ (h.closed name hn),
      fun name hn => List.mem_append_right _ (h'.closed name hn)⟩

/-- **The code of a condition**, around that of its branches. -/
theorem branch {condition body otherwise : List Command} {m₁ m₂ n₁ n₂ : Nat}
    (hlabel : condition.filterMap Command.label? = [])
    (htarget : condition.filterMap Command.target? = [])
    (hbody : Labelled (m + 2) m₁ n n₁ body) (hotherwise : Labelled m₁ m₂ n₁ n₂ otherwise) :
    Labelled m m₂ n n₂ (condition ++ [.arith .not, .ifGoto (ifLabel m)] ++ body
      ++ [.goto (ifLabel (m + 1)), .label (ifLabel m)] ++ otherwise
      ++ [.label (ifLabel (m + 1))]) := by
  generalize hcode : condition ++ [Command.arith .not, .ifGoto (ifLabel m)] ++ body
      ++ [.goto (ifLabel (m + 1)), .label (ifLabel m)] ++ otherwise
      ++ [.label (ifLabel (m + 1))] = code
  have hlabels : code.filterMap Command.label? = body.filterMap Command.label? ++
      ifLabel m :: (otherwise.filterMap Command.label? ++ [ifLabel (m + 1)]) := by
    rw [← hcode]
    simp [List.filterMap_cons, Command.label?, hlabel]
  have htargets : code.filterMap Command.target? =
      ifLabel m :: (body.filterMap Command.target? ++
        ifLabel (m + 1) :: otherwise.filterMap Command.target?) := by
    rw [← hcode]
    simp [List.filterMap_cons, Command.target?, htarget]
  have hm := Nat.le_trans hbody.conditions_le hotherwise.conditions_le
  have hn := Nat.le_trans hbody.loops_le hotherwise.loops_le
  refine ⟨Nat.le_trans (Nat.le_add_right m 2) hm, hn, ?_, ?_⟩
  · have hown := (Numbered.ofIf m n).append (Numbered.ofIf (m + 1) n) (by omega) (by omega)
      (by omega) (by omega)
    have hinner := hbody.numbered.append hotherwise.numbered hbody.conditions_le
      hotherwise.conditions_le hbody.loops_le hotherwise.loops_le
    rw [hlabels]
    refine (hown.append hinner (by omega) hm (Nat.le_refl n) hn).perm ?_
    refine List.Perm.trans (List.Perm.cons _ ?_) List.perm_middle.symm
    rw [← List.append_assoc]
    exact (List.perm_append_singleton _ _).symm
  · rw [hlabels, htargets, List.forall_mem_cons, List.forall_mem_append, List.forall_mem_cons]
    refine ⟨by simp, fun name h => ?_, by simp, fun name h => ?_⟩
    · exact List.mem_append_left _ (hbody.closed name h)
    · exact List.mem_append_right _ (List.mem_cons_of_mem _
        (List.mem_append_left _ (hotherwise.closed name h)))

/-- **The code of a loop**, around that of its body. -/
theorem loop {condition body : List Command} {m₁ n₁ : Nat}
    (hlabel : condition.filterMap Command.label? = [])
    (htarget : condition.filterMap Command.target? = [])
    (hbody : Labelled m m₁ (n + 2) n₁ body) :
    Labelled m m₁ n n₁ (.label (whileLabel n) ::
      (condition ++ [.arith .not, .ifGoto (whileLabel (n + 1))] ++ body
        ++ [.goto (whileLabel n), .label (whileLabel (n + 1))])) := by
  generalize hcode : Command.label (whileLabel n) ::
      (condition ++ [Command.arith .not, .ifGoto (whileLabel (n + 1))] ++ body
        ++ [.goto (whileLabel n), .label (whileLabel (n + 1))]) = code
  have hlabels : code.filterMap Command.label? =
      whileLabel n :: (body.filterMap Command.label? ++ [whileLabel (n + 1)]) := by
    rw [← hcode]
    simp [List.filterMap_cons, Command.label?, hlabel]
  have htargets : code.filterMap Command.target? =
      whileLabel (n + 1) :: (body.filterMap Command.target? ++ [whileLabel n]) := by
    rw [← hcode]
    simp [List.filterMap_cons, Command.target?, htarget]
  have hn := hbody.loops_le
  refine ⟨hbody.conditions_le, Nat.le_trans (Nat.le_add_right n 2) hn, ?_, ?_⟩
  · have hown := (Numbered.ofWhile m n).append (Numbered.ofWhile m (n + 1)) (by omega) (by omega)
      (by omega) (by omega)
    rw [hlabels]
    refine (hown.append hbody.numbered (Nat.le_refl m) hbody.conditions_le (by omega) hn).perm ?_
    exact List.Perm.cons _ (List.perm_append_singleton _ _).symm
  · rw [hlabels, htargets, List.forall_mem_cons, List.forall_mem_append, List.forall_mem_singleton]
    refine ⟨by simp, fun name h => ?_, by simp⟩
    exact List.mem_cons_of_mem _ (List.mem_append_left _ (hbody.closed name h))

theorem returnCode (c : Context) (m n : Nat) : Labelled m m n n c.returnCode := by
  refine of_plain ?_ m n
  rw [Context.returnCode]
  split <;> simp [Command.label?, Command.target?]

end Vm.Labelled

section Statements

variable (c : Context)

theorem Expression.filterMap_label? (e : Expression) :
    (e.code c).filterMap Command.label? = [] :=
  List.filterMap_eq_nil_iff.2 fun command h => (e.issues c command h).label?

theorem Expression.filterMap_target? (e : Expression) :
    (e.code c).filterMap Command.target? = [] :=
  List.filterMap_eq_nil_iff.2 fun command h => (e.issues c command h).target?

mutual

/-- **The labels and jumps of a statement.** -/
theorem Statement.labelled (st : Statement) (m n : Nat) :
    Vm.Labelled m (m + st.conditions) n (n + st.loops) (st.code c m n) := by
  cases st with
  | assign name value =>
    rw [Statement.code]
    exact .of_issues (List.forall_mem_append.2 ⟨value.issues c, c.issues_popName name⟩) m n
  | assignElement array index value =>
    rw [Statement.code]
    refine .of_issues (c := c) ?_ m n
    simp only [List.forall_mem_append, List.forall_mem_cons]
    exact ⟨⟨index.issues c, c.issues_pushName array⟩, .arith _, value.issues c,
      .place (by decide), .place (by decide), .place (by decide), .place (by decide), nofun⟩
  | branch condition body otherwise =>
    rw [Statement.code, Statement.conditions, Statement.loops, ← Nat.add_assoc, ← Nat.add_assoc,
      ← Nat.add_assoc]
    exact .branch (condition.filterMap_label? c) (condition.filterMap_target? c)
      (Statement.labelled_list body _ _) (Statement.labelled_otherwise otherwise _ _)
  | loop condition body =>
    rw [Statement.code, Statement.conditions, Statement.loops, ← Nat.add_assoc]
    exact .loop (condition.filterMap_label? c) (condition.filterMap_target? c)
      (Statement.labelled_list body _ _)
  | perform f =>
    rw [Statement.code]
    exact .of_issues (List.forall_mem_append.2
      ⟨f.issues c, List.forall_mem_singleton.2 (.place (by decide))⟩) m n
  | «return» value =>
    cases value with
    | none =>
      rw [Statement.code]
      exact .returnCode c m n
    | some e =>
      rw [Statement.code]
      exact (Vm.Labelled.of_issues (e.issues c) m n).append (.returnCode c m n)

/-- **The labels and jumps of statements** in sequence. -/
theorem Statement.labelled_list (body : List Statement) (m n : Nat) :
    Vm.Labelled m (m + Statement.listConditions body) n (n + Statement.listLoops body)
      (Statement.listCode c m n body) := by
  cases body with
  | nil =>
    rw [Statement.listCode]
    exact .nil m n
  | cons st rest =>
    rw [Statement.listCode, Statement.listConditions, Statement.listLoops, ← Nat.add_assoc,
      ← Nat.add_assoc]
    exact (st.labelled m n).append (Statement.labelled_list rest _ _)

theorem Statement.labelled_otherwise (otherwise : Option (List Statement)) (m n : Nat) :
    Vm.Labelled m (m + Statement.otherwiseConditions otherwise) n
      (n + Statement.otherwiseLoops otherwise) (Statement.otherwiseCode c m n otherwise) := by
  cases otherwise with
  | none =>
    rw [Statement.otherwiseCode]
    exact .nil m n
  | some body =>
    rw [Statement.otherwiseCode, Statement.otherwiseConditions, Statement.otherwiseLoops]
    exact Statement.labelled_list body m n

end

end Statements

/-! ## Subroutines -/

namespace RoutineDecl

/-- **The commands of a subroutine behind its header.** -/
def inner (r : RoutineDecl) (c : ClassDecl) (m n : Nat) : List Command :=
  (r.code c m n).tail

variable (r : RoutineDecl) (c : ClassDecl) (m n : Nat)

theorem code_eq_cons :
    r.code c m n = .function (qualifiedName c.name r.name) r.localCount :: r.inner c m n :=
  rfl

theorem inner_eq_append :
    r.inner c m n =
      (r.prologue c).tail ++ (Statement.listCode (r.context c) m n r.body ++ r.epilogue) := by
  rw [inner, code, prologue, List.append_assoc]
  rfl

theorem issues_prologue : ∀ command ∈ (r.prologue c).tail, (r.context c).Issues command ∨
    r.kind = .method ∧ command = .push .argument 0 := by
  rw [prologue, List.tail_cons]
  cases hk : r.kind with
  | function => exact nofun
  | method =>
    exact List.forall_mem_cons.2 ⟨.inr ⟨rfl, rfl⟩,
      List.forall_mem_singleton.2 (.inl (.place (by decide)))⟩
  | constructor =>
    simp only [List.forall_mem_cons]
    exact ⟨.inl (.constant _), .inl (.call _ _), .inl (.place (by decide)), nofun⟩

theorem issues_epilogue : ∀ command ∈ r.epilogue,
    (r.context c).Issues command ∨ command.isControl = true := by
  rw [epilogue]
  split
  · simp only [List.forall_mem_cons]
    exact ⟨.inl (.constant 0), .inr rfl, nofun⟩
  · exact nofun

/-- **The commands behind the header**: expressions, control flow, and the object of a method. -/
theorem issues_inner : ∀ command ∈ r.inner c m n, (r.context c).Issues command ∨
    command.isControl = true ∨ r.kind = .method ∧ command = .push .argument 0 := by
  rw [inner_eq_append, List.forall_mem_append, List.forall_mem_append]
  refine ⟨fun command h => ?_, fun command h => ?_, fun command h => ?_⟩
  · exact (r.issues_prologue c command h).imp_right .inr
  · exact (Statement.issues_list r.body _ m n command h).imp_right .inl
  · exact (r.issues_epilogue c command h).imp_right .inl

theorem function?_inner : ∀ command ∈ r.inner c m n, command.function? = none := by
  intro command h
  obtain h | h | ⟨-, rfl⟩ := r.issues_inner c m n command h
  · exact h.function?
  · cases command with
    | function _ _ => cases h
    | _ => rfl
  · rfl

/-- **The labels and jumps of a subroutine.** -/
theorem labelled_inner :
    Vm.Labelled m (m + Statement.listConditions r.body) n (n + Statement.listLoops r.body)
      (r.inner c m n) := by
  have hprologue : Vm.Labelled m m n n (r.prologue c).tail := by
    refine .of_plain (fun command h => ?_) m n
    obtain h | ⟨-, rfl⟩ := r.issues_prologue c command h
    · exact ⟨h.label?, h.target?⟩
    · exact ⟨rfl, rfl⟩
  have hepilogue (m n : Nat) : Vm.Labelled m m n n r.epilogue := by
    refine .of_plain ?_ m n
    rw [epilogue]
    split <;> simp [Command.label?, Command.target?]
  rw [inner_eq_append]
  exact hprologue.append ((Statement.labelled_list (r.context c) r.body m n).append
    (hepilogue _ _))

/-- **The labels of subroutines** go on from one to the next. -/
theorem exists_labelled_list (rs : List RoutineDecl) :
    ∃ m' n', Vm.Labelled m m' n n' (listCode c m n rs) := by
  induction rs generalizing m n with
  | nil => exact ⟨m, n, .nil m n⟩
  | cons r rest ih =>
    obtain ⟨m', n', h⟩ := ih (m + Statement.listConditions r.body) (n + Statement.listLoops r.body)
    have hheader : Vm.Labelled m m n n [.function (qualifiedName c.name r.name) r.localCount] :=
      .of_plain (List.forall_mem_singleton.2 ⟨rfl, rfl⟩) m n
    exact ⟨m', n', (hheader.append (r.labelled_inner c m n)).append h⟩

end RoutineDecl

/-! ## Blocks -/

/-- What stands at a position of two lists joined stands in one of them. -/
theorem getElem?_append_eq_some {α : Type} {xs ys : List α} {i : Nat} {a : α}
    (h : (xs ++ ys)[i]? = some a) : xs[i]? = some a ∨ ∃ j, i = xs.length + j ∧ ys[j]? = some a := by
  obtain hi | hi := Nat.lt_or_ge i xs.length
  · exact .inl (List.getElem?_append_left hi ▸ h)
  · exact .inr ⟨i - xs.length, by omega, List.getElem?_append_right hi ▸ h⟩

/-- **The blocks of a program**: each `function` line with the commands up to the next one. -/
def Vm.blocks : List Command → List (List Command)
  | [] => []
  | c :: rest =>
    if c.function?.isSome then
      (c :: rest.takeWhile fun d => d.function?.isNone) :: blocks rest
    else blocks rest

theorem Vm.blocks_append_of_inner {inner rest : List Command}
    (h : ∀ c ∈ inner, c.function? = none) : blocks (inner ++ rest) = blocks rest := by
  induction inner with
  | nil => rfl
  | cons c inner ih =>
    rw [List.forall_mem_cons] at h
    rw [List.cons_append, blocks, h.1, ih h.2]
    rfl

namespace RoutineDecl

variable {c : ClassDecl}

theorem takeWhile_listCode (m n : Nat) (rs : List RoutineDecl) :
    (listCode c m n rs).takeWhile (fun d => d.function?.isNone) = [] := by
  cases rs <;> rfl

/-- **The blocks of subroutines are their codes**, so what holds of the code of each subroutine
holds of its block. -/
theorem forall₂_blocks {P : RoutineDecl → List Command → Prop} {rs : List RoutineDecl}
    (h : ∀ r ∈ rs, ∀ m n, P r (r.code c m n)) (m n : Nat) :
    List.Forall₂ P rs (Vm.blocks (listCode c m n rs)) := by
  induction rs generalizing m n with
  | nil => exact .nil
  | cons r rest ih =>
    rw [List.forall_mem_cons] at h
    have hinner : ∀ d ∈ r.inner c m n, d.function?.isNone = true := fun d hd => by
      rw [r.function?_inner c m n d hd]
      rfl
    have hblocks : Vm.blocks (listCode c m n (r :: rest)) = r.code c m n ::
        Vm.blocks (listCode c (m + Statement.listConditions r.body)
          (n + Statement.listLoops r.body) rest) := by
      rw [listCode, code_eq_cons, List.cons_append, Vm.blocks,
        List.takeWhile_append_of_pos hinner, takeWhile_listCode, List.append_nil,
        Vm.blocks_append_of_inner (r.function?_inner c m n)]
      rfl
    rw [hblocks]
    exact .cons (h.1 m n) (ih h.2 _ _)

end RoutineDecl

end JackStack
