import JackStack.Proofs.Emission

/-!
# Proofs/Wording — the names and numbers of commands

The commands of a tree take their names and numbers from its terminals. A name is put together from
words, so a command is always one line; and a constant that is larger than any integer of the source
can only be the length of a string constant.

* `Statement.worded_list` — the commands of statements are worded with their terminals.
-/

namespace JackStack

open Vm (Command)

/-! ## Commands worded with terminals -/

/-- **Commands are worded with terminals** if these are well-formed: constants above the largest
integer are the lengths of the string constants among the terminals, and all names are unbroken. -/
structure Vm.Worded (ts : List Terminal) (code : List Command) : Prop where
  large_iff : (∀ x ∈ ts, x.WellFormed) → ∀ n, maxConstant < n →
    (.push .constant n ∈ code ↔ ∃ body, .text body ∈ ts ∧ body.length = n)
  unbroken : (∀ x ∈ ts, x.WellFormed) → ∀ command ∈ code, ∀ name ∈ command.name?, Unbroken name

namespace Vm.Worded

variable {ts ts' : List Terminal} {code code' : List Command}

theorem append (h : Worded ts code) (h' : Worded ts' code') :
    Worded (ts ++ ts') (code ++ code') where
  large_iff hw n hn := by
    rw [List.forall_mem_append] at hw
    simp only [List.mem_append, h.large_iff hw.1 n hn, h'.large_iff hw.2 n hn, or_and_right,
      exists_or]
  unbroken hw := by
    rw [List.forall_mem_append] at hw
    exact List.forall_mem_append.2 ⟨h.unbroken hw.1, h'.unbroken hw.2⟩

/-- More terminals may stand around those that the commands are worded with, as long as they are no
string constants. -/
theorem widen (h : Worded ts code) (hsub : ∀ x ∈ ts, x ∈ ts')
    (htext : ∀ body, .text body ∈ ts' → .text body ∈ ts) : Worded ts' code where
  large_iff hw n hn := by
    rw [h.large_iff (fun x hx => hw x (hsub x hx)) n hn]
    exact exists_congr fun body => and_congr_left fun _ => ⟨hsub _, htext body⟩
  unbroken hw := h.unbroken fun x hx => hw x (hsub x hx)

/-- Commands that hold nothing of the terminals. -/
theorem of_fixed (hn : ∀ n, .push .constant n ∈ code → n ≤ maxConstant)
    (hname : ∀ command ∈ code, ∀ name ∈ command.name?, Unbroken name) : Worded [] code where
  large_iff _ n hl := by
    simp only [List.not_mem_nil, false_and, exists_false, iff_false]
    exact fun hc => Nat.not_lt.2 (hn n hc) hl
  unbroken _ := hname

theorem nil : Worded [] [] :=
  of_fixed nofun nofun

end Vm.Worded

/-! ## Expressions -/

/-- **The names of a context are words**: that of the class, and those of the types of variables. -/
structure Context.Named (c : Context) : Prop where
  className : IsWord c.className
  type : ∀ name v, c.resolve name = some v → IsWord v.type

theorem VariableKind.segment_ne_constant (kind : VariableKind) : kind.segment ≠ .constant := by
  cases kind <;> decide

theorem Context.worded_pushName (c : Context) (name : String) : Vm.Worded [] (c.pushName name) := by
  refine .of_fixed (fun n h => ?_) (fun command h => ?_)
  · obtain ⟨v, -, hv⟩ := List.mem_map.1 h
    exact absurd (Command.push.inj hv).1 v.kind.segment_ne_constant
  · obtain ⟨v, -, rfl⟩ := List.mem_map.1 h
    exact nofun

theorem Context.worded_popName (c : Context) (name : String) : Vm.Worded [] (c.popName name) := by
  refine .of_fixed (fun n h => ?_) (fun command h => ?_)
  · obtain ⟨v, -, hv⟩ := List.mem_map.1 h
    cases hv
  · obtain ⟨v, -, rfl⟩ := List.mem_map.1 h
    exact nofun

/-- A call of a subroutine that a terminal names. -/
theorem Vm.worded_call {className : String} (h : IsWord className) (routine : String) (n : Nat) :
    Vm.Worded [.identifier routine] [.call (qualifiedName className routine) n] where
  large_iff _ _ _ := by simp
  unbroken hw command hc name hn := by
    obtain rfl := List.mem_singleton.1 hc
    obtain rfl := Option.some.inj hn
    exact unbroken_qualifiedName h (hw _ List.mem_cons_self).1

theorem Context.Named.worded_callOn {c : Context} (hc : c.Named) (receiver routine : String)
    (n : Nat) : Vm.Worded [.identifier receiver, .identifier routine]
      [c.callOn receiver routine n] := by
  rw [callOn]
  cases hv : c.resolve receiver with
  | some v => exact (Vm.worded_call (hc.type receiver v hv) routine _).widen (by simp) (by simp)
  | none =>
    refine ⟨fun _ _ _ => by simp, fun hw => ?_⟩
    exact (Vm.worded_call (hw _ List.mem_cons_self).1 routine n).unbroken
      fun x hx => hw x (List.mem_cons_of_mem _ hx)

theorem worded_textCode (body : String) : Vm.Worded [.text body] (textCode body) where
  large_iff hw n hn := by
    have hsmall : ∀ x ∈ body.toList, x.toNat ≤ maxConstant := hw _ List.mem_cons_self
    have hne : ∀ x ∈ body.toList, n ≠ x.toNat := fun x hx => by
      have := hsmall x hx
      omega
    simp only [textCode, List.mem_append, List.mem_flatMap, List.mem_cons, List.not_mem_nil,
      or_false, Command.push.injEq, true_and, reduceCtorEq, Terminal.text.injEq, exists_eq_left]
    refine ⟨?_, fun h => .inl h.symm⟩
    rintro (h | ⟨x, hx, h⟩)
    · exact h.symm
    · exact absurd h (hne x hx)
  unbroken _ command hc name hn := by
    have hcalls : Unbroken "String.new" ∧ Unbroken "String.appendChar" := by decide
    simp only [textCode, List.mem_append, List.mem_flatMap, List.mem_cons, List.not_mem_nil,
      or_false] at hc
    obtain (rfl | rfl) | ⟨x, -, rfl | rfl⟩ := hc <;> cases hn
    · exact hcalls.1
    · exact hcalls.2

theorem Constant.worded (k : Constant) : Vm.Worded [] k.code := by
  refine .of_fixed (fun n h => ?_) ?_
  · cases k <;> simp [Constant.code] at h <;> simp [h, maxConstant]
  · cases k <;> simp [Constant.code, Command.name?]

theorem BinaryOp.worded (op : BinaryOp) : Vm.Worded [] [op.command] := by
  refine .of_fixed (fun n h => ?_) ?_
  · cases op <;> simp [BinaryOp.command] at h
  · have : Unbroken "Math.multiply" ∧ Unbroken "Math.divide" := by decide
    cases op <;> simp [BinaryOp.command, Command.name?, this]

section Expressions

variable {c : Context}

mutual

/-- **The commands of a term** are worded with its terminals. -/
theorem Term.worded (t : Term) (hc : c.Named) : Vm.Worded t.terminals (t.code c) := by
  cases t with
  | integer digits =>
    refine ⟨fun hw n hn => ?_, fun _ => by simp [Term.code, Command.name?]⟩
    have hsmall : Text.Decimal.value digits.toList ≤ maxConstant := hw _ List.mem_cons_self
    have hne : n ≠ Text.Decimal.value digits.toList := by omega
    simp [Term.code, Term.terminals, hne]
  | text body =>
    rw [Term.code, Term.terminals]
    exact worded_textCode body
  | constant k =>
    rw [Term.code, Term.terminals]
    exact k.worded.widen (by simp) (by simp)
  | «variable» name =>
    rw [Term.code, Term.terminals]
    exact (c.worded_pushName name).widen (by simp) (by simp)
  | element array index =>
    have htail : Vm.Worded [] [.arith .add, .pop .pointer 1, .push .that 0] :=
      .of_fixed (by simp) (by simp [Command.name?])
    rw [Term.code, Term.terminals]
    refine (((c.worded_pushName array).append (index.worded hc)).append htail).widen ?_ ?_ <;>
      simp +contextual [Terminal.brackets]
  | call f =>
    rw [Term.code, Term.terminals]
    exact f.worded hc
  | group inner =>
    rw [Term.code, Term.terminals]
    refine (inner.worded hc).widen ?_ ?_ <;> simp +contextual [Terminal.parentheses]
  | unary op operand =>
    have hop : Vm.Worded [] [op.command] := by
      cases op <;>
        exact .of_fixed (by simp [UnaryOp.command]) (by simp [UnaryOp.command, Command.name?])
    rw [Term.code, Term.terminals]
    refine ((operand.worded hc).append hop).widen ?_ ?_ <;> simp +contextual

/-- **The commands of an expression** are worded with its terminals. -/
theorem Expression.worded (e : Expression) (hc : c.Named) : Vm.Worded e.terminals (e.code c) := by
  obtain ⟨first, more⟩ := e
  rw [Expression.code, Expression.terminals]
  exact (first.worded hc).append (Expression.worded_more more hc)

theorem Expression.worded_more (more : List (BinaryOp × Term)) (hc : c.Named) :
    Vm.Worded (Expression.moreTerms more) (Expression.moreCode c more) := by
  cases more with
  | nil =>
    rw [Expression.moreCode, Expression.moreTerms]
    exact .nil
  | cons head rest =>
    obtain ⟨op, t⟩ := head
    rw [Expression.moreCode, Expression.moreTerms]
    have hmore := op.worded.append (Expression.worded_more rest hc)
    refine ((t.worded hc).append hmore).widen ?_ ?_ <;> simp +contextual

/-- **The commands of a call** are worded with its terminals. -/
theorem Call.worded (f : Call) (hc : c.Named) : Vm.Worded f.terminals (f.code c) := by
  cases f with
  | own routine arguments =>
    have hthis : Vm.Worded [] [.push .pointer 0] := .of_fixed (by simp) (by simp [Command.name?])
    have hcall := Vm.worded_call hc.className routine (arguments.length + 1)
    rw [Call.code, Call.terminals]
    refine (hthis.append ((Call.worded_list arguments hc).append hcall)).widen ?_ ?_ <;>
      simp +contextual [Terminal.parentheses, or_imp]
  | on receiver routine arguments =>
    have hcall := hc.worded_callOn receiver routine arguments.length
    have hpushed := (c.worded_pushName receiver).append (Call.worded_list arguments hc)
    rw [Call.code, Call.terminals]
    refine (hpushed.append hcall).widen ?_ ?_ <;>
      simp +contextual [Terminal.parentheses, or_imp]

theorem Call.worded_list (arguments : List Expression) (hc : c.Named) :
    Vm.Worded (Call.list arguments) (Call.listCode c arguments) := by
  cases arguments with
  | nil =>
    rw [Call.listCode, Call.list]
    exact .nil
  | cons e rest =>
    rw [Call.listCode, Call.list]
    exact (e.worded hc).append (Call.worded_more rest hc)

theorem Call.worded_more (arguments : List Expression) (hc : c.Named) :
    Vm.Worded (Call.moreArguments arguments) (Call.listCode c arguments) := by
  cases arguments with
  | nil =>
    rw [Call.listCode, Call.moreArguments]
    exact .nil
  | cons e rest =>
    rw [Call.listCode, Call.moreArguments]
    refine ((e.worded hc).append (Call.worded_more rest hc)).widen ?_ ?_ <;> simp +contextual

end

end Expressions

/-! ## Statements -/

theorem Context.worded_returnCode (c : Context) : Vm.Worded [] c.returnCode := by
  rw [returnCode]
  split <;> exact .of_fixed (by simp) (by simp [Command.name?])

section Statements

variable {c : Context}

mutual

/-- **The commands of a statement** are worded with its terminals. -/
theorem Statement.worded (st : Statement) (hc : c.Named) (m n : Nat) :
    Vm.Worded st.terminals (st.code c m n) := by
  cases st with
  | assign name value =>
    rw [Statement.code, Statement.terminals]
    refine ((value.worded hc).append (c.worded_popName name)).widen ?_ ?_ <;> simp +contextual
  | assignElement array index value =>
    have hadd : Vm.Worded [] [.arith .add] := .of_fixed (by simp) (by simp [Command.name?])
    have hstore : Vm.Worded [] [.pop .temp 0, .pop .pointer 1, .push .temp 0, .pop .that 0] :=
      .of_fixed (by simp) (by simp [Command.name?])
    rw [Statement.code, Statement.terminals]
    refine (((index.worded hc).append (c.worded_pushName array)).append
      (hadd.append ((value.worded hc).append hstore))).widen ?_ ?_ <;>
      simp +contextual [Terminal.brackets, or_imp]
  | branch condition body otherwise =>
    have htest : Vm.Worded [] [.arith .not, .ifGoto (ifLabel m)] :=
      .of_fixed (by simp) (by simp [Command.name?, unbroken_ifLabel])
    have hpass : Vm.Worded [] [.goto (ifLabel (m + 1)), .label (ifLabel m)] :=
      .of_fixed (by simp) (by simp [Command.name?, unbroken_ifLabel])
    have hend : Vm.Worded [] [.label (ifLabel (m + 1))] :=
      .of_fixed (by simp) (by simp [Command.name?, unbroken_ifLabel])
    rw [Statement.code, Statement.terminals]
    refine ((((((condition.worded hc).append htest).append
      (Statement.worded_list body hc _ _)).append hpass).append
      (Statement.worded_otherwise otherwise hc _ _)).append hend).widen ?_ ?_ <;>
      simp +contextual [Terminal.parentheses, Terminal.braces, or_imp]
  | loop condition body =>
    have hstart : Vm.Worded [] [.label (whileLabel n)] :=
      .of_fixed (by simp) (by simp [Command.name?, unbroken_whileLabel])
    have htest : Vm.Worded [] [.arith .not, .ifGoto (whileLabel (n + 1))] :=
      .of_fixed (by simp) (by simp [Command.name?, unbroken_whileLabel])
    have hend : Vm.Worded [] [.goto (whileLabel n), .label (whileLabel (n + 1))] :=
      .of_fixed (by simp) (by simp [Command.name?, unbroken_whileLabel])
    rw [Statement.code, Statement.terminals]
    refine (hstart.append ((((condition.worded hc).append htest).append
      (Statement.worded_list body hc _ _)).append hend)).widen ?_ ?_ <;>
      simp +contextual [Terminal.parentheses, Terminal.braces, or_imp]
  | perform f =>
    have hdrop : Vm.Worded [] [.pop .temp 0] := .of_fixed (by simp) (by simp [Command.name?])
    rw [Statement.code, Statement.terminals]
    refine ((f.worded hc).append hdrop).widen ?_ ?_ <;> simp +contextual
  | «return» value =>
    cases value with
    | none =>
      rw [Statement.code, Statement.terminals]
      exact c.worded_returnCode.widen (by simp) (by simp)
    | some e =>
      rw [Statement.code, Statement.terminals]
      refine ((e.worded hc).append c.worded_returnCode).widen ?_ ?_ <;> simp +contextual

/-- **The commands of statements** are worded with their terminals. -/
theorem Statement.worded_list (body : List Statement) (hc : c.Named) (m n : Nat) :
    Vm.Worded (Statement.list body) (Statement.listCode c m n body) := by
  cases body with
  | nil =>
    rw [Statement.listCode, Statement.list]
    exact .nil
  | cons st rest =>
    rw [Statement.listCode, Statement.list]
    exact (st.worded hc m n).append (Statement.worded_list rest hc _ _)

theorem Statement.worded_otherwise (otherwise : Option (List Statement)) (hc : c.Named)
    (m n : Nat) :
    Vm.Worded (Statement.otherwise otherwise) (Statement.otherwiseCode c m n otherwise) := by
  cases otherwise with
  | none =>
    rw [Statement.otherwiseCode, Statement.otherwise]
    exact .nil
  | some body =>
    rw [Statement.otherwiseCode, Statement.otherwise]
    refine (Statement.worded_list body hc m n).widen ?_ ?_ <;> simp +contextual [Terminal.braces]

end

end Statements

/-! ## Subroutines -/

section Routines

variable {c : ClassDecl} {r : RoutineDecl} (hw : ∀ x ∈ c.terminals, x.WellFormed)
  (hr : r ∈ c.routines)
include hw hr

theorem ClassDecl.named_context : (r.context c).Named where
  className := c.isWord_name hw
  type name v hv := by
    obtain ⟨⟨d, hd, ht⟩, -⟩ := RoutineDecl.resolve_eq_some hv
    rw [ht]
    exact c.isWord_type hw hr hd

theorem ClassDecl.wellFormed_body : ∀ x ∈ Statement.list r.body, x.WellFormed := by
  intro x hx
  refine c.wellFormed_routine hw hr x ?_
  simp [RoutineDecl.terminals, RoutineDecl.bodyTerminals, Terminal.braces, hx]

/-- **The names in the code of a subroutine** are unbroken, so each command is a line of words. -/
theorem ClassDecl.unbroken_code (m n : Nat) :
    ∀ command ∈ r.code c m n, ∀ name ∈ command.name?, Unbroken name := by
  have hbody := (Statement.worded_list r.body (c.named_context hw hr) m n).unbroken
    (c.wellFormed_body hw hr)
  have hheader := unbroken_qualifiedName (c.isWord_name hw) (c.isWord_routine hw hr)
  have halloc : Unbroken "Memory.alloc" := by decide
  rw [RoutineDecl.code, List.forall_mem_append, List.forall_mem_append]
  refine ⟨⟨?_, hbody⟩, ?_⟩
  · cases hk : r.kind <;> simp [RoutineDecl.prologue, hk, Command.name?, hheader, halloc]
  · rw [RoutineDecl.epilogue]
    split <;> simp [Command.name?]

end Routines

end JackStack
