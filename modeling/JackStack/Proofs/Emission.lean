import Mathlib.Data.List.Nodup
import JackStack.Proofs.Labelling
import JackStack.Proofs.Lexemes
import JackStack.Proofs.Scoping
import JackStack.Proofs.Semantics

/-!
# Proofs/Emission — which commands code consists of

What the code of a tree does is one thing, what it is written with another: for it to be loaded, its
names have to be words and its numbers small.

* `Context.Emits` — the commands of expressions and assignments.
* `Statement.fits` — those of statements can be read back.
-/

namespace JackStack

open Vm (Command)
open Text.Decimal (wordBound)

/-! ## Names -/

theorem IsWord.unbroken {name : String} (h : IsWord name) : Unbroken name := by
  refine ⟨h.1, fun c hc => ?_⟩
  have := h.2 c hc
  rw [Cut.inWord, Bool.and_eq_true, Bool.not_eq_true'] at this
  exact this.1

theorem IsWord.notMem_dot {name : String} (h : IsWord name) : '.' ∉ name.toList :=
  fun hc => absurd (h.2 '.' hc) (by decide)

theorem toList_qualifiedName (className routine : String) :
    (qualifiedName className routine).toList = className.toList ++ '.' :: routine.toList := by
  simp [qualifiedName]

theorem unbroken_qualifiedName {className routine : String} (hc : IsWord className)
    (hr : IsWord routine) : Unbroken (qualifiedName className routine) := by
  rw [Unbroken, toList_qualifiedName]
  refine ⟨by simp, fun c hm => ?_⟩
  rw [List.mem_append, List.mem_cons] at hm
  obtain hm | rfl | hm := hm
  · exact hc.unbroken.2 c hm
  · decide
  · exact hr.unbroken.2 c hm

theorem qualifiedName_ne_static (className routine : String) :
    qualifiedName className routine ≠ Vm.Segment.static.text := by
  intro h
  have hdot : '.' ∈ (qualifiedName className routine).toList := by
    rw [toList_qualifiedName]
    simp
  rw [h] at hdot
  exact absurd hdot (by decide)

/-- **A qualified name tells class and subroutine apart**: the dot is no part of a class name. -/
theorem qualifiedName_inj {className routine className' routine' : String}
    (hc : IsWord className) (hc' : IsWord className')
    (h : qualifiedName className routine = qualifiedName className' routine') :
    className = className' ∧ routine = routine' := by
  have hlist := congrArg String.toList h
  rw [toList_qualifiedName, toList_qualifiedName] at hlist
  have split : ∀ {xs ys us vs : List Char}, '.' ∉ xs → '.' ∉ ys →
      xs ++ '.' :: us = ys ++ '.' :: vs → xs = ys ∧ us = vs := by
    intro xs
    induction xs with
    | nil =>
      intro ys us vs _ hy he
      cases ys with
      | nil => exact ⟨rfl, (List.cons.inj he).2⟩
      | cons y ys => exact absurd (List.cons.inj he).1 (fun hd => hy (hd ▸ List.mem_cons_self))
    | cons x xs ih =>
      intro ys us vs hx hy he
      cases ys with
      | nil => exact absurd (List.cons.inj he).1 (fun hd => hx (hd ▸ List.mem_cons_self))
      | cons y ys =>
        obtain ⟨rfl, htail⟩ := List.cons.inj he
        obtain ⟨rfl, hu⟩ := ih (fun hm => hx (List.mem_cons_of_mem _ hm))
          (fun hm => hy (List.mem_cons_of_mem _ hm)) htail
        exact ⟨rfl, hu⟩
  obtain ⟨h₁, h₂⟩ := split hc.notMem_dot hc'.notMem_dot hlist
  exact ⟨String.toList_inj.1 h₁, String.toList_inj.1 h₂⟩

/-! ## Commands of expressions and assignments -/

/-- **Limits to what a tree may hold**: which names of variables, which string constants, and calls
with how many arguments. -/
structure Limits where
  name : String → Bool
  text : String → Bool
  call : Nat → Bool

mutual

/-- **A term keeps within limits.** -/
def Term.within (p : Limits) : Term → Bool
  | .integer _ | .constant _ => true
  | .text body => p.text body
  | .variable name => p.name name
  | .element array index => p.name array && index.within p
  | .call f => f.within p
  | .group inner => inner.within p
  | .unary _ operand => operand.within p

/-- **An expression keeps within limits.** -/
def Expression.within (p : Limits) : Expression → Bool
  | .chain first more => first.within p && Expression.moreWithin p more

/-- Terms behind operators keep within limits. -/
def Expression.moreWithin (p : Limits) : List (BinaryOp × Term) → Bool
  | [] => true
  | (_, t) :: rest => t.within p && Expression.moreWithin p rest

/-- **A call keeps within limits.** -/
def Call.within (p : Limits) : Call → Bool
  | .own _ arguments => p.call arguments.length && Call.listWithin p arguments
  | .on receiver _ arguments =>
    p.name receiver && (p.call arguments.length && Call.listWithin p arguments)

/-- Arguments keep within limits. -/
def Call.listWithin (p : Limits) : List Expression → Bool
  | [] => true
  | e :: rest => e.within p && Call.listWithin p rest

end

mutual

/-- **A statement keeps within limits.** -/
def Statement.within (p : Limits) : Statement → Bool
  | .assign name value => p.name name && value.within p
  | .assignElement array index value => p.name array && (index.within p && value.within p)
  | .branch condition body otherwise =>
    condition.within p && (Statement.listWithin p body && Statement.otherwiseWithin p otherwise)
  | .loop condition body => condition.within p && Statement.listWithin p body
  | .perform f => f.within p
  | .return none => true
  | .return (some value) => value.within p

/-- **Statements keep within limits.** -/
def Statement.listWithin (p : Limits) : List Statement → Bool
  | [] => true
  | s :: rest => s.within p && Statement.listWithin p rest

/-- A second branch keeps within limits. -/
def Statement.otherwiseWithin (p : Limits) : Option (List Statement) → Bool
  | none => true
  | some body => Statement.listWithin p body

end

/-- **A context admits limits**: types are words, and what keeps within the limits has only numbers
that a command can hold. -/
structure Context.Admits (c : Context) (p : Limits) : Prop where
  className : IsWord c.className
  type : ∀ name v, c.resolve name = some v → IsWord v.type
  name : ∀ name v, p.name name = true → c.resolve name = some v → v.index + 1 < wordBound
  text : ∀ body, p.text body = true → body.length + 1 < wordBound
  call : ∀ n, p.call n = true → n + 1 < wordBound

/-- Commands that name nothing of the program. -/
def fixedCommands : List Command :=
  [.push .pointer 0, .pop .pointer 0, .pop .pointer 1, .push .that 0, .pop .that 0, .push .temp 0,
    .pop .temp 0, .push .argument 0]

/-- **The commands of expressions and assignments**: constants, variables, fixed places, operations
and calls. -/
inductive Context.Emits (c : Context) : Command → Prop where
  | constant {n : Nat} (h : n + 1 < wordBound) : c.Emits (.push .constant n)
  | load {name : String} {v : Variable} (h : c.resolve name = some v)
    (hi : v.index + 1 < wordBound) : c.Emits v.push
  | store {name : String} {v : Variable} (h : c.resolve name = some v)
    (hi : v.index + 1 < wordBound) : c.Emits v.pop
  | fixed {command : Command} (h : command ∈ fixedCommands) : c.Emits command
  | arith (op : Vm.ArithOp) : c.Emits (.arith op)
  | call {className routine : String} {n : Nat} (hc : IsWord className) (hr : IsWord routine)
    (hn : n < wordBound) : c.Emits (.call (qualifiedName className routine) n)

namespace Context.Emits

variable {c : Context} {command : Command}

theorem function? (h : c.Emits command) : command.function? = none := by
  cases h with
  | fixed h => exact (by decide : ∀ command ∈ fixedCommands, command.function? = none) _ h
  | _ => rfl

theorem legible (h : c.Emits command) : command.Legible := by
  cases h with
  | constant h => exact h
  | load _ hi => exact hi
  | store _ hi => exact hi
  | fixed h =>
    have : ∀ command ∈ fixedCommands, command.Legible := by
      simp [fixedCommands, Command.Legible, wordBound]
    exact this command h
  | arith op => trivial
  | call hc hr hn => exact ⟨unbroken_qualifiedName hc hr, qualifiedName_ne_static _ _, hn⟩

/-- A static that a command uses is one that a name means. -/
theorem static? (h : c.Emits command) {index : Nat} (hi : command.static? = some index) :
    ∃ name v, c.resolve name = some v ∧ v.kind = .static ∧ v.index = index := by
  cases h with
  | @load name v h _ | @store name v h _ =>
    obtain ⟨type, kind, i⟩ := v
    cases kind <;> cases hi
    exact ⟨name, _, h, rfl, rfl⟩
  | fixed h =>
    rw [(by decide : ∀ command ∈ fixedCommands, command.static? = none) _ h] at hi
    cases hi
  | _ => cases hi

end Context.Emits

namespace Context

variable {c : Context} {p : Limits} {name : String} {command : Command}

theorem Admits.emits_pushName (hc : c.Admits p) (hn : p.name name = true) :
    ∀ command ∈ c.pushName name, c.Emits command := by
  intro command h
  obtain ⟨v, hv, rfl⟩ := List.mem_map.1 h
  have hv := Option.mem_toList.1 hv
  exact .load hv (hc.name name v hn hv)

theorem Admits.emits_popName (hc : c.Admits p) (hn : p.name name = true) :
    ∀ command ∈ c.popName name, c.Emits command := by
  intro command h
  obtain ⟨v, hv, rfl⟩ := List.mem_map.1 h
  have hv := Option.mem_toList.1 hv
  exact .store hv (hc.name name v hn hv)

theorem Admits.emits_callOn (hc : c.Admits p) {receiver routine : String} {n : Nat}
    (hreceiver : IsWord receiver) (hroutine : IsWord routine) (hn : p.call n = true) :
    c.Emits (c.callOn receiver routine n) := by
  rw [callOn]
  cases hv : c.resolve receiver with
  | some v => exact .call (hc.type receiver v hv) hroutine (hc.call n hn)
  | none => exact .call hreceiver hroutine (Nat.lt_of_succ_lt (hc.call n hn))

end Context

theorem Constant.emits (k : Constant) (c : Context) : ∀ command ∈ k.code, c.Emits command := by
  have hsmall : ∀ n, n ≤ 1 → n + 1 < wordBound := fun n hn =>
    Nat.lt_of_le_of_lt (Nat.succ_le_succ hn) (by decide)
  cases k with
  | «true» =>
    simp only [Constant.code, List.forall_mem_cons]
    exact ⟨.constant (hsmall 1 (Nat.le_refl _)), .arith _, List.forall_mem_nil _⟩
  | «false» | null =>
    simp only [Constant.code, List.forall_mem_singleton]
    exact .constant (hsmall 0 (Nat.zero_le _))
  | this =>
    simp only [Constant.code, List.forall_mem_singleton]
    exact .fixed (by decide)

theorem BinaryOp.emits (op : BinaryOp) (c : Context) : c.Emits op.command := by
  have hcall : ∀ routine, IsWord routine → c.Emits (.call (qualifiedName "Math" routine) 2) :=
    fun _ hr => .call (by decide) hr (by decide)
  cases op with
  | multiply => exact hcall "multiply" (by decide)
  | divide => exact hcall "divide" (by decide)
  | _ => exact .arith _

theorem emits_textCode {c : Context} {body : String} (hl : body.length + 1 < wordBound)
    (hw : ∀ x ∈ body.toList, x.toNat ≤ maxConstant) :
    ∀ command ∈ textCode body, c.Emits command := by
  have hcall : ∀ routine n, IsWord routine → n < wordBound →
      c.Emits (.call (qualifiedName "String" routine) n) := fun _ _ hr hn =>
    .call (by decide) hr hn
  intro command h
  rw [textCode, List.mem_append, List.mem_flatMap] at h
  obtain h | ⟨x, hx, h⟩ := h
  · obtain rfl | h := List.mem_cons.1 h
    · exact .constant hl
    · obtain rfl := List.mem_singleton.1 h
      exact hcall "new" 1 (by decide) (by decide)
  · obtain rfl | h := List.mem_cons.1 h
    · exact .constant (Nat.lt_of_le_of_lt (Nat.succ_le_succ (hw x hx)) (by decide))
    · obtain rfl := List.mem_singleton.1 h
      exact hcall "appendChar" 2 (by decide) (by decide)

section Expressions

variable {c : Context} {p : Limits}

open Terminal (WellFormed)

mutual

/-- **The commands of a term** within limits. -/
theorem Term.emits (t : Term) (hc : c.Admits p) (hw : ∀ x ∈ t.terminals, x.WellFormed)
    (ht : t.within p = true) : ∀ command ∈ t.code c, c.Emits command := by
  cases t with
  | integer digits =>
    have hn : Text.Decimal.value digits.toList ≤ maxConstant := hw _ List.mem_cons_self
    rw [Term.code, List.forall_mem_singleton]
    exact .constant (Nat.lt_of_le_of_lt (Nat.succ_le_succ hn) (by decide))
  | text body =>
    rw [Term.code]
    exact emits_textCode (hc.text body ht) (hw (.text body) List.mem_cons_self)
  | constant k =>
    rw [Term.code]
    exact k.emits c
  | «variable» name =>
    rw [Term.code]
    exact hc.emits_pushName ht
  | element array index =>
    rw [Term.within, Bool.and_eq_true] at ht
    rw [Term.terminals, Terminal.brackets, List.forall_mem_cons, List.cons_append,
      List.forall_mem_cons, List.forall_mem_append] at hw
    rw [Term.code, List.forall_mem_append, List.forall_mem_append]
    refine ⟨⟨hc.emits_pushName ht.1, index.emits hc hw.2.2.1 ht.2⟩, ?_⟩
    simp only [List.forall_mem_cons]
    exact ⟨.arith _, .fixed (by decide), .fixed (by decide), nofun⟩
  | call f =>
    rw [Term.within] at ht
    rw [Term.terminals] at hw
    rw [Term.code]
    exact f.emits hc hw ht
  | group inner =>
    rw [Term.within] at ht
    rw [Term.terminals, Terminal.parentheses, List.cons_append, List.forall_mem_cons,
      List.forall_mem_append] at hw
    rw [Term.code]
    exact inner.emits hc hw.2.1 ht
  | unary op operand =>
    rw [Term.within] at ht
    rw [Term.terminals, List.forall_mem_cons] at hw
    rw [Term.code, List.forall_mem_append, List.forall_mem_singleton]
    refine ⟨operand.emits hc hw.2 ht, ?_⟩
    cases op <;> exact .arith _

/-- **The commands of an expression** within limits. -/
theorem Expression.emits (e : Expression) (hc : c.Admits p) (hw : ∀ x ∈ e.terminals, x.WellFormed)
    (he : e.within p = true) : ∀ command ∈ e.code c, c.Emits command := by
  obtain ⟨first, more⟩ := e
  rw [Expression.within, Bool.and_eq_true] at he
  rw [Expression.terminals, List.forall_mem_append] at hw
  rw [Expression.code, List.forall_mem_append]
  exact ⟨first.emits hc hw.1 he.1, Expression.emits_more more hc hw.2 he.2⟩

/-- The commands of operators, each with its term, within limits. -/
theorem Expression.emits_more (more : List (BinaryOp × Term)) (hc : c.Admits p)
    (hw : ∀ x ∈ Expression.moreTerms more, x.WellFormed)
    (hm : Expression.moreWithin p more = true) :
    ∀ command ∈ Expression.moreCode c more, c.Emits command := by
  cases more with
  | nil => exact nofun
  | cons head rest =>
    obtain ⟨op, t⟩ := head
    rw [Expression.moreWithin, Bool.and_eq_true] at hm
    rw [Expression.moreTerms, List.forall_mem_cons, List.forall_mem_append] at hw
    rw [Expression.moreCode, List.forall_mem_append, List.forall_mem_cons]
    exact ⟨t.emits hc hw.2.1 hm.1, op.emits c, Expression.emits_more rest hc hw.2.2 hm.2⟩

/-- **The commands of a call** within limits. -/
theorem Call.emits (f : Call) (hc : c.Admits p) (hw : ∀ x ∈ f.terminals, x.WellFormed)
    (hf : f.within p = true) : ∀ command ∈ f.code c, c.Emits command := by
  cases f with
  | own routine arguments =>
    rw [Call.within, Bool.and_eq_true] at hf
    rw [Call.terminals, Terminal.parentheses, List.forall_mem_cons, List.cons_append,
      List.forall_mem_cons, List.forall_mem_append] at hw
    rw [Call.code, List.forall_mem_cons, List.forall_mem_append, List.forall_mem_singleton]
    exact ⟨.fixed (by decide), Call.emits_list arguments hc hw.2.2.1 hf.2,
      .call hc.className hw.1.1 (hc.call _ hf.1)⟩
  | on receiver routine arguments =>
    rw [Call.within, Bool.and_eq_true, Bool.and_eq_true] at hf
    rw [Call.terminals, Terminal.parentheses, List.forall_mem_cons, List.forall_mem_cons,
      List.forall_mem_cons, List.cons_append, List.forall_mem_cons, List.forall_mem_append] at hw
    rw [Call.code, List.forall_mem_append, List.forall_mem_append, List.forall_mem_singleton]
    obtain ⟨hreceiver, -, hroutine, -, harguments, -⟩ := hw
    exact ⟨⟨hc.emits_pushName hf.1, Call.emits_list arguments hc harguments hf.2.2⟩,
      hc.emits_callOn hreceiver.1 hroutine.1 hf.2.1⟩

/-- The commands of arguments within limits. -/
theorem Call.emits_list (arguments : List Expression) (hc : c.Admits p)
    (hw : ∀ x ∈ Call.list arguments, x.WellFormed) (ha : Call.listWithin p arguments = true) :
    ∀ command ∈ Call.listCode c arguments, c.Emits command := by
  cases arguments with
  | nil => exact nofun
  | cons e rest =>
    rw [Call.listWithin, Bool.and_eq_true] at ha
    rw [Call.list, List.forall_mem_append] at hw
    rw [Call.listCode, List.forall_mem_append]
    exact ⟨e.emits hc hw.1 ha.1, Call.emits_more rest hc hw.2 ha.2⟩

/-- The commands of arguments behind others within limits. -/
theorem Call.emits_more (arguments : List Expression) (hc : c.Admits p)
    (hw : ∀ x ∈ Call.moreArguments arguments, x.WellFormed)
    (ha : Call.listWithin p arguments = true) :
    ∀ command ∈ Call.listCode c arguments, c.Emits command := by
  cases arguments with
  | nil => exact nofun
  | cons e rest =>
    rw [Call.listWithin, Bool.and_eq_true] at ha
    rw [Call.moreArguments, List.forall_mem_cons, List.forall_mem_append] at hw
    rw [Call.listCode, List.forall_mem_append]
    exact ⟨e.emits hc hw.2.1 ha.1, Call.emits_more rest hc hw.2.2 ha.2⟩

end

end Expressions

/-! ## Labels -/

theorem unbroken_ifLabel (k : Nat) : Unbroken (ifLabel k) := by
  have hstart : Unbroken "IF_" := by decide
  simp only [Unbroken, ifLabel, String.toList_append, List.forall_mem_append]
  exact ⟨by simp, hstart.2, (unbroken_toString k).2⟩

theorem unbroken_whileLabel (k : Nat) : Unbroken (whileLabel k) := by
  have hstart : Unbroken "WHILE_" := by decide
  simp only [Unbroken, whileLabel, String.toList_append, List.forall_mem_append]
  exact ⟨by simp, hstart.2, (unbroken_toString k).2⟩

/-! ## Commands of statements -/

/-- **A command fits into the code of a subroutine**: it can be read back, starts no function, and
uses no static but those that names mean. -/
structure Context.Fits (c : Context) (command : Command) : Prop where
  legible : command.Legible
  function? : command.function? = none
  static? : ∀ index, command.static? = some index →
    ∃ name v, c.resolve name = some v ∧ v.kind = .static ∧ v.index = index

/-- **Commands make up code**: each fits, labels are numbered in ranges, and jumps go to them. -/
structure Context.Writes (c : Context) (m m' n n' : Nat) (code : List Command) : Prop where
  conditions_le : m ≤ m'
  loops_le : n ≤ n'
  fits : ∀ command ∈ code, c.Fits command
  numbered : Numbered m m' n n' (code.filterMap Command.label?)
  closed : ∀ name ∈ code.filterMap Command.target?, name ∈ code.filterMap Command.label?

namespace Context

variable {c : Context} {m m' n n' : Nat} {code : List Command}

theorem Emits.fits {command : Command} (h : c.Emits command) : c.Fits command :=
  ⟨h.legible, h.function?, fun _ => h.static?⟩

theorem fits_return (c : Context) : c.Fits .return :=
  ⟨trivial, rfl, nofun⟩

theorem fits_label {name : String} (h : Unbroken name) : c.Fits (.label name) :=
  ⟨h, rfl, nofun⟩

theorem fits_goto {name : String} (h : Unbroken name) : c.Fits (.goto name) :=
  ⟨h, rfl, nofun⟩

theorem fits_ifGoto {name : String} (h : Unbroken name) : c.Fits (.ifGoto name) :=
  ⟨h, rfl, nofun⟩

/-- Labelled code makes up code if each command fits. -/
theorem Writes.of_labelled (h : Vm.Labelled m m' n n' code)
    (hf : ∀ command ∈ code, c.Fits command) : c.Writes m m' n n' code :=
  ⟨h.conditions_le, h.loops_le, hf, h.numbered, h.closed⟩

theorem fits_zero_return (c : Context) :
    ∀ command ∈ [Command.push .constant 0, .return], c.Fits command := by
  have hzero : c.Emits (.push .constant 0) := .constant (by decide)
  exact List.forall_mem_cons.2 ⟨hzero.fits, List.forall_mem_singleton.2 c.fits_return⟩

theorem fits_returnCode (c : Context) : ∀ command ∈ c.returnCode, c.Fits command := by
  rw [returnCode]
  split
  · exact c.fits_zero_return
  · exact List.forall_mem_singleton.2 c.fits_return

end Context

section Statements

variable {c : Context} {p : Limits}

theorem Expression.fits {e : Expression} (hc : c.Admits p) (hw : ∀ x ∈ e.terminals, x.WellFormed)
    (he : e.within p = true) : ∀ command ∈ e.code c, c.Fits command :=
  fun command h => (e.emits hc hw he command h).fits

mutual

/-- **The commands of a statement** within limits. -/
theorem Statement.fits (st : Statement) (hc : c.Admits p)
    (hw : ∀ x ∈ st.terminals, x.WellFormed) (hs : st.within p = true) (m n : Nat) :
    ∀ command ∈ st.code c m n, c.Fits command := by
  have plain {code : List Command} (h : ∀ command ∈ code, c.Emits command) :
      ∀ command ∈ code, c.Fits command := fun command hm => (h command hm).fits
  cases st with
  | assign name value =>
    rw [Statement.within, Bool.and_eq_true] at hs
    rw [Statement.terminals, List.forall_mem_cons, List.forall_mem_cons, List.forall_mem_cons,
      List.forall_mem_append] at hw
    rw [Statement.code, List.forall_mem_append]
    exact ⟨Expression.fits hc hw.2.2.2.1 hs.2, plain (hc.emits_popName hs.1)⟩
  | assignElement array index value =>
    rw [Statement.within, Bool.and_eq_true, Bool.and_eq_true] at hs
    simp only [Statement.terminals, Terminal.brackets, List.forall_mem_cons,
      List.forall_mem_append] at hw
    rw [Statement.code]
    refine plain ?_
    simp only [List.forall_mem_append, List.forall_mem_cons]
    exact ⟨⟨index.emits hc hw.2.2.1.1.2 hs.2.1, hc.emits_pushName hs.1⟩, .arith _,
      value.emits hc hw.2.2.2.2.1 hs.2.2, .fixed (by decide), .fixed (by decide),
      .fixed (by decide), .fixed (by decide), nofun⟩
  | branch condition body otherwise =>
    rw [Statement.within, Bool.and_eq_true, Bool.and_eq_true] at hs
    simp only [Statement.terminals, Terminal.parentheses, Terminal.braces, List.forall_mem_cons,
      List.forall_mem_append] at hw
    obtain ⟨-, hcondition, hbody, hotherwise⟩ := hw
    simp only [Statement.code, List.forall_mem_append, List.forall_mem_cons]
    exact ⟨⟨⟨⟨⟨Expression.fits hc hcondition.1.2 hs.1, (Context.Emits.arith .not).fits,
      Context.fits_ifGoto (unbroken_ifLabel _), nofun⟩,
      Statement.fits_list body hc hbody.1.2 hs.2.1 _ _⟩,
      Context.fits_goto (unbroken_ifLabel _), Context.fits_label (unbroken_ifLabel _), nofun⟩,
      Statement.fits_otherwise otherwise hc hotherwise hs.2.2 _ _⟩,
      Context.fits_label (unbroken_ifLabel _), nofun⟩
  | loop condition body =>
    rw [Statement.within, Bool.and_eq_true] at hs
    simp only [Statement.terminals, Terminal.parentheses, Terminal.braces, List.forall_mem_cons,
      List.forall_mem_append] at hw
    simp only [Statement.code, List.forall_mem_append, List.forall_mem_cons]
    exact ⟨Context.fits_label (unbroken_whileLabel _),
      ⟨⟨Expression.fits hc hw.2.1.1.2 hs.1, (Context.Emits.arith .not).fits,
      Context.fits_ifGoto (unbroken_whileLabel _), nofun⟩,
      Statement.fits_list body hc hw.2.2.1.2 hs.2 _ _⟩,
      Context.fits_goto (unbroken_whileLabel _), Context.fits_label (unbroken_whileLabel _), nofun⟩
  | perform f =>
    rw [Statement.within] at hs
    rw [Statement.terminals, List.forall_mem_cons, List.forall_mem_append] at hw
    rw [Statement.code, List.forall_mem_append]
    exact ⟨plain (f.emits hc hw.2.1 hs), plain (List.forall_mem_singleton.2 (.fixed (by decide)))⟩
  | «return» value =>
    cases value with
    | none =>
      rw [Statement.code]
      exact c.fits_returnCode
    | some e =>
      rw [Statement.within] at hs
      rw [Statement.terminals, List.forall_mem_cons, List.forall_mem_append] at hw
      rw [Statement.code, List.forall_mem_append]
      exact ⟨Expression.fits hc hw.2.1 hs, c.fits_returnCode⟩

/-- **The commands of statements** within limits. -/
theorem Statement.fits_list (body : List Statement) (hc : c.Admits p)
    (hw : ∀ x ∈ Statement.list body, x.WellFormed) (hs : Statement.listWithin p body = true)
    (m n : Nat) : ∀ command ∈ Statement.listCode c m n body, c.Fits command := by
  cases body with
  | nil =>
    rw [Statement.listCode]
    exact nofun
  | cons st rest =>
    rw [Statement.listWithin, Bool.and_eq_true] at hs
    rw [Statement.list, List.forall_mem_append] at hw
    rw [Statement.listCode, List.forall_mem_append]
    exact ⟨st.fits hc hw.1 hs.1 m n, Statement.fits_list rest hc hw.2 hs.2 _ _⟩

/-- The commands of a second branch within limits. -/
theorem Statement.fits_otherwise (otherwise : Option (List Statement)) (hc : c.Admits p)
    (hw : ∀ x ∈ Statement.otherwise otherwise, x.WellFormed)
    (hs : Statement.otherwiseWithin p otherwise = true) (m n : Nat) :
    ∀ command ∈ Statement.otherwiseCode c m n otherwise, c.Fits command := by
  cases otherwise with
  | none =>
    rw [Statement.otherwiseCode]
    exact nofun
  | some body =>
    rw [Statement.otherwiseWithin] at hs
    simp only [Statement.otherwise, Terminal.braces, List.forall_mem_cons,
      List.forall_mem_append] at hw
    rw [Statement.otherwiseCode]
    exact Statement.fits_list body hc hw.2.1.2 hs m n

end

end Statements

/-! ## Declared variables -/

/-- How many statics a class declares. -/
def ClassDecl.staticCount (c : ClassDecl) : Nat :=
  c.declarations.countP (·.kind = .static)

/-- **How many variables of a kind** a subroutine sees. -/
def RoutineDecl.count (r : RoutineDecl) (c : ClassDecl) : VariableKind → Nat
  | .static => c.staticCount
  | .field => c.fieldCount
  | .argument => r.arity
  | .local => r.localCount

theorem Declaration.find?_eq_some {name : String} {ds : List Declaration} {v : Variable}
    (h : find? name ds = some v) :
    ∃ d ∈ ds, v.type = d.type ∧ v.kind = d.kind ∧ v.index < ds.countP (·.kind = v.kind) := by
  induction ds with
  | nil => cases h
  | cons d earlier ih =>
    rw [find?] at h
    split at h
    · obtain rfl := Option.some.inj h
      refine ⟨d, List.mem_cons_self, rfl, rfl, ?_⟩
      rw [List.countP_cons_of_pos (by simp)]
      exact Nat.lt_succ_self _
    · obtain ⟨d', hd', ht, hk, hi⟩ := ih h
      refine ⟨d', List.mem_cons_of_mem _ hd', ht, hk, Nat.lt_of_lt_of_le hi ?_⟩
      exact (List.sublist_cons_self d earlier).countP_le

/-- The arguments of a subroutine are its declarations of that kind. -/
theorem RoutineDecl.countP_argument (r : RoutineDecl) (className : String) :
    (r.declarations className).countP (·.kind = .argument) = r.arity := by
  have hreceiver : (r.kind.receiver className).countP (·.kind = .argument) =
      if r.kind = .method then 1 else 0 := by
    unfold RoutineKind.receiver
    split <;> rfl
  have hparameters : (r.parameters.map Parameter.declaration).countP (·.kind = .argument) =
      r.parameters.length := by
    rw [List.countP_map]
    exact List.countP_eq_length.2 fun _ _ => rfl
  have hlocals : (r.locals.flatMap (·.declarations .local)).countP (·.kind = .argument) = 0 := by
    rw [List.countP_eq_zero]
    intro d hd
    obtain ⟨l, -, hd⟩ := List.mem_flatMap.1 hd
    obtain ⟨name, -, rfl⟩ := List.mem_map.1 hd
    exact Bool.false_ne_true
  rw [declarations, List.countP_append, List.countP_append, hreceiver, hparameters, hlocals, arity]
  omega

/-- **A variable is one of those declared**: its type is written there, and its number is below how
many there are. -/
theorem RoutineDecl.resolve_eq_some {r : RoutineDecl} {c : ClassDecl} {name : String} {v : Variable}
    (h : (r.context c).resolve name = some v) :
    (∃ d ∈ r.declarations c.name ++ c.declarations, v.type = d.type) ∧
      v.index < r.count c v.kind := by
  obtain hf | ⟨-, hf⟩ := Option.or_eq_some_iff.1 h
  · obtain ⟨d, hd, ht, hk, hi⟩ := Declaration.find?_eq_some hf
    rw [List.mem_reverse] at hd
    rw [List.countP_reverse] at hi
    have hkind := r.ofClass_declarations c.name d hd
    rw [← hk] at hkind
    refine ⟨⟨d, List.mem_append_left _ hd, ht⟩, ?_⟩
    cases hv : v.kind with
    | argument => rwa [hv, r.countP_argument] at hi
    | «local» => rwa [hv, r.countP_local] at hi
    | static | field =>
      rw [hv] at hkind
      cases hkind
  · obtain ⟨d, hd, ht, hk, hi⟩ := Declaration.find?_eq_some hf
    rw [List.mem_reverse] at hd
    rw [List.countP_reverse] at hi
    have hkind := c.ofClass_declarations d hd
    rw [← hk] at hkind
    refine ⟨⟨d, List.mem_append_right _ hd, ht⟩, ?_⟩
    cases hv : v.kind with
    | static =>
      rw [hv] at hi
      exact hi
    | field => rwa [hv, c.countP_field] at hi
    | argument | «local» =>
      rw [hv] at hkind
      cases hkind

theorem TypeName.isWord_text {t : TypeName} (h : t.terminal.WellFormed) : IsWord t.text := by
  cases t with
  | ofClass name => exact h.1
  | _ => exact (by decide)

section Words

variable {c : ClassDecl} {r : RoutineDecl} (hw : ∀ x ∈ c.terminals, x.WellFormed)
include hw

theorem ClassDecl.isWord_name : IsWord c.name :=
  (hw (.identifier c.name) (by simp [ClassDecl.terminals])).1

theorem ClassDecl.wellFormed_routine (hr : r ∈ c.routines) : ∀ x ∈ r.terminals, x.WellFormed := by
  intro x hx
  refine hw x ?_
  simp only [ClassDecl.terminals, Terminal.braces, List.mem_cons, List.mem_append]
  exact .inr (.inr (.inl (.inr (.inr (List.mem_flatMap.2 ⟨r, hr, hx⟩)))))

theorem ClassDecl.isWord_routine (hr : r ∈ c.routines) : IsWord r.name :=
  (c.wellFormed_routine hw hr (.identifier r.name) (by simp [RoutineDecl.terminals])).1

/-- The types of declared variables are words. -/
theorem ClassDecl.isWord_type (hr : r ∈ c.routines) {d : Declaration}
    (hd : d ∈ r.declarations c.name ++ c.declarations) : IsWord d.type := by
  have hroutine := c.wellFormed_routine hw hr
  rw [RoutineDecl.declarations, List.mem_append, List.mem_append, List.mem_append] at hd
  obtain ((hd | hd) | hd) | hd := hd
  · rw [RoutineKind.receiver] at hd
    split at hd
    · obtain rfl := List.mem_singleton.1 hd
      exact c.isWord_name hw
    · cases hd
  · obtain ⟨q, hq, rfl⟩ := List.mem_map.1 hd
    refine TypeName.isWord_text (hroutine _ ?_)
    have hlist : q.type.terminal ∈ Parameter.list r.parameters := by
      cases hp : r.parameters with
      | nil =>
        rw [hp] at hq
        cases hq
      | cons p rest =>
        rw [hp] at hq
        obtain rfl | hq := List.mem_cons.1 hq
        · simp [Parameter.list, Parameter.terminals]
        · refine List.mem_append_right _ (List.mem_flatMap.2 ⟨q, hq, ?_⟩)
          simp [Parameter.terminals]
    simp [RoutineDecl.terminals, Terminal.parentheses, hlist]
  · obtain ⟨l, hl, hd⟩ := List.mem_flatMap.1 hd
    obtain ⟨name, -, rfl⟩ := List.mem_map.1 hd
    refine TypeName.isWord_text (hroutine _ ?_)
    have hlist : l.type.terminal ∈
        r.locals.flatMap (fun l => Terminal.keyword .var :: l.terminals) :=
      List.mem_flatMap.2 ⟨l, hl, by simp [VariableList.terminals]⟩
    simp [RoutineDecl.terminals, RoutineDecl.bodyTerminals, Terminal.braces, hlist]
  · obtain ⟨v, hv, hd⟩ := List.mem_flatMap.1 hd
    have hlist : v.list.type.terminal ∈ c.members.flatMap ClassVariables.terminals := by
      refine List.mem_flatMap.2 ⟨v, hv, ?_⟩
      cases v <;> simp [ClassVariables.terminals, VariableList.terminals, ClassVariables.list]
    have htype : IsWord v.list.type.text :=
      TypeName.isWord_text (hw _ (by simp [ClassDecl.terminals, Terminal.braces, hlist]))
    cases v with
    | statics l | fields l =>
      obtain ⟨name, -, rfl⟩ := List.mem_map.1 hd
      exact htype

/-- **The context of a subroutine admits limits** that keep numbers small. -/
theorem ClassDecl.admits (hr : r ∈ c.routines) {p : Limits}
    (hname : ∀ name v, p.name name = true → (r.context c).resolve name = some v →
      r.count c v.kind < wordBound)
    (htext : ∀ body, p.text body = true → body.length + 1 < wordBound)
    (hcall : ∀ n, p.call n = true → n + 1 < wordBound) : (r.context c).Admits p where
  className := c.isWord_name hw
  type name v hv := by
    obtain ⟨⟨d, hd, ht⟩, -⟩ := RoutineDecl.resolve_eq_some hv
    rw [ht]
    exact c.isWord_type hw hr hd
  name name v hn hv :=
    Nat.lt_of_le_of_lt (RoutineDecl.resolve_eq_some hv).2 (hname name v hn hv)
  text := htext
  call := hcall

end Words

/-! ## Commands of subroutines -/

/-- **The commands of a subroutine** within limits. -/
theorem RoutineDecl.writes {r : RoutineDecl} {c : ClassDecl} {p : Limits}
    (hc : (r.context c).Admits p) (hw : ∀ x ∈ r.terminals, x.WellFormed)
    (hb : Statement.listWithin p r.body = true)
    (hf : r.kind = .constructor → c.fieldCount + 1 < wordBound) (m n : Nat) :
    (r.context c).Writes m (m + Statement.listConditions r.body) n
      (n + Statement.listLoops r.body) (r.inner c m n) := by
  have hbody : ∀ x ∈ Statement.list r.body, x.WellFormed := by
    intro x hx
    refine hw x ?_
    simp [RoutineDecl.terminals, RoutineDecl.bodyTerminals, Terminal.braces, hx]
  have hprologue : ∀ command ∈ (r.prologue c).tail, (r.context c).Emits command := by
    rw [prologue, List.tail_cons]
    cases hk : r.kind with
    | function => exact List.forall_mem_nil _
    | method =>
      simp only [List.forall_mem_cons]
      exact ⟨.fixed (by decide), .fixed (by decide), List.forall_mem_nil _⟩
    | constructor =>
      have halloc : (r.context c).Emits (.call (qualifiedName "Memory" "alloc") 1) :=
        .call (by decide) (by decide) (by decide)
      simp only [List.forall_mem_cons]
      exact ⟨.constant (hf hk), halloc, .fixed (by decide), List.forall_mem_nil _⟩
  have hepilogue : ∀ command ∈ r.epilogue, (r.context c).Fits command := by
    rw [epilogue]
    split
    · exact (r.context c).fits_zero_return
    · exact List.forall_mem_nil _
  refine .of_labelled (r.labelled_inner c m n) ?_
  rw [inner_eq_append, List.forall_mem_append, List.forall_mem_append]
  exact ⟨fun command h => (hprologue command h).fits,
    Statement.fits_list r.body hc hbody hb m n, hepilogue⟩

end JackStack
