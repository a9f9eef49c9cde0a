import JackStack.Proofs.Labelling
import JackStack.Proofs.Refinement

/-!
# Proofs/Discipline — how many operands are on the stack

In the code of a subroutine the number of operands on the stack is known at every position, without
running it: expressions leave one operand more than they find, statements find and leave none.

    let a[i] = e    0  i  1  a  2  add  1  e  2  pop temp 0  1  pop pointer 1  0  push temp 0 …
    if (e) {s}      0  e  1  not  1  if-goto  0  s  0  goto  0  label  0

So depths agree wherever control passes, no command lacks operands, and a return finds its value, the
value that a subroutine without one returns, or both.

* `Vm.Disciplined` — depths at the positions of a block agree along its edges.
* `Vm.Carries` — the same of a stretch of code, from one depth to another.
* `compileText_disciplined` — all blocks of what is compiled are disciplined.
-/

namespace JackStack

open Vm (Command)

namespace Vm

/-! ## Effects of commands -/

/-- How many operands an operation takes. -/
def ArithOp.operands : ArithOp → Nat
  | .neg | .not => 1
  | .add | .sub | .eq | .gt | .lt | .and | .or => 2

/-- **How many operands a command takes** from the stack. -/
def Command.takes : Command → Nat
  | .push .. | .label _ | .goto _ | .function .. => 0
  | .pop .. | .ifGoto _ | .return => 1
  | .arith op => op.operands
  | .call _ arguments => arguments

/-- How many operands a command leaves for those it takes. -/
def Command.leaves : Command → Nat
  | .push .. | .arith _ | .call .. => 1
  | .pop .. | .label _ | .goto _ | .ifGoto _ | .function .. | .return => 0

/-- **The effect of a command** on the number of operands. -/
def Command.effect (c : Command) : Int :=
  c.leaves - c.takes

/-- The command behind may come next. -/
def Command.fallsThrough : Command → Bool
  | .goto _ | .return => false
  | _ => true

/-- **Control may pass** from one position of a block to another. -/
inductive Edge (block : List Command) : Nat → Nat → Prop where
  | next {i : Nat} {c : Command} (hc : block[i]? = some c) (hf : c.fallsThrough = true) :
    Edge block i (i + 1)
  | jump {i j : Nat} {c : Command} {name : String} (hc : block[i]? = some c)
    (ht : c.target? = some name) (hj : block[j]? = some (.label name)) : Edge block i j

/-- **Depths at the positions of a block agree**: the stack is empty behind the header and at
labels, each command but a return finds its operands, and control that passes finds the depth that
it brings along. No jump leaves the block. -/
structure Disciplined (block : List Command) (depth : Nat → Nat) : Prop where
  entry : depth 1 = 0
  label : ∀ i name, block[i]? = some (.label name) → depth i = 0
  enough : ∀ i c, block[i]? = some c → c ≠ .return → c.takes ≤ depth i
  flow : ∀ i j c, block[i]? = some c → Edge block i j → (depth j : Int) = depth i + c.effect
  closed : ∀ (i : Nat) c name, block[i]? = some c → c.target? = some name →
    ∃ j : Nat, block[j]? = some (.label name)

/-! ## Depths along code -/

/-- **A command may stand at a depth.** Control that passes elsewhere leaves nothing on the
stack. -/
def Command.Allowed (d : Nat) : Command → Prop
  | .label _ | .goto _ | .function .. => d = 0
  | .ifGoto _ => d = 1
  | .return => True
  | c => c.takes ≤ d

/-- The depth behind a command; behind a return a new stretch of code starts. -/
def Command.behind (d : Nat) : Command → Nat
  | .return => 0
  | c => d - c.takes + c.leaves

/-- **Code carries one depth to another**, and each of its commands may stand where it does. -/
def Carries (d : Nat) : List Command → Nat → Prop
  | [], d' => d = d'
  | c :: rest, d' => c.Allowed d ∧ Carries (c.behind d) rest d'

/-- **The depth at a position**, from what stands in front. -/
def depthAt (block : List Command) (i : Nat) : Nat :=
  (block.take i).foldl Command.behind 0

section Carries

variable {d d' d'' : Nat} {c : Command} {code code' : List Command}

@[simp] theorem carries_nil : Carries d [] d' ↔ d = d' := Iff.rfl

@[simp] theorem carries_cons :
    Carries d (c :: code) d' ↔ c.Allowed d ∧ Carries (c.behind d) code d' := Iff.rfl

theorem carries_append :
    Carries d (code ++ code') d'' ↔ ∃ d', Carries d code d' ∧ Carries d' code' d'' := by
  induction code generalizing d with
  | nil => simp
  | cons c code ih => simp [ih, and_assoc]

theorem Carries.append (h : Carries d code d') (h' : Carries d' code' d'') :
    Carries d (code ++ code') d'' :=
  carries_append.2 ⟨d', h, h'⟩

theorem Carries.foldl_behind (h : Carries d code d') : code.foldl Command.behind d = d' := by
  induction code generalizing d with
  | nil => exact h
  | cons c code ih => exact ih h.2

theorem Carries.allowed (h : Carries d code d') {i : Nat} (hc : code[i]? = some c) :
    c.Allowed ((code.take i).foldl Command.behind d) := by
  induction code generalizing d i with
  | nil => cases hc
  | cons b code ih =>
    cases i with
    | zero =>
      obtain rfl := Option.some.inj hc
      exact h.1
    | succ i => exact ih h.2 hc

theorem depthAt_succ {block : List Command} {i : Nat} (hc : block[i]? = some c) :
    depthAt block (i + 1) = c.behind (depthAt block i) := by
  rw [depthAt, List.take_add_one, hc, List.foldl_append]
  rfl

/-- The depth behind code that the block starts with. -/
theorem depthAt_of_append {block : List Command} (h : Carries 0 code d') (hb : code <+: block) :
    depthAt block code.length = d' := by
  rw [depthAt, ← List.prefix_iff_eq_take.1 hb]
  exact h.foldl_behind

/-- What a command at its place does to the depth, whether control falls through or jumps. -/
theorem Command.Allowed.effect (h : c.Allowed d) (hc : c ≠ .return) :
    c.takes ≤ d ∧ (c.behind d : Int) = d + c.effect := by
  have htakes : c.takes ≤ d := by
    cases c with
    | «return» => exact absurd rfl hc
    | ifGoto name => exact Nat.le_of_eq h.symm
    | label name | goto name | function name locals => exact Nat.zero_le d
    | _ => exact h
  have hbehind : c.behind d = d - c.takes + c.leaves := by
    cases c with
    | «return» => exact absurd rfl hc
    | _ => rfl
  refine ⟨htakes, ?_⟩
  rw [hbehind, Command.effect]
  omega

theorem Command.Allowed.jump {name : String} (h : c.Allowed d) (ht : c.target? = some name) :
    (0 : Int) = d + c.effect := by
  cases c with
  | goto name =>
    obtain rfl : d = 0 := h
    rfl
  | ifGoto name =>
    obtain rfl : d = 1 := h
    rfl
  | _ => cases ht

/-- **Code that carries the empty stack is disciplined**, behind a header, if its jumps go to its
labels. -/
theorem Carries.disciplined {name : String} {locals : Nat}
    (h : Carries 0 (.function name locals :: code) d')
    (hclosed : ∀ label ∈ code.filterMap Command.target?,
      label ∈ code.filterMap Command.label?) :
    Disciplined (.function name locals :: code) (depthAt (.function name locals :: code)) := by
  generalize hb : Command.function name locals :: code = block at h
  have hlabel : ∀ i label, block[i]? = some (.label label) → depthAt block i = 0 :=
    fun i label hi => h.allowed hi
  refine ⟨?_, hlabel, ?_, ?_, ?_⟩
  · rw [depthAt_succ (c := .function name locals) (by rw [← hb]; rfl)]
    rfl
  · exact fun i c hc hr => ((h.allowed hc).effect hr).1
  · rintro i j c hc (⟨hc', hf⟩ | ⟨hc', ht, hj⟩)
    · obtain rfl := Option.some.inj (hc.symm.trans hc')
      have hr : c ≠ .return := by
        rintro rfl
        cases hf
      rw [depthAt_succ hc]
      exact ((h.allowed hc).effect hr).2
    · obtain rfl := Option.some.inj (hc.symm.trans hc')
      rw [hlabel j _ hj]
      exact (h.allowed hc).jump ht
  · intro i c label hc ht
    have hmem : label ∈ code.filterMap Command.target? := by
      have := List.mem_of_getElem? hc
      rw [← hb] at this
      obtain rfl | this := List.mem_cons.1 this
      · cases ht
      · exact List.mem_filterMap.2 ⟨c, this, ht⟩
    obtain ⟨b, hmem, hl⟩ := List.mem_filterMap.1 (hclosed label hmem)
    obtain rfl : b = .label label := by
      cases b with
      | label name => exact congrArg _ (Option.some.inj hl)
      | _ => cases hl
    rw [← hb]
    exact List.mem_iff_getElem?.1 (List.mem_cons_of_mem _ hmem)

theorem carries_push (d : Nat) (segment : Segment) (index : Nat) :
    Carries d [.push segment index] (d + 1) :=
  ⟨Nat.zero_le d, rfl⟩

theorem carries_pop (d : Nat) (segment : Segment) (index : Nat) :
    Carries (d + 1) [.pop segment index] d :=
  ⟨Nat.le_add_left 1 d, Nat.add_sub_cancel d 1⟩

theorem carries_call (d : Nat) (name : String) (arguments : Nat) :
    Carries (d + arguments) [.call name arguments] (d + 1) :=
  ⟨Nat.le_add_left arguments d, congrArg (· + 1) (Nat.add_sub_cancel d arguments)⟩

theorem carries_arith (d : Nat) (op : ArithOp) :
    Carries (d + op.operands) [.arith op] (d + 1) :=
  ⟨Nat.le_add_left _ d, congrArg (· + 1) (Nat.add_sub_cancel d _)⟩

end Carries

end Vm

open Vm (Carries)

/-! ## Depths along expressions -/

section Expressions

variable {c : Context}

theorem Context.carries_pushName {name : String} (h : (c.resolve name).isSome) (d : Nat) :
    Carries d (c.pushName name) (d + 1) := by
  obtain ⟨v, hv⟩ := Option.isSome_iff_exists.1 h
  rw [Context.pushName, hv]
  exact Vm.carries_push d _ _

theorem Context.carries_popName {name : String} (h : (c.resolve name).isSome) (d : Nat) :
    Carries (d + 1) (c.popName name) d := by
  obtain ⟨v, hv⟩ := Option.isSome_iff_exists.1 h
  rw [Context.popName, hv]
  exact Vm.carries_pop d _ _

theorem Constant.carries (k : Constant) (d : Nat) : Carries d k.code (d + 1) := by
  cases k with
  | «true» => exact (Vm.carries_push d _ _).append (Vm.carries_arith d .neg)
  | «false» | null | this => exact Vm.carries_push d _ _

theorem UnaryOp.carries (op : UnaryOp) (d : Nat) : Carries (d + 1) [op.command] (d + 1) := by
  cases op with
  | negate => exact Vm.carries_arith d .neg
  | complement => exact Vm.carries_arith d .not

theorem BinaryOp.carries (op : BinaryOp) (d : Nat) : Carries (d + 2) [op.command] (d + 1) := by
  cases op with
  | multiply | divide => exact Vm.carries_call d _ 2
  | add => exact Vm.carries_arith d .add
  | subtract => exact Vm.carries_arith d .sub
  | and => exact Vm.carries_arith d .and
  | or => exact Vm.carries_arith d .or
  | less => exact Vm.carries_arith d .lt
  | greater => exact Vm.carries_arith d .gt
  | equal => exact Vm.carries_arith d .eq

/-- Each character is appended to the string on the stack. -/
theorem carries_textCode (body : String) (d : Nat) : Carries d (textCode body) (d + 1) := by
  have hchars : ∀ cs : List Char, Carries (d + 1) (cs.flatMap fun x =>
      [Command.push .constant x.toNat, .call "String.appendChar" 2]) (d + 1) := by
    intro cs
    induction cs with
    | nil => rfl
    | cons x cs ih =>
      rw [List.flatMap_cons]
      exact ((Vm.carries_push (d + 1) _ _).append (Vm.carries_call d _ 2)).append ih
  exact ((Vm.carries_push d _ _).append (Vm.carries_call d _ 1)).append (hchars _)

mutual

/-- **A term leaves one operand.** -/
theorem Term.carries (t : Term) (hk : ∀ name ∈ t.variables, (c.resolve name).isSome) (d : Nat) :
    Carries d (t.code c) (d + 1) := by
  cases t with
  | integer digits => exact Vm.carries_push d _ _
  | text body => exact carries_textCode body d
  | constant k => exact k.carries d
  | «variable» name => exact Context.carries_pushName (hk name List.mem_cons_self) d
  | element array index =>
    rw [Term.variables, List.forall_mem_cons] at hk
    have hload : Carries (d + 2) [.arith .add, .pop .pointer 1, .push .that 0] (d + 1) :=
      (Vm.carries_arith d .add).append ((Vm.carries_pop d _ _).append (Vm.carries_push d _ _))
    rw [Term.code]
    exact ((Context.carries_pushName hk.1 d).append (index.carries hk.2 (d + 1))).append hload
  | call f =>
    rw [Term.variables] at hk
    rw [Term.code]
    exact f.carries hk d
  | group inner =>
    rw [Term.variables] at hk
    rw [Term.code]
    exact inner.carries hk d
  | unary op operand =>
    rw [Term.variables] at hk
    rw [Term.code]
    exact (operand.carries hk d).append (op.carries d)

/-- **An expression leaves one operand.** -/
theorem Expression.carries (e : Expression) (hk : ∀ name ∈ e.variables, (c.resolve name).isSome)
    (d : Nat) : Carries d (e.code c) (d + 1) := by
  obtain ⟨first, more⟩ := e
  rw [Expression.variables, List.forall_mem_append] at hk
  rw [Expression.code]
  exact (first.carries hk.1 d).append (Expression.carries_more more hk.2 d)

theorem Expression.carries_more (more : List (BinaryOp × Term))
    (hk : ∀ name ∈ Expression.moreVariables more, (c.resolve name).isSome) (d : Nat) :
    Carries (d + 1) (Expression.moreCode c more) (d + 1) := by
  cases more with
  | nil => rfl
  | cons head rest =>
    obtain ⟨op, t⟩ := head
    rw [Expression.moreVariables, List.forall_mem_append] at hk
    rw [Expression.moreCode]
    exact (t.carries hk.1 (d + 1)).append
      ((op.carries d).append (Expression.carries_more rest hk.2 d))

/-- **A call leaves one operand** for its arguments and the hidden one. -/
theorem Call.carries (f : Call) (hk : ∀ name ∈ f.variables, (c.resolve name).isSome) (d : Nat) :
    Carries d (f.code c) (d + 1) := by
  cases f with
  | own routine arguments =>
    rw [Call.variables] at hk
    have hcall := Vm.carries_call d (qualifiedName c.className routine) (arguments.length + 1)
    rw [← Nat.add_assoc, Nat.add_right_comm] at hcall
    rw [Call.code]
    exact (Vm.carries_push d _ _).append ((Call.carries_list arguments hk (d + 1)).append hcall)
  | on receiver routine arguments =>
    rw [Call.variables] at hk
    rw [Call.code, Context.pushName, Context.callOn]
    cases c.resolve receiver with
    | none => exact (Call.carries_list arguments hk d).append (Vm.carries_call d _ _)
    | some v =>
      have hcall := Vm.carries_call d (qualifiedName v.type routine) (arguments.length + 1)
      rw [← Nat.add_assoc, Nat.add_right_comm] at hcall
      exact (Vm.carries_push d _ _).append ((Call.carries_list arguments hk (d + 1)).append hcall)

/-- **Arguments leave an operand each.** -/
theorem Call.carries_list (arguments : List Expression)
    (hk : ∀ name ∈ Call.listVariables arguments, (c.resolve name).isSome) (d : Nat) :
    Carries d (Call.listCode c arguments) (d + arguments.length) := by
  cases arguments with
  | nil => rfl
  | cons e rest =>
    rw [Call.listVariables, List.forall_mem_append] at hk
    have hrest := Call.carries_list rest hk.2 (d + 1)
    rw [Nat.add_right_comm] at hrest
    rw [Call.listCode]
    exact (e.carries hk.1 d).append hrest

end

end Expressions

/-! ## Depths along statements -/

section Statements

variable {c : Context}

theorem carries_decide (name : String) : Carries 1 [.arith .not, .ifGoto name] 0 :=
  ⟨Nat.le_refl 1, rfl, rfl⟩

theorem carries_label (name : String) : Carries 0 [.label name] 0 :=
  ⟨rfl, rfl⟩

theorem carries_goto (name : String) : Carries 0 [.goto name] 0 :=
  ⟨rfl, rfl⟩

theorem Context.carries_returnCode (c : Context) (d : Nat) : Carries d c.returnCode 0 := by
  rw [Context.returnCode]
  split
  · exact (Vm.carries_push d _ _).append ⟨trivial, rfl⟩
  · exact ⟨trivial, rfl⟩

mutual

/-- **A statement finds and leaves no operands.** -/
theorem Statement.carries (st : Statement) (hk : ∀ name ∈ st.variables, (c.resolve name).isSome)
    (m n : Nat) : Carries 0 (st.code c m n) 0 := by
  cases st with
  | assign name value =>
    rw [Statement.variables, List.forall_mem_cons] at hk
    rw [Statement.code]
    exact (value.carries hk.2 0).append (Context.carries_popName hk.1 0)
  | assignElement array index value =>
    rw [Statement.variables, List.forall_mem_cons, List.forall_mem_append] at hk
    have hstore : Carries 2 [.pop .temp 0, .pop .pointer 1, .push .temp 0, .pop .that 0] 0 :=
      (Vm.carries_pop 1 _ _).append ((Vm.carries_pop 0 _ _).append
        ((Vm.carries_push 0 _ _).append (Vm.carries_pop 0 _ _)))
    rw [Statement.code]
    exact ((index.carries hk.2.1 0).append (Context.carries_pushName hk.1 1)).append
      ((Vm.carries_arith 0 .add).append ((value.carries hk.2.2 1).append hstore))
  | branch condition body otherwise =>
    rw [Statement.variables, List.forall_mem_append, List.forall_mem_append] at hk
    rw [Statement.code]
    exact (((((condition.carries hk.1 0).append (carries_decide _)).append
      (Statement.carries_list body hk.2.1 _ _)).append
      ((carries_goto _).append (carries_label _))).append
      (Statement.carries_otherwise otherwise hk.2.2 _ _)).append (carries_label _)
  | loop condition body =>
    rw [Statement.variables, List.forall_mem_append] at hk
    rw [Statement.code]
    exact (carries_label _).append ((((condition.carries hk.1 0).append (carries_decide _)).append
      (Statement.carries_list body hk.2 _ _)).append ((carries_goto _).append (carries_label _)))
  | perform f =>
    rw [Statement.variables] at hk
    rw [Statement.code]
    exact (f.carries hk 0).append (Vm.carries_pop 0 _ _)
  | «return» value =>
    cases value with
    | none =>
      rw [Statement.code]
      exact c.carries_returnCode 0
    | some e =>
      rw [Statement.variables] at hk
      rw [Statement.code]
      exact (e.carries hk 0).append (c.carries_returnCode 1)

theorem Statement.carries_list (body : List Statement)
    (hk : ∀ name ∈ Statement.listVariables body, (c.resolve name).isSome) (m n : Nat) :
    Carries 0 (Statement.listCode c m n body) 0 := by
  cases body with
  | nil =>
    rw [Statement.listCode]
    rfl
  | cons st rest =>
    rw [Statement.listVariables, List.forall_mem_append] at hk
    rw [Statement.listCode]
    exact (st.carries hk.1 m n).append (Statement.carries_list rest hk.2 _ _)

theorem Statement.carries_otherwise (otherwise : Option (List Statement))
    (hk : ∀ name ∈ Statement.otherwiseVariables otherwise, (c.resolve name).isSome) (m n : Nat) :
    Carries 0 (Statement.otherwiseCode c m n otherwise) 0 := by
  cases otherwise with
  | none =>
    rw [Statement.otherwiseCode]
    rfl
  | some body =>
    rw [Statement.otherwiseVariables] at hk
    rw [Statement.otherwiseCode]
    exact Statement.carries_list body hk m n

end

end Statements

/-! ## Where the code of a statement lies -/

/-- **A stretch of a block**: a statement, its commands, and those of the block in front. -/
structure Stretch where
  statement : Statement
  before : List Command
  code : List Command

namespace Stretch

/-- The position of the first command. -/
def first (s : Stretch) : Nat :=
  s.before.length

/-- The position behind the last command. -/
def behind (s : Stretch) : Nat :=
  s.before.length + s.code.length

end Stretch

mutual

/-- The stretches inside a statement, behind the commands `before`. -/
def Statement.inside (c : Context) (m n : Nat) (before : List Command) :
    Statement → List Stretch
  | .branch condition body otherwise =>
    let start := before ++ (condition.code c ++ [.arith .not, .ifGoto (ifLabel m)])
    Statement.stretches c (m + 2) n start body ++
      Statement.otherwiseStretches c (m + 2 + Statement.listConditions body)
        (n + Statement.listLoops body)
        (start ++ (Statement.listCode c (m + 2) n body
          ++ [.goto (ifLabel (m + 1)), .label (ifLabel m)])) otherwise
  | .loop condition body =>
    Statement.stretches c m (n + 2) (before ++ .label (whileLabel n) ::
      (condition.code c ++ [.arith .not, .ifGoto (whileLabel (n + 1))])) body
  | .assign .. | .assignElement .. | .perform _ | .return _ => []

/-- **The stretches of statements** in sequence, with all statements inside them. -/
def Statement.stretches (c : Context) (m n : Nat) (before : List Command) :
    List Statement → List Stretch
  | [] => []
  | st :: rest =>
    ⟨st, before, st.code c m n⟩ :: (st.inside c m n before ++
      Statement.stretches c (m + st.conditions) (n + st.loops) (before ++ st.code c m n) rest)

/-- The stretches of a second branch. -/
def Statement.otherwiseStretches (c : Context) (m n : Nat) (before : List Command) :
    Option (List Statement) → List Stretch
  | none => []
  | some body => Statement.stretches c m n before body

end

/-- **A stretch lies in code** behind `before`: it is the code of its statement, its variables are
declared, and nothing is on the stack where it starts. -/
structure Stretch.Lies (c : Context) (before code : List Command) (s : Stretch) : Prop where
  known : ∀ name ∈ s.statement.variables, (c.resolve name).isSome
  code_eq : ∃ m n, s.code = s.statement.code c m n
  initial : s.before ++ s.code <+: before ++ code
  carries : Carries 0 before 0 → Carries 0 s.before 0

namespace Stretch.Lies

variable {c : Context} {before code : List Command} {s : Stretch}

/-- Code in front and code behind move a stretch. -/
theorem around {front : List Command} (h : s.Lies c (before ++ front) code)
    (hf : Carries 0 front 0) (more : List Command) :
    s.Lies c before (front ++ (code ++ more)) where
  known := h.known
  code_eq := h.code_eq
  initial := h.initial.trans ⟨more, by simp⟩
  carries hb := h.carries (hb.append hf)

end Stretch.Lies

section Lies

variable {c : Context}

mutual

theorem Statement.lies_inside (st : Statement)
    (hk : ∀ name ∈ st.variables, (c.resolve name).isSome) (m n : Nat) (before : List Command) :
    ∀ s ∈ st.inside c m n before, s.Lies c before (st.code c m n) := by
  cases st with
  | branch condition body otherwise =>
    rw [Statement.variables, List.forall_mem_append, List.forall_mem_append] at hk
    have hfront : Carries 0 (condition.code c ++ [.arith .not, .ifGoto (ifLabel m)]) 0 :=
      (condition.carries hk.1 0).append (carries_decide _)
    have hmiddle : Carries 0 (Statement.listCode c (m + 2) n body
        ++ [.goto (ifLabel (m + 1)), .label (ifLabel m)]) 0 :=
      (Statement.carries_list body hk.2.1 _ _).append ((carries_goto _).append (carries_label _))
    rw [Statement.inside, List.forall_mem_append]
    constructor
    · intro s hs
      have h := (Statement.lies_stretches body hk.2.1 _ _ _ s hs).around hfront
        ([.goto (ifLabel (m + 1)), .label (ifLabel m)]
          ++ (Statement.otherwiseCode c (m + 2 + Statement.listConditions body)
            (n + Statement.listLoops body) otherwise ++ [.label (ifLabel (m + 1))]))
      simpa [Statement.code] using h
    · intro s hs
      have h := ((Statement.lies_otherwise otherwise hk.2.2 _ _ _ s hs).around hmiddle
        [.label (ifLabel (m + 1))]).around hfront []
      simpa [Statement.code] using h
  | loop condition body =>
    rw [Statement.variables, List.forall_mem_append] at hk
    have hfront : Carries 0 (.label (whileLabel n) ::
        (condition.code c ++ [.arith .not, .ifGoto (whileLabel (n + 1))])) 0 :=
      (carries_label _).append ((condition.carries hk.1 0).append (carries_decide _))
    intro s hs
    rw [Statement.inside] at hs
    have h := (Statement.lies_stretches body hk.2 _ _ _ s hs).around hfront
      [.goto (whileLabel n), .label (whileLabel (n + 1))]
    simpa [Statement.code] using h
  | _ =>
    rw [Statement.inside]
    exact nofun

/-- **Every statement has its stretch of the code.** -/
theorem Statement.lies_stretches (body : List Statement)
    (hk : ∀ name ∈ Statement.listVariables body, (c.resolve name).isSome) (m n : Nat)
    (before : List Command) : ∀ s ∈ Statement.stretches c m n before body,
      s.Lies c before (Statement.listCode c m n body) := by
  cases body with
  | nil =>
    rw [Statement.stretches]
    exact nofun
  | cons st rest =>
    rw [Statement.listVariables, List.forall_mem_append] at hk
    rw [Statement.stretches, List.forall_mem_cons, List.forall_mem_append, Statement.listCode]
    refine ⟨⟨hk.1, ⟨m, n, rfl⟩, ⟨_, List.append_assoc _ _ _⟩, id⟩, fun s hs => ?_, fun s hs => ?_⟩
    · have h : s.Lies c (before ++ []) (st.code c m n) := by
        rw [List.append_nil]
        exact st.lies_inside hk.1 m n before s hs
      exact h.around rfl _
    · have h := (Statement.lies_stretches rest hk.2 _ _ _ s hs).around (st.carries hk.1 m n) []
      rwa [List.append_nil] at h

theorem Statement.lies_otherwise (otherwise : Option (List Statement))
    (hk : ∀ name ∈ Statement.otherwiseVariables otherwise, (c.resolve name).isSome) (m n : Nat)
    (before : List Command) : ∀ s ∈ Statement.otherwiseStretches c m n before otherwise,
      s.Lies c before (Statement.otherwiseCode c m n otherwise) := by
  cases otherwise with
  | none =>
    rw [Statement.otherwiseStretches]
    exact nofun
  | some body =>
    rw [Statement.otherwiseVariables] at hk
    rw [Statement.otherwiseStretches, Statement.otherwiseCode]
    exact Statement.lies_stretches body hk m n before

end

end Lies

/-! ## Returns -/

section Returns

variable {c : Context}

/-- A position counted from the front of a block, behind more commands. -/
theorem position_append (before front : List Command) (i : Nat) :
    before.length + (front.length + i) + 1 = (before ++ front).length + i + 1 := by
  rw [List.length_append, ← Nat.add_assoc before.length]

theorem ne_return_of_issues {code : List Command} (h : ∀ command ∈ code, c.Issues command)
    {i : Nat} : code[i]? ≠ some .return :=
  fun hi => (h _ (List.mem_of_getElem? hi)).ne_return rfl

/-- **A return statement ends in a return**, in front of which stand its value and the value that a
subroutine without one returns. -/
theorem Statement.code_return (value : Option Expression)
    (hk : ∀ name ∈ (Statement.return value).variables, (c.resolve name).isSome) (m n : Nat) :
    ∃ xs, (Statement.return value).code c m n = xs ++ [.return] ∧
      Carries 0 xs (value.isSome.toNat + c.returnsVoid.toNat) := by
  have hvoid (d : Nat) : ∃ xs, c.returnCode = xs ++ [.return] ∧
      Carries d xs (d + c.returnsVoid.toNat) := by
    rw [Context.returnCode]
    cases c.returnsVoid with
    | false => exact ⟨[], rfl, rfl⟩
    | true => exact ⟨[.push .constant 0], rfl, Vm.carries_push d _ _⟩
  cases value with
  | none =>
    rw [Statement.code]
    exact hvoid 0
  | some e =>
    rw [Statement.variables] at hk
    obtain ⟨xs, hxs, hc⟩ := hvoid 1
    rw [Statement.code, hxs, ← List.append_assoc]
    exact ⟨_, rfl, (e.carries hk 0).append hc⟩

theorem Context.return_returnCode {i : Nat} (h : c.returnCode[i]? = some .return) :
    i + 1 = c.returnCode.length := by
  rw [Context.returnCode] at h ⊢
  split at h
  · rw [if_pos ‹_›]
    rcases i with _ | _ | i
    · cases h
    · rfl
    · cases h
  · rw [if_neg ‹_›]
    rcases i with _ | i
    · rfl
    · cases h

mutual

theorem Statement.return_inside (st : Statement) (m n : Nat) (before : List Command) {i : Nat}
    (h : (st.code c m n)[i]? = some .return) :
    st.isReturn = true ∧ i + 1 = (st.code c m n).length ∨
      ∃ s ∈ st.inside c m n before, s.statement.isReturn = true ∧
        before.length + i + 1 = s.behind := by
  cases st with
  | assign name value =>
    rw [Statement.code] at h
    exact absurd h (ne_return_of_issues
      (List.forall_mem_append.2 ⟨value.issues c, c.issues_popName name⟩))
  | assignElement array index value =>
    rw [Statement.code] at h
    refine absurd h (ne_return_of_issues (c := c) ?_)
    simp only [List.forall_mem_append, List.forall_mem_cons]
    exact ⟨⟨index.issues c, c.issues_pushName array⟩, .arith _, value.issues c,
      .place (by decide), .place (by decide), .place (by decide), .place (by decide), nofun⟩
  | branch condition body otherwise =>
    right
    rw [Statement.inside]
    rw [Statement.code, List.append_assoc, List.append_assoc, List.append_assoc] at h
    obtain h | ⟨j, rfl, hj⟩ := getElem?_append_eq_some h
    · obtain h | ⟨j, -, h⟩ := getElem?_append_eq_some h
      · exact absurd h (ne_return_of_issues (condition.issues c))
      · exact absurd (List.mem_of_getElem? h) (by simp)
    obtain hj | ⟨k, rfl, hk⟩ := getElem?_append_eq_some hj
    · obtain ⟨s, hs, hr, hi⟩ := Statement.return_stretches body (m + 2) n
        (before ++ (condition.code c ++ [.arith .not, .ifGoto (ifLabel m)])) hj
      exact ⟨s, List.mem_append_left _ hs, hr, (position_append _ _ _).trans hi⟩
    obtain hk | ⟨l, rfl, hl⟩ := getElem?_append_eq_some hk
    · exact absurd (List.mem_of_getElem? hk) (by simp)
    obtain hl | ⟨o, rfl, ho⟩ := getElem?_append_eq_some hl
    · obtain ⟨s, hs, hr, hi⟩ := Statement.return_otherwise otherwise _ _
        (before ++ (condition.code c ++ [.arith .not, .ifGoto (ifLabel m)])
          ++ (Statement.listCode c (m + 2) n body
            ++ [.goto (ifLabel (m + 1)), .label (ifLabel m)])) hl
      refine ⟨s, List.mem_append_right _ hs, hr, ?_⟩
      rw [← hi]
      simp only [List.length_append]
      omega
    · exact absurd (List.mem_of_getElem? ho) (by simp)
  | loop condition body =>
    right
    rw [Statement.inside]
    rw [Statement.code, ← List.cons_append, ← List.cons_append] at h
    obtain h | ⟨j, -, h⟩ := getElem?_append_eq_some h
    · obtain h | ⟨k, rfl, hk⟩ := getElem?_append_eq_some h
      · obtain h | h := List.mem_cons.1 (List.mem_of_getElem? h)
        · cases h
        · obtain h | h := List.mem_append.1 h
          · exact absurd rfl (condition.issues c _ h).ne_return
          · exact absurd h (by simp)
      · obtain ⟨s, hs, hr, hi⟩ := Statement.return_stretches body m (n + 2)
          (before ++ .label (whileLabel n) ::
            (condition.code c ++ [.arith .not, .ifGoto (whileLabel (n + 1))])) hk
        exact ⟨s, hs, hr, (position_append _ _ _).trans hi⟩
    · exact absurd (List.mem_of_getElem? h) (by simp)
  | perform f =>
    rw [Statement.code] at h
    exact absurd h (ne_return_of_issues (List.forall_mem_append.2
      ⟨f.issues c, List.forall_mem_singleton.2 (.place (by decide))⟩))
  | «return» value =>
    left
    refine ⟨rfl, ?_⟩
    cases value with
    | none =>
      rw [Statement.code] at h ⊢
      exact Context.return_returnCode h
    | some e =>
      rw [Statement.code] at h ⊢
      obtain h | ⟨j, rfl, hj⟩ := getElem?_append_eq_some h
      · exact absurd h (ne_return_of_issues (e.issues c))
      · rw [List.length_append, Nat.add_assoc, Context.return_returnCode hj]

/-- **Every return is the last command of a return statement.** -/
theorem Statement.return_stretches (body : List Statement) (m n : Nat) (before : List Command)
    {i : Nat} (h : (Statement.listCode c m n body)[i]? = some .return) :
    ∃ s ∈ Statement.stretches c m n before body, s.statement.isReturn = true ∧
      before.length + i + 1 = s.behind := by
  cases body with
  | nil =>
    rw [Statement.listCode] at h
    cases h
  | cons st rest =>
    rw [Statement.listCode] at h
    rw [Statement.stretches]
    obtain h | ⟨j, rfl, hj⟩ := getElem?_append_eq_some h
    · obtain ⟨hr, hi⟩ | ⟨s, hs, hr, hi⟩ := st.return_inside m n before h
      · exact ⟨_, List.mem_cons_self, hr, by rw [Nat.add_assoc, hi, Stretch.behind]⟩
      · exact ⟨s, List.mem_cons_of_mem _ (List.mem_append_left _ hs), hr, hi⟩
    · obtain ⟨s, hs, hr, hi⟩ := Statement.return_stretches rest _ _ (before ++ st.code c m n) hj
      exact ⟨s, List.mem_cons_of_mem _ (List.mem_append_right _ hs), hr,
        (position_append _ _ _).trans hi⟩

theorem Statement.return_otherwise (otherwise : Option (List Statement)) (m n : Nat)
    (before : List Command) {i : Nat}
    (h : (Statement.otherwiseCode c m n otherwise)[i]? = some .return) :
    ∃ s ∈ Statement.otherwiseStretches c m n before otherwise, s.statement.isReturn = true ∧
      before.length + i + 1 = s.behind := by
  cases otherwise with
  | none =>
    rw [Statement.otherwiseCode] at h
    cases h
  | some body =>
    rw [Statement.otherwiseCode] at h
    rw [Statement.otherwiseStretches]
    exact Statement.return_stretches body m n before h

end

end Returns

/-! ## Subroutines -/

namespace RoutineDecl

variable {r : RoutineDecl} {c : ClassDecl}

/-- **The stretches of a subroutine**: where the statements of its body lie in its block. -/
def stretches (r : RoutineDecl) (c : ClassDecl) (m n : Nat) : List Stretch :=
  Statement.stretches (r.context c) m n (r.prologue c) r.body

/-- **The depths of a block follow the source**: nothing is on the stack between statements, and a
return finds the value of its statement and the value that a subroutine without one returns. The
only other return is the one at the end of such a subroutine. -/
structure Balances (r : RoutineDecl) (c : ClassDecl) (block : List Command)
    (stretches : List Stretch) (depth : Nat → Nat) : Prop where
  disciplined : Vm.Disciplined block depth
  lies : ∀ s ∈ stretches, s.before ++ s.code <+: block ∧
    ∃ m n, s.code = s.statement.code (r.context c) m n
  between : ∀ s ∈ stretches, depth s.first = 0 ∧ depth s.behind = 0
  returned : ∀ s ∈ stretches, ∀ value, s.statement = .return value →
    ∃ i, i + 1 = s.behind ∧ block[i]? = some .return ∧
      depth i = value.isSome.toNat + r.returnType.isNone.toNat
  returns : ∀ i : Nat, block[i]? = some .return →
    (∃ s ∈ stretches, s.statement.isReturn = true ∧ i + 1 = s.behind) ∨
      r.returnType.isNone = true ∧ Statement.endsInReturn r.body = false ∧
        i + 1 = block.length ∧ depth i = 1

theorem carries_prologue (r : RoutineDecl) (c : ClassDecl) : Carries 0 (r.prologue c) 0 := by
  have hheader : Carries 0 [.function (qualifiedName c.name r.name) r.localCount] 0 := ⟨rfl, rfl⟩
  rw [prologue]
  refine hheader.append ?_
  cases r.kind with
  | function => rfl
  | method => exact (Vm.carries_push 0 _ _).append (Vm.carries_pop 0 _ _)
  | constructor =>
    exact (Vm.carries_push 0 _ _).append ((Vm.carries_call 0 _ 1).append (Vm.carries_pop 0 _ _))

theorem carries_epilogue (r : RoutineDecl) : Carries 0 r.epilogue 0 := by
  rw [epilogue]
  split
  · exact (Vm.carries_push 0 _ _).append ⟨trivial, rfl⟩
  · rfl

/-- The commands in front of the end of a subroutine. -/
theorem carries_body (hk : ∀ name ∈ Statement.listVariables r.body,
    ((r.context c).resolve name).isSome) (m n : Nat) :
    Carries 0 (r.prologue c ++ Statement.listCode (r.context c) m n r.body) 0 :=
  (r.carries_prologue c).append (Statement.carries_list r.body hk m n)

theorem return_prologue {i : Nat} : (r.prologue c)[i]? ≠ some .return := by
  intro h
  have := List.mem_of_getElem? h
  rw [prologue] at this
  cases hk : r.kind <;> simp [hk] at this

/-- A return behind the statements is the last command. -/
theorem return_epilogue {i : Nat} (h : r.epilogue[i]? = some .return) :
    i = 1 ∧ r.epilogue = [.push .constant 0, .return] ∧ r.returnType.isNone = true ∧
      Statement.endsInReturn r.body = false := by
  rw [epilogue] at h ⊢
  split at h
  · next hv =>
    rw [if_pos hv]
    rw [Bool.and_eq_true, Bool.not_eq_true'] at hv
    rcases i with _ | _ | i
    · cases h
    · exact ⟨rfl, rfl, hv⟩
    · cases h
  · cases h

/-- **The block of a subroutine is disciplined.** -/
theorem balances (hk : ∀ name ∈ Statement.listVariables r.body,
    ((r.context c).resolve name).isSome) (m n : Nat) :
    r.Balances c (r.code c m n) (r.stretches c m n) (Vm.depthAt (r.code c m n)) := by
  have hbody := carries_body hk m n
  have hlies : ∀ s ∈ r.stretches c m n, s.Lies (r.context c) (r.prologue c)
      (Statement.listCode (r.context c) m n r.body) :=
    Statement.lies_stretches r.body hk m n (r.prologue c)
  have hin : ∀ s ∈ r.stretches c m n, s.before ++ s.code <+: r.code c m n := fun s hs =>
    (hlies s hs).initial.trans ⟨r.epilogue, rfl⟩
  have hbefore : ∀ s ∈ r.stretches c m n, Carries 0 s.before 0 := fun s hs =>
    (hlies s hs).carries (r.carries_prologue c)
  have hcode : Carries 0 (r.code c m n) 0 := hbody.append r.carries_epilogue
  refine ⟨?_, fun s hs => ⟨hin s hs, (hlies s hs).code_eq⟩, fun s hs => ⟨?_, ?_⟩, ?_, ?_⟩
  · rw [code_eq_cons] at hcode ⊢
    exact hcode.disciplined (r.labelled_inner c m n).closed
  · exact Vm.depthAt_of_append (hbefore s hs) ((List.prefix_append _ _).trans (hin s hs))
  · obtain ⟨m', n', hs'⟩ := (hlies s hs).code_eq
    have h := (hbefore s hs).append (s.statement.carries (hlies s hs).known m' n')
    rw [← hs'] at h
    rw [Stretch.behind, ← List.length_append]
    exact Vm.depthAt_of_append h (hin s hs)
  · intro s hs value hv
    obtain ⟨m', n', hs'⟩ := (hlies s hs).code_eq
    have hknown := (hlies s hs).known
    rw [hv] at hs' hknown
    obtain ⟨xs, hxs, hc⟩ := Statement.code_return value hknown m' n'
    have hprefix : s.before ++ xs ++ [.return] <+: r.code c m n := by
      rw [List.append_assoc, ← hxs, ← hs']
      exact hin s hs
    refine ⟨(s.before ++ xs).length, ?_, ?_, ?_⟩
    · rw [Stretch.behind, hs', hxs]
      simp [Nat.add_assoc]
    · obtain ⟨rest, hrest⟩ := hprefix
      rw [← hrest]
      simp
    · exact Vm.depthAt_of_append ((hbefore s hs).append hc)
        ((List.prefix_append _ _).trans hprefix)
  · intro i hi
    rw [code] at hi
    obtain hi | ⟨k, rfl, hk⟩ := getElem?_append_eq_some hi
    · left
      obtain hi | ⟨j, rfl, hj⟩ := getElem?_append_eq_some hi
      · exact absurd hi return_prologue
      · exact Statement.return_stretches r.body m n (r.prologue c) hj
    · obtain ⟨rfl, hepilogue, hvoid, hends⟩ := return_epilogue hk
      refine .inr ⟨hvoid, hends, ?_, ?_⟩
      · simp only [code, hepilogue, List.length_append, List.length_cons, List.length_nil]
      · have h := hbody.append (Vm.carries_push 0 .constant 0)
        refine (congrArg _ (List.length_append).symm).trans (Vm.depthAt_of_append h ?_)
        rw [code, hepilogue]
        exact ⟨[.return], by simp⟩

end RoutineDecl

/-! ## Sources -/

/-- **What is compiled keeps a stack discipline**: in the block of each subroutine, depths at all
positions agree and follow the statements of the source. -/
theorem compileText_disciplined {source text : String} (h : compileText source = .ok text) :
    ∃ c : ClassDecl, Parses source c ∧ text = Vm.programText c.code ∧
      List.Forall₂ (fun r block => ∃ m n depth, block = r.code c m n ∧
        r.Balances c block (r.stretches c m n) depth) c.routines (Vm.blocks c.code) := by
  obtain ⟨c, hp, hd, rfl⟩ := compileText_eq_ok_iff.1 h
  refine ⟨c, hp, rfl, RoutineDecl.forall₂_blocks (fun r hr m n => ?_) 0 0⟩
  exact ⟨m, n, _, rfl, RoutineDecl.balances (hp.declared_iff.1 hd r hr) m n⟩

/-- A method without a value that returns one inside a condition inside a loop, and a call among the
arguments of a call. -/
theorem compileText_disciplined_nested :
    let source := "class A\x7bstatic int s;method void f(int x)\x7bwhile(x>0)\x7bif(x=1)"
      ++ "\x7breturn s+1;\x7dlet x=x-g(x,A.h(2));\x7d\x7d\x7d"
    let text := "function A.f 0\npush argument 0\npop pointer 0\nlabel WHILE_0\npush argument 1\n"
      ++ "push constant 0\ngt\nnot\nif-goto WHILE_1\npush argument 1\npush constant 1\neq\nnot\n"
      ++ "if-goto IF_0\npush static 0\npush constant 1\nadd\npush constant 0\nreturn\n"
      ++ "goto IF_1\nlabel IF_0\nlabel IF_1\npush argument 1\npush pointer 0\npush argument 1\n"
      ++ "push constant 2\ncall A.h 1\ncall A.g 3\nsub\npop argument 1\ngoto WHILE_0\n"
      ++ "label WHILE_1\npush constant 0\nreturn\n"
    compileText source = .ok text ∧ ∃ c : ClassDecl, Parses source c ∧
      text = Vm.programText c.code ∧
      List.Forall₂ (fun r block => ∃ m n depth, block = r.code c m n ∧
        r.Balances c block (r.stretches c m n) depth) c.routines (Vm.blocks c.code) := by
  intro source text
  have h : compileText source = .ok text := by decide +kernel
  exact ⟨h, compileText_disciplined h⟩

end JackStack
