import JackStack.Proofs.Acceptance
import JackStack.Proofs.Cells

/-!
# Proofs/Footprint — what the code of an expression reads and writes

An expression without calls and string constants is evaluated over cells, from the left to the right
and without regard to the machine. The evaluation tells which cells it reads, those of variables and
of elements of arrays, and how it ends: with a value, or with a division by zero.

Its code keeps operands on top of the stack, so many at most as the expression is deep. If no cell
that is read is among these, nor a register, the code does what the evaluation says, wherever the
stack and the variables lie, and changes nothing but the operands, the stack pointer and the base of
arrays.

* `Expression.evaluate` — the evaluation of an expression over cells.
* `Expression.depth` — how many operands lie on the stack at most.
* `Expression.realizes` — the code of an expression does what its evaluation says.
* `Session.expression_footprint` — so does what the compiler writes for it.
-/

namespace JackStack

open Machine (Yields Alters Leads Fails)
open Vm (Command)

/-! ## Evaluation over cells -/

/-- **How an evaluation ends.** It is undefined for a call, a string constant and a name without a
declaration. -/
inductive Ending where
  | value (x : Int16)
  | dividesByZero
  | undefined
  deriving DecidableEq, Repr

/-- **An evaluation over cells**: those that it reads, in order, and how it ends. -/
structure Evaluation where
  read : List Nat
  ending : Ending
  deriving DecidableEq, Repr

namespace Evaluation

/-- A value is known without reading. -/
def known (x : Int16) : Evaluation :=
  ⟨[], .value x⟩

/-- A cell is read. -/
def ofCell (memory : Nat → Int16) (a : Nat) : Evaluation :=
  ⟨[a], .value (memory a)⟩

/-- Nothing is evaluated. -/
def undefined : Evaluation :=
  ⟨[], .undefined⟩

/-- **An evaluation goes on** with its value, if it has one. -/
def andThen (v : Evaluation) (f : Int16 → Evaluation) : Evaluation :=
  match v.ending with
  | .value x => ⟨v.read ++ (f x).read, (f x).ending⟩
  | .dividesByZero | .undefined => v

end Evaluation

/-- **The cell of a variable**: behind the base of its segment, or among the statics. -/
def Variable.cell (v : Variable) (statics : Nat) (memory : Nat → Int16) : Nat :=
  match v.kind with
  | .local => (memory Layout.lcl).toUInt16.toNat + v.index
  | .argument => (memory Layout.arg).toUInt16.toNat + v.index
  | .field => (memory Layout.this).toUInt16.toNat + v.index
  | .static => v.index + statics

/-- The evaluation of a name. -/
def Context.evaluate (c : Context) (statics : Nat) (memory : Nat → Int16) (name : String) :
    Evaluation :=
  match c.resolve name with
  | some v => .ofCell memory (v.cell statics memory)
  | none => .undefined

/-- The evaluation of an operator between values. -/
def BinaryOp.evaluate (op : BinaryOp) (x y : Int16) : Evaluation :=
  match op.apply x y with
  | some z => .known z
  | none => ⟨[], .dividesByZero⟩

/-- The value of a constant. -/
def Constant.evaluate (memory : Nat → Int16) : Constant → Evaluation
  | .true => .known (-1)
  | .false | .null => .known 0
  | .this => .known (memory Layout.this)

section Evaluate

variable (c : Context) (statics : Nat) (memory : Nat → Int16)

mutual

/-- **The evaluation of a term.** An element lies at the sum of the array and the index. -/
def Term.evaluate : Term → Evaluation
  | .integer digits => .known (Int16.ofNat (Text.Decimal.value digits.toList))
  | .text _ | .call _ => .undefined
  | .constant k => k.evaluate memory
  | .variable name => c.evaluate statics memory name
  | .element array index =>
    (c.evaluate statics memory array).andThen fun base =>
      index.evaluate.andThen fun i => .ofCell memory (base + i).toUInt16.toNat
  | .group inner => inner.evaluate
  | .unary op operand => operand.evaluate.andThen fun x => .known (op.apply x)

/-- **The evaluation of an expression**: operators apply from the left to the right. -/
def Expression.evaluate : Expression → Evaluation
  | .chain first more => first.evaluate.andThen fun x => Expression.moreEvaluate x more

/-- The evaluation of operators, each with its term, behind a value. -/
def Expression.moreEvaluate (x : Int16) : List (BinaryOp × Term) → Evaluation
  | [] => .known x
  | (op, t) :: rest =>
    t.evaluate.andThen fun y => (op.evaluate x y).andThen fun z => Expression.moreEvaluate z rest

end

end Evaluate

mutual

/-- **How many operands of a term lie on the stack** at most. -/
def Term.depth : Term → Nat
  | .integer _ | .text _ | .constant _ | .variable _ | .call _ => 1
  | .element _ index => 1 + index.depth
  | .group inner => inner.depth
  | .unary _ operand => operand.depth

/-- **How many operands of an expression lie on the stack** at most. -/
def Expression.depth : Expression → Nat
  | .chain first more => max first.depth (Expression.moreDepth more)

/-- How many operands lie on the stack at most, the value in front of operators among them. -/
def Expression.moreDepth : List (BinaryOp × Term) → Nat
  | [] => 1
  | (_, t) :: rest => max (1 + t.depth) (Expression.moreDepth rest)

end

mutual

theorem Term.one_le_depth (t : Term) : 1 ≤ t.depth := by
  cases t with
  | integer | text | constant | «variable» | call => exact Nat.le_refl 1
  | element _ index => exact Nat.le_add_right 1 _
  | group inner => exact inner.one_le_depth
  | unary _ operand => exact operand.one_le_depth

theorem Expression.one_le_depth (e : Expression) : 1 ≤ e.depth := by
  obtain ⟨first, more⟩ := e
  exact Nat.le_trans first.one_le_depth (Nat.le_max_left _ _)

end

/-- **Limits of expressions without calls and string constants.** -/
def Limits.inert : Limits where
  name _ := true
  text _ := false
  call _ := false

/-! ## Evaluations that a machine realizes -/

/-- **The machine does what an evaluation says**, in so many commands: it leaves the value at `sp`,
on top of the stack, and changes cells from there on and below `high` only; or it comes to the
fault. -/
def Evaluation.Realized (v : Evaluation) (n high sp : Nat) (m : Machine) : Prop :=
  match v.ending with
  | .value x => ∃ m', Leads n sp high (sp + 1) m m' ∧ m'.peek sp = x
  | .dividesByZero => Fails m .divisionByZero
  | .undefined => False

namespace Evaluation

variable {v : Evaluation} {f : Int16 → Evaluation} {x : Int16} {n k high sp top a : Nat}
  {m : Machine}

theorem andThen_of_value (h : v.ending = .value x) :
    v.andThen f = ⟨v.read ++ (f x).read, (f x).ending⟩ := by
  rw [andThen, h]

theorem mem_read_andThen (h : a ∈ v.read) : a ∈ (v.andThen f).read := by
  rw [andThen]
  split
  · exact List.mem_append_left _ h
  · exact h
  · exact h

theorem mem_read_andThen_of_value (hv : v.ending = .value x) (h : a ∈ (f x).read) :
    a ∈ (v.andThen f).read := by
  rw [andThen_of_value hv]
  exact List.mem_append_right _ h

/-- An evaluation may use cells above those that its continuation leaves a value in. -/
theorem Realized.andThen (h : v.Realized n high top m) (hle : sp ≤ top)
    (hf : ∀ x m', v.ending = .value x → Leads n top high (top + 1) m m' → m'.peek top = x →
      (f x).Realized k high sp m') : (v.andThen f).Realized (n + k) high sp m := by
  rw [Realized] at h
  cases hv : v.ending with
  | value x =>
    rw [hv] at h
    obtain ⟨m₁, h₁, hx⟩ := h
    have hrest := hf x m₁ hv h₁ hx
    rw [andThen_of_value hv, Realized]
    rw [Realized] at hrest
    cases hw : (f x).ending with
    | value y =>
      rw [hw] at hrest
      obtain ⟨m₂, h₂, hy⟩ := hrest
      exact ⟨m₂, (h₁.mono hle (Nat.le_refl _)).trans h₂, hy⟩
    | dividesByZero =>
      rw [hw] at hrest
      exact h₁.fails hrest
    | undefined =>
      rw [hw] at hrest
      exact hrest
  | dividesByZero =>
    rw [hv] at h
    rwa [Evaluation.andThen, hv, Realized, hv]
  | undefined =>
    rw [hv] at h
    exact h.elim

end Evaluation

/-- **A cell may be read**: it is no register, and none that operands take. -/
def Readable (low high a : Nat) : Prop :=
  Layout.that < a ∧ a < Layout.cells ∧ (a < low ∨ high ≤ a)

instance (low high a : Nat) : Decidable (Readable low high a) :=
  inferInstanceAs (Decidable (_ ∧ _ ∧ _))

/-- **A machine is at work** with the stack pointer at `sp`, and has changed operands only. -/
structure Working (m₀ : Machine) (low high sp : Nat) (m : Machine) : Prop where
  stack : Layout.stack ≤ low
  cells : high < Layout.cells
  alters : Alters low high m₀ m
  above : low ≤ sp
  sp : m.peek Layout.sp = Int16.ofNat sp

namespace Working

variable {m₀ m m' : Machine} {low high sp sp' n a : Nat}

theorem stack_le (h : Working m₀ low high sp m) : Layout.stack ≤ sp :=
  Nat.le_trans h.stack h.above

/-- It goes on to work. -/
theorem leads {start : Nat} (h : Working m₀ low high sp m) (hm : Leads n start high sp' m m')
    (hlow : low ≤ start) (hle : start ≤ sp') : Working m₀ low high sp' m' :=
  ⟨h.stack, h.cells, h.alters.trans (hm.alters.mono hlow (Nat.le_refl _)),
    Nat.le_trans hlow hle, hm.sp⟩

/-- Cells that may be read, and the bases of segments, are as they were. -/
theorem peek_eq (h : Working m₀ low high sp m) (ha : Readable low high a) :
    m.peek a = m₀.peek a := by
  obtain ⟨hthat, -, hout⟩ := ha
  exact h.alters.peek_eq (by rintro rfl; cases hthat) (Nat.ne_of_gt hthat) hout

theorem peek_base (h : Working m₀ low high sp m) (h₀ : a ≠ Layout.sp) (ha : a < Layout.that) :
    m.peek a = m₀.peek a := by
  have hthat : Layout.that ≤ Layout.stack := by decide
  exact h.alters.peek_eq h₀ (Nat.ne_of_lt ha)
    (.inl (Nat.lt_of_lt_of_le ha (Nat.le_trans hthat h.stack)))

/-- The code is what it was. -/
theorem has (h : Working m₀ low high sp m) {l : Linking} {place : Nat} {command : Command}
    (hp : m₀.Has l place command) : m.Has l place command := by
  obtain ⟨i, hi, hcode⟩ := hp
  exact ⟨i, hi, h.alters.code ▸ hcode⟩

end Working

/-! ## Expressions -/

/-- **What an operator does with two operands**: a quotient by zero is a fault. -/
def BinaryOp.operate (op : BinaryOp) (x y : Int16) : Exec Int16 :=
  match op.apply x y with
  | some z => pure z
  | none => throw .divisionByZero

section Realizes

variable {m₀ m : Machine} {l : Linking} {c : Context} {low high sp : Nat} {x y z : Int16}

/-- A value that is pushed is known. -/
theorem Evaluation.realized_known (hd : sp + 1 ≤ high)
    (h : ∃ m', Leads 1 sp (sp + 1) (sp + 1) m m' ∧ m'.peek sp = x) :
    (Evaluation.known x).Realized 1 high sp m := by
  obtain ⟨m', hm, hx⟩ := h
  exact ⟨m', hm.mono (Nat.le_refl _) hd, hx⟩

theorem UnaryOp.realizes (op : UnaryOp) (hp : m₀.Has l m.pc op.command)
    (h : Working m₀ low high (sp + 1) m) (hlow : low ≤ sp) (hd : sp + 1 ≤ high)
    (hx : m.peek sp = x) : (Evaluation.known (op.apply x)).Realized 1 high sp m := by
  have hstack := Nat.le_trans h.stack hlow
  have hlt := Nat.lt_of_le_of_lt hd h.cells
  have hhas := h.has hp
  subst hx
  cases op with
  | negate =>
    exact Evaluation.realized_known hd (Leads.unary hstack rfl (hhas.code rfl) h.sp hlt)
  | complement =>
    exact Evaluation.realized_known hd (Leads.unary hstack rfl (hhas.code rfl) h.sp hlt)

/-- The instruction of an operator, one of arithmetic or a call of the library. -/
theorem BinaryOp.executes (op : BinaryOp) (l : Linking) :
    ∃ i, Machine.link l.labels l.statics l.function op.command = .ok i ∧
      Machine.execute i = do
        Machine.push (← Machine.onOperands op.operate)
        return false := by
  cases op with
  | multiply => exact ⟨_, rfl, Machine.execute_native rfl 2⟩
  | divide =>
    refine ⟨_, rfl, (Machine.execute_native rfl 2).trans ?_⟩
    have hop : BinaryOp.operate .divide = fun x y =>
        if y = 0 then throw .divisionByZero else pure (x / y) := by
      funext x y
      by_cases hy : y = 0
      · simp only [BinaryOp.operate, BinaryOp.apply, if_pos hy]
      · simp only [BinaryOp.operate, BinaryOp.apply, if_neg hy]
    rw [hop]
    rfl
  | less => exact ⟨_, rfl, Machine.execute_arith (f := fun x y => Machine.truth (x < y)) rfl⟩
  | greater => exact ⟨_, rfl, Machine.execute_arith (f := fun x y => Machine.truth (y < x)) rfl⟩
  | equal => exact ⟨_, rfl, Machine.execute_arith (f := fun x y => Machine.truth (x = y)) rfl⟩
  | add | subtract | and | or => exact ⟨_, rfl, Machine.execute_arith rfl⟩

theorem BinaryOp.realizes (op : BinaryOp) (hp : m₀.Has l m.pc op.command)
    (h : Working m₀ low high (sp + 2) m) (hlow : low ≤ sp) (hd : sp + 2 ≤ high)
    (hx : m.peek sp = x) (hy : m.peek (sp + 1) = y) : (op.evaluate x y).Realized 1 high sp m := by
  have hstack := Nat.le_trans h.stack hlow
  have hlt := Nat.lt_of_le_of_lt hd h.cells
  obtain ⟨i, hi, he⟩ := op.executes l
  have hcode := (h.has hp).code hi
  subst hx hy
  cases hz : op.apply (m.peek sp) (m.peek (sp + 1)) with
  | some z =>
    rw [BinaryOp.evaluate, hz]
    refine Evaluation.realized_known (by omega) (Leads.binary hstack hcode he ?_ h.sp hlt)
    intro m'
    rw [BinaryOp.operate, hz]
    exact Yields.pure z
  | none =>
    rw [BinaryOp.evaluate, hz]
    refine Machine.fails_binary hstack hcode he ?_ h.sp hlt
    intro m'
    rw [BinaryOp.operate, hz]
    rfl

theorem Working.push_constant {index : Nat} (h : Working m₀ low high sp m) (hd : sp + 1 ≤ high)
    (hp : m₀.Has l m.pc (.push .constant index)) :
    (Evaluation.known (Int16.ofNat index)).Realized 1 high sp m :=
  Evaluation.realized_known hd
    (Leads.push_constant h.stack_le ((h.has hp).code rfl) h.sp (Nat.lt_of_le_of_lt hd h.cells))

theorem Constant.realizes (k : Constant) (hp : m₀.Lies l m.pc k.code)
    (h : Working m₀ low high sp m) (hd : sp + 1 ≤ high) :
    (k.evaluate m₀.peek).Realized k.code.length high sp m := by
  cases k with
  | «true» =>
    refine (h.push_constant hd hp.1).andThen (Nat.le_refl sp)
      (f := fun x => .known (UnaryOp.negate.apply x)) fun x m' _ hm hx => ?_
    exact UnaryOp.realizes .negate (hm.pc ▸ hp.2.1) (h.leads hm h.above (Nat.le_succ _)) h.above
      hd hx
  | «false» | null => exact h.push_constant hd hp.1
  | this =>
    have hthis : m.peek Layout.this = m₀.peek Layout.this := h.peek_base (by decide) (by decide)
    rw [Constant.evaluate, ← hthis]
    exact Evaluation.realized_known hd
      (Leads.push_cell h.stack_le ((h.has hp.1).code rfl) (by simp) (Yields.pure _) (by decide) h.sp
        (Nat.lt_of_le_of_lt hd h.cells))

/-- **A cell that may be read is pushed.** -/
theorem Working.push_cell {segment : Vm.Segment} {index a : Nat} (h : Working m₀ low high sp m)
    (hd : sp + 1 ≤ high) (hcode : m.code[m.pc]? = some (.push segment index))
    (hs : segment ≠ .constant) (ha : Yields (Machine.address segment index) m.next a m.next)
    (hr : Readable low high a) : (Evaluation.ofCell m₀.peek a).Realized 1 high sp m := by
  obtain ⟨m', hm, hx⟩ :=
    Leads.push_cell h.stack_le hcode hs ha hr.2.1 h.sp (Nat.lt_of_le_of_lt hd h.cells)
  exact ⟨m', hm.mono (Nat.le_refl _) hd, hx.trans (h.peek_eq hr)⟩

theorem Variable.realizes (v : Variable) (hp : m₀.Has l m.pc v.push)
    (h : Working m₀ low high sp m) (hd : sp + 1 ≤ high)
    (hr : Readable low high (v.cell l.statics m₀.peek)) :
    (Evaluation.ofCell m₀.peek (v.cell l.statics m₀.peek)).Realized 1 high sp m := by
  have hhas := h.has hp
  obtain ⟨type, kind, index⟩ := v
  cases kind with
  | «local» | argument | field =>
    exact h.push_cell hd (hhas.code rfl) (by rintro ⟨⟩)
      (Yields.indexed (by decide) (h.peek_base (by decide) (by decide))) hr
  | static =>
    have hsize : Machine.addSize index l.statics = .ok (index + l.statics) := by
      rw [Machine.addSize, if_pos]
      exact Nat.lt_trans hr.2.1 (by decide)
    have hcode : m.code[m.pc]? = some (.push .static (index + l.statics)) := by
      refine hhas.code ?_
      change (Machine.addSize index _ >>= _) = _
      rw [hsize]
      rfl
    exact h.push_cell hd hcode (by simp) (Yields.pure _) hr

theorem Context.realizes {name : String} (hp : m₀.Lies l m.pc (c.pushName name))
    (hk : (c.resolve name).isSome) (h : Working m₀ low high sp m) (hd : sp + 1 ≤ high)
    (hr : ∀ a ∈ (c.evaluate l.statics m₀.peek name).read, Readable low high a) :
    (c.evaluate l.statics m₀.peek name).Realized (c.pushName name).length high sp m := by
  obtain ⟨v, hv⟩ := Option.isSome_iff_exists.1 hk
  rw [Context.pushName, hv] at hp ⊢
  rw [Context.evaluate, hv] at hr ⊢
  exact v.realizes hp.1 h hd (hr _ (List.mem_singleton_self _))

/-- **The sum of two operands is the address of an element**, which takes their place. -/
theorem Working.push_element {base i : Int16}
    (hp : m₀.Lies l m.pc [.arith .add, .pop .pointer 1, .push .that 0])
    (h : Working m₀ low high (sp + 2) m) (hlow : low ≤ sp) (hd : sp + 2 ≤ high)
    (hbase : m.peek sp = base) (hi : m.peek (sp + 1) = i)
    (hr : Readable low high (base + i).toUInt16.toNat) :
    (Evaluation.ofCell m₀.peek (base + i).toUInt16.toNat).Realized 3 high sp m := by
  have hstack := Nat.le_trans h.stack hlow
  have hlt := Nat.lt_of_le_of_lt hd h.cells
  obtain ⟨m₁, h₁, hsum⟩ := BinaryOp.realizes .add hp.1 h hlow hd hbase hi
  have hw₁ := h.leads h₁ hlow (Nat.le_succ _)
  obtain ⟨m₂, h₂, hthat⟩ :=
    Leads.pop_array hstack ((hw₁.has (h₁.pc ▸ hp.2.1)).code rfl) h₁.sp (by omega)
  have hw₂ := hw₁.leads (h₂.mono (Nat.le_refl _) (by omega)) hlow (Nat.le_refl _)
  have hpc : m₂.pc = m.pc + 1 + 1 := by rw [h₂.pc, h₁.pc]
  have hcode : m₂.code[m₂.pc]? = some (.push .that 0) := (hw₂.has (hpc ▸ hp.2.2.1)).code rfl
  obtain ⟨m₃, h₃, hx⟩ := hw₂.push_cell (by omega) hcode (by simp)
    (Yields.indexed (by decide) (hthat.trans hsum)) hr
  exact ⟨m₃, (h₁.trans (h₂.mono (Nat.le_refl _) (by omega))).trans h₃, hx⟩

mutual

/-- **The code of a term does what its evaluation says.** -/
theorem Term.realizes (t : Term) {m : Machine} {sp : Nat} (hw : t.within .inert = true)
    (hk : ∀ name ∈ t.variables, (c.resolve name).isSome) (hp : m₀.Lies l m.pc (t.code c))
    (h : Working m₀ low high sp m) (hd : sp + t.depth ≤ high)
    (hr : ∀ a ∈ (t.evaluate c l.statics m₀.peek).read, Readable low high a) :
    (t.evaluate c l.statics m₀.peek).Realized (t.code c).length high sp m := by
  cases t with
  | integer digits =>
    rw [Term.code] at hp ⊢
    rw [Term.evaluate]
    exact h.push_constant hd hp.1
  | text body => cases hw
  | constant k =>
    rw [Term.code] at hp ⊢
    rw [Term.evaluate]
    exact k.realizes hp h hd
  | «variable» name =>
    rw [Term.code] at hp ⊢
    rw [Term.evaluate] at hr ⊢
    exact Context.realizes hp (hk name (List.mem_singleton_self _)) h hd hr
  | element array index =>
    rw [Term.within, Bool.and_eq_true] at hw
    rw [Term.variables, List.forall_mem_cons] at hk
    rw [Term.code, Machine.lies_append, Machine.lies_append] at hp
    rw [Term.depth] at hd
    rw [Term.evaluate] at hr ⊢
    rw [Term.code, List.length_append, List.length_append, Nat.add_assoc]
    rw [List.length_append] at hp
    have hdepth := index.one_le_depth
    have hbase := Context.realizes hp.1.1 hk.1 h (by omega)
      fun a ha => hr a (Evaluation.mem_read_andThen ha)
    refine hbase.andThen (Nat.le_refl sp) fun base m₁ hb h₁ hx₁ => ?_
    replace hr := fun a ha => hr a (Evaluation.mem_read_andThen_of_value hb ha)
    have hw₁ := h.leads h₁ h.above (Nat.le_succ _)
    have hindex := index.realizes hw.2 hk.2 (h₁.pc ▸ hp.1.2) hw₁ (by omega)
      fun a ha => hr a (Evaluation.mem_read_andThen ha)
    -- The array stays below the index while that is evaluated.
    refine hindex.andThen (Nat.le_succ sp) fun i m₂ hi h₂ hx₂ => ?_
    replace hr := fun a ha => hr a (Evaluation.mem_read_andThen_of_value hi ha)
    have hplace : m₂.pc = m.pc + ((c.pushName array).length + (index.code c).length) := by
      rw [h₂.pc, h₁.pc, Nat.add_assoc]
    exact Working.push_element (hplace ▸ hp.2) (hw₁.leads h₂ hw₁.above (Nat.le_succ _)) h.above
      (by omega) ((h₂.peek_of_lt h.stack_le (Nat.lt_succ_self sp)).trans hx₁) hx₂
      (hr _ (List.mem_singleton_self _))
  | call f =>
    rw [Term.within] at hw
    cases f with
    | own => cases hw
    | on => cases hw
  | group inner =>
    rw [Term.code] at hp ⊢
    rw [Term.evaluate] at hr ⊢
    exact inner.realizes hw hk hp h hd hr
  | unary op operand =>
    rw [Term.code, Machine.lies_append] at hp
    rw [Term.depth] at hd
    rw [Term.evaluate] at hr ⊢
    rw [Term.code, List.length_append]
    have hdepth := operand.one_le_depth
    have hx := operand.realizes hw hk hp.1 h hd fun a ha => hr a (Evaluation.mem_read_andThen ha)
    refine hx.andThen (Nat.le_refl sp) fun x m₁ _ h₁ hx₁ => ?_
    exact op.realizes (h₁.pc ▸ hp.2.1) (h.leads h₁ h.above (Nat.le_succ _)) h.above (by omega) hx₁

/-- **The code of an expression does what its evaluation says.** -/
theorem Expression.realizes (e : Expression) {m : Machine} {sp : Nat}
    (hw : e.within .inert = true) (hk : ∀ name ∈ e.variables, (c.resolve name).isSome)
    (hp : m₀.Lies l m.pc (e.code c)) (h : Working m₀ low high sp m) (hd : sp + e.depth ≤ high)
    (hr : ∀ a ∈ (e.evaluate c l.statics m₀.peek).read, Readable low high a) :
    (e.evaluate c l.statics m₀.peek).Realized (e.code c).length high sp m := by
  obtain ⟨first, more⟩ := e
  rw [Expression.within, Bool.and_eq_true] at hw
  rw [Expression.variables, List.forall_mem_append] at hk
  rw [Expression.code, Machine.lies_append] at hp
  rw [Expression.depth] at hd
  rw [Expression.evaluate] at hr ⊢
  rw [Expression.code, List.length_append]
  have hfirst := first.realizes hw.1 hk.1 hp.1 h (by omega)
    fun a ha => hr a (Evaluation.mem_read_andThen ha)
  refine hfirst.andThen (Nat.le_refl sp) fun x m₁ hv h₁ hx => ?_
  exact Expression.more_realizes more hw.2 hk.2 (h₁.pc ▸ hp.2) (h.leads h₁ h.above (Nat.le_succ _))
    h.above (by omega) hx fun a ha => hr a (Evaluation.mem_read_andThen_of_value hv ha)

/-- The code of operators, each with its term, replaces the value in front. -/
theorem Expression.more_realizes (more : List (BinaryOp × Term)) {m : Machine} {sp : Nat}
    {x : Int16} (hw : Expression.moreWithin .inert more = true)
    (hk : ∀ name ∈ Expression.moreVariables more, (c.resolve name).isSome)
    (hp : m₀.Lies l m.pc (Expression.moreCode c more)) (h : Working m₀ low high (sp + 1) m)
    (hlow : low ≤ sp) (hd : sp + Expression.moreDepth more ≤ high) (hx : m.peek sp = x)
    (hr : ∀ a ∈ (Expression.moreEvaluate c l.statics m₀.peek x more).read, Readable low high a) :
    (Expression.moreEvaluate c l.statics m₀.peek x more).Realized
      (Expression.moreCode c more).length high sp m := by
  cases more with
  | nil => exact ⟨m, ⟨rfl, rfl, h.sp, .refl _ _⟩, hx⟩
  | cons head rest =>
    obtain ⟨op, t⟩ := head
    rw [Expression.moreWithin, Bool.and_eq_true] at hw
    rw [Expression.moreVariables, List.forall_mem_append] at hk
    rw [Expression.moreCode, Machine.lies_append] at hp
    rw [Expression.moreDepth] at hd
    rw [Expression.moreEvaluate] at hr ⊢
    rw [Expression.moreCode, List.length_append, List.length_cons, Nat.add_comm _ 1]
    have hdepth := t.one_le_depth
    have hterm := t.realizes hw.1 hk.1 hp.1 h (by omega)
      fun a ha => hr a (Evaluation.mem_read_andThen ha)
    refine hterm.andThen (Nat.le_succ sp) fun y m₁ hy h₁ hy₁ => ?_
    replace hr := fun a ha => hr a (Evaluation.mem_read_andThen_of_value hy ha)
    have hw₁ := h.leads h₁ h.above (Nat.le_succ _)
    have hx₁ : m₁.peek sp = x :=
      (h₁.peek_of_lt (Nat.le_trans h.stack hlow) (Nat.lt_succ_self sp)).trans hx
    have hop := op.realizes (h₁.pc ▸ hp.2.1) hw₁ hlow (by omega) hx₁ hy₁
    refine hop.andThen (Nat.le_refl sp) fun z m₂ hz h₂ hz₂ => ?_
    refine Expression.more_realizes rest hw.2 hk.2 ?_ (hw₁.leads h₂ hlow (Nat.le_succ _)) hlow
      (by omega) hz₂ fun a ha => hr a (Evaluation.mem_read_andThen_of_value hz ha)
    rw [h₂.pc, h₁.pc]
    exact hp.2.2

end

end Realizes

/-- **The code of an expression has an exact footprint.** What the compiler writes for an expression
without calls and string constants either leaves its value on top of the stack, behind as many steps
as there are commands, and changes nothing but cells that operands take, the stack pointer and the
base of arrays; or the evaluation divides by zero, and so does the machine. Evaluation goes from the
left to the right, whatever the operators. -/
theorem Session.expression_footprint {s : Session} {i : Lookahead} {e : Expression}
    (hs : s.Unlimited) (hr : s.input.Reads e.terminals i) (hi : Terminal.Stops i.terminal?)
    (hk : s.Knows e.variables) (hw : e.within .inert = true) :
    Does [.expression] s (s.after i (e.code s.context) 0 0) ∧
      ∀ (m : Machine) (l : Linking) (sp : Nat), m.Lies l m.pc (e.code s.context) →
        m.peek Layout.sp = Int16.ofNat sp → Layout.stack ≤ sp → sp + e.depth < Layout.cells →
        (∀ a ∈ (e.evaluate s.context l.statics m.peek).read, Readable sp (sp + e.depth) a) →
        (∃ x m', (e.evaluate s.context l.statics m.peek).ending = .value x ∧
          (∀ limit, Machine.runFor ((e.code s.context).length + limit) m
            = Machine.runFor limit m') ∧
          m'.pc = m.pc + (e.code s.context).length ∧
          m'.peek Layout.sp = Int16.ofNat (sp + 1) ∧ m'.peek sp = x ∧
          Alters sp (sp + e.depth) m m') ∨
        (e.evaluate s.context l.statics m.peek).ending = .dividesByZero ∧
          ∃ n, ∀ limit, n < limit → Machine.runFor limit m = .error .divisionByZero := by
  refine ⟨does_expression e hs hr hk hi, fun m l sp hp hsp hstack hcells hread => ?_⟩
  have hwork : Working m sp (sp + e.depth) sp m :=
    ⟨hstack, hcells, .refl _ _, Nat.le_refl _, hsp⟩
  have hv := e.realizes hw hk hp hwork (Nat.le_refl _) hread
  rw [Evaluation.Realized] at hv
  split at hv
  next x hx =>
    obtain ⟨m', hm, hvalue⟩ := hv
    exact .inl ⟨x, m', hx, hm.steps.runFor_add, hm.pc, hm.sp, hvalue, hm.alters⟩
  next hx => exact .inr ⟨hx, hv.runFor⟩
  next => exact hv.elim

/-- `a[x + 1] - f / s`, of an argument, a local, a field and a static. -/
def quotientSample : Expression :=
  .chain (.element "a" (.chain (.variable "x") [(.add, .integer "1")]))
    [(.subtract, .variable "f"), (.divide, .variable "s")]

/-- A session in front of the sample. -/
def quotientSession : Session where
  input := ⟨some ⟨.identifier "a", default⟩,
    (quotientSample.terminals.tail ++ [Terminal.symbol ';']).map fun t => .ok ⟨t, default⟩, 1⟩
  scopes := {
    classScope := [("s", ⟨"int", .static, 0⟩), ("f", ⟨"int", .field, 0⟩)]
    routineScope := [("x", ⟨"int", .local, 0⟩), ("a", ⟨"Array", .argument, 0⟩)] }

/-- The cells of registers, of the variables, and of the element that is read. -/
def quotientCells : List (Nat × Int16) :=
  [(Layout.sp, 300), (Layout.lcl, 400), (Layout.arg, 410), (Layout.this, 500), (400, 2),
    (410, 3000), (3003, -32768), (500, 0), (16, -1)]

/-- A machine with the code of the sample. -/
def quotientMachine : Machine :=
  quotientCells.foldr (fun cell m => m.poke cell.1 cell.2)
    { code := #[.push .argument 0, .push .local 0, .push .constant 1, .arith .add, .arith .add,
        .pop .pointer 1, .push .that 0, .push .this 0, .arith .sub, .push .static 16,
        .call "Math.divide" 2] }

theorem Machine.Fresh.peek_foldr_poke {m : Machine} (h : m.Fresh) {cells : List (Nat × Int16)}
    (hc : ∀ cell ∈ cells, cell.1 < Layout.cells) (a : Nat) :
    (cells.foldr (fun cell m => m.poke cell.1 cell.2) m).peek a = (cells.lookup a).getD 0 := by
  induction cells with
  | nil => exact h.peek a
  | cons cell rest ih =>
    rw [List.forall_mem_cons] at hc
    rw [List.foldr_cons, List.lookup_cons]
    by_cases ha : a = cell.1
    · subst ha
      rw [peek_poke_self hc.1, beq_self_eq_true]
      rfl
    · rw [peek_poke_of_ne ha, ih hc.2, beq_false_of_ne ha]

/-- The least number divided by -1 is the least number again. -/
theorem Session.expression_footprint_quotient : ∃ m',
    (∀ limit, Machine.runFor (11 + limit) quotientMachine = Machine.runFor limit m') ∧
      m'.pc = 11 ∧ m'.peek Layout.sp = 301 ∧ m'.peek 300 = -32768 ∧
      Alters 300 303 quotientMachine m' := by
  have hpeek : quotientMachine.peek = fun a => (quotientCells.lookup a).getD 0 :=
    funext (Machine.Fresh.peek_foldr_poke ⟨rfl, rfl⟩ (by decide))
  have hreads : quotientSession.input.Reads quotientSample.terminals
      ⟨some ⟨.symbol ';', default⟩, [], (default : Token).line⟩ := by
    iterate 10 refine ⟨_, _, rfl, rfl, ?_⟩
    rfl
  have hlies : quotientMachine.Lies ⟨[], "", 16⟩ quotientMachine.pc
      (quotientSample.code quotientSession.context) := by
    iterate 11 refine ⟨⟨_, rfl, rfl⟩, ?_⟩
    trivial
  have hknows : ∀ name ∈ quotientSample.variables,
      (quotientSession.context.resolve name).isSome := by decide
  obtain ⟨x, m', hx, hrun, hpc, hsp, htop, halters⟩ | ⟨hx, -⟩ :=
    (expression_footprint (s := quotientSession) rfl hreads ⟨';', by decide, rfl⟩ hknows
      (by decide)).2 quotientMachine ⟨[], "", 16⟩ 300 hlies (by rw [hpeek]; decide) (by decide)
      (by decide) (by rw [hpeek]; decide)
  · rw [hpeek] at hx
    obtain rfl : -32768 = x := Ending.value.inj (Eq.trans (by decide) hx)
    exact ⟨m', hrun, hpc, hsp, htop, halters⟩
  · rw [hpeek] at hx
    exact absurd hx (by decide)

end JackStack
