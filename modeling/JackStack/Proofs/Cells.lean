import JackStack.Proofs.Calling

/-!
# Proofs/Cells — instructions and the cells they touch

A scene says what the machine holds when frames, statics and the heap lie in their places. Here
nothing is said of places: the stack may stand anywhere above the registers, a variable in any cell.
What an instruction does is then told by the cells alone. It changes the stack pointer, perhaps the
base of arrays, and some cells of a range; every other cell stays as it is.

* `Machine.Confined` — only some cells have changed.
* `Machine.Alters` — only cells of a range have changed, besides the two registers.
* `Machine.Leads` — so many steps lead behind so many commands.
* `Leads.push_constant`, `Leads.push_cell`, `Leads.pop_array`, `Leads.unary`, `Leads.binary` — one
  instruction.
* `Machine.Lies` — commands are found in the code, from a place on.
-/

namespace JackStack

open Machine (Yields)
open Vm (Command)

namespace Machine

variable {m m₁ m₂ : Machine} {n k low low' high high' sp sp' a index : Nat} {x y : Int16}

/-! ## What may change -/

/-- **Only some cells change.** What is loaded stays, and so does the heap that is free. -/
structure Confined (cells : Nat → Prop) (m m' : Machine) : Prop where
  code : m'.code = m.code
  functions : m'.functions = m.functions
  nextStatic : m'.nextStatic = m.nextStatic
  heap : m'.heap = m.heap
  others : ∀ a, ¬cells a → m'.peek a = m.peek a

namespace Confined

variable {cells cells' : Nat → Prop}

theorem refl (cells : Nat → Prop) (m : Machine) : Confined cells m m :=
  ⟨rfl, rfl, rfl, rfl, fun _ _ => rfl⟩

theorem trans (h : Confined cells m m₁) (h' : Confined cells m₁ m₂) : Confined cells m m₂ where
  code := h'.code.trans h.code
  functions := h'.functions.trans h.functions
  nextStatic := h'.nextStatic.trans h.nextStatic
  heap := h'.heap.trans h.heap
  others a ha := (h'.others a ha).trans (h.others a ha)

/-- More cells may change. -/
theorem weaken (h : Confined cells m m₁) (hc : ∀ a, cells a → cells' a) : Confined cells' m m₁ :=
  { h with others := fun a ha => h.others a (mt (hc a) ha) }

/-- Both machines may have their heap changed. -/
theorem withHeap (h : Confined cells m m₁) (free : Nat) :
    Confined cells { m with heap := free } { m₁ with heap := free } :=
  ⟨h.code, h.functions, h.nextStatic, rfl, h.others⟩

/-- One of the cells is written. -/
theorem poke (h : Confined cells m m₁) (ha : cells a) (x : Int16) :
    Confined cells m (m₁.poke a x) where
  code := h.code
  functions := h.functions
  nextStatic := h.nextStatic
  heap := h.heap
  others b hb := by
    have hne : b ≠ a := by
      rintro rfl
      exact hb ha
    rw [peek_poke_of_ne hne]
    exact h.others b hb

end Confined

/-- The cells that operands take: the stack pointer, the base of arrays, and a range of the
stack. -/
def operandCells (low high a : Nat) : Prop :=
  a = Layout.sp ∨ a = Layout.that ∨ low ≤ a ∧ a < high

/-- **Only cells of a range change**, from `low` on and below `high`, besides the stack pointer and
the base of arrays. What is loaded stays, and so does the heap that is free. -/
abbrev Alters (low high : Nat) (m m' : Machine) : Prop :=
  Confined (operandCells low high) m m'

/-- The range may be taken larger. -/
theorem Alters.mono (h : Alters low high m m₁) (hl : low' ≤ low) (hh : high ≤ high') :
    Alters low' high' m m₁ := by
  refine h.weaken fun a ha => ?_
  rw [operandCells] at ha ⊢
  omega

theorem Alters.peek_eq (h : Alters low high m m₁) (h₀ : a ≠ Layout.sp) (h₄ : a ≠ Layout.that)
    (ha : a < low ∨ high ≤ a) : m₁.peek a = m.peek a := by
  refine h.others a ?_
  rw [operandCells]
  omega

/-! ## The stack -/

/-- **The machine with a value pushed**, where the stack pointer was at `sp`. -/
def pushed (m : Machine) (sp : Nat) (x : Int16) : Machine :=
  (m.poke sp x).poke Layout.sp (Int16.ofNat (sp + 1))

/-- **The machine with the top popped**, so that the stack pointer is at `sp`. -/
def popped (m : Machine) (sp : Nat) : Machine :=
  m.poke Layout.sp (Int16.ofNat sp)

theorem Confined.pushed {cells : Nat → Prop} (h : Confined cells m m₁) (h₀ : cells Layout.sp)
    (hsp : cells sp) (x : Int16) : Confined cells m (m₁.pushed sp x) :=
  (h.poke hsp x).poke h₀ _

theorem Confined.popped {cells : Nat → Prop} (h : Confined cells m m₁) (h₀ : cells Layout.sp)
    (sp : Nat) : Confined cells m (m₁.popped sp) :=
  h.poke h₀ _

@[simp] theorem peek_sp_pushed : (m.pushed sp x).peek Layout.sp = Int16.ofNat (sp + 1) :=
  peek_poke_self (by decide) _

theorem peek_top_pushed (h₀ : Layout.sp < sp) (hlt : sp < Layout.cells) :
    (m.pushed sp x).peek sp = x := by
  rw [pushed, peek_poke_of_ne (Nat.ne_of_gt h₀), peek_poke_self hlt]

@[simp] theorem peek_sp_popped : (m.popped sp).peek Layout.sp = Int16.ofNat sp :=
  peek_poke_self (by decide) _

theorem peek_popped (h : a ≠ Layout.sp) : (m.popped sp).peek a = m.peek a :=
  peek_poke_of_ne h _

theorem Yields.push (hsp : m.peek Layout.sp = Int16.ofNat sp) (h₀ : Layout.sp < sp)
    (hlt : sp + 1 < Layout.cells) (x : Int16) : Yields (push x) m () (m.pushed sp x) := by
  have hsp' : (m.poke sp x).peek Layout.sp = Int16.ofNat sp := by
    rw [peek_poke_of_ne (Nat.ne_of_lt h₀), hsp]
  refine (Yields.read_eq (by decide) hsp).bind ?_
  refine (Yields.lift (toAddress_ofNat (by omega))).bind ?_
  refine (Yields.write (by omega) x).bind ?_
  refine (Yields.read_eq (by decide) hsp').bind ?_
  refine (Yields.lift (addExact_ofNat (k := 1) hlt)).bind ?_
  exact Yields.write (by decide) _

theorem Yields.pop (hsp : m.peek Layout.sp = Int16.ofNat (sp + 1)) (h₀ : Layout.sp < sp)
    (hlt : sp + 1 < Layout.cells) : Yields pop m (m.peek sp) (m.popped sp) := by
  refine (Yields.read_eq (by decide) hsp).bind ?_
  refine (Yields.lift (subExact_ofNat (k := 1) (by omega) hlt)).bind ?_
  rw [Nat.add_sub_cancel]
  refine (Yields.write (by decide) _).bind ?_
  refine (Yields.read_eq (by decide) peek_sp_popped).bind ?_
  refine (Yields.lift (toAddress_ofNat (by omega))).bind ?_
  exact Yields.read_eq (by omega) (peek_popped (Nat.ne_of_gt h₀))

/-- **What is done with two operands**, the second one on top. -/
def onOperands {α : Type} (f : Int16 → Int16 → Exec α) : Exec α := do
  let y ← pop
  let x ← pop
  f x y

theorem execute_arith {op : Vm.ArithOp} {f : Int16 → Int16 → Int16} (hf : meaning op = .binary f) :
    execute (.arith op) = do
      push (← onOperands fun x y => pure (f x y))
      return false := by
  rw [execute, operate, hf]
  simp only [onOperands, bind_assoc, pure_bind]

theorem execute_native {name : String} {native : Exec Int16} (h : builtIn? name = some native)
    (arguments : Nat) :
    execute (.call name arguments) = do
      push (← native)
      return false := by
  rw [execute, invoke, h]
  simp only [bind_assoc]

theorem onOperands_apply {α : Type} (hsp : m.peek Layout.sp = Int16.ofNat (sp + 2))
    (h₀ : Layout.sp < sp) (hlt : sp + 2 < Layout.cells) (f : Int16 → Int16 → Exec α) :
    onOperands f m = f (m.peek sp) (m.peek (sp + 1)) ((m.popped (sp + 1)).popped sp) := by
  have hfirst : Yields pop m (m.peek (sp + 1)) (m.popped (sp + 1)) :=
    Yields.pop hsp (by omega) hlt
  have hsecond := Yields.pop (m := m.popped (sp + 1)) peek_sp_popped h₀ (by omega)
  rw [peek_popped (Nat.ne_of_gt h₀)] at hsecond
  rw [onOperands, hfirst.bind_eq, hsecond.bind_eq]

/-! ## Steps -/

/-- **So many steps lead behind so many commands**, with the stack pointer at `sp`, and only cells
of a range have changed. -/
structure Leads (n low high sp : Nat) (m m' : Machine) : Prop where
  steps : Steps n m m'
  pc : m'.pc = m.pc + n
  sp : m'.peek Layout.sp = Int16.ofNat sp
  alters : Alters low high m m'

/-- The machine behind an instruction that it has fetched. -/
def next (m : Machine) : Machine :=
  { m with pc := m.pc + 1 }

/-- Where the code goes on does not matter. -/
theorem Confined.next {cells : Nat → Prop} (h : Confined cells m m₁) : Confined cells m m₁.next :=
  ⟨h.code, h.functions, h.nextStatic, h.heap, h.others⟩

namespace Leads

theorem trans (h : Leads n low high sp m m₁) (h' : Leads k low high sp' m₁ m₂) :
    Leads (n + k) low high sp' m m₂ where
  steps := h.steps.trans h'.steps
  pc := by rw [h'.pc, h.pc, Nat.add_assoc]
  sp := h'.sp
  alters := h.alters.trans h'.alters

theorem mono (h : Leads n low high sp m m₁) (hl : low' ≤ low) (hh : high ≤ high') :
    Leads n low' high' sp m m₁ :=
  { h with alters := h.alters.mono hl hh }

/-- What lies on the stack below the range stays. -/
theorem peek_of_lt (h : Leads n low high sp m m₁) (hstack : Layout.stack ≤ a) (ha : a < low) :
    m₁.peek a = m.peek a := by
  have hthat : Layout.that < Layout.stack := by decide
  exact h.alters.peek_eq (Nat.ne_of_gt (Nat.lt_of_lt_of_le (by decide) hstack))
    (Nat.ne_of_gt (Nat.lt_of_lt_of_le hthat hstack)) (.inl ha)

/-- **One instruction** that does not jump. -/
theorem of_execute {i : Instr} (hcode : m.code[m.pc]? = some i)
    (h : Yields (execute i) m.next false m₁) (hpc : m₁.pc = m.next.pc)
    (hsp : m₁.peek Layout.sp = Int16.ofNat sp) (ha : Alters low high m.next m₁) :
    Leads 1 low high sp m m₁ :=
  ⟨⟨m₁, Yields.step hcode h, rfl⟩, hpc, hsp, (Confined.refl _ m).next.trans ha⟩

/-- **An instruction pushes a value**, after it has popped others down to `sp`. -/
theorem of_push {i : Instr} {op : Exec Int16} (hcode : m.code[m.pc]? = some i)
    (he : execute i = do
      Machine.push (← op)
      return false)
    (hop : Yields op m.next x m₁) (hpc : m₁.pc = m.next.pc)
    (ha : Alters sp (sp + 1) m.next m₁) (hsp : m₁.peek Layout.sp = Int16.ofNat sp)
    (hstack : Layout.stack ≤ sp) (hlt : sp + 1 < Layout.cells) :
    ∃ m', Leads 1 sp (sp + 1) (sp + 1) m m' ∧ m'.peek sp = x := by
  have h₀ : Layout.sp < sp := Nat.lt_of_lt_of_le (by decide) hstack
  refine ⟨m₁.pushed sp x, of_execute hcode ?_ hpc peek_sp_pushed ?_, ?_⟩
  · rw [he]
    exact hop.bind ((Yields.push hsp h₀ hlt x).bind (Yields.pure false))
  · exact ha.pushed (.inl rfl) (.inr (.inr ⟨Nat.le_refl _, Nat.lt_succ_self _⟩)) x
  · exact peek_top_pushed h₀ (by omega)

section Instructions

variable (hstack : Layout.stack ≤ sp)

include hstack

theorem push_constant (hcode : m.code[m.pc]? = some (.push .constant index))
    (hsp : m.peek Layout.sp = Int16.ofNat sp) (hlt : sp + 1 < Layout.cells) :
    ∃ m', Leads 1 sp (sp + 1) (sp + 1) m m' ∧ m'.peek sp = Int16.ofNat index :=
  of_push hcode rfl (Yields.pure _) rfl (.refl _ _) hsp hstack hlt

/-- **The value of a cell is pushed.** -/
theorem push_cell {segment : Vm.Segment} (hcode : m.code[m.pc]? = some (.push segment index))
    (hs : segment ≠ .constant) (ha : Yields (address segment index) m.next a m.next)
    (hcell : a < Layout.cells) (hsp : m.peek Layout.sp = Int16.ofNat sp)
    (hlt : sp + 1 < Layout.cells) :
    ∃ m', Leads 1 sp (sp + 1) (sp + 1) m m' ∧ m'.peek sp = m.peek a := by
  have hread : Yields (do read (← address segment index)) m.next (m.peek a) m.next :=
    ha.bind (Yields.read hcell)
  refine of_push hcode ?_ hread rfl (.refl _ _) hsp hstack hlt
  rw [execute_push hs, bind_assoc]

/-- **The top becomes the base of arrays.** -/
theorem pop_array (hcode : m.code[m.pc]? = some (.pop .pointer 1))
    (hsp : m.peek Layout.sp = Int16.ofNat (sp + 1)) (hlt : sp + 1 < Layout.cells) :
    ∃ m', Leads 1 sp sp sp m m' ∧ m'.peek Layout.that = m.peek sp := by
  have h₀ : Layout.sp < sp := Nat.lt_of_lt_of_le (by decide) hstack
  have hpop : Yields Machine.pop m.next (m.peek sp) (m.next.popped sp) := Yields.pop hsp h₀ hlt
  refine ⟨(m.next.popped sp).poke Layout.that (m.peek sp), of_execute hcode ?_ rfl ?_ ?_, ?_⟩
  · exact Yields.bind (x := Layout.that) (Yields.pure _)
      (hpop.bind ((Yields.write (by decide) _).bind (Yields.pure false)))
  · rw [peek_poke_of_ne (by decide), peek_sp_popped]
  · exact ((Confined.refl _ m.next).popped (.inl rfl) sp).poke (.inr (.inl rfl)) _
  · exact peek_poke_self (by decide) _

/-- **An operation on one operand.** -/
theorem unary {op : Vm.ArithOp} {f : Int16 → Int16} (hf : meaning op = .unary f)
    (hcode : m.code[m.pc]? = some (.arith op)) (hsp : m.peek Layout.sp = Int16.ofNat (sp + 1))
    (hlt : sp + 1 < Layout.cells) :
    ∃ m', Leads 1 sp (sp + 1) (sp + 1) m m' ∧ m'.peek sp = f (m.peek sp) := by
  have h₀ : Layout.sp < sp := Nat.lt_of_lt_of_le (by decide) hstack
  have hpop : Yields (do return f (← Machine.pop)) m.next (f (m.peek sp)) (m.next.popped sp) :=
    (Yields.pop (m := m.next) hsp h₀ hlt).bind (Yields.pure _)
  refine of_push hcode ?_ hpop rfl ((Confined.refl _ _).popped (.inl rfl) sp) peek_sp_popped
    hstack hlt
  rw [execute, operate, hf]
  simp only [bind_assoc, pure_bind]

/-- **An operation on two operands**, which may be one of the library. -/
theorem binary {i : Instr} {f : Int16 → Int16 → Exec Int16} {z : Int16}
    (hcode : m.code[m.pc]? = some i)
    (he : execute i = do
      Machine.push (← onOperands f)
      return false)
    (hf : ∀ m', Yields (f (m.peek sp) (m.peek (sp + 1))) m' z m')
    (hsp : m.peek Layout.sp = Int16.ofNat (sp + 2)) (hlt : sp + 2 < Layout.cells) :
    ∃ m', Leads 1 sp (sp + 1) (sp + 1) m m' ∧ m'.peek sp = z := by
  have h₀ : Layout.sp < sp := Nat.lt_of_lt_of_le (by decide) hstack
  have hop : Yields (onOperands f) m.next z ((m.next.popped (sp + 1)).popped sp) :=
    (onOperands_apply (m := m.next) hsp h₀ hlt f).trans (hf _)
  exact of_push hcode he hop rfl
    (((Confined.refl _ _).popped (.inl rfl) _).popped (.inl rfl) sp) peek_sp_popped hstack
    (by omega)

end Instructions

end Leads

/-! ## Faults -/

/-- **The machine comes to a fault**, after some steps. -/
def Fails (m : Machine) (fault : Fault) : Prop :=
  ∃ n m', Steps n m m' ∧ step m' = .error fault

theorem bind_eq_error {α β : Type} {op : Exec α} {fault : Fault} (h : op m = .error fault)
    (f : α → Exec β) : (op >>= f) m = .error fault := by
  change (op m >>= fun p => f p.1 p.2) = _
  rw [h]
  rfl

/-- An operation on two operands is a fault. -/
theorem fails_binary {i : Instr} {f : Int16 → Int16 → Exec Int16} {fault : Fault}
    (hstack : Layout.stack ≤ sp) (hcode : m.code[m.pc]? = some i)
    (he : execute i = do
      push (← onOperands f)
      return false)
    (hf : ∀ m', f (m.peek sp) (m.peek (sp + 1)) m' = .error fault)
    (hsp : m.peek Layout.sp = Int16.ofNat (sp + 2)) (hlt : sp + 2 < Layout.cells) :
    Fails m fault := by
  have h₀ : Layout.sp < sp := Nat.lt_of_lt_of_le (by decide) hstack
  have hfetch : Yields fetch m i m.next := by rw [Yields, fetch, hcode]; rfl
  have hop : onOperands f m.next = .error fault :=
    (onOperands_apply (m := m.next) hsp h₀ hlt f).trans (hf _)
  refine ⟨0, m, rfl, ?_⟩
  rw [step, hfetch.bind_eq, he, bind_eq_error hop]

theorem Leads.fails {fault : Fault} (h : Leads n low high sp m m₁) (hf : Fails m₁ fault) :
    Fails m fault := by
  obtain ⟨k, m₂, hk, hs⟩ := hf
  exact ⟨n + k, m₂, h.steps.trans hk, hs⟩

/-- More steps than lead to a fault make no difference. -/
theorem Fails.runFor {fault : Fault} (h : Fails m fault) :
    ∃ n, ∀ limit, n < limit → runFor limit m = .error fault := by
  obtain ⟨n, m', hn, hs⟩ := h
  refine ⟨n, fun limit hlimit => ?_⟩
  induction n generalizing m limit with
  | zero =>
    obtain rfl : m = m' := hn
    obtain ⟨limit, rfl⟩ := Nat.exists_eq_succ_of_ne_zero (Nat.ne_of_gt hlimit)
    rw [Machine.runFor, bind_eq_error hs]
  | succ n ih =>
    obtain ⟨m₁, hstep, hrest⟩ := hn
    obtain ⟨limit, rfl⟩ := Nat.exists_eq_succ_of_ne_zero (Nat.ne_of_gt (Nat.zero_lt_of_lt hlimit))
    rw [Machine.runFor, hstep.bind_eq]
    exact ih hrest limit (by omega)

/-- Steps that have been made are steps less to make. -/
theorem Steps.runFor_add (h : Steps n m m₁) (limit : Nat) :
    Machine.runFor (n + limit) m = Machine.runFor limit m₁ := by
  induction n generalizing m with
  | zero =>
    obtain rfl : m = m₁ := h
    rw [Nat.zero_add]
  | succ n ih =>
    obtain ⟨m₂, hstep, hrest⟩ := h
    rw [Nat.add_right_comm, Machine.runFor, hstep.bind_eq]
    exact ih hrest

/-! ## Commands in their places -/

end Machine

/-- **What commands are linked with**: the places of labels, the function they belong to, and the
cell of the first static. -/
structure Linking where
  labels : List ((String × String) × Nat)
  function : String
  statics : Nat

namespace Machine

variable {m : Machine} {l : Linking} {place : Nat} {command : Command}

/-- A command is linked to an instruction that stands at a place of the code. -/
def Has (m : Machine) (l : Linking) (place : Nat) (command : Command) : Prop :=
  ∃ i, link l.labels l.statics l.function command = .ok i ∧ m.code[place]? = some i

/-- **Commands lie in the code**, linked, one after the other from a place on. -/
def Lies (m : Machine) (l : Linking) : Nat → List Command → Prop
  | _, [] => True
  | place, command :: rest => m.Has l place command ∧ m.Lies l (place + 1) rest

theorem Has.code {i : Instr} (h : m.Has l place command)
    (hi : link l.labels l.statics l.function command = .ok i) : m.code[place]? = some i := by
  obtain ⟨j, hj, hcode⟩ := h
  rw [hi] at hj
  rw [hcode, Except.ok.inj hj]

theorem lies_append {before behind : List Command} :
    m.Lies l place (before ++ behind) ↔
      m.Lies l place before ∧ m.Lies l (place + before.length) behind := by
  induction before generalizing place with
  | nil => simp [Lies]
  | cons command rest ih =>
    rw [List.cons_append, Lies, Lies, ih, and_assoc, List.length_cons, Nat.add_assoc,
      Nat.add_comm 1]

end Machine

end JackStack
