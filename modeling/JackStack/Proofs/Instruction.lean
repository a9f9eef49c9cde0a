import JackStack.Machine.Load
import JackStack.Proofs.Scene

/-!
# Proofs/Instruction — what each instruction does to a scene

A scene *runs* to another if every machine that shows the first reaches, in some number of steps,
one that shows the second. There is one such rule for each instruction, so that the effect of a
sequence of commands is a chain of rules, with no look at cells.

* `Runs` — one scene leads to another.
* `Image.Placed` — commands are found in the code, from a place on.
-/

namespace JackStack

open Machine (Yields)
open Vm (Command)

/-! ## Steps -/

namespace Machine

variable {m m' m'' : Machine}

/-- **So many steps lead from one machine to another**, and the first call has not returned. -/
def Steps : Nat → Machine → Machine → Prop
  | 0, m, m' => m = m'
  | n + 1, m, m' => ∃ m₁, Yields step m false m₁ ∧ Steps n m₁ m'

theorem Steps.trans {n k : Nat} (h : Steps n m m') (h' : Steps k m' m'') :
    Steps (n + k) m m'' := by
  induction n generalizing m with
  | zero =>
    obtain rfl : m = m' := h
    rwa [Nat.zero_add]
  | succ n ih =>
    obtain ⟨m₁, hstep, hrest⟩ := h
    rw [Nat.add_right_comm]
    exact ⟨m₁, hstep, ih hrest⟩

/-- An instruction is fetched and done. -/
theorem Yields.step {i : Instr} {b : Bool} (hcode : m.code[m.pc]? = some i)
    (h : Yields (execute i) { m with pc := m.pc + 1 } b m') : Yields step m b m' := by
  refine Yields.bind ?_ h
  rw [Yields, fetch, hcode]

/-- A push from a segment of the memory reads a cell. -/
theorem execute_push {segment : Vm.Segment} (hs : segment ≠ .constant) (index : Nat) :
    execute (.push segment index) = (do
      push (← read (← address segment index))
      return false) := by
  cases segment with
  | constant => exact absurd rfl hs
  | _ => rfl

end Machine

/-- The scene at the next place. -/
def Scene.next (s : Scene) : Scene :=
  { s with place := s.place + 1 }

/-- The scene behind a push. -/
def Scene.pushed (s : Scene) (x : Int16) : Scene :=
  { s with place := s.place + 1, operands := x :: s.operands }

/-- The scene behind a pop. -/
def Scene.popped (s : Scene) (rest : List Int16) : Scene :=
  { s with place := s.place + 1, operands := rest }

/-- The scene in which a subroutine at a place starts that is called with arguments on top of other
operands. -/
def Scene.called (s : Scene) (target : Nat) (arguments operands : List Int16) : Scene where
  place := target
  operands := []
  locals := []
  arguments := arguments
  this := s.this
  that := s.that
  temp := s.temp
  waiting := { s.toFrame with place := s.place + 1, operands := operands } :: s.waiting
  memory := s.memory

namespace Scene

variable {s : Scene} {arguments operands : List Int16}

/-- What lies below the arguments is the frame that waits. -/
theorem stack_view_called (s : Scene) (h : s.operands = arguments.reverse ++ operands) :
    s.view.stack =
      Frame.cells ({ s.toFrame with place := s.place + 1, operands := operands } :: s.waiting) ++
        arguments := by
  simp [view, Frame.cells, h]

/-- The view of a call. -/
theorem view_called (s : Scene) {target : Nat} (h : s.operands = arguments.reverse ++ operands) :
    (s.called target arguments operands).view = { s.view with
      place := target
      stack := s.view.stack ++
        [Int16.ofNat (s.place + 1), s.view.lcl, s.view.arg, s.view.this, s.view.that]
      lcl := Int16.ofNat (Layout.stack + s.view.stack.length + frameCells)
      arg := Int16.ofNat (Layout.stack + (Frame.cells
        ({ s.toFrame with place := s.place + 1, operands } :: s.waiting)).length) } := by
  have hlen : s.view.stack.length = Frame.height
      ({ s.toFrame with place := s.place + 1, operands := operands } :: s.waiting) +
        arguments.length := by
    rw [s.stack_view_called h, List.length_append, Frame.length_cells]
  rw [hlen, s.stack_view_called h, Frame.length_cells]
  simp [called, view, Frame.cells, Frame.saved, Frame.localBase, Frame.argumentBase, Nat.add_assoc]

end Scene

/-- **A scene runs to another.** -/
def Runs (I : Image) (s s' : Scene) : Prop :=
  ∀ m, Shows I m s.view → ∃ n m', Machine.Steps n m m' ∧ Shows I m' s'.view

namespace Runs

variable {I : Image} {s s' s'' : Scene}

theorem refl (I : Image) (s : Scene) : Runs I s s :=
  fun m h => ⟨0, m, rfl, h⟩

theorem trans (h : Runs I s s') (h' : Runs I s' s'') : Runs I s s'' := by
  intro m hm
  obtain ⟨n, m', hn, hm'⟩ := h m hm
  obtain ⟨k, m'', hk, hm''⟩ := h' m' hm'
  exact ⟨n + k, m'', hn.trans hk, hm''⟩

/-- **One instruction.** -/
theorem step {i : Instr} (hcode : I.code[s.place]? = some i)
    (h : ∀ m, Shows I m s.next.view →
      ∃ m', Yields (Machine.execute i) m false m' ∧ Shows I m' s'.view) : Runs I s s' := by
  intro m hm
  have hnext := hm.jump (m.pc + 1)
  rw [hm.pc] at hnext
  obtain ⟨m', he, hm'⟩ := h _ hnext
  refine ⟨1, m', ⟨m', Yields.step (i := i) ?_ ?_, rfl⟩, hm'⟩
  · rw [hm.code, hm.pc]
    exact hcode
  · rw [hm.pc]
    exact he

/-! ## Pushes and pops -/

variable {x : Int16} {index : Nat}

/-- **A constant is pushed.** -/
theorem push_constant (hcode : I.code[s.place]? = some (.push .constant index))
    (hroom : s.height < stackCells) : Runs I s (s.pushed (Int16.ofNat index)) := by
  refine step hcode fun m hm => ?_
  obtain ⟨m₁, hp, h₁⟩ := hm.pushOperand hroom (Int16.ofNat index)
  exact ⟨m₁, hp.bind (Yields.pure false), h₁⟩

/-- **A value is pushed** from the cell of a segment. -/
theorem push_cell {segment : Vm.Segment} (hcode : I.code[s.place]? = some (.push segment index))
    (hs : segment ≠ .constant) (hroom : s.height < stackCells)
    (ha : ∀ m, Shows I m s.next.view → ∃ a, Yields (Machine.address segment index) m a m ∧
      a < Layout.cells ∧ m.peek a = x) : Runs I s (s.pushed x) := by
  refine step hcode fun m hm => ?_
  obtain ⟨a, haddr, hlt, hx⟩ := ha m hm
  obtain ⟨m₁, hp, h₁⟩ := hm.pushOperand hroom x
  refine ⟨m₁, ?_, h₁⟩
  rw [Machine.execute_push hs]
  exact haddr.bind ((Yields.read_eq hlt hx).bind (hp.bind (Yields.pure false)))

/-- **A value is popped** into the cell of a segment. -/
theorem pop_cell {segment : Vm.Segment} {rest : List Int16}
    (hcode : I.code[s.place]? = some (.pop segment index)) (hx : s.operands = x :: rest)
    (ha : ∀ m, Shows I m s.next.view → ∃ a, Yields (Machine.address segment index) m a m ∧
      a < Layout.cells ∧ ∀ m', Shows I m' (s.popped rest).view → Shows I (m'.poke a x) s'.view) :
    Runs I s s' := by
  refine step hcode fun m hm => ?_
  obtain ⟨a, haddr, hlt, hw⟩ := ha m hm
  obtain ⟨m₁, hp, h₁⟩ := hm.popOperand (s := s.next) hx
  exact ⟨m₁.poke a x, haddr.bind (hp.bind ((Yields.write hlt x).bind (Yields.pure false))),
    hw m₁ h₁⟩

/-! ### Segments -/

variable {rest : List Int16} {cell : Nat}

/-- The address of a local. -/
theorem address_local {m : Machine} (h : Shows I m s.view) :
    Yields (Machine.address .local index) m
      (Frame.localBase s.arguments.length s.waiting + index) m := by
  have hlt : Frame.localBase s.arguments.length s.waiting < Layout.cells :=
    h.localBase_lt (i := 0) (Nat.zero_le _)
  rw [← Machine.toNat_ofNat hlt]
  exact Yields.indexed (by decide) (h.registers 1 _ rfl)

/-- The address of an argument. -/
theorem address_argument {m : Machine} (h : Shows I m s.view) :
    Yields (Machine.address .argument index) m (Frame.argumentBase s.waiting + index) m := by
  have hlt : Frame.argumentBase s.waiting < Layout.cells :=
    h.argumentBase_lt (i := 0) (Nat.zero_le _)
  rw [← Machine.toNat_ofNat hlt]
  exact Yields.indexed (by decide) (h.registers 2 _ rfl)

/-- The address of a field. -/
theorem address_this {m : Machine} (h : Shows I m s.view) :
    Yields (Machine.address .this index) m (s.this.toUInt16.toNat + index) m :=
  Yields.indexed (by decide) (h.registers 3 _ rfl)

/-- The address of an element. -/
theorem address_that {m : Machine} (h : Shows I m s.view) :
    Yields (Machine.address .that index) m (s.that.toUInt16.toNat + index) m :=
  Yields.indexed (by decide) (h.registers 4 _ rfl)

theorem push_local (hcode : I.code[s.place]? = some (.push .local index))
    (hroom : s.height < stackCells) (hx : s.locals[index]? = some x) : Runs I s (s.pushed x) :=
  push_cell hcode nofun hroom fun _ hm =>
    ⟨_, address_local (s := s.next) hm,
      hm.localBase_lt (s := s.next) (Nat.le_of_lt (List.getElem?_eq_some_iff.1 hx).1),
      hm.peek_local (s := s.next) hx⟩

theorem push_argument (hcode : I.code[s.place]? = some (.push .argument index))
    (hroom : s.height < stackCells) (hx : s.arguments[index]? = some x) : Runs I s (s.pushed x) :=
  push_cell hcode nofun hroom fun _ hm =>
    ⟨_, address_argument (s := s.next) hm,
      hm.argumentBase_lt (s := s.next) (Nat.le_of_lt (List.getElem?_eq_some_iff.1 hx).1),
      hm.peek_argument (s := s.next) hx⟩

theorem push_static {c : String}
    (hcode : I.code[s.place]? = some (.push .static (index + I.base c)))
    (hroom : s.height < stackCells) (hi : index < I.size c) :
    Runs I s (s.pushed (s.memory.statics c index)) := by
  refine push_cell hcode nofun hroom fun m hm => ⟨_, Yields.pure _, ?_, ?_⟩
  · rw [Nat.add_comm]
    exact Nat.lt_trans (I.static_lt c index hi) (by decide)
  · rw [Nat.add_comm]
    exact hm.statics c index hi

theorem push_this (hcode : I.code[s.place]? = some (.push .this index))
    (hroom : s.height < stackCells) (hc : heapCell? s.this index = some cell) :
    Runs I s (s.pushed (s.memory.heap cell)) := by
  obtain ⟨rfl, hle, hlt⟩ := heapCell?_eq_some.1 hc
  exact push_cell hcode nofun hroom fun m hm =>
    ⟨_, address_this (s := s.next) hm, hlt, hm.heap _ hle hlt⟩

theorem push_that (hcode : I.code[s.place]? = some (.push .that index))
    (hroom : s.height < stackCells) (hc : heapCell? s.that index = some cell) :
    Runs I s (s.pushed (s.memory.heap cell)) := by
  obtain ⟨rfl, hle, hlt⟩ := heapCell?_eq_some.1 hc
  exact push_cell hcode nofun hroom fun m hm =>
    ⟨_, address_that (s := s.next) hm, hlt, hm.heap _ hle hlt⟩

theorem push_object (hcode : I.code[s.place]? = some (.push .pointer 0))
    (hroom : s.height < stackCells) : Runs I s (s.pushed s.this) :=
  push_cell hcode nofun hroom fun _ hm =>
    ⟨_, Yields.pure _, by decide, hm.registers 3 _ rfl⟩

theorem push_temp (hcode : I.code[s.place]? = some (.push .temp 0))
    (hroom : s.height < stackCells) : Runs I s (s.pushed s.temp) :=
  push_cell hcode nofun hroom fun _ hm =>
    ⟨_, Yields.pure _, by decide, hm.registers 5 _ rfl⟩

theorem pop_local (hcode : I.code[s.place]? = some (.pop .local index))
    (hx : s.operands = x :: rest) (hi : index < s.locals.length) :
    Runs I s { s with place := s.place + 1, operands := rest, locals := s.locals.set index x } :=
  pop_cell hcode hx fun _ hm =>
    ⟨_, address_local (s := s.next) hm, hm.localBase_lt (s := s.next) (Nat.le_of_lt hi),
      fun _ hm' => hm'.setLocal (s := s.popped rest) hi x⟩

theorem pop_argument (hcode : I.code[s.place]? = some (.pop .argument index))
    (hx : s.operands = x :: rest) (hi : index < s.arguments.length) :
    Runs I s { s with
      place := s.place + 1
      operands := rest
      arguments := s.arguments.set index x } :=
  pop_cell hcode hx fun _ hm =>
    ⟨_, address_argument (s := s.next) hm, hm.argumentBase_lt (s := s.next) (Nat.le_of_lt hi),
      fun _ hm' => hm'.setArgument (s := s.popped rest) hi x⟩

theorem pop_static {c : String} (hcode : I.code[s.place]? = some (.pop .static (index + I.base c)))
    (hx : s.operands = x :: rest) (hi : index < I.size c) :
    Runs I s { s with
      place := s.place + 1
      operands := rest
      memory := s.memory.setStatic c index x } := by
  refine pop_cell hcode hx fun m hm => ⟨_, Yields.pure _, ?_, fun m' hm' => ?_⟩
  · rw [Nat.add_comm]
    exact Nat.lt_trans (I.static_lt c index hi) (by decide)
  · rw [Nat.add_comm]
    exact hm'.setStatic hi x

theorem pop_this (hcode : I.code[s.place]? = some (.pop .this index))
    (hx : s.operands = x :: rest) (hc : heapCell? s.this index = some cell) :
    Runs I s { s with
      place := s.place + 1
      operands := rest
      memory := s.memory.setHeap cell x } := by
  obtain ⟨rfl, hle, hlt⟩ := heapCell?_eq_some.1 hc
  exact pop_cell hcode hx fun m hm =>
    ⟨_, address_this (s := s.next) hm, hlt, fun m' hm' => hm'.setHeap hle hlt x⟩

theorem pop_that (hcode : I.code[s.place]? = some (.pop .that index))
    (hx : s.operands = x :: rest) (hc : heapCell? s.that index = some cell) :
    Runs I s { s with
      place := s.place + 1
      operands := rest
      memory := s.memory.setHeap cell x } := by
  obtain ⟨rfl, hle, hlt⟩ := heapCell?_eq_some.1 hc
  exact pop_cell hcode hx fun m hm =>
    ⟨_, address_that (s := s.next) hm, hlt, fun m' hm' => hm'.setHeap hle hlt x⟩

theorem pop_object (hcode : I.code[s.place]? = some (.pop .pointer 0))
    (hx : s.operands = x :: rest) :
    Runs I s { s with place := s.place + 1, operands := rest, this := x } :=
  pop_cell hcode hx fun _ _ => ⟨_, Yields.pure _, by decide, fun _ hm' =>
    hm'.setRegister (i := 3) (by simp [View.registers]) rfl rfl rfl rfl⟩

theorem pop_array (hcode : I.code[s.place]? = some (.pop .pointer 1))
    (hx : s.operands = x :: rest) :
    Runs I s { s with place := s.place + 1, operands := rest, that := x } :=
  pop_cell hcode hx fun _ _ => ⟨_, Yields.pure _, by decide, fun _ hm' =>
    hm'.setRegister (i := 4) (by simp [View.registers]) rfl rfl rfl rfl⟩

theorem pop_temp (hcode : I.code[s.place]? = some (.pop .temp 0))
    (hx : s.operands = x :: rest) :
    Runs I s { s with place := s.place + 1, operands := rest, temp := x } :=
  pop_cell hcode hx fun _ _ => ⟨_, Yields.pure _, by decide, fun _ hm' =>
    hm'.setRegister (i := 5) (by simp [View.registers]) rfl rfl rfl rfl⟩

/-! ## Operations and jumps -/

variable {y : Int16} {target : Nat}

/-- **An operation on one operand.** -/
theorem arith_unary {op : Vm.ArithOp} {f : Int16 → Int16} (hf : Machine.meaning op = .unary f)
    (hcode : I.code[s.place]? = some (.arith op)) (hx : s.operands = x :: rest) :
    Runs I s (s.popped (f x :: rest)) := by
  refine step hcode fun m hm => ?_
  obtain ⟨m₁, hp, h₁⟩ := hm.popOperand (s := s.next) hx
  obtain ⟨m₂, hq, h₂⟩ := h₁.pushOperand (hm.height_popped (s := s.next) hx) (f x)
  refine ⟨m₂, Yields.bind (x := ()) ?_ (Yields.pure false), h₂⟩
  rw [Machine.operate, hf]
  exact hp.bind hq

/-- **An operation on two operands.** -/
theorem arith_binary {op : Vm.ArithOp} {f : Int16 → Int16 → Int16}
    (hf : Machine.meaning op = .binary f) (hcode : I.code[s.place]? = some (.arith op))
    (hx : s.operands = y :: x :: rest) : Runs I s (s.popped (f x y :: rest)) := by
  refine step hcode fun m hm => ?_
  obtain ⟨m₁, hp, h₁⟩ := hm.popOperand (s := s.next) hx
  obtain ⟨m₂, hq, h₂⟩ := h₁.popOperand rfl
  obtain ⟨m₃, hr, h₃⟩ := h₂.pushOperand (h₁.height_popped rfl) (f x y)
  refine ⟨m₃, Yields.bind (x := ()) ?_ (Yields.pure false), h₃⟩
  rw [Machine.operate, hf]
  exact hp.bind (hq.bind hr)

theorem skip (hcode : I.code[s.place]? = some .skip) : Runs I s s.next :=
  step hcode fun m hm => ⟨m, Yields.pure false, hm⟩

theorem jump (hcode : I.code[s.place]? = some (.jump target)) :
    Runs I s { s with place := target } :=
  step hcode fun _ hm => ⟨_, Yields.bind (x := ()) rfl (Yields.pure false), hm.jump target⟩

/-- **A branch is taken** unless the operand is 0. -/
theorem branch (hcode : I.code[s.place]? = some (.branch target)) (hx : s.operands = x :: rest) :
    Runs I s { s with
      place := if x ≠ 0 then target else s.place + 1
      operands := rest } := by
  refine step hcode fun m hm => ?_
  obtain ⟨m₁, hp, h₁⟩ := hm.popOperand (s := s.next) hx
  by_cases h0 : x ≠ 0
  · refine ⟨{ m₁ with pc := target }, hp.bind ?_, ?_⟩
    · rw [if_pos h0]
      exact Yields.bind (x := ()) rfl (Yields.pure false)
    · rw [if_pos h0]
      exact h₁.jump target
  · refine ⟨m₁, hp.bind ?_, ?_⟩
    · rw [if_neg h0]
      exact Yields.pure false
    · rw [if_neg h0]
      exact h₁

/-! ## Calls -/

/-- **The locals of a subroutine start at 0.** -/
theorem enter {n : Nat} (hcode : I.code[s.place]? = some (.enter n)) (hl : s.locals = [])
    (ho : s.operands = []) (hroom : s.height + n ≤ stackCells) :
    Runs I s { s with place := s.place + 1, locals := List.replicate n 0 } := by
  refine step hcode fun m hm => ?_
  obtain ⟨m₁, hp, h₁⟩ := hm.pushMany (x := 0) n (by rwa [Scene.length_stack_view])
  refine ⟨m₁, hp.bind (Yields.pure false), ?_⟩
  simpa [Scene.view, Scene.next, Frame.cells, hl, ho] using h₁

/-- **A built-in function is called** and takes operands. -/
theorem call_builtIn {name : String} {n : Nat} {native : Exec Int16}
    (hcode : I.code[s.place]? = some (.call name n))
    (hb : Machine.builtIn? name = some native) {t : Scene} (x : Int16)
    (h : ∀ m, Shows I m s.next.view →
      t.height < stackCells ∧ ∃ m₁, Yields native m x m₁ ∧ Shows I m₁ t.view) :
    Runs I s { t with operands := x :: t.operands } := by
  refine step hcode fun m hm => ?_
  obtain ⟨hroom, m₁, hn, h₁⟩ := h m hm
  obtain ⟨m₂, hp, h₂⟩ := h₁.pushOperand hroom x
  refine ⟨m₂, Yields.bind (x := ()) ?_ (Yields.pure false), h₂⟩
  rw [Machine.invoke, hb]
  exact hn.bind hp

theorem call_multiply {n : Nat} (hcode : I.code[s.place]? = some (.call "Math.multiply" n))
    (hx : s.operands = y :: x :: rest) : Runs I s (s.popped (x * y :: rest)) := by
  refine call_builtIn (t := s.popped rest) hcode rfl (x * y) fun m hm => ?_
  obtain ⟨m₁, hp, h₁⟩ := hm.popOperand (s := s.next) hx
  obtain ⟨m₂, hq, h₂⟩ := h₁.popOperand rfl
  exact ⟨h₁.height_popped rfl, m₂, hp.bind (hq.bind (Yields.pure _)), h₂⟩

theorem call_divide {n : Nat} (hcode : I.code[s.place]? = some (.call "Math.divide" n))
    (hx : s.operands = y :: x :: rest) (hy : y ≠ 0) : Runs I s (s.popped (x / y :: rest)) := by
  refine call_builtIn (t := s.popped rest) hcode rfl (x / y) fun m hm => ?_
  obtain ⟨m₁, hp, h₁⟩ := hm.popOperand (s := s.next) hx
  obtain ⟨m₂, hq, h₂⟩ := h₁.popOperand rfl
  refine ⟨h₁.height_popped rfl, m₂, hp.bind (hq.bind ?_), h₂⟩
  rw [if_neg hy]
  exact Yields.pure _

/-- **Cells of the heap are taken.** -/
theorem call_alloc {n size : Nat} {memory : Memory}
    (hcode : I.code[s.place]? = some (.call "Memory.alloc" n))
    (hx : s.operands = Int16.ofNat size :: rest)
    (ha : s.memory.allocate size = some (x, memory)) :
    Runs I s { s with place := s.place + 1, operands := x :: rest, memory := memory } := by
  rw [Memory.allocate, Option.ite_none_right_eq_some] at ha
  obtain ⟨hle, ha⟩ := ha
  obtain ⟨rfl, rfl⟩ := Prod.mk.inj (Option.some.inj ha)
  have hsize : size < Layout.cells := by
    have := s.memory.heap_le_free
    have : 0 < Layout.heap := by decide
    omega
  refine call_builtIn (t := { s with
    place := s.place + 1
    operands := rest
    memory := s.memory.grow size }) hcode rfl _ fun m hm => ?_
  obtain ⟨m₁, hp, h₁⟩ := hm.popOperand (s := s.next) hx
  have hfree : m₁.heap = s.memory.free := h₁.free
  refine ⟨hm.height_popped (s := s.next) hx, { m₁ with heap := s.memory.free + size },
    hp.bind ?_, ⟨h₁.code, h₁.functions, h₁.pc, rfl, h₁.height, h₁.registers, h₁.stack,
      h₁.statics, h₁.heap⟩⟩
  rw [Yields, Machine.allocate, Int16.toInt_ofNat_of_lt hsize]
  change (if m₁.heap + size ≤ Layout.cells then _ else _) = _
  rw [hfree, if_pos hle]

/-- **A subroutine is called** with arguments on top of the operands. -/
theorem call {name : String} {arguments operands : List Int16}
    (hcode : I.code[s.place]? = some (.call name arguments.length))
    (hb : Machine.builtIn? name = none) (hf : I.functions.lookup name = some target)
    (ho : s.operands = arguments.reverse ++ operands)
    (hroom : s.height + frameCells ≤ stackCells) :
    Runs I s (s.called target arguments operands) := by
  refine step hcode fun m hm => ?_
  obtain ⟨m₁, hp, h₁⟩ := hm.openFrame (s.stack_view_called ho) (by rwa [Scene.length_stack_view])
    (Int16.ofNat (s.place + 1))
  refine ⟨{ m₁ with pc := target }, Yields.bind (x := ()) ?_ (Yields.pure false), ?_⟩
  · rw [Machine.invoke, hb]
    refine Yields.get.bind ?_
    rw [hm.functions, hf]
    refine Yields.get.bind ?_
    rw [hm.pc]
    exact hp.bind rfl
  · rw [s.view_called ho]
    exact h₁.jump target

/-- **A subroutine returns** what it has on top. -/
theorem leave {f : Frame} {waiting : List Frame} (hcode : I.code[s.place]? = some .leave)
    (hx : s.operands = x :: rest) (hw : s.waiting = f :: waiting)
    (hplace : f.place < Layout.cells) :
    Runs I s { s with toFrame := { f with operands := x :: f.operands }, waiting := waiting } := by
  refine step hcode fun m hm => ?_
  have hs : s.next.view.stack = Frame.cells (f :: waiting) ++ s.arguments ++
      [Int16.ofNat f.place, Int16.ofNat (Frame.localBase f.arguments.length waiting),
        Int16.ofNat (Frame.argumentBase waiting), f.this, f.that] ++
      (s.locals ++ rest.reverse) ++ [x] := by
    simp [Scene.view, Scene.next, Frame.cells, Frame.saved, hx, hw]
  obtain ⟨m₁, hp, h₁⟩ := hm.closeFrame hs
    (by simp [Scene.view, Scene.next, Frame.localBase, Frame.argumentBase, hw, Nat.add_assoc])
    (by simp [Scene.view, Scene.next, Frame.argumentBase, hw])
  refine ⟨{ m₁ with pc := f.place }, hp.bind ?_, ?_⟩
  · have hne : Int16.ofNat f.place ≠ Layout.halt := by
      intro heq
      have := congrArg Int16.toInt heq
      rw [Int16.toInt_ofNat_of_lt hplace] at this
      exact absurd this (by change (f.place : Int) ≠ -1; omega)
    rw [if_neg hne]
    exact (Yields.lift (Machine.toAddress_ofNat hplace)).bind
      (Yields.bind (x := ()) rfl (Yields.pure false))
  · have := h₁.jump f.place
    simpa [Scene.view, Scene.next, Frame.cells] using this

/-- **The first call returns** what it has on top, at the bottom of the stack. -/
theorem halt (hcode : I.code[s.place]? = some .leave) (hx : s.operands = x :: rest)
    (hw : s.waiting = []) {m : Machine} (hm : Shows I m s.view) :
    ∃ m', Yields Machine.step m true m' ∧ m'.peek Layout.stack = x ∧
      I.HoldsStatics m' s.memory ∧ m'.HoldsHeap s.memory := by
  have hs : s.view.stack = [] ++ s.arguments ++ [Layout.halt, 0, 0, 0, 0] ++
      (s.locals ++ rest.reverse) ++ [x] := by
    simp [Scene.view, Frame.cells, Frame.saved, hx, hw]
  obtain ⟨m₁, hp, h₁⟩ := (hm.jump (m.pc + 1)).closeFrame hs
    (by simp [Scene.view, Frame.localBase, Frame.argumentBase, Frame.height, hw])
    (by simp [Scene.view, Frame.argumentBase, Frame.height, hw])
  refine ⟨m₁, Yields.step (i := .leave) ?_ (hp.bind (Yields.pure true)), h₁.stack 0 x rfl,
    h₁.statics, h₁.heap⟩
  rw [hm.code, hm.pc]
  exact hcode

end Runs

end JackStack
