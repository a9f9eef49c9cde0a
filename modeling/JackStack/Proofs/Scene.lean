import JackStack.Machine.Run
import JackStack.Proofs.Semantics

/-!
# Proofs/Scene — the memory of the machine, seen as frames

The machine keeps everything in numbered cells. A **scene** says the same in the words of calls: the
frame at work with its operands, locals, arguments and objects, the frames that wait for it to
return, and the memory of the program. A machine *shows* a scene if its cells hold what the scene
says; cells beyond the stack and unused statics may hold anything.

    | arguments | return, local, argument, this, that | locals | operands | ...
    ^ argument base                                   ^ local base

Each operation on the machine becomes an operation on scenes:

* `Shows.push`, `Shows.pop` — the operands;
* `Shows.setLocal`, `Shows.setArgument`, `Shows.setStatic`, `Shows.setHeap` and others — one cell;
* `Shows.openFrame`, `Shows.closeFrame` — the frames.
-/

namespace JackStack

/-! ## Numbers as addresses -/

namespace Machine

theorem toAddress_ofNat {n : Nat} (h : n < Layout.cells) :
    toAddress (Int16.ofNat n) = .ok n := by
  rw [toAddress, Int16.toInt_ofNat_of_lt h]

theorem addExact_ofNat {n k : Nat} (h : n + k < Layout.cells) :
    addExact (Int16.ofNat n) (Int16.ofNat k) = .ok (Int16.ofNat (n + k)) := by
  have hn : n < 2 ^ 15 := Nat.lt_of_le_of_lt (Nat.le_add_right n k) h
  have hk : k < 2 ^ 15 := Nat.lt_of_le_of_lt (Nat.le_add_left k n) h
  have hmin : Int16.minValue.toInt = -32768 := rfl
  have hmax : Int16.maxValue.toInt = 32767 := rfl
  have hcells : Layout.cells = 32768 := rfl
  rw [addExact, Int16.toInt_ofNat_of_lt hn, Int16.toInt_ofNat_of_lt hk,
    ← Int.natCast_add, if_pos (by omega), Int16.ofInt_eq_ofNat]

theorem subExact_ofNat {n k : Nat} (hk : k ≤ n) (h : n < Layout.cells) :
    subExact (Int16.ofNat n) (Int16.ofNat k) = .ok (Int16.ofNat (n - k)) := by
  have hmin : Int16.minValue.toInt = -32768 := rfl
  have hmax : Int16.maxValue.toInt = 32767 := rfl
  have hcells : Layout.cells = 32768 := rfl
  rw [subExact, Int16.toInt_ofNat_of_lt h, Int16.toInt_ofNat_of_lt (Nat.lt_of_le_of_lt hk h),
    ← Int.ofNat_sub hk, if_pos (by omega), Int16.ofInt_eq_ofNat]

theorem toNat_ofNat {n : Nat} (h : n < Layout.cells) : (Int16.ofNat n).toUInt16.toNat = n := by
  rw [Int16.toUInt16_ofNat', UInt16.toNat_ofNat']
  exact Nat.mod_eq_of_lt (Nat.lt_trans h (by decide))

/-! ## Operations that succeed -/

/-- **An operation yields a value**, and the machine is another one behind it. -/
def Yields {α : Type} (op : Exec α) (m : Machine) (x : α) (m' : Machine) : Prop :=
  op m = .ok (x, m')

variable {α β : Type} {m m' m'' : Machine}

theorem Yields.pure (x : α) : Yields (pure x) m x m := rfl

theorem Yields.bind {op : Exec α} {f : α → Exec β} {x : α} {y : β} (h : Yields op m x m')
    (hf : Yields (f x) m' y m'') : Yields (op >>= f) m y m'' := by
  change (op m >>= fun p => f p.1 p.2) = _
  rw [show op m = _ from h]
  exact hf

theorem Yields.lift {e : Except Fault α} {x : α} (h : e = .ok x) :
    Yields (liftM e : Exec α) m x m := by
  subst h
  rfl

theorem Yields.get : Yields (get : Exec Machine) m m m := rfl

/-! ## Cells -/

/-- The content of a cell. -/
def peek (m : Machine) (a : Nat) : Int16 :=
  m.memory[a]?.getD 0

/-- The machine with the content of a cell changed. -/
def poke (m : Machine) (a : Nat) (x : Int16) : Machine :=
  { m with memory := m.memory.setIfInBounds a x }

theorem peek_poke_self {a : Nat} (h : a < Layout.cells) (x : Int16) :
    (m.poke a x).peek a = x := by
  simp [peek, poke, h]

theorem peek_poke_of_ne {a b : Nat} (h : b ≠ a) (x : Int16) :
    (m.poke a x).peek b = m.peek b := by
  simp [peek, poke, h.symm]

theorem cell_eq_peek {a : Nat} (h : a < Layout.cells) : m.cell a = .ok (m.peek a) := by
  simp [cell, peek, h]

theorem Yields.read {a : Nat} (h : a < Layout.cells) : Yields (read a) m (m.peek a) m := by
  simp [Yields, Machine.read, peek, h]

theorem Yields.read_eq {a : Nat} {x : Int16} (h : a < Layout.cells) (hx : m.peek a = x) :
    Yields (Machine.read a) m x m :=
  hx ▸ Yields.read h

theorem Yields.write {a : Nat} (h : a < Layout.cells) (x : Int16) :
    Yields (write a x) m () (m.poke a x) := by
  rw [Yields, Machine.write, dif_pos h, poke]
  congr 3
  ext i hi
  simp [Vector.getElem_set, Vector.getElem_setIfInBounds]

/-- The base that a cell holds, with an index added. -/
theorem Yields.indexed {base index : Nat} {x : Int16} (h : base < Layout.cells)
    (hx : m.peek base = x) :
    Yields (Machine.indexed base index) m (x.toUInt16.toNat + index) m :=
  (Yields.read_eq h hx).bind (Yields.pure _)

/-! ## Returns -/

/-- **The machine behind a return**: the result lies where the arguments began, at `b`, and the
bases are those below the frame that began at `f`. -/
def closed (m : Machine) (f b : Nat) (result : Int16) : Machine :=
  (((((m.poke b result).poke Layout.sp (Int16.ofNat (b + 1))).poke Layout.that
    (m.peek (f - 1))).poke Layout.this (m.peek (f - 2))).poke Layout.arg
    (m.peek (f - 3))).poke Layout.lcl (m.peek (f - 4))

/-- **A return gets through** if its frame lies above the registers and behind its arguments. -/
theorem Yields.closeFrame {f b : Nat} {x : Int16} (hl : m.peek Layout.lcl = Int16.ofNat f) (hf : f < Layout.cells)
    (hlow : Layout.that + 5 < f) (ha : m'.peek Layout.arg = Int16.ofNat b) (hb : b + 5 ≤ f)
    (hpop : Yields Machine.pop m x m') :
    Yields Machine.closeFrame m (m.peek (f - 5)) (m'.closed f b x) := by
  obtain ⟨hsp, harg, hthis, hthat⟩ :
      Layout.sp = 0 ∧ Layout.arg = 2 ∧ Layout.this = 3 ∧ Layout.that = 4 := ⟨rfl, rfl, rfl, rfl⟩
  have hbelow : ∀ k, k ≤ 5 → below f k = .ok (f - k) := fun k hk => if_pos (by omega)
  have hcell : ∀ k, f - k < Layout.cells := fun k => by omega
  refine (Yields.read_eq (by decide) hl).bind ?_
  refine (Yields.lift (toAddress_ofNat hf)).bind ?_
  refine (Yields.lift (hbelow 5 (by omega))).bind ?_
  refine (Yields.read (hcell 5)).bind ?_
  refine hpop.bind ?_
  refine (Yields.read_eq (by decide) ha).bind ?_
  refine (Yields.lift (toAddress_ofNat (by omega))).bind ?_
  refine (Yields.write (by omega) x).bind ?_
  refine (Yields.lift (addExact_ofNat (k := 1) (by omega))).bind ?_
  refine (Yields.write (by decide) _).bind ?_
  -- No cell of the frame that is still to be read has been written: they lie above the registers
  -- and behind the result.
  refine (Yields.lift (hbelow 1 (by omega))).bind ((Yields.read_eq (x := m'.peek (f - 1)) (hcell 1)
    (by simp (disch := omega) only [peek_poke_of_ne])).bind ?_)
  refine (Yields.write (by decide) _).bind ?_
  refine (Yields.lift (hbelow 2 (by omega))).bind ((Yields.read_eq (x := m'.peek (f - 2)) (hcell 2)
    (by simp (disch := omega) only [peek_poke_of_ne])).bind ?_)
  refine (Yields.write (by decide) _).bind ?_
  refine (Yields.lift (hbelow 3 (by omega))).bind ((Yields.read_eq (x := m'.peek (f - 3)) (hcell 3)
    (by simp (disch := omega) only [peek_poke_of_ne])).bind ?_)
  refine (Yields.write (by decide) _).bind ?_
  refine (Yields.lift (hbelow 4 (by omega))).bind ((Yields.read_eq (x := m'.peek (f - 4)) (hcell 4)
    (by simp (disch := omega) only [peek_poke_of_ne])).bind ?_)
  exact (Yields.write (by decide) _).bind (Yields.pure _)

/-! ## Ranges of cells -/

/-- **The cells from an address on hold values**, one after the other. -/
def Holds (m : Machine) (base : Nat) (xs : List Int16) : Prop :=
  ∀ i x, xs[i]? = some x → m.peek (base + i) = x

namespace Holds

variable {base a i : Nat} {x : Int16} {xs ys : List Int16}

theorem left (h : Holds m base (xs ++ ys)) : Holds m base xs := by
  intro i x hi
  exact h i x (List.getElem?_append_left (List.getElem?_eq_some_iff.1 hi).1 ▸ hi)

/-- A cell outside of the range does not matter. -/
theorem poke_outside (h : Holds m base xs) (ha : a < base ∨ base + xs.length ≤ a) :
    Holds (m.poke a x) base xs := by
  intro i y hi
  have hlt : i < xs.length := (List.getElem?_eq_some_iff.1 hi).1
  rw [peek_poke_of_ne (by omega)]
  exact h i y hi

theorem poke_set (h : Holds m base xs) (hi : base + i < Layout.cells) :
    Holds (m.poke (base + i) x) base (xs.set i x) := by
  intro j y hj
  by_cases hij : j = i
  · subst hij
    have hlt : j < xs.length := by simpa using (List.getElem?_eq_some_iff.1 hj).1
    rw [peek_poke_self hi]
    rw [List.getElem?_set_self hlt] at hj
    exact Option.some.inj hj
  · rw [peek_poke_of_ne (by omega)]
    rw [List.getElem?_set_ne (Ne.symm hij)] at hj
    exact h j y hj

theorem concat (h : Holds m base xs) (hx : base + xs.length < Layout.cells) :
    Holds (m.poke (base + xs.length) x) base (xs ++ [x]) := by
  intro i y hi
  by_cases hlt : i < xs.length
  · rw [List.getElem?_append_left hlt] at hi
    exact h.poke_outside (.inr (Nat.le_refl _)) i y hi
  · have hlen : i < (xs ++ [x]).length := (List.getElem?_eq_some_iff.1 hi).1
    obtain rfl : i = xs.length := by
      rw [List.length_append, List.length_singleton] at hlen
      omega
    rw [List.getElem?_concat_length] at hi
    rw [peek_poke_self hx]
    exact Option.some.inj hi

/-- A value in the middle of a range. -/
theorem middle {zs : List Int16} (h : Holds m base (xs ++ ys ++ zs)) (hx : ys[i]? = some x) :
    m.peek (base + (xs.length + i)) = x := by
  have hi : i < ys.length := (List.getElem?_eq_some_iff.1 hx).1
  refine h _ x ?_
  rw [List.append_assoc, List.getElem?_append_right (Nat.le_add_right _ _),
    Nat.add_sub_cancel_left, List.getElem?_append_left hi, hx]

end Holds

end Machine

/-! ## Views -/

/-- **What is loaded**: the code, the places of functions, and for each class the first of its
statics and their number. Statics lie below the stack, and no two share a cell. -/
structure Image where
  code : Array Instr
  functions : List (String × Nat)
  base : String → Nat
  size : String → Nat
  static_le : ∀ c i, i < size c → Layout.static ≤ base c + i
  static_lt : ∀ c i, i < size c → base c + i < Layout.stack
  static_inj : ∀ c d i j, i < size c → j < size d → base c + i = base d + j → c = d ∧ i = j

/-- The statics of each class lie in their cells. -/
def Image.HoldsStatics (I : Image) (m : Machine) (memory : Memory) : Prop :=
  ∀ c i, i < I.size c → m.peek (I.base c + i) = memory.statics c i

/-- The heap lies in its cells. -/
def Machine.HoldsHeap (m : Machine) (memory : Memory) : Prop :=
  ∀ a, Layout.heap ≤ a → a < Layout.cells → m.peek a = memory.heap a

/-- **A view of the machine**: where its code goes on, the values on the stack, the latest last, the
four bases and a temporary, and the memory of the program. -/
structure View where
  place : Nat
  stack : List Int16
  lcl : Int16
  arg : Int16
  this : Int16
  that : Int16
  temp : Int16
  memory : Memory

/-- The first cells of the memory. -/
def View.registers (v : View) : List Int16 :=
  [Int16.ofNat (Layout.stack + v.stack.length), v.lcl, v.arg, v.this, v.that, v.temp]

/-- **A machine shows a view** of what is loaded. -/
structure Shows (I : Image) (m : Machine) (v : View) : Prop where
  code : m.code = I.code
  functions : m.functions = I.functions
  pc : m.pc = v.place
  free : m.heap = v.memory.free
  height : v.stack.length ≤ stackCells
  registers : m.Holds 0 v.registers
  stack : m.Holds Layout.stack v.stack
  statics : I.HoldsStatics m v.memory
  heap : m.HoldsHeap v.memory

/-- The bounds of the regions of the memory, as numbers. -/
theorem Layout.bounds : Layout.cells = 32768 ∧ Layout.static = 16 ∧ Layout.stack = 256 ∧
    Layout.heap = 2048 ∧ stackCells = 1792 ∧ frameCells = 5 :=
  ⟨rfl, rfl, rfl, rfl, rfl, rfl⟩

theorem Image.HoldsStatics.poke {I : Image} {m : Machine} {memory : Memory}
    (h : I.HoldsStatics m memory) {a : Nat} (ha : a < Layout.static ∨ Layout.stack ≤ a)
    (x : Int16) : I.HoldsStatics (m.poke a x) memory := by
  intro c i hi
  have hle := I.static_le c i hi
  have hlt := I.static_lt c i hi
  rw [Machine.peek_poke_of_ne (by omega)]
  exact h c i hi

theorem Machine.HoldsHeap.poke {m : Machine} {memory : Memory} (h : m.HoldsHeap memory) {a : Nat}
    (ha : a < Layout.heap) (x : Int16) : (m.poke a x).HoldsHeap memory := by
  intro b hb hlt
  rw [Machine.peek_poke_of_ne (by omega)]
  exact h b hb hlt

namespace Shows

open Machine (Yields)

variable {I : Image} {m : Machine} {v : View} {x : Int16}

/-- **A register is written.** -/
theorem setRegister (h : Shows I m v) {i : Nat} (hi : i < v.registers.length) {v' : View}
    (hr : v'.registers = v.registers.set i x) (hp : v'.place = v.place)
    (hs : v'.stack = v.stack) (hm : v'.memory = v.memory) : Shows I (m.poke i x) v' := by
  obtain ⟨hcells, hstatic, hstack, hheap, -, -⟩ := Layout.bounds
  have hlen : v.registers.length = 6 := rfl
  refine ⟨h.code, h.functions, h.pc.trans hp.symm, by rw [hm]; exact h.free, hs ▸ h.height,
    ?_, ?_, hm ▸ h.statics.poke (by omega) x, hm ▸ h.heap.poke (by omega) x⟩
  · have := h.registers.poke_set (i := i) (x := x) (by omega)
    rwa [Nat.zero_add, ← hr] at this
  · rw [hs]
    exact h.stack.poke_outside (by omega)

/-- **A cell of the stack in use is written.** -/
theorem setStack (h : Shows I m v) {i : Nat} (hi : i < v.stack.length) (x : Int16) :
    Shows I (m.poke (Layout.stack + i) x) { v with stack := v.stack.set i x } := by
  obtain ⟨hcells, hstatic, hstack, hheap, hlimit, -⟩ := Layout.bounds
  have hle := h.height
  have hlen : v.registers.length = 6 := rfl
  refine ⟨h.code, h.functions, h.pc, h.free, by rwa [List.length_set], ?_, ?_,
    h.statics.poke (by omega) x, h.heap.poke (by omega) x⟩
  · rw [View.registers, List.length_set]
    exact h.registers.poke_outside (by omega)
  · exact h.stack.poke_set (by omega)

/-- **A value is pushed.** -/
theorem push (h : Shows I m v) (hroom : v.stack.length < stackCells) (x : Int16) :
    ∃ m', Yields (Machine.push x) m () m' ∧ Shows I m' { v with stack := v.stack ++ [x] } := by
  obtain ⟨hcells, hstatic, hstack, hheap, hlimit, -⟩ := Layout.bounds
  have hlen : v.registers.length = 6 := rfl
  have hsp : m.peek Layout.sp = Int16.ofNat (Layout.stack + v.stack.length) := h.registers 0 _ rfl
  let m₁ := m.poke (Layout.stack + v.stack.length) x
  have hsp₁ : m₁.peek Layout.sp = Int16.ofNat (Layout.stack + v.stack.length) := by
    rw [Machine.peek_poke_of_ne (by change 0 ≠ _; omega), hsp]
  refine ⟨m₁.poke Layout.sp (Int16.ofNat (Layout.stack + v.stack.length + 1)), ?_, ?_⟩
  · refine (Yields.read (by decide)).bind ?_
    rw [hsp]
    refine (Yields.lift (Machine.toAddress_ofNat (by omega))).bind ?_
    refine (Yields.write (by omega) x).bind ?_
    refine (Yields.read (by decide)).bind ?_
    rw [hsp₁]
    refine (Yields.lift (Machine.addExact_ofNat (k := 1) (by omega))).bind ?_
    exact Yields.write (by decide) _
  · refine ⟨h.code, h.functions, h.pc, h.free, by rw [List.length_append]; exact hroom, ?_,
      (h.stack.concat (by omega)).poke_outside (.inl (by decide)),
      (h.statics.poke (by omega) _).poke (.inl (by decide)) _,
      (h.heap.poke (by omega) _).poke (by decide) _⟩
    have h₁ : m₁.Holds 0 v.registers := h.registers.poke_outside (by omega)
    rw [View.registers, List.length_append]
    exact h₁.poke_set (i := 0) (by decide)

/-- **A value is popped.** -/
theorem pop (h : Shows I m v) {xs : List Int16} (hx : v.stack = xs ++ [x]) :
    ∃ m', Yields Machine.pop m x m' ∧ Shows I m' { v with stack := xs } := by
  obtain ⟨hcells, hstatic, hstack, hheap, hlimit, -⟩ := Layout.bounds
  have hle := h.height
  have hh : v.stack.length = xs.length + 1 := by simp [hx]
  have hsp : m.peek Layout.sp = Int16.ofNat (Layout.stack + v.stack.length) := h.registers 0 _ rfl
  let m₁ := m.poke Layout.sp (Int16.ofNat (Layout.stack + xs.length))
  have hsp₁ : m₁.peek Layout.sp = Int16.ofNat (Layout.stack + xs.length) :=
    Machine.peek_poke_self (by decide) _
  have htop : m₁.peek (Layout.stack + xs.length) = x := by
    rw [Machine.peek_poke_of_ne (by change _ ≠ 0; omega)]
    refine h.stack xs.length x ?_
    rw [hx, List.getElem?_concat_length]
  refine ⟨m₁, ?_, ?_⟩
  · refine (Yields.read (by decide)).bind ?_
    rw [hsp]
    refine (Yields.lift (Machine.subExact_ofNat (k := 1) (by omega) (by omega))).bind ?_
    rw [show Layout.stack + v.stack.length - 1 = Layout.stack + xs.length by omega]
    refine (Yields.write (by decide) _).bind ?_
    refine (Yields.read (by decide)).bind ?_
    rw [hsp₁]
    refine (Yields.lift (Machine.toAddress_ofNat (by omega))).bind ?_
    have := Yields.read (m := m₁) (a := Layout.stack + xs.length) (by omega)
    rwa [htop] at this
  · exact ⟨h.code, h.functions, h.pc, h.free, by change xs.length ≤ _; omega,
      h.registers.poke_set (i := 0) (by decide),
      (hx ▸ h.stack).left.poke_outside (.inl (by decide)),
      h.statics.poke (.inl (by decide)) _, h.heap.poke (by decide) _⟩

/-- **A static is written.** -/
theorem setStatic (h : Shows I m v) {className : String} {i : Nat} (hi : i < I.size className)
    (x : Int16) : Shows I (m.poke (I.base className + i) x)
      { v with memory := v.memory.setStatic className i x } := by
  obtain ⟨hcells, hstatic, hstack, hheap, -, -⟩ := Layout.bounds
  have hlen : v.registers.length = 6 := rfl
  have hle := I.static_le className i hi
  have hlt := I.static_lt className i hi
  refine ⟨h.code, h.functions, h.pc, h.free, h.height, h.registers.poke_outside (by omega),
    h.stack.poke_outside (by omega), ?_, h.heap.poke (by omega) x⟩
  intro d j hj
  by_cases hdj : d = className ∧ j = i
  · obtain ⟨rfl, rfl⟩ := hdj
    rw [Machine.peek_poke_self (by omega)]
    simp [Memory.setStatic]
  · have hne : I.base d + j ≠ I.base className + i :=
      fun heq => hdj (I.static_inj d className j i hj hi heq)
    rw [Machine.peek_poke_of_ne hne, h.statics d j hj]
    simp [Memory.setStatic, hdj]

/-- **A cell of the heap is written.** -/
theorem setHeap (h : Shows I m v) {a : Nat} (ha : Layout.heap ≤ a) (hlt : a < Layout.cells)
    (x : Int16) : Shows I (m.poke a x) { v with memory := v.memory.setHeap a x } := by
  obtain ⟨hcells, hstatic, hstack, hheap, hlimit, -⟩ := Layout.bounds
  have hlen : v.registers.length = 6 := rfl
  have hle := h.height
  refine ⟨h.code, h.functions, h.pc, h.free, h.height, h.registers.poke_outside (by omega),
    h.stack.poke_outside (by omega), h.statics.poke (by omega) x, ?_⟩
  intro b hb hblt
  by_cases hba : b = a
  · subst hba
    rw [Machine.peek_poke_self hblt]
    simp [Memory.setHeap]
  · rw [Machine.peek_poke_of_ne hba, h.heap b hb hblt]
    simp [Memory.setHeap, hba]

/-- **The code goes on elsewhere.** -/
theorem jump (h : Shows I m v) (target : Nat) :
    Shows I { m with pc := target } { v with place := target } :=
  ⟨h.code, h.functions, rfl, h.free, h.height, h.registers, h.stack, h.statics, h.heap⟩

/-- **Values are pushed**, one after the other. -/
theorem pushAll (h : Shows I m v) (xs : List Int16)
    (hroom : v.stack.length + xs.length ≤ stackCells) :
    ∃ m', Yields (Machine.pushAll xs) m () m' ∧ Shows I m' { v with stack := v.stack ++ xs } := by
  induction xs generalizing m v with
  | nil => exact ⟨m, Yields.pure (), by simpa using h⟩
  | cons x xs ih =>
    rw [List.length_cons] at hroom
    obtain ⟨m₁, hx, h₁⟩ := h.push (by omega) x
    obtain ⟨m₂, hxs, h₂⟩ := ih h₁ (by simp; omega)
    exact ⟨m₂, hx.bind hxs, by simpa using h₂⟩

/-- **A value is pushed several times.** -/
theorem pushMany (h : Shows I m v) (n : Nat) (hroom : v.stack.length + n ≤ stackCells) :
    ∃ m', Yields (Machine.pushMany x n) m () m' ∧
      Shows I m' { v with stack := v.stack ++ List.replicate n x } := by
  induction n generalizing m v with
  | zero => exact ⟨m, Yields.pure (), by simpa using h⟩
  | succ n ih =>
    obtain ⟨m₁, hx, h₁⟩ := h.push (by omega) x
    obtain ⟨m₂, hxs, h₂⟩ := ih h₁ (by simp; omega)
    exact ⟨m₂, hx.bind hxs, by simpa [List.replicate_succ] using h₂⟩

/-! ### Frames -/

/-- **A register is pushed.** -/
theorem pushCell (h : Shows I m v) (hroom : v.stack.length < stackCells) {i : Nat}
    (hx : v.registers[i]? = some x) {cells : List Nat} {v' : View}
    (hrest : ∀ m', Shows I m' { v with stack := v.stack ++ [x] } →
      ∃ m'', Yields (Machine.pushCells cells) m' () m'' ∧ Shows I m'' v') :
    ∃ m'', Yields (Machine.pushCells (i :: cells)) m () m'' ∧ Shows I m'' v' := by
  have hlt : i < 6 := (List.getElem?_eq_some_iff.1 hx).1
  have hi : m.peek i = x := by simpa using h.registers i x hx
  obtain ⟨m₁, hm₁, h₁⟩ := h.push hroom x
  obtain ⟨m₂, hm₂, h₂⟩ := hrest m₁ h₁
  refine ⟨m₂, (Yields.read (Nat.lt_trans hlt (by decide))).bind ?_, h₂⟩
  rw [hi]
  exact hm₁.bind hm₂

/-- **A frame is opened** for arguments on top of the stack. -/
theorem openFrame (h : Shows I m v) {below arguments : List Int16}
    (hs : v.stack = below ++ arguments) (hroom : v.stack.length + frameCells ≤ stackCells)
    (returnTo : Int16) :
    ∃ m', Yields (Machine.openFrame returnTo (Int16.ofNat arguments.length)) m () m' ∧
      Shows I m' { v with
        stack := v.stack ++ [returnTo, v.lcl, v.arg, v.this, v.that]
        lcl := Int16.ofNat (Layout.stack + v.stack.length + frameCells)
        arg := Int16.ofNat (Layout.stack + below.length) } := by
  obtain ⟨hcells, hstatic, hstack, hheap, hlimit, hframe⟩ := Layout.bounds
  have hlen : v.stack.length = below.length + arguments.length := by rw [hs, List.length_append]
  obtain ⟨m₁, hm₁, h₁⟩ := h.push (by omega) returnTo
  obtain ⟨m₂, hm₂, h₂⟩ : ∃ m₂, Yields (Machine.pushCells Layout.saved) m₁ () m₂ ∧
      Shows I m₂ { v with stack := v.stack ++ [returnTo, v.lcl, v.arg, v.this, v.that] } := by
    refine h₁.pushCell (x := v.lcl) (by simp; omega) rfl fun m h => ?_
    refine h.pushCell (x := v.arg) (by simp; omega) rfl fun m h => ?_
    refine h.pushCell (x := v.this) (by simp; omega) rfl fun m h => ?_
    refine h.pushCell (x := v.that) (by simp; omega) rfl fun m h => ?_
    exact ⟨m, Yields.pure (), by simpa using h⟩
  have hsp : m₂.peek Layout.sp = Int16.ofNat (Layout.stack + v.stack.length + frameCells) := by
    have := h₂.registers 0 _ rfl
    rwa [List.length_append, ← Nat.add_assoc] at this
  let m₃ := m₂.poke Layout.arg (Int16.ofNat (Layout.stack + below.length))
  have hsp₃ : m₃.peek Layout.sp = Int16.ofNat (Layout.stack + v.stack.length + frameCells) := by
    rw [Machine.peek_poke_of_ne (by decide), hsp]
  refine ⟨m₃.poke Layout.lcl (Int16.ofNat (Layout.stack + v.stack.length + frameCells)), ?_, ?_⟩
  · refine hm₁.bind (hm₂.bind ?_)
    refine (Yields.read (by decide)).bind ?_
    rw [hsp]
    refine (Yields.lift (Machine.subExact_ofNat (by omega) (by omega))).bind ?_
    refine (Yields.lift (Machine.subExact_ofNat (k := 5) (by omega) (by omega))).bind ?_
    rw [show Layout.stack + v.stack.length + frameCells - arguments.length - 5 =
      Layout.stack + below.length by omega]
    refine (Yields.write (by decide) _).bind ?_
    refine (Yields.read (by decide)).bind ?_
    rw [hsp₃]
    exact Yields.write (by decide) _
  · have h₃ : Shows I m₃ { v with
        stack := v.stack ++ [returnTo, v.lcl, v.arg, v.this, v.that]
        arg := Int16.ofNat (Layout.stack + below.length) } :=
      h₂.setRegister (i := 2) (by simp [View.registers]) rfl rfl rfl rfl
    exact h₃.setRegister (i := 1) (by simp [View.registers]) rfl rfl rfl rfl

/-- **A frame is closed**: what it has on top is the result, which replaces its arguments. -/
theorem closeFrame (h : Shows I m v) {below arguments rest : List Int16}
    {returnTo lcl arg this that : Int16}
    (hs : v.stack = below ++ arguments ++ [returnTo, lcl, arg, this, that] ++ rest ++ [x])
    (hlcl : v.lcl = Int16.ofNat (Layout.stack + (below ++ arguments).length + frameCells))
    (harg : v.arg = Int16.ofNat (Layout.stack + below.length)) :
    ∃ m', Yields Machine.closeFrame m returnTo m' ∧
      Shows I m' { v with
        stack := below ++ [x]
        lcl := lcl
        arg := arg
        this := this
        that := that } := by
  obtain ⟨hcells, hstatic, hstack, hheap, hlimit, hframe⟩ := Layout.bounds
  have hle := h.height
  have hlen : v.stack.length = (below ++ arguments).length + 5 + rest.length + 1 := by
    simp only [hs, List.length_append, List.length_cons, List.length_nil]
  have hbelow : below.length ≤ (below ++ arguments).length := by simp
  generalize hk : (below ++ arguments).length = k at hlcl hlen hbelow
  obtain ⟨m₁, hm₁, h₁⟩ := h.pop hs
  have hreg : m₁.Holds 0 _ := h₁.registers
  have hbase : m₁.Holds Layout.stack below := h₁.stack.left.left.left
  have hsaved : ∀ i y, [returnTo, lcl, arg, this, that][i]? = some y →
      m₁.peek (Layout.stack + (k + i)) = y := fun i y hy => hk ▸ h₁.stack.middle hy
  have hret : m.peek (Layout.stack + (k + 0)) = returnTo :=
    hk ▸ (hs ▸ h.stack).left.middle (x := returnTo) (i := 0) rfl
  have hthat : Layout.that = 4 := rfl
  have hclosed := Yields.closeFrame ((h.registers 1 _ rfl).trans hlcl) (by omega) (by omega)
    ((hreg 2 _ rfl).trans harg) (by omega) hm₁
  have hcell : ∀ i, i < 5 → Layout.stack + k + frameCells - (5 - i) = Layout.stack + (k + i) := by
    omega
  rw [Machine.closed, hcell 4 (by decide), hcell 3 (by decide), hcell 2 (by decide),
    hcell 1 (by decide), hcell 0 (by decide), hret, hsaved 4 that rfl, hsaved 3 this rfl,
    hsaved 2 arg rfl, hsaved 1 lcl rfl] at hclosed
  refine ⟨_, hclosed, ?_⟩
  have h₂ : Shows I ((m₁.poke (Layout.stack + below.length) x).poke Layout.sp
      (Int16.ofNat (Layout.stack + below.length + 1))) { v with stack := below ++ [x] } := by
    refine ⟨h₁.code, h₁.functions, h₁.pc, h₁.free, by simp; omega, ?_,
      (hbase.concat (by omega)).poke_outside (.inl (by decide)),
      (h₁.statics.poke (by omega) _).poke (.inl (by decide)) _,
      (h₁.heap.poke (by omega) _).poke (by decide) _⟩
    have hreg₂ : (m₁.poke (Layout.stack + below.length) x).Holds 0 _ :=
      hreg.poke_outside (.inr (by simp [View.registers]; omega))
    rw [View.registers, List.length_append]
    exact hreg₂.poke_set (i := 0) (by decide)
  have h₃ : Shows I _ { v with stack := below ++ [x], that := that } :=
    h₂.setRegister (i := 4) (by simp [View.registers]) rfl rfl rfl rfl
  have h₄ : Shows I _ { v with stack := below ++ [x], this := this, that := that } :=
    h₃.setRegister (i := 3) (by simp [View.registers]) rfl rfl rfl rfl
  have h₅ : Shows I _ { v with stack := below ++ [x], arg := arg, this := this, that := that } :=
    h₄.setRegister (i := 2) (by simp [View.registers]) rfl rfl rfl rfl
  exact h₅.setRegister (i := 1) (by simp [View.registers]) rfl rfl rfl rfl

end Shows

/-! ## Frames and scenes -/

/-- **A frame**: where the code goes on, the operands, the latest first, the locals and arguments,
and the addresses of the object and of the array at hand. -/
structure Frame where
  place : Nat
  operands : List Int16
  locals : List Int16
  arguments : List Int16
  this : Int16
  that : Int16

namespace Frame

/-- How many cells frames take, each on top of the next. -/
def height : List Frame → Nat
  | [] => 0
  | f :: rest =>
    height rest + f.arguments.length + frameCells + f.locals.length + f.operands.length

/-- The address of the first argument of a frame on top of others. -/
def argumentBase (rest : List Frame) : Nat :=
  Layout.stack + height rest

/-- The address of the first local of a frame with so many arguments on top of others. -/
def localBase (arguments : Nat) (rest : List Frame) : Nat :=
  argumentBase rest + arguments + frameCells

/-- **What a call saves** of the frames below it: where to go on, and the four bases. -/
def saved : List Frame → List Int16
  | [] => [Layout.halt, 0, 0, 0, 0]
  | f :: rest =>
    [Int16.ofNat f.place, Int16.ofNat (localBase f.arguments.length rest),
      Int16.ofNat (argumentBase rest), f.this, f.that]

/-- **The cells of frames**, each on top of the next. -/
def cells : List Frame → List Int16
  | [] => []
  | f :: rest => cells rest ++ f.arguments ++ saved rest ++ f.locals ++ f.operands.reverse

@[simp] theorem length_saved (rest : List Frame) : (saved rest).length = frameCells := by
  cases rest <;> rfl

@[simp] theorem length_cells (frames : List Frame) : (cells frames).length = height frames := by
  induction frames with
  | nil => rfl
  | cons f rest ih =>
    simp only [cells, height, List.length_append, List.length_reverse, length_saved, ih]

end Frame

/-- **A scene**: the frame at work, a temporary, the frames that wait, and the memory. -/
structure Scene extends Frame where
  temp : Int16
  waiting : List Frame
  memory : Memory

namespace Scene

/-- How many cells of the stack are in use. -/
def height (s : Scene) : Nat :=
  Frame.height (s.toFrame :: s.waiting)

/-- **The view that a scene gives.** -/
def view (s : Scene) : View where
  place := s.place
  stack := Frame.cells (s.toFrame :: s.waiting)
  lcl := Int16.ofNat (Frame.localBase s.arguments.length s.waiting)
  arg := Int16.ofNat (Frame.argumentBase s.waiting)
  this := s.this
  that := s.that
  temp := s.temp
  memory := s.memory

@[simp] theorem length_stack_view (s : Scene) : s.view.stack.length = s.height :=
  Frame.length_cells _

/-- An operand lies on top of the stack. -/
theorem view_operand (s : Scene) (x : Int16) : { s with operands := x :: s.operands }.view =
    { s.view with stack := s.view.stack ++ [x] } := by
  simp [view, Frame.cells]

theorem height_operand {s : Scene} {x : Int16} {rest : List Int16} (h : s.operands = x :: rest) :
    s.height = { s with operands := rest }.height + 1 := by
  simp only [height, Frame.height, h, List.length_cons]
  omega

/-- The stack around the locals. -/
theorem stack_view_locals (s : Scene) : s.view.stack =
    Frame.cells s.waiting ++ s.arguments ++ Frame.saved s.waiting ++ s.locals ++
      s.operands.reverse := rfl

/-- The stack around the arguments. -/
theorem stack_view_arguments (s : Scene) : s.view.stack = Frame.cells s.waiting ++ s.arguments ++
    (Frame.saved s.waiting ++ s.locals ++ s.operands.reverse) := by
  simp [view, Frame.cells]

/-- The address of a local. -/
theorem localBase_add (s : Scene) (i : Nat) :
    Frame.localBase s.arguments.length s.waiting + i = Layout.stack +
      ((Frame.cells s.waiting ++ s.arguments ++ Frame.saved s.waiting).length + i) := by
  simp only [Frame.localBase, Frame.argumentBase, List.length_append, Frame.length_cells,
    Frame.length_saved]
  omega

/-- The address of an argument. -/
theorem argumentBase_add (s : Scene) (i : Nat) :
    Frame.argumentBase s.waiting + i = Layout.stack + ((Frame.cells s.waiting).length + i) := by
  rw [Frame.argumentBase, Frame.length_cells]
  omega

end Scene

/-! ## Operations on scenes -/

namespace Shows

open Machine (Yields)

variable {I : Image} {m : Machine} {s : Scene} {x : Int16}

/-- **An operand is pushed.** -/
theorem pushOperand (h : Shows I m s.view) (hroom : s.height < stackCells) (x : Int16) :
    ∃ m', Yields (Machine.push x) m () m' ∧
      Shows I m' { s with operands := x :: s.operands }.view := by
  rw [s.view_operand]
  exact h.push (by rwa [s.length_stack_view]) x

/-- **An operand is popped.** -/
theorem popOperand (h : Shows I m s.view) {rest : List Int16} (hx : s.operands = x :: rest) :
    ∃ m', Yields Machine.pop m x m' ∧ Shows I m' { s with operands := rest }.view := by
  have hs : s = { { s with operands := rest } with operands := x :: rest } := by
    rw [← hx]
  rw [hs, Scene.view_operand { s with operands := rest } x] at h
  exact h.pop rfl

/-- Operands are replaced by fewer. -/
theorem height_popped (h : Shows I m s.view) {rest : List Int16} (hx : s.operands = x :: rest) :
    { s with operands := rest }.height < stackCells := by
  have hle := h.height
  rw [s.length_stack_view, s.height_operand hx] at hle
  exact hle

theorem localBase_lt (h : Shows I m s.view) {i : Nat} (hi : i ≤ s.locals.length) :
    Frame.localBase s.arguments.length s.waiting + i < Layout.cells := by
  obtain ⟨hcells, -, hstack, hheap, hlimit, -⟩ := Layout.bounds
  have hle := h.height
  simp only [Scene.length_stack_view, Scene.height, Frame.height] at hle
  simp only [Frame.localBase, Frame.argumentBase]
  omega

theorem argumentBase_lt (h : Shows I m s.view) {i : Nat} (hi : i ≤ s.arguments.length) :
    Frame.argumentBase s.waiting + i < Layout.cells := by
  have := h.localBase_lt (i := 0) (Nat.zero_le _)
  simp only [Frame.localBase] at this
  omega

/-- **A local is read.** -/
theorem peek_local (h : Shows I m s.view) {i : Nat} (hx : s.locals[i]? = some x) :
    m.peek (Frame.localBase s.arguments.length s.waiting + i) = x := by
  rw [s.localBase_add]
  exact (s.stack_view_locals ▸ h.stack).middle hx

/-- **An argument is read.** -/
theorem peek_argument (h : Shows I m s.view) {i : Nat} (hx : s.arguments[i]? = some x) :
    m.peek (Frame.argumentBase s.waiting + i) = x := by
  rw [s.argumentBase_add]
  exact (s.stack_view_arguments ▸ h.stack).middle hx

/-- A place in the middle of a list is written. -/
theorem set_middle {xs ys zs : List Int16} {i : Nat} (hi : i < ys.length) :
    (xs ++ ys ++ zs).set (xs.length + i) x = xs ++ ys.set i x ++ zs := by
  rw [List.append_assoc, List.set_append_right _ _ (Nat.le_add_right _ _), Nat.add_sub_cancel_left,
    List.set_append_left _ _ hi, List.append_assoc]

/-- **A local is written.** -/
theorem setLocal (h : Shows I m s.view) {i : Nat} (hi : i < s.locals.length) (x : Int16) :
    Shows I (m.poke (Frame.localBase s.arguments.length s.waiting + i) x)
      { s with locals := s.locals.set i x }.view := by
  rw [s.localBase_add]
  have := h.setStack (i := (Frame.cells s.waiting ++ s.arguments ++ Frame.saved s.waiting).length + i)
    (by rw [s.stack_view_locals]; simp only [List.length_append]; omega) x
  rwa [s.stack_view_locals, set_middle hi] at this

/-- **An argument is written.** -/
theorem setArgument (h : Shows I m s.view) {i : Nat} (hi : i < s.arguments.length) (x : Int16) :
    Shows I (m.poke (Frame.argumentBase s.waiting + i) x)
      { s with arguments := s.arguments.set i x }.view := by
  rw [s.argumentBase_add]
  have := h.setStack (i := (Frame.cells s.waiting).length + i)
    (by rw [s.stack_view_arguments]; simp only [List.length_append]; omega) x
  rw [s.stack_view_arguments, set_middle hi] at this
  simpa [Scene.view, Frame.cells] using this

end Shows

end JackStack
