import JackStack.Proofs.Acceptance
import JackStack.Proofs.Cells
import JackStack.Proofs.Lexemes

/-!
# Proofs/Strings — string constants at run time

The code of a string constant makes an empty string with room for all its characters, and appends
them one by one. Between two characters the string lies in the heap as far as it has been built,
and its address is on top of the stack; that is what the induction over the characters carries. The
length of a new string is what its first cell holds, so that cell must never have been written.

* `Machine.Building` — a string, as far as it has been built.
* `Building.start`, `Building.append` — an empty string is made, a character is appended.
* `Building.finish` — the rest of the characters is appended.
* `Session.text_builds` — the code of a string constant builds its text.
-/

namespace JackStack

open Machine (Yields)
open Vm (Command)

namespace Machine

variable {m m₁ m₂ : Machine} {sp base capacity k : Nat} {c : Char} {cs : List Char}
  {l : Linking}

/-! ## Built-in functions on strings -/

/-- **A new string** lies behind what was allocated before. -/
theorem Yields.newString (hpos : 0 < m.heap) (hle : m.heap + (capacity + 2) ≤ Layout.cells) :
    Yields (newString (Int16.ofNat capacity)) m (Int16.ofNat m.heap)
      ({ m with heap := m.heap + (capacity + 2) }.poke (m.heap + 1) (Int16.ofNat capacity)) := by
  have hsize : capacity + 2 < Layout.cells := by omega
  have hallocate : Yields (allocate (Int16.ofNat (capacity + 2))) m (Int16.ofNat m.heap)
      { m with heap := m.heap + (capacity + 2) } := by
    rw [Yields, allocate, Int16.toInt_ofNat_of_lt hsize]
    exact if_pos hle
  refine (Yields.lift (addExact_ofNat (k := 2) hsize)).bind (hallocate.bind ?_)
  refine (Yields.lift (toAddress_ofNat (by omega))).bind ?_
  exact (Yields.write (by omega) _).bind (Yields.pure _)

theorem ofNat_lt_ofNat {i j : Nat} (hij : i < j) (hj : j < Layout.cells) :
    Int16.ofNat i < Int16.ofNat j := by
  rw [Int16.lt_iff_toInt_lt, Int16.toInt_ofNat_of_lt hj,
    Int16.toInt_ofNat_of_lt (Nat.lt_trans hij hj)]
  exact Int.ofNat_lt.2 hij

/-- **A character is appended** behind those that a string has. -/
theorem Yields.appendChar (hlength : m.peek base = Int16.ofNat k)
    (hcapacity : m.peek (base + 1) = Int16.ofNat capacity) (hk : k < capacity)
    (hle : base + 2 + capacity ≤ Layout.cells) (x : Int16) :
    Yields (appendChar (Int16.ofNat base) x) m (Int16.ofNat base)
      ((m.poke (base + 2 + k) x).poke base (Int16.ofNat (k + 1))) := by
  refine (Yields.lift (toAddress_ofNat (by omega))).bind ?_
  refine (Yields.read_eq (by omega) hlength).bind ?_
  refine (Yields.read_eq (by omega) hcapacity).bind ?_
  rw [if_pos (ofNat_lt_ofNat hk (by omega))]
  refine (Yields.lift (toAddress_ofNat (by omega))).bind ?_
  refine (Yields.write (by omega) x).bind ?_
  refine (Yields.lift (addExact_ofNat (k := 1) (by omega))).bind ?_
  exact (Yields.write (by omega) _).bind (Yields.pure _)

/-! ## A string under construction -/

/-- **The cells of a string**: its length, its capacity and its characters. -/
def stringCells (capacity : Nat) (cs : List Char) : List Int16 :=
  Int16.ofNat cs.length :: Int16.ofNat capacity :: cs.map fun c => Int16.ofNat c.toNat

/-- **There is room** for two operands on the stack, and in the heap for a string of a capacity. -/
structure Room (sp base capacity : Nat) : Prop where
  stack_le : Layout.stack ≤ sp
  le_heap : sp + 2 ≤ Layout.heap
  heap_le : Layout.heap ≤ base
  le_cells : base + (capacity + 2) ≤ Layout.cells

/-- The cells that building a string takes: the stack pointer, two cells of the stack, and those of
the string. -/
def buildingCells (sp base capacity a : Nat) : Prop :=
  a = Layout.sp ∨ a = sp ∨ a = sp + 1 ∨ base ≤ a ∧ a < base + (capacity + 2)

/-- **A string is being built** at the end of the heap, with its address on top of the stack. -/
structure Building (m₀ : Machine) (sp base capacity : Nat) (cs : List Char) (m : Machine) :
    Prop where
  confined :
    Confined (buildingCells sp base capacity) { m₀ with heap := base + (capacity + 2) } m
  pointer : m.peek Layout.sp = Int16.ofNat (sp + 1)
  top : m.peek sp = Int16.ofNat base
  block : m.Holds base (stringCells capacity cs)

theorem peek_pushed {a : Nat} {x : Int16} (h₀ : a ≠ Layout.sp) (h : a ≠ sp) :
    (m.pushed sp x).peek a = m.peek a := by
  rw [pushed, peek_poke_of_ne h₀, peek_poke_of_ne h]

/-- **A constant is pushed.** -/
theorem step_constant {n : Nat} (hcode : m.code[m.pc]? = some (.push .constant n))
    (hsp : m.peek Layout.sp = Int16.ofNat sp) (h₀ : Layout.sp < sp)
    (hlt : sp + 1 < Layout.cells) : Yields step m false (m.next.pushed sp (Int16.ofNat n)) :=
  Yields.step hcode ((Yields.push (m := m.next) hsp h₀ hlt _).bind (Yields.pure false))

/-- **The capacity on top of the stack** becomes a new string. -/
theorem pop_newString (hsp : m.peek Layout.sp = Int16.ofNat (sp + 1))
    (htop : m.peek sp = Int16.ofNat capacity) (h₀ : Layout.sp < sp) (hlt : sp + 1 < Layout.cells)
    (hpos : 0 < m.heap) (hle : m.heap + (capacity + 2) ≤ Layout.cells) :
    Yields (pop >>= newString) m (Int16.ofNat m.heap)
      ({ m.popped sp with heap := m.heap + (capacity + 2) }.poke (m.heap + 1)
        (Int16.ofNat capacity)) := by
  have hpop := Yields.pop hsp h₀ hlt
  rw [htop] at hpop
  exact hpop.bind (Yields.newString (m := m.popped sp) hpos hle)

/-- **A built-in function pushes what it returns.** -/
theorem step_native {name : String} {n : Nat} {native : Exec Int16} {x : Int16}
    (hcode : m.code[m.pc]? = some (.call name n)) (hb : builtIn? name = some native)
    (hn : Yields native m.next x m₁) (hsp : m₁.peek Layout.sp = Int16.ofNat sp)
    (h₀ : Layout.sp < sp) (hlt : sp + 1 < Layout.cells) :
    Yields step m false (m₁.pushed sp x) := by
  refine Yields.step hcode ?_
  rw [execute_native hb]
  exact hn.bind ((Yields.push hsp h₀ hlt x).bind (Yields.pure false))

namespace Building

variable {m₀ : Machine} (r : Room sp base capacity)

include r

/-- **An empty string is made**, in cells that hold nothing yet. -/
theorem start (hl : m.Lies l m.pc [.push .constant capacity, .call "String.new" 1])
    (hheap : m.heap = base) (hzero : m.peek base = 0) (hsp : m.peek Layout.sp = Int16.ofNat sp) :
    ∃ m', Steps 2 m m' ∧ m'.pc = m.pc + 2 ∧ Building m sp base capacity [] m' := by
  obtain ⟨hstack, hle, hbase, hcells⟩ := r
  obtain ⟨hcells', -, hstack', hheap', -, -⟩ := Layout.bounds
  have h₀ : Layout.sp < sp := Nat.lt_of_lt_of_le (by decide) hstack
  have hsp₀ : Layout.sp = 0 := rfl
  subst hheap
  let x := Int16.ofNat capacity
  let m₁ := m.next.pushed sp x
  let m₂ := { m₁.next.popped sp with heap := m.heap + (capacity + 2) }.poke (m.heap + 1) x
  have hpush : Yields step m false m₁ := step_constant (hl.1.code rfl) hsp h₀ (by omega)
  have hpos : 0 < m.heap := Nat.lt_of_lt_of_le (by decide) hbase
  have hnew : Yields (pop >>= newString) m₁.next (Int16.ofNat m.heap) m₂ :=
    pop_newString (m := m₁.next) peek_sp_pushed (peek_top_pushed h₀ (by omega)) h₀ (by omega)
      hpos hcells
  have hsp₂ : m₂.peek Layout.sp = Int16.ofNat sp := by
    rw [peek_poke_of_ne (by omega)]
    exact peek_sp_popped
  have hnative : Yields step m₁ false (m₂.pushed sp (Int16.ofNat m.heap)) :=
    step_native (hl.2.1.code rfl) rfl hnew hsp₂ h₀ (by omega)
  have hempty : (m₂.pushed sp (Int16.ofNat m.heap)).peek m.heap = 0 := by
    rw [peek_pushed (by omega) (by omega), peek_poke_of_ne (by omega)]
    refine (peek_popped (by omega)).trans ((peek_pushed (by omega) (by omega)).trans hzero)
  have htouch : buildingCells sp m.heap capacity Layout.sp := .inl rfl
  refine ⟨m₂.pushed sp (Int16.ofNat m.heap), ⟨m₁, hpush, _, hnative, rfl⟩, rfl, ?_,
    peek_sp_pushed, peek_top_pushed h₀ (by omega), ?_⟩
  · have h₁ := ((Confined.refl _ m).next.pushed htouch (.inr (.inl rfl)) x).next
    have h₂ := (h₁.popped htouch sp).withHeap (m.heap + (capacity + 2))
    exact (h₂.poke (.inr (.inr (.inr (by omega)))) x).pushed htouch (.inr (.inl rfl)) _
  · rintro (_ | _ | i) y hy
    · exact hempty.trans (Option.some.inj hy)
    · rw [peek_pushed (by omega) (by omega), peek_poke_self (by omega)]
      exact Option.some.inj hy
    · cases hy

/-- **A character is appended** to a string that has room for it. -/
theorem append (hb : Building m₀ sp base capacity cs m) (hroom : cs.length < capacity)
    (hl : m₀.Lies l m.pc [.push .constant c.toNat, .call "String.appendChar" 2]) :
    ∃ m', Steps 2 m m' ∧ m'.pc = m.pc + 2 ∧ Building m₀ sp base capacity (cs ++ [c]) m' := by
  obtain ⟨hstack, hle, hbase, hcells⟩ := r
  obtain ⟨hcells', -, hstack', hheap', -, -⟩ := Layout.bounds
  have h₀ : Layout.sp < sp := Nat.lt_of_lt_of_le (by decide) hstack
  have hsp₀ : Layout.sp = 0 := rfl
  let x := Int16.ofNat c.toNat
  let m₁ := m.next.pushed (sp + 1) x
  let m₂ := (m₁.next.popped (sp + 1)).popped sp
  let m₃ := (m₂.poke (base + 2 + cs.length) x).poke base (Int16.ofNat (cs.length + 1))
  have hpush : Yields step m false m₁ := by
    refine step_constant ?_ hb.pointer (by omega) (by omega)
    rw [hb.confined.code]
    exact hl.1.code rfl
  have htop : m₁.next.peek sp = Int16.ofNat base := (peek_pushed (by omega) (by omega)).trans hb.top
  have hx : m₁.next.peek (sp + 1) = x := peek_top_pushed (by omega) (by omega)
  -- The string lies above the stack, so that popping the operands leaves it.
  have hblock : m₂.Holds base (stringCells capacity cs) :=
    (((hb.block.poke_outside (.inl (by omega))).poke_outside (.inl (by omega))).poke_outside
      (.inl (by omega))).poke_outside (.inl (by omega))
  have hnative : Yields (onOperands appendChar) m₁.next (Int16.ofNat base) m₃ := by
    refine (onOperands_apply (m := m₁.next) peek_sp_pushed h₀ (by omega) _).trans ?_
    rw [htop, hx]
    exact Yields.appendChar (hblock 0 _ rfl) (hblock 1 _ rfl) hroom (by omega) x
  have hsp₃ : m₃.peek Layout.sp = Int16.ofNat sp := by
    rw [peek_poke_of_ne (by omega), peek_poke_of_ne (by omega)]
    exact peek_sp_popped
  have hcall : Yields step m₁ false (m₃.pushed sp (Int16.ofNat base)) := by
    have hcode : m.code[m.pc + 1]? = some (.call "String.appendChar" 2) := by
      rw [hb.confined.code]
      exact hl.2.1.code rfl
    exact step_native (m := m₁) hcode rfl hnative hsp₃ h₀ (by omega)
  have htouch : buildingCells sp base capacity Layout.sp := .inl rfl
  refine ⟨m₃.pushed sp (Int16.ofNat base), ⟨m₁, hpush, _, hcall, rfl⟩, rfl, ?_,
    peek_sp_pushed, peek_top_pushed h₀ (by omega), ?_⟩
  · have h₁ := (hb.confined.next.pushed htouch (.inr (.inr (.inl rfl))) x).next
    have h₂ := (h₁.popped htouch (sp + 1)).popped htouch sp
    refine Confined.pushed ?_ htouch (.inr (.inl rfl)) _
    exact (h₂.poke (.inr (.inr (.inr (by omega)))) x).poke (.inr (.inr (.inr (by omega)))) _
  · have hlength : base + (stringCells capacity cs).length = base + 2 + cs.length := by
      simp [stringCells]
      omega
    have hcells : stringCells capacity (cs ++ [c]) =
        (stringCells capacity cs ++ [x]).set 0 (Int16.ofNat (cs.length + 1)) := by
      simp [stringCells, x]
    have happended := hblock.concat (x := x) (by omega)
    rw [hlength] at happended
    have hcounted := happended.poke_set (i := 0) (x := Int16.ofNat (cs.length + 1)) (by omega)
    rw [← hcells] at hcounted
    exact (hcounted.poke_outside (.inl (by omega))).poke_outside (.inl (by omega))

/-- **The rest of the characters is appended**, one after the other. -/
theorem finish (rest : List Char) (hb : Building m₀ sp base capacity cs m)
    (hroom : cs.length + rest.length ≤ capacity)
    (hl : m₀.Lies l m.pc (rest.flatMap fun c =>
      [.push .constant c.toNat, .call "String.appendChar" 2])) :
    ∃ m', Steps (2 * rest.length) m m' ∧ m'.pc = m.pc + 2 * rest.length ∧
      Building m₀ sp base capacity (cs ++ rest) m' := by
  induction rest generalizing cs m with
  | nil => exact ⟨m, rfl, rfl, by rwa [List.append_nil]⟩
  | cons c rest ih =>
    rw [List.length_cons] at hroom
    rw [List.flatMap_cons, lies_append] at hl
    obtain ⟨m₁, hsteps, hpc, hb₁⟩ := hb.append r (by omega) hl.1
    have hroom₁ : (cs ++ [c]).length + rest.length ≤ capacity := by
      rw [List.length_append, List.length_singleton]
      omega
    obtain ⟨m₂, hsteps₂, hpc₂, hb₂⟩ := ih hb₁ hroom₁ (by rw [hpc]; exact hl.2)
    refine ⟨m₂, ?_, ?_, ?_⟩
    · rw [List.length_cons, Nat.mul_succ, Nat.add_comm]
      exact hsteps.trans hsteps₂
    · rw [hpc₂, hpc, List.length_cons]
      omega
    · rwa [List.append_assoc] at hb₂

end Building

/-! ## Reading a string -/

theorem cells_eq_of_holds (base : Nat) (xs : List Int16) (h : m.Holds base xs)
    (hle : base + xs.length ≤ Layout.cells) : m.cells base xs.length = .ok xs := by
  induction xs generalizing base with
  | nil => rfl
  | cons x xs ih =>
    rw [List.length_cons] at hle
    have hx : m.cell base = .ok x := by
      rw [cell_eq_peek (by omega), ← h 0 x rfl, Nat.add_zero]
    have hxs : m.cells (base + 1) xs.length = .ok xs := by
      refine ih _ (fun i y hi => ?_) (by omega)
      rw [Nat.add_assoc, Nat.add_comm 1]
      exact h (i + 1) y hi
    rw [List.length_cons, cells, hx, hxs]
    rfl

/-- The low eight bits of a number. -/
theorem lowByte_ofNat (n : Nat) : (Int16.ofNat n).toUInt16.toUInt8.toNat = n % 256 := by
  rw [Int16.toUInt16_ofNat', UInt16.toNat_toUInt8, UInt16.toNat_ofNat']
  omega

/-- **A string is read** as its characters, each cut down to a byte. -/
theorem textAt_of_holds (h : m.Holds base (stringCells capacity cs))
    (hle : base + 2 + cs.length ≤ Layout.cells) :
    m.textAt (Int16.ofNat base) =
      .ok (String.ofList (cs.map fun c => Char.ofNat (c.toNat % 256))) := by
  have hlength : m.cell base = .ok (Int16.ofNat cs.length) := by
    rw [cell_eq_peek (by omega)]
    exact congrArg Except.ok (h 0 _ rfl)
  have hcells := cells_eq_of_holds (m := m) (base + 2) (cs.map fun c => Int16.ofNat c.toNat)
    (fun i y hi => by rw [Nat.add_assoc, Nat.add_comm 2]; exact h (i + 2) y hi) (by simpa using hle)
  rw [List.length_map] at hcells
  rw [textAt, toAddress_ofNat (by omega)]
  change (m.cell base >>= _) = _
  rw [hlength]
  change (toAddress (Int16.ofNat cs.length) >>= _) = _
  rw [toAddress_ofNat (by omega)]
  change (if base + 2 + cs.length ≤ Layout.cells then _ else _) = _
  rw [if_pos hle, hcells]
  change Except.ok (String.ofList _) = _
  rw [List.map_map]
  simp only [Function.comp_def, lowByte_ofNat]

end Machine

/-! ## String constants -/

open Machine (Room Building)

theorem Code.length_text (body : String) : (Code.text body).length = 2 + 2 * body.length := by
  have hcharacters : (body.toList.flatMap fun c =>
      [Command.push .constant c.toNat, .call "String.appendChar" 2]).length = 2 * body.length := by
    simp [List.length_flatMap, Nat.mul_comm, ← String.length_toList]
  rw [Code.text, List.length_cons, List.length_cons, hcharacters]
  omega

/-- **The code of a string constant builds its text.** For a string constant that a source may hold,
the compiler writes commands which make a new string of its length and leave its address on the
stack, wherever they lie in the code. The string lies in the heap that was free, character by
character; only the stack pointer, two cells of the stack and the cells of the string change. -/
theorem Session.text_builds {source body : String} {s : Session} {i : Lookahead}
    (hbody : .text body ∈ Lookahead.terminalsOf (scan source)) (hs : s.Unlimited)
    (hr : s.input.Reads [.text body] i) :
    Does [.term] s (s.after i (Code.text body) 0 0) ∧
      ∀ (m : Machine) (l : Linking) (sp : Nat), m.Lies l m.pc (Code.text body) →
        Layout.heap ≤ m.heap → m.heap + body.length + 2 ≤ Layout.cells →
        (∀ a, m.heap ≤ a → m.peek a = 0) →
        m.peek Layout.sp = Int16.ofNat sp → Layout.stack ≤ sp → sp + 2 ≤ Layout.heap →
        ∃ m', (∀ limit, Machine.runFor ((Code.text body).length + limit) m
            = Machine.runFor limit m') ∧
          m'.pc = m.pc + (Code.text body).length ∧ m'.code = m.code ∧
          m'.peek Layout.sp = Int16.ofNat (sp + 1) ∧ m'.peek sp = Int16.ofNat m.heap ∧
          m'.peek m.heap = Int16.ofNat body.length ∧
          m'.peek (m.heap + 1) = Int16.ofNat body.length ∧
          (∀ k c, body.toList[k]? = some c → (m'.peek (m.heap + 2 + k)).toInt = c.toNat) ∧
          m'.heap = m.heap + body.length + 2 ∧
          (∀ a, a ≠ Layout.sp → a ≠ sp → a ≠ sp + 1 → a < m.heap ∨ m.heap + body.length + 2 ≤ a →
            m'.peek a = m.peek a) ∧
          m'.textAt (Int16.ofNat m.heap) =
            .ok (String.ofList (body.toList.map fun c => Char.ofNat (c.toNat % 256))) := by
  refine ⟨.of_perform ((perform_term_text hr.terminal?).mpr
      ⟨_, takes_of_reads hr, Unlimited.writes (by simpa using hs) _, rfl⟩) (.nil _), ?_⟩
  intro m l sp hl hheap hcells hzero hsp hstack hle
  have hsmall : ∀ c ∈ body.toList, c.toNat < Layout.cells := fun c hc =>
    Nat.lt_succ_of_le ((Terminal.spelled_of_mem_scan hbody) c hc).2
  have hlen : body.toList.length = body.length := String.length_toList
  have r : Room sp m.heap body.length := ⟨hstack, hle, hheap, hcells⟩
  obtain ⟨m₁, hsteps₁, hpc₁, hb₁⟩ := Building.start r (l := l) ⟨hl.1, hl.2.1, trivial⟩ rfl
    (hzero _ (Nat.le_refl _)) hsp
  obtain ⟨m₂, hsteps₂, hpc₂, hb₂⟩ := Building.finish r body.toList hb₁
    (by rw [hlen, List.length_nil, Nat.zero_add]) (by rw [hpc₁]; exact hl.2.2)
  rw [List.nil_append] at hb₂
  rw [hlen] at hsteps₂ hpc₂
  rw [Code.length_text]
  refine ⟨m₂, (hsteps₁.trans hsteps₂).runFor_add, ?_, hb₂.confined.code, hb₂.pointer, hb₂.top, ?_,
    ?_, ?_, ?_, ?_, ?_⟩
  · rw [hpc₂, hpc₁, Nat.add_assoc]
  · rw [← hlen]
    exact hb₂.block 0 _ rfl
  · exact hb₂.block 1 _ rfl
  · intro k c hk
    have hc := hb₂.block (k + 2) (Int16.ofNat c.toNat) (by simp [Machine.stringCells, hk])
    rw [Nat.add_assoc, Nat.add_comm 2, hc, Int16.toInt_ofNat_of_lt]
    exact hsmall c (List.mem_of_getElem? hk)
  · exact hb₂.confined.heap
  · intro a h₀ h₁ h₂ ha
    exact hb₂.confined.others a (by simp only [Machine.buildingCells]; omega)
  · exact Machine.textAt_of_holds hb₂.block (by omega)

/-- A string constant with a character beyond a byte. -/
def commandKey : String := "a⌘"

/-- A session in front of the constant. -/
def commandKeySession : Session where
  input := ⟨some ⟨.text commandKey, default⟩, [.ok ⟨.symbol ';', default⟩], 1⟩

/-- A machine with the code of the constant. -/
def commandKeyMachine : Machine :=
  Machine.poke
    { code := #[.push .constant 2, .call "String.new" 1, .push .constant 97,
        .call "String.appendChar" 2, .push .constant 8984, .call "String.appendChar" 2] }
    Layout.sp 300

theorem Session.text_builds_commandKey : ∃ m',
    (∀ limit, Machine.runFor (6 + limit) commandKeyMachine = Machine.runFor limit m') ∧
      m'.peek 300 = 2048 ∧ m'.peek 2048 = 2 ∧ (m'.peek 2051).toInt = 8984 ∧ m'.heap = 2052 ∧
      m'.textAt 2048 = .ok "a\u0018" := by
  have hscan : .text commandKey ∈ Lookahead.terminalsOf (scan "\"a⌘\"") := by decide +kernel
  have hreads : commandKeySession.input.Reads [.text commandKey]
      ⟨some ⟨.symbol ';', default⟩, [], (default : Token).line⟩ := ⟨_, _, rfl, rfl, rfl⟩
  have hlies : commandKeyMachine.Lies ⟨[], "", 16⟩ commandKeyMachine.pc (Code.text commandKey) := by
    iterate 6 refine ⟨⟨_, rfl, rfl⟩, ?_⟩
    trivial
  have hzero : ∀ a, 2048 ≤ a → commandKeyMachine.peek a = 0 := by
    intro a ha
    rw [commandKeyMachine, Machine.peek_poke_of_ne (by simp only [Layout.sp]; omega)]
    exact Machine.Fresh.peek ⟨rfl, rfl⟩ a
  obtain ⟨m', hrun, -, -, -, htop, hlength, -, hchars, hheap, -, htext⟩ :=
    (text_builds (s := commandKeySession) hscan rfl hreads).2 commandKeyMachine ⟨[], "", 16⟩ 300
      hlies (by decide) (by decide) hzero (Machine.peek_poke_self (by decide) _) (by decide)
      (by decide)
  exact ⟨m', hrun, htop, hlength, hchars 1 '⌘' (by decide), hheap, htext.trans (by decide)⟩

end JackStack
