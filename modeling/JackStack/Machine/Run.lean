import JackStack.Machine.Basic

/-!
# Machine/Run — running instructions

A call pushes the return address and the four bases, and its frame starts behind them; a return puts
the result where the first argument was and restores the bases. A few functions of the library are
built in: multiplication and division, the allocation of memory, and strings, which are blocks of
length, capacity and characters.
-/

namespace JackStack.Machine

open Vm (ArithOp)

/-! ## Operations -/

/-- The number of a truth value: all bits set, or none. -/
def truth (b : Bool) : Int16 :=
  if b then -1 else 0

/-- **What an operation computes** from the values on top of the stack. -/
inductive Meaning where
  | unary (f : Int16 → Int16)
  | binary (f : Int16 → Int16 → Int16)

/-- **The meaning of an operation**, in arithmetic that wraps around. -/
def meaning : ArithOp → Meaning
  | .add => .binary (· + ·)
  | .sub => .binary (· - ·)
  | .neg => .unary (- ·)
  | .eq => .binary fun x y => truth (x = y)
  | .gt => .binary fun x y => truth (y < x)
  | .lt => .binary fun x y => truth (x < y)
  | .and => .binary (· &&& ·)
  | .or => .binary (· ||| ·)
  | .not => .unary (~~~ ·)

/-- **Does an operation** on the stack. -/
def operate (op : ArithOp) : Exec Unit := do
  match meaning op with
  | .unary f =>
    push (f (← pop))
  | .binary f =>
    let y ← pop
    let x ← pop
    push (f x y)

/-! ## Built-in functions -/

/-- **Allocates cells** behind those allocated before. A negative size shrinks nothing: it is either
too large for the heap or beyond all sizes. -/
def allocate (size : Int16) : Exec Int16 := fun m =>
  match size.toInt with
  | .ofNat n =>
    if m.heap + n ≤ Layout.cells then .ok (Int16.ofNat m.heap, { m with heap := m.heap + n })
    else .error .heapExhausted
  | .negSucc n => if n < m.heap then .error .overflow else .error .heapExhausted

/-- **A new string** of a capacity. -/
def newString (capacity : Int16) : Exec Int16 := do
  let block ← allocate (← addExact capacity 2)
  write ((← toAddress block) + 1) capacity
  return block

/-- **Appends a character** to a string that has room for it. -/
def appendChar (block c : Int16) : Exec Int16 := do
  let base ← toAddress block
  let length ← read base
  if length < (← read (base + 1)) then
    write (base + 2 + (← toAddress length)) c
    write base (← addExact length 1)
    return block
  else throw .stringFull

/-- **The built-in function of a name**, if there is one. It takes its arguments from the stack. -/
def builtIn? : String → Option (Exec Int16)
  | "Math.multiply" => some do
    let y ← pop
    return (← pop) * y
  | "Math.divide" => some do
    let y ← pop
    let x ← pop
    if y = 0 then throw .divisionByZero else return x / y
  | "Memory.alloc" => some do allocate (← pop)
  | "Array.new" => some do allocate (← pop)
  | "String.new" => some do newString (← pop)
  | "String.appendChar" => some do
    let c ← pop
    appendChar (← pop) c
  | _ => none

/-! ## Calls -/

/-- Pushes the contents of cells, one after the other. -/
def pushCells : List Nat → Exec Unit
  | [] => pure ()
  | cell :: rest => do
    push (← read cell)
    pushCells rest

/-- **Opens a frame** for a call with a number of arguments that lie on the stack. -/
def openFrame (returnTo arguments : Int16) : Exec Unit := do
  push returnTo
  pushCells Layout.saved
  write Layout.arg (← subExact (← subExact (← read Layout.sp) arguments) 5)
  write Layout.lcl (← read Layout.sp)

/-- Goes on at a place in the code. -/
def jump (target : Nat) : Exec Unit :=
  modify fun m => { m with pc := target }

/-- **Calls a function**: a built-in one at once, a loaded one in a frame of its own. -/
def invoke (name : String) (arguments : Nat) : Exec Unit := do
  match builtIn? name with
  | some native => push (← native)
  | none =>
    match (← get).functions.lookup name with
    | some target =>
      openFrame (Int16.ofNat (← get).pc) (Int16.ofNat arguments)
      jump target
    | none => throw (.unknownFunction name)

/-- The cell that lies `n` below the start of a frame. -/
def below (frame n : Nat) : Except Fault Nat :=
  if n ≤ frame then .ok (frame - n) else .error .outOfRange

/-- **Closes the frame** of a call and returns the address to go on at. -/
def closeFrame : Exec Int16 := do
  let frame ← toAddress (← read Layout.lcl)
  let returnTo ← read (← below frame 5)
  let result ← pop
  let base ← read Layout.arg
  write (← toAddress base) result
  write Layout.sp (← addExact base 1)
  write Layout.that (← read (← below frame 1))
  write Layout.this (← read (← below frame 2))
  write Layout.arg (← read (← below frame 3))
  write Layout.lcl (← read (← below frame 4))
  return returnTo

/-! ## Steps -/

/-- **The next instruction**, which the machine goes past. -/
def fetch : Exec Instr := fun m =>
  match m.code[m.pc]? with
  | some instr => .ok (instr, { m with pc := m.pc + 1 })
  | none => .error .outOfRange

/-- **Does an instruction**, and says whether the first call has returned. -/
def execute : Instr → Exec Bool
  | .push .constant value => do
    push (Int16.ofNat value)
    return false
  | .push segment index => do
    push (← read (← address segment index))
    return false
  | .pop segment index => do
    let target ← address segment index
    write target (← pop)
    return false
  | .arith op => do
    operate op
    return false
  | .jump target => do
    jump target
    return false
  | .branch target => do
    if (← pop) ≠ 0 then
      jump target
      return false
    else return false
  | .call name arguments => do
    invoke name arguments
    return false
  | .enter locals => do
    pushMany 0 locals
    return false
  | .leave => do
    let returnTo ← closeFrame
    if returnTo = Layout.halt then return true
    else
      jump (← toAddress returnTo)
      return false
  | .skip => return false

/-- **One step**: fetches and does an instruction. -/
def step : Exec Bool := do
  execute (← fetch)

/-- **Steps until the first call has returned**, at most so many; says whether it has. -/
def runFor : Nat → Exec Bool
  | 0 => return false
  | n + 1 => do
    if (← step) then return true
    else runFor n

/-- How many steps a call may take. -/
def stepLimit : Nat := 10000000

/-- Pushes values, one after the other. -/
def pushAll : List Int16 → Exec Unit
  | [] => pure ()
  | value :: rest => do
    push value
    pushAll rest

/-- **Calls a function from outside**: the stack is emptied, and what the call leaves at its bottom
is the result. -/
def call (name : String) (arguments : List Int16) : Exec Int16 := do
  write Layout.sp (Int16.ofNat Layout.stack)
  pushAll arguments
  openFrame Layout.halt (Int16.ofNat arguments.length)
  match (← get).functions.lookup name with
  | some target =>
    jump target
    if (← runFor stepLimit) then read Layout.stack
    else throw (.stepsExhausted name stepLimit)
  | none => throw (.unknownEntry name)

/-! ## Looking at memory -/

/-- The cell at an address. -/
def cell (m : Machine) (address : Nat) : Except Fault Int16 :=
  match m.memory[address]? with
  | some value => .ok value
  | none => .error .outOfRange

/-- The cells of a range. -/
def cells (m : Machine) (address : Nat) : Nat → Except Fault (List Int16)
  | 0 => .ok []
  | n + 1 => return (← m.cell address) :: (← m.cells (address + 1) n)

/-- **The text of a string**, the low eight bits of each of its cells as a character. -/
def textAt (m : Machine) (block : Int16) : Except Fault String := do
  let base ← toAddress block
  let length ← toAddress (← m.cell base)
  if base + 2 + length ≤ Layout.cells then
    let cells ← m.cells (base + 2) length
    return String.ofList (cells.map fun c => Char.ofNat c.toUInt16.toUInt8.toNat)
  else throw .outOfRange

end JackStack.Machine
