import JackStack.Vm.Reading

/-!
# Machine/Basic — the stack machine and its memory

The machine has 32768 cells of 16 bits with sign. The first five hold the stack pointer and the
bases of four segments; the temporaries, the statics of each loaded program, the stack and the heap
follow.

    0..4  stack pointer, local, argument, this, that
    5..   temporaries
    16..  statics
    256.. stack
    2048.. heap, which only grows

An operation on the machine may be faulty. Then it is over: nothing is said about the machine that
it leaves.
-/

namespace JackStack

/-! ## Faults -/

/-- **Why the machine stops.** -/
inductive Fault where
  | line (fault : Vm.LineFault)
  | unknownLabel (name : String)
  | unknownEntry (name : String)
  | unknownFunction (name : String)
  | outOfRange
  | overflow
  | divisionByZero
  | noAddress
  | heapExhausted
  | stringFull
  | stepsExhausted (name : String) (steps : Nat)
  deriving DecidableEq, Repr

/-- What the machine says about a fault, if it says anything. -/
def Fault.message? : Fault → Option String
  | .line fault => fault.message?
  | .unknownFunction name => some ("call to unknown function " ++ name)
  | .noAddress => some "constant segment has no address"
  | .heapExhausted => some "out of heap memory"
  | .stringFull => some "string capacity exceeded"
  | .stepsExhausted name steps =>
    some (name ++ " did not return within " ++ toString steps ++ " steps")
  | .unknownLabel _ | .unknownEntry _ | .outOfRange | .overflow | .divisionByZero => none

/-! ## Layout of the memory -/

namespace Layout

def cells : Nat := 32768

/-- The cell of the stack pointer. -/
def sp : Nat := 0

/-- The cells of the bases of four segments. -/
def lcl : Nat := 1
def arg : Nat := 2
def this : Nat := 3
def that : Nat := 4

/-- The first temporary, static, stack and heap cells. -/
def temp : Nat := 5
def static : Nat := 16
def stack : Nat := 256
def heap : Nat := 2048

/-- The cells that a call saves, in order. -/
def saved : List Nat := [lcl, arg, this, that]

/-- The return address of the first call. -/
def halt : Int16 := -1

end Layout

/-! ## The machine -/

/-- **An instruction**: a command whose labels are places in the code and whose statics are cells.
-/
inductive Instr where
  | push (segment : Vm.Segment) (index : Nat)
  | pop (segment : Vm.Segment) (index : Nat)
  | arith (op : Vm.ArithOp)
  | jump (target : Nat)
  | branch (target : Nat)
  | call (name : String) (arguments : Nat)
  | enter (locals : Nat)
  | leave
  | skip
  deriving DecidableEq, Repr, Inhabited

/-- **The machine**: its memory and code, the places of functions, the latest first, the next free
static and heap cells, and the place of the next instruction. -/
structure Machine where
  memory : Vector Int16 Layout.cells := Vector.replicate _ 0
  code : Array Instr := #[]
  functions : List (String × Nat) := []
  nextStatic : Nat := Layout.static
  heap : Nat := Layout.heap
  pc : Nat := 0

/-- **An operation on the machine.** -/
abbrev Exec := StateT Machine (Except Fault)

namespace Machine

/-! ## Numbers -/

/-- The sum of two numbers, which has to fit in a cell. -/
def addExact (x y : Int16) : Except Fault Int16 :=
  let z := x.toInt + y.toInt
  if Int16.minValue.toInt ≤ z ∧ z ≤ Int16.maxValue.toInt then .ok (Int16.ofInt z)
  else .error .overflow

/-- The difference of two numbers, which has to fit in a cell. -/
def subExact (x y : Int16) : Except Fault Int16 :=
  let z := x.toInt - y.toInt
  if Int16.minValue.toInt ≤ z ∧ z ≤ Int16.maxValue.toInt then .ok (Int16.ofInt z)
  else .error .overflow

/-- **A number as an address**: a negative one is out of range. -/
def toAddress (x : Int16) : Except Fault Nat :=
  match x.toInt with
  | .ofNat n => .ok n
  | .negSucc _ => .error .outOfRange

/-! ## Memory and stack -/

/-- **Reads a cell.** -/
def read (address : Nat) : Exec Int16 := fun m =>
  match m.memory[address]? with
  | some value => .ok (value, m)
  | none => .error .outOfRange

/-- **Writes a cell.** -/
def write (address : Nat) (value : Int16) : Exec Unit := fun m =>
  if h : address < Layout.cells then
    .ok ((), { m with memory := m.memory.set address value h })
  else .error .outOfRange

/-- **Pushes a value**: first it is stored, then the stack pointer goes up. -/
def push (value : Int16) : Exec Unit := do
  write (← toAddress (← read Layout.sp)) value
  write Layout.sp (← addExact (← read Layout.sp) 1)

/-- **Pops a value**: the stack pointer goes down first. -/
def pop : Exec Int16 := do
  write Layout.sp (← subExact (← read Layout.sp) 1)
  read (← toAddress (← read Layout.sp))

/-- **Pushes a value several times.** -/
def pushMany (value : Int16) : Nat → Exec Unit
  | 0 => pure ()
  | n + 1 => do
    push value
    pushMany value n

/-- The base that a cell holds, as a number without sign, with an index added. -/
def indexed (base index : Nat) : Exec Nat := do
  return (← read base).toUInt16.toNat + index

/-- **The address of a place in a segment.** -/
def address (segment : Vm.Segment) (index : Nat) : Exec Nat :=
  match segment with
  | .local => indexed Layout.lcl index
  | .argument => indexed Layout.arg index
  | .this => indexed Layout.this index
  | .that => indexed Layout.that index
  | .pointer => pure (Layout.this + index)
  | .temp => pure (Layout.temp + index)
  | .static => pure index
  | .constant => throw .noAddress

end Machine

end JackStack
