import JackStack.Machine.Basic
import JackStack.Proofs.Translation

/-!
# Proofs/Semantics — what a program means

A program is evaluated on its trees, with no regard to commands. Values are numbers of 16 bits with
sign, and arithmetic wraps around. Operands and arguments are evaluated from the left to the right,
a comparison yields -1 or 0, and a condition holds exactly if its value is -1.

An evaluation has a result or has none. It has none where the language says nothing: after a
division by zero, for a string constant, for `this` in a function, for a call that names no
subroutine or has the wrong number of arguments, for an element or a field outside the heap, and for
a subroutine with a value that ends without returning one. It has none either when the cells run
out: `room` is how many cells are free above those in use, where each pending operand takes one and
each activation five and one for each argument and local. Where cells suffice they do not matter.

Loops and calls may go on for ever; `fuel` bounds how often a loop goes round and how deep calls
nest.

* `Expression.eval`, `Statement.eval` — the meaning of an expression and of a statement.
* `RoutineDecl.apply` — the meaning of a subroutine, given that of calls.
* `ClassDecl.meaning` — the meaning of calls in a program.
-/

namespace JackStack

/-! ## Memory and activations -/

/-- **The memory of a program**: the statics of each class by their numbers, the cells of the heap,
and the first cell that no object has taken, which is one of the heap or behind it. -/
structure Memory where
  statics : String → Nat → Int16
  heap : Nat → Int16
  free : Nat
  heap_le_free : Layout.heap ≤ free

namespace Memory

/-- **The memory that a program starts with.** -/
def initial : Memory where
  statics _ _ := 0
  heap _ := 0
  free := Layout.heap
  heap_le_free := Nat.le_refl _

/-- The memory with a static changed. -/
def setStatic (m : Memory) (className : String) (index : Nat) (value : Int16) : Memory :=
  { m with statics := fun c i =>
      if c = className ∧ i = index then value else m.statics c i }

/-- The memory with a cell of the heap changed. -/
def setHeap (m : Memory) (address : Nat) (value : Int16) : Memory :=
  { m with heap := fun a => if a = address then value else m.heap a }

/-- The memory with so many more cells taken. -/
def grow (m : Memory) (size : Nat) : Memory :=
  { m with
    free := m.free + size
    heap_le_free := Nat.le_trans m.heap_le_free (Nat.le_add_right _ _) }

/-- **Takes cells for an object** and returns its address. -/
def allocate (m : Memory) (size : Nat) : Option (Int16 × Memory) :=
  if m.free + size ≤ Layout.cells then some (Int16.ofNat m.free, m.grow size) else none

end Memory

/-- **The cell of the heap** that lies so many behind an address. -/
def heapCell? (address : Int16) (index : Nat) : Option Nat :=
  let cell := address.toUInt16.toNat + index
  if Layout.heap ≤ cell ∧ cell < Layout.cells then some cell else none

theorem heapCell?_eq_some {address : Int16} {index cell : Nat} :
    heapCell? address index = some cell ↔
      address.toUInt16.toNat + index = cell ∧ Layout.heap ≤ cell ∧ cell < Layout.cells := by
  rw [heapCell?, Option.ite_none_right_eq_some, Option.some.injEq]
  constructor
  · rintro ⟨h, rfl⟩
    exact ⟨rfl, h⟩
  · rintro ⟨rfl, h⟩
    exact ⟨h, rfl⟩

/-- **An activation of a subroutine**: its object, if it has one, its arguments and locals, and the
memory. The object of a method is its first argument too. -/
structure Activation where
  this : Option Int16
  arguments : List Int16
  locals : List Int16
  memory : Memory

namespace Activation

/-- **The value of a variable** in code of a class. -/
def read (a : Activation) (className : String) (v : Variable) : Option Int16 :=
  match v.kind with
  | .argument => a.arguments[v.index]?
  | .local => a.locals[v.index]?
  | .static => some (a.memory.statics className v.index)
  | .field => do
    let cell ← heapCell? (← a.this) v.index
    return a.memory.heap cell

/-- **Gives a variable a value.** -/
def write (a : Activation) (className : String) (v : Variable) (value : Int16) :
    Option Activation :=
  match v.kind with
  | .argument =>
    if v.index < a.arguments.length then
      some { a with arguments := a.arguments.set v.index value }
    else none
  | .local =>
    if v.index < a.locals.length then some { a with locals := a.locals.set v.index value }
    else none
  | .static => some { a with memory := a.memory.setStatic className v.index value }
  | .field => do
    let cell ← heapCell? (← a.this) v.index
    return { a with memory := a.memory.setHeap cell value }

/-- An assignment keeps the object and the numbers of variables. -/
theorem write_keeps {a a' : Activation} {className : String} {v : Variable} {value : Int16}
    (h : a.write className v value = some a') :
    a'.this = a.this ∧ a'.arguments.length = a.arguments.length ∧
      a'.locals.length = a.locals.length := by
  obtain ⟨type, kind, index⟩ := v
  cases kind with
  | argument =>
    obtain ⟨-, h⟩ := Option.ite_none_right_eq_some.1 h
    obtain rfl := Option.some.inj h
    exact ⟨rfl, List.length_set, rfl⟩
  | «local» =>
    obtain ⟨-, h⟩ := Option.ite_none_right_eq_some.1 h
    obtain rfl := Option.some.inj h
    exact ⟨rfl, rfl, List.length_set⟩
  | static =>
    obtain rfl := Option.some.inj h
    exact ⟨rfl, rfl, rfl⟩
  | field =>
    obtain ⟨object, -, h⟩ := Option.bind_eq_some_iff.1 h
    obtain ⟨cell, -, h⟩ := Option.bind_eq_some_iff.1 h
    obtain rfl := Option.some.inj h
    exact ⟨rfl, rfl, rfl⟩

end Activation

/-! ## Expressions -/

/-- **What an operator in front of a term computes.** -/
def UnaryOp.apply : UnaryOp → Int16 → Int16
  | .negate, x => -x
  | .complement, x => ~~~x

/-- The number of a truth value. -/
def verdict (b : Bool) : Int16 :=
  if b then -1 else 0

/-- **What an operator between terms computes.** -/
def BinaryOp.apply : BinaryOp → Int16 → Int16 → Option Int16
  | .add, x, y => some (x + y)
  | .subtract, x, y => some (x - y)
  | .multiply, x, y => some (x * y)
  | .divide, x, y => if y = 0 then none else some (x / y)
  | .and, x, y => some (x &&& y)
  | .or, x, y => some (x ||| y)
  | .less, x, y => some (verdict (x < y))
  | .greater, x, y => some (verdict (y < x))
  | .equal, x, y => some (verdict (x = y))

/-- The value of a constant, given the object. -/
def Constant.value (this : Option Int16) : Constant → Option Int16
  | .true => some (-1)
  | .false | .null => some 0
  | .this => this

/-- **What a call names**: a subroutine of a class, as a method or not. -/
structure Callee where
  className : String
  routine : String
  isMethod : Bool

/-- **The meaning of calls**: what a subroutine yields in so much room, for arguments in a memory.
-/
abbrev CallMeaning := Nat → Callee → List Int16 → Memory → Option (Int16 × Memory)

/-- The meaning of calls where there are none. -/
def CallMeaning.none : CallMeaning :=
  fun _ _ _ _ => Option.none

/-- A value that takes a cell. -/
def occupy (room : Nat) (value : Option Int16) : Option Int16 :=
  if 0 < room then value else none

theorem occupy_eq_some {room : Nat} {value : Option Int16} {x : Int16} :
    occupy room value = some x ↔ 0 < room ∧ value = some x := by
  rw [occupy, Option.ite_none_right_eq_some]

/-- The value of a name, which takes a cell. -/
def Activation.fetch (a : Activation) (c : Context) (room : Nat) (name : String) : Option Int16 :=
  occupy room ((c.resolve name).bind (a.read c.className))

mutual

/-- **The meaning of a term**: its value and the memory after it. -/
def Term.eval (c : Context) (calls : CallMeaning) (room : Nat) (a : Activation) :
    Term → Option (Int16 × Memory)
  | .integer digits => do
    let x ← occupy room (some (Int16.ofNat (Text.Decimal.value digits.toList)))
    return (x, a.memory)
  | .text _ => none
  | .constant k => do
    let x ← occupy room (k.value a.this)
    return (x, a.memory)
  | .variable name => do
    let x ← a.fetch c room name
    return (x, a.memory)
  | .element array index => do
    let base ← a.fetch c room array
    let (i, m) ← index.eval c calls (room - 1) a
    let cell ← heapCell? (base + i) 0
    return (m.heap cell, m)
  | .call f => f.eval c calls room a
  | .group inner => inner.eval c calls room a
  | .unary op operand => do
    let (x, m) ← operand.eval c calls room a
    return (op.apply x, m)

/-- **The meaning of an expression**: operators apply from the left to the right. -/
def Expression.eval (c : Context) (calls : CallMeaning) (room : Nat) (a : Activation) :
    Expression → Option (Int16 × Memory)
  | .chain first more => do
    let (x, m) ← first.eval c calls room a
    Expression.moreEval c calls room { a with memory := m } x more

/-- The meaning of operators, each with its term, behind a value. -/
def Expression.moreEval (c : Context) (calls : CallMeaning) (room : Nat) (a : Activation)
    (x : Int16) : List (BinaryOp × Term) → Option (Int16 × Memory)
  | [] => some (x, a.memory)
  | (op, t) :: rest => do
    let (y, m) ← t.eval c calls (room - 1) a
    let z ← op.apply x y
    Expression.moreEval c calls room { a with memory := m } z rest

/-- **The meaning of a call**: the object, if it is a method's, then the arguments, then the call.
-/
def Call.eval (c : Context) (calls : CallMeaning) (room : Nat) (a : Activation) :
    Call → Option (Int16 × Memory)
  | .own routine arguments => do
    let object ← occupy room a.this
    let (xs, m) ← Call.listEval c calls (room - 1) a arguments
    calls (room - 1 - arguments.length) ⟨c.className, routine, true⟩ (object :: xs) m
  | .on receiver routine arguments =>
    match c.resolve receiver with
    | some v => do
      let object ← occupy room (a.read c.className v)
      let (xs, m) ← Call.listEval c calls (room - 1) a arguments
      calls (room - 1 - arguments.length) ⟨v.type, routine, true⟩ (object :: xs) m
    | none => do
      let (xs, m) ← Call.listEval c calls room a arguments
      calls (room - arguments.length) ⟨receiver, routine, false⟩ xs m

/-- The meaning of arguments. -/
def Call.listEval (c : Context) (calls : CallMeaning) (room : Nat) (a : Activation) :
    List Expression → Option (List Int16 × Memory)
  | [] => some ([], a.memory)
  | e :: rest => do
    let (x, m) ← e.eval c calls room a
    let (xs, m) ← Call.listEval c calls (room - 1) { a with memory := m } rest
    return (x :: xs, m)

end

/-! ## Statements -/

/-- **How a statement ends**: what stands behind it goes on, or the subroutine returns. -/
inductive Outcome where
  | proceeds
  | returns (value : Int16)

/-- **The meaning of a loop**, given those of its condition and of its body. -/
def iterate (condition : Activation → Option (Int16 × Memory))
    (body : Activation → Option (Outcome × Activation)) :
    Nat → Activation → Option (Outcome × Activation)
  | 0, _ => none
  | fuel + 1, a => do
    let (x, m) ← condition a
    if x = -1 then
      match ← body { a with memory := m } with
      | (.proceeds, a) => iterate condition body fuel a
      | (.returns v, a) => return (.returns v, a)
    else return (.proceeds, { a with memory := m })

/-- **The value of a return**: a subroutine without a value returns 0. So many cells hold the value
of an expression. -/
def Context.returned (c : Context) (room : Nat) : Option Int16 → Option Int16
  | none => if c.returnsVoid then occupy room (some 0) else none
  | some x => if c.returnsVoid then occupy (room - 1) (some 0) else some x

mutual

/-- **The meaning of a statement.** For an element that gets a value, the index comes first, then
the array, then the value. -/
def Statement.eval (c : Context) (calls : CallMeaning) (fuel room : Nat) (a : Activation) :
    Statement → Option (Outcome × Activation)
  | .assign name value => do
    let (x, m) ← value.eval c calls room a
    let a ← { a with memory := m }.write c.className (← c.resolve name) x
    return (.proceeds, a)
  | .assignElement array index value => do
    let (i, m) ← index.eval c calls room a
    let base ← { a with memory := m }.fetch c (room - 1) array
    let (x, m) ← value.eval c calls (room - 1) { a with memory := m }
    let cell ← heapCell? (i + base) 0
    return (.proceeds, { a with memory := m.setHeap cell x })
  | .branch condition body otherwise => do
    let (x, m) ← condition.eval c calls room a
    if x = -1 then Statement.listEval c calls fuel room { a with memory := m } body
    else Statement.otherwiseEval c calls fuel room { a with memory := m } otherwise
  | .loop condition body =>
    iterate (fun a => condition.eval c calls room a)
      (fun a => Statement.listEval c calls fuel room a body) fuel a
  | .perform f => do
    let (_, m) ← f.eval c calls room a
    return (.proceeds, { a with memory := m })
  | .return none => do
    let v ← c.returned room none
    return (.returns v, a)
  | .return (some value) => do
    let (x, m) ← value.eval c calls room a
    let v ← c.returned room (some x)
    return (.returns v, { a with memory := m })

/-- **The meaning of statements** in sequence. -/
def Statement.listEval (c : Context) (calls : CallMeaning) (fuel room : Nat) (a : Activation) :
    List Statement → Option (Outcome × Activation)
  | [] => some (.proceeds, a)
  | s :: rest => do
    match ← s.eval c calls fuel room a with
    | (.proceeds, a) => Statement.listEval c calls fuel room a rest
    | (.returns v, a) => return (.returns v, a)

/-- The meaning of a second branch. -/
def Statement.otherwiseEval (c : Context) (calls : CallMeaning) (fuel room : Nat)
    (a : Activation) : Option (List Statement) → Option (Outcome × Activation)
  | none => some (.proceeds, a)
  | some body => Statement.listEval c calls fuel room a body

end

/-! ## Subroutines and programs -/

/-- The cells that an activation takes besides its arguments and locals. -/
def frameCells : Nat := 5

/-- The cells of the stack. -/
def stackCells : Nat := Layout.heap - Layout.stack

namespace RoutineDecl

/-- How many arguments a subroutine takes, the object of a method included. -/
def arity (r : RoutineDecl) : Nat :=
  r.parameters.length + if r.kind = .method then 1 else 0

/-- **The activation that a subroutine starts with**: locals are 0, and a constructor takes the
cells of its object. -/
def enter (r : RoutineDecl) (c : ClassDecl) (room : Nat) (arguments : List Int16) (m : Memory) :
    Option Activation :=
  let a : Activation := ⟨none, arguments, List.replicate r.localCount 0, m⟩
  match r.kind with
  | .function => some a
  | .method => do
    let object ← occupy room arguments.head?
    return { a with this := some object }
  | .constructor =>
    if 0 < room then do
      let (object, m) ← m.allocate c.fieldCount
      return { a with this := some object, memory := m }
    else none

/-- **The meaning of a subroutine**: what it returns for arguments and the memory after it. -/
def apply (r : RoutineDecl) (c : ClassDecl) (calls : CallMeaning) (fuel room : Nat)
    (arguments : List Int16) (m : Memory) : Option (Int16 × Memory) :=
  if arguments.length = r.arity ∧ frameCells + r.localCount ≤ room then do
    let room := room - (frameCells + r.localCount)
    let a ← r.enter c room arguments m
    match ← Statement.listEval (r.context c) calls fuel room a r.body with
    | (.returns v, a) => return (v, a.memory)
    | (.proceeds, a) =>
      let v ← (r.context c).returned room none
      return (v, a.memory)
  else none

end RoutineDecl

namespace ClassDecl

/-- The subroutine that a call names among classes: one of that name, and a method if it is called
as one. -/
def callee? (classes : List ClassDecl) (f : Callee) : Option (ClassDecl × RoutineDecl) := do
  let c ← classes.find? (·.name = f.className)
  let r ← c.routines.find? (·.name = f.routine)
  if decide (r.kind = .method) = f.isMethod then return (c, r) else none

/-- **The meaning of calls in a program**, nested at most so deep. -/
def meaning (classes : List ClassDecl) : Nat → CallMeaning
  | 0 => CallMeaning.none
  | fuel + 1 => fun room f arguments m => do
    let (c, r) ← callee? classes f
    r.apply c (meaning classes fuel) fuel room arguments m

end ClassDecl

end JackStack
