import JackStack.Proofs.Instruction
import JackStack.Proofs.Loading

/-!
# Proofs/Simulation — code does what its tree means

Where the commands of a tree are placed in the code and a scene plays the activation in which the
tree is evaluated, the machine runs through the commands and arrives where the meaning of the tree
says: an expression leaves its value as an operand, a statement changes the variables, and a return
arrives at a `leave` with the value on top. The bases of arrays and the temporary change on the way,
and nothing depends on what they become.

* `Expression.reaches`, `Call.reaches` — expressions and calls.
* `Statement.arrives` — statements.
* `RoutineDecl.answers` — subroutines.
-/

namespace JackStack

open Machine (Yields)
open Vm (Command)

/-! ## Commands in their places -/

/-- **What the commands of a function are linked with**: the places of labels, and the names of the
function and of its class. -/
structure Linkage where
  labels : List ((String × String) × Nat)
  function : String
  className : String

/-- **A command is found at a place** of the code, linked. A label lies where jumps to it go, and a
static among those of its class. -/
structure Image.Has (I : Image) (l : Linkage) (place : Nat) (command : Command) : Prop where
  linked : ∃ i, Machine.link l.labels (I.base l.className) l.function command = .ok i ∧
    I.code[place]? = some i
  label : ∀ name, command = .label name → l.labels.lookup (l.function, name) = some place
  static : ∀ index, command.static? = some index → index < I.size l.className

/-- **Commands are found in the code**, one after the other from a place on. -/
def Image.Placed (I : Image) (l : Linkage) : Nat → List Command → Prop
  | _, [] => True
  | place, command :: rest => I.Has l place command ∧ I.Placed l (place + 1) rest

namespace Image

variable {I : Image} {l : Linkage} {place : Nat} {command : Command} {i : Instr}

theorem Has.code (h : I.Has l place command)
    (hi : Machine.link l.labels (I.base l.className) l.function command = .ok i) :
    I.code[place]? = some i := by
  obtain ⟨j, hj, hcode⟩ := h.linked
  rw [hi] at hj
  rw [hcode, Except.ok.inj hj]

theorem placed_append {before behind : List Command} :
    I.Placed l place (before ++ behind) ↔
      I.Placed l place before ∧ I.Placed l (place + before.length) behind := by
  induction before generalizing place with
  | nil => simp [Placed]
  | cons command rest ih =>
    rw [List.cons_append, Placed, Placed, ih, and_assoc, List.length_cons, Nat.add_assoc,
      Nat.add_comm 1]

theorem Placed.of_eq {place' : Nat} {commands : List Command} (h : I.Placed l place commands)
    (hp : place = place') : I.Placed l place' commands :=
  hp ▸ h

end Image

/-! ## Runs up to the bases of arrays -/

/-- The scene after so many commands, with other operands, another memory, another array at hand and
another temporary. -/
def Scene.moved (s : Scene) (n : Nat) (operands : List Int16) (memory : Memory)
    (that temp : Int16) : Scene :=
  { s with
    place := s.place + n
    operands := operands
    memory := memory
    that := that
    temp := temp }

theorem Scene.height_moved (s : Scene) (n : Nat) (operands : List Int16) (memory : Memory)
    (that temp : Int16) :
    (s.moved n operands memory that temp).height + s.operands.length =
      s.height + operands.length := by
  simp only [moved, height, Frame.height]
  omega

/-- **A scene reaches operands and a memory**, so many commands on. -/
def Reaches (I : Image) (s : Scene) (n : Nat) (operands : List Int16) (memory : Memory) : Prop :=
  ∃ that temp, Runs I s (s.moved n operands memory that temp)

/-- A scene that is shown keeps within the stack, so the run to another may rely on that. -/
theorem Runs.trans_of_height {I : Image} {s s' s'' : Scene} (h : Runs I s s')
    (h' : s'.height ≤ stackCells → Runs I s' s'') : Runs I s s'' := by
  intro m hm
  obtain ⟨n, m', hn, hm'⟩ := h m hm
  have hle := hm'.height
  rw [s'.length_stack_view] at hle
  obtain ⟨k, m'', hk, hm''⟩ := h' hle m' hm'
  exact ⟨n + k, m'', hn.trans hk, hm''⟩

namespace Reaches

variable {I : Image} {s : Scene} {n k : Nat} {operands operands' : List Int16}
  {memory memory' : Memory}

theorem trans (h : Reaches I s n operands memory)
    (h' : ∀ that temp, (s.moved n operands memory that temp).height ≤ stackCells →
      Reaches I (s.moved n operands memory that temp) k operands' memory') :
    Reaches I s (n + k) operands' memory' := by
  obtain ⟨that, temp, hr⟩ := h
  by_cases hle : (s.moved n operands memory that temp).height ≤ stackCells
  · obtain ⟨that', temp', hr'⟩ := h' that temp hle
    refine ⟨that', temp', ?_⟩
    have := hr.trans hr'
    rwa [show (s.moved n operands memory that temp).moved k operands' memory' that' temp' =
      s.moved (n + k) operands' memory' that' temp' by simp [Scene.moved, Nat.add_assoc]] at this
  · exact ⟨that, temp, hr.trans_of_height fun h => absurd h hle⟩

theorem of_pushed {x : Int16} (h : Runs I s (s.pushed x)) :
    Reaches I s 1 (x :: s.operands) s.memory :=
  ⟨s.that, s.temp, h⟩

theorem of_popped (h : Runs I s (s.popped operands)) : Reaches I s 1 operands s.memory :=
  ⟨s.that, s.temp, h⟩

theorem refl (I : Image) (s : Scene) : Reaches I s 0 s.operands s.memory :=
  ⟨s.that, s.temp, Runs.refl I s⟩

end Reaches

/-- **A scene reflects an activation**: its object, variables and memory. -/
structure Scene.Reflects (s : Scene) (a : Activation) : Prop where
  arguments : s.arguments = a.arguments
  locals : s.locals = a.locals
  memory : s.memory = a.memory
  this : ∀ object, a.this = some object → s.this = object

/-- **A scene plays an activation** with so much room on the stack. -/
structure Scene.Plays (s : Scene) (a : Activation) (room : Nat) : Prop extends s.Reflects a where
  height : s.height + room = stackCells

namespace Scene.Plays

variable {s : Scene} {a : Activation} {room room' n : Nat} {operands : List Int16}
  {memory : Memory} {that temp : Int16}

/-- A scene goes on to play its activation, in a new memory and with other operands. -/
theorem moved (h : s.Plays a room) (hr : operands.length + room' = s.operands.length + room) :
    (s.moved n operands memory that temp).Plays { a with memory := memory } room' := by
  have hh := s.height_moved n operands memory that temp
  have := h.height
  exact ⟨⟨h.arguments, h.locals, rfl, h.this⟩, by omega⟩

/-- Operands on top leave so much less room. -/
theorem room_le (h : s.Plays a room)
    (hle : (s.moved n operands memory that temp).height ≤ stackCells) :
    operands.length ≤ s.operands.length + room := by
  have hh := s.height_moved n operands memory that temp
  have := h.height
  omega

/-- A scene goes on to play its activation above one more operand, in a new memory. -/
theorem above {x : Int16} (h : s.Plays a room)
    (hle : (s.moved n (x :: s.operands) memory that temp).height ≤ stackCells) :
    (s.moved n (x :: s.operands) memory that temp).Plays { a with memory := memory }
      (room - 1) := by
  have hr := h.room_le hle
  rw [List.length_cons] at hr
  exact h.moved (by rw [List.length_cons]; omega)

/-- The memory may stay as it is. -/
theorem above_same {x : Int16} (h : s.Plays a room)
    (hle : (s.moved n (x :: s.operands) s.memory that temp).height ≤ stackCells) :
    (s.moved n (x :: s.operands) s.memory that temp).Plays a (room - 1) := by
  have hm : { a with memory := s.memory } = a := by rw [h.memory]
  exact hm ▸ h.above hle

end Scene.Plays

/-! ## Variables -/

section Variables

variable {I : Image} {l : Linkage} {s : Scene} {a a' : Activation} {room : Nat} {v : Variable}
  {x : Int16}

/-- A static of a class is linked to its cell. -/
theorem addSize_static {c : String} {index : Nat} (h : index < I.size c) :
    Machine.addSize index (I.base c) = .ok (index + I.base c) := by
  have := I.static_lt c index h
  rw [Machine.addSize, if_pos]
  exact Nat.lt_trans (Nat.add_comm _ _ ▸ this) (by decide)

/-- **A variable is pushed.** -/
theorem Reaches.fetch (hp : I.Has l s.place v.push) (hs : s.Plays a room)
    (hx : occupy room (a.read l.className v) = some x) :
    Reaches I s 1 (x :: s.operands) s.memory := by
  obtain ⟨hroom, hx⟩ := occupy_eq_some.1 hx
  have hlt : s.height < stackCells := by have := hs.height; omega
  refine Reaches.of_pushed ?_
  obtain ⟨type, kind, index⟩ := v
  cases kind with
  | argument => exact Runs.push_argument (hp.code rfl) hlt (hs.arguments ▸ hx)
  | «local» => exact Runs.push_local (hp.code rfl) hlt (hs.locals ▸ hx)
  | static =>
    have hi := hp.static index rfl
    obtain rfl := Option.some.inj hx
    rw [← hs.memory]
    refine Runs.push_static (hp.code ?_) hlt hi
    change (Machine.addSize index _ >>= _) = _
    rw [addSize_static hi]
    rfl
  | field =>
    obtain ⟨object, ho, hx⟩ := Option.bind_eq_some_iff.1 hx
    obtain ⟨cell, hcell, hx⟩ := Option.bind_eq_some_iff.1 hx
    obtain rfl := Option.some.inj hx
    rw [← hs.memory]
    exact Runs.push_this (hp.code rfl) hlt (hs.this object ho ▸ hcell)

/-- **A variable gets the value on top.** -/
theorem Runs.assign {rest : List Int16} (hp : I.Has l s.place v.pop) (hs : s.Reflects a)
    (ho : s.operands = x :: rest) (hw : a.write l.className v x = some a') :
    Runs I s { s with
      place := s.place + 1
      operands := rest
      arguments := a'.arguments
      locals := a'.locals
      memory := a'.memory } := by
  obtain ⟨type, kind, index⟩ := v
  cases kind with
  | argument =>
    obtain ⟨hi, hw⟩ := Option.ite_none_right_eq_some.1 hw
    obtain rfl := Option.some.inj hw
    rw [← hs.arguments] at hi ⊢
    rw [← hs.locals, ← hs.memory]
    exact Runs.pop_argument (hp.code rfl) ho hi
  | «local» =>
    obtain ⟨hi, hw⟩ := Option.ite_none_right_eq_some.1 hw
    obtain rfl := Option.some.inj hw
    rw [← hs.locals] at hi ⊢
    rw [← hs.arguments, ← hs.memory]
    exact Runs.pop_local (hp.code rfl) ho hi
  | static =>
    have hi := hp.static index rfl
    obtain rfl := Option.some.inj hw
    rw [← hs.arguments, ← hs.locals, ← hs.memory]
    refine Runs.pop_static (hp.code ?_) ho hi
    change (Machine.addSize index _ >>= _) = _
    rw [addSize_static hi]
    rfl
  | field =>
    obtain ⟨object, hobject, hw⟩ := Option.bind_eq_some_iff.1 hw
    obtain ⟨cell, hcell, hw⟩ := Option.bind_eq_some_iff.1 hw
    obtain rfl := Option.some.inj hw
    rw [← hs.arguments, ← hs.locals, ← hs.memory]
    exact Runs.pop_this (hp.code rfl) ho (hs.this object hobject ▸ hcell)

end Variables

/-! ## Expressions -/

/-- **The code serves calls**: where a call is placed and its arguments are on top, the machine
comes back with what the call means instead of them. -/
def Image.Serves (I : Image) (calls : CallMeaning) : Prop :=
  ∀ (s : Scene) (room : Nat) (f : Callee) (arguments operands : List Int16) (x : Int16)
    (memory : Memory),
    I.code[s.place]? = some (.call (qualifiedName f.className f.routine) arguments.length) →
    s.operands = arguments.reverse ++ operands → s.height + room = stackCells →
    calls room f arguments s.memory = some (x, memory) → Reaches I s 1 (x :: operands) memory

section Expressions

variable {I : Image} {l : Linkage} {s : Scene} {a : Activation} {room : Nat} {c : Context}
  {calls : CallMeaning} {x y z : Int16} {memory : Memory} {rest : List Int16}

theorem UnaryOp.reaches (op : UnaryOp) (hp : I.Has l s.place op.command)
    (ho : s.operands = x :: rest) : Reaches I s 1 (op.apply x :: rest) s.memory := by
  refine Reaches.of_popped ?_
  cases op with
  | negate => exact Runs.arith_unary rfl (hp.code rfl) ho
  | complement => exact Runs.arith_unary rfl (hp.code rfl) ho

theorem BinaryOp.reaches (op : BinaryOp) (hp : I.Has l s.place op.command)
    (ho : s.operands = y :: x :: rest) (hz : op.apply x y = some z) :
    Reaches I s 1 (z :: rest) s.memory := by
  refine Reaches.of_popped ?_
  cases op with
  | multiply =>
    obtain rfl := Option.some.inj hz
    exact Runs.call_multiply (hp.code rfl) ho
  | divide =>
    rw [BinaryOp.apply, Option.ite_none_left_eq_some] at hz
    obtain ⟨hy, hz⟩ := hz
    obtain rfl := Option.some.inj hz
    exact Runs.call_divide (hp.code rfl) ho hy
  | less =>
    obtain rfl := Option.some.inj hz
    exact Runs.arith_binary (f := fun x y => Machine.truth (x < y)) rfl (hp.code rfl) ho
  | greater =>
    obtain rfl := Option.some.inj hz
    exact Runs.arith_binary (f := fun x y => Machine.truth (y < x)) rfl (hp.code rfl) ho
  | equal =>
    obtain rfl := Option.some.inj hz
    exact Runs.arith_binary (f := fun x y => Machine.truth (x = y)) rfl (hp.code rfl) ho
  | add | subtract | and | or =>
    obtain rfl := Option.some.inj hz
    exact Runs.arith_binary rfl (hp.code rfl) ho

theorem Constant.reaches (k : Constant) (hp : I.Placed l s.place k.code) (hs : s.Plays a room)
    (hx : occupy room (k.value a.this) = some x) :
    Reaches I s k.code.length (x :: s.operands) s.memory := by
  obtain ⟨hroom, hx⟩ := occupy_eq_some.1 hx
  have hlt : s.height < stackCells := by have := hs.height; omega
  cases k with
  | «true» =>
    obtain rfl := Option.some.inj hx
    refine (Reaches.of_pushed (Runs.push_constant (hp.1.code rfl) hlt)).trans fun that temp _ => ?_
    exact Reaches.of_popped (Runs.arith_unary rfl (hp.2.1.code rfl) rfl)
  | «false» | null =>
    obtain rfl := Option.some.inj hx
    exact Reaches.of_pushed (Runs.push_constant (hp.1.code rfl) hlt)
  | this =>
    rw [← hs.this x hx]
    exact Reaches.of_pushed (Runs.push_object (hp.1.code rfl) hlt)

/-- The value of a name is pushed. -/
theorem Context.reaches (hc : l.className = c.className) {name : String}
    (hp : I.Placed l s.place (c.pushName name)) (hs : s.Plays a room)
    (hx : a.fetch c room name = some x) :
    Reaches I s (c.pushName name).length (x :: s.operands) s.memory := by
  obtain ⟨hroom, hx⟩ := occupy_eq_some.1 hx
  obtain ⟨v, hv, hx⟩ := Option.bind_eq_some_iff.1 hx
  have hcode : c.pushName name = [v.push] := by rw [pushName, hv]; rfl
  rw [hcode] at hp ⊢
  exact Reaches.fetch hp.1 hs (occupy_eq_some.2 ⟨hroom, hc ▸ hx⟩)

/-- **An element is read** at the sum of the two operands on top. -/
theorem Reaches.element {cell : Nat}
    (hp : I.Placed l s.place [.arith .add, .pop .pointer 1, .push .that 0])
    (ho : s.operands = y :: x :: rest) (hcell : heapCell? (x + y) 0 = some cell)
    (hle : s.height ≤ stackCells) : Reaches I s 3 (s.memory.heap cell :: rest) s.memory := by
  have hadd := Runs.arith_binary rfl (hp.1.code rfl) ho
  have hpop := Runs.pop_array (s := s.popped ((x + y) :: rest)) (hp.2.1.code rfl) rfl
  have hheight := s.height_moved 2 rest s.memory (x + y) s.temp
  rw [ho, List.length_cons, List.length_cons] at hheight
  have hpush := Runs.push_that (s := s.moved 2 rest s.memory (x + y) s.temp) (hp.2.2.1.code rfl)
    (by omega) hcell
  exact ⟨x + y, s.temp, (hadd.trans hpop).trans hpush⟩

/-- There are as many values as arguments. -/
theorem Call.length_of_listEval {arguments : List Expression} {xs : List Int16}
    (h : Call.listEval c calls room a arguments = some (xs, memory)) :
    xs.length = arguments.length := by
  induction arguments generalizing room a xs with
  | nil =>
    rw [Call.listEval] at h
    obtain ⟨rfl, -⟩ := Prod.mk.inj (Option.some.inj h)
    rfl
  | cons e rest ih =>
    rw [Call.listEval] at h
    obtain ⟨⟨x, m⟩, -, h⟩ := Option.bind_eq_some_iff.1 h
    obtain ⟨⟨ys, m'⟩, hys, h⟩ := Option.bind_eq_some_iff.1 h
    obtain ⟨rfl, rfl⟩ := Prod.mk.inj (Option.some.inj h)
    rw [List.length_cons, ih hys, List.length_cons]

/-- **A call is served** behind its arguments. -/
theorem Reaches.serve (hcalls : I.Serves calls) {n k : Nat} {f : Callee} {arguments : List Int16}
    {before : Memory} (h : Reaches I s n (arguments.reverse ++ s.operands) before)
    (hp : I.Placed l (s.place + n) [.call (qualifiedName f.className f.routine) k])
    (hk : arguments.length = k) (hs : s.Plays a room)
    (he : calls (room - k) f arguments before = some (x, memory)) :
    Reaches I s (n + 1) (x :: s.operands) memory := by
  subst hk
  refine h.trans fun that temp hle => ?_
  have hh := s.height_moved n (arguments.reverse ++ s.operands) before that temp
  rw [List.length_append, List.length_reverse] at hh
  have := hs.height
  exact hcalls _ _ f arguments s.operands x memory (hp.1.code rfl) rfl (by omega) he

/-- **The code suits a context**: it is that of the class, and calls are served. -/
structure Suits (I : Image) (l : Linkage) (c : Context) (calls : CallMeaning) : Prop where
  className : l.className = c.className
  serves : I.Serves calls

mutual

/-- **The code of a term leaves its value.** -/
theorem Term.reaches (t : Term) (h : Suits I l c calls) {s : Scene} {a : Activation}
    {room : Nat} {x : Int16} {memory : Memory} (hp : I.Placed l s.place (t.code c)) (hs : s.Plays a room)
    (he : t.eval c calls room a = some (x, memory)) :
    Reaches I s (t.code c).length (x :: s.operands) memory := by
  cases t with
  | integer digits =>
    rw [Term.eval] at he
    obtain ⟨y, hy, he⟩ := Option.bind_eq_some_iff.1 he
    obtain ⟨hroom, hy⟩ := occupy_eq_some.1 hy
    obtain ⟨rfl, rfl⟩ := Prod.mk.inj (Option.some.inj he)
    obtain rfl := Option.some.inj hy
    rw [Term.code] at hp ⊢
    rw [← hs.memory]
    exact Reaches.of_pushed (Runs.push_constant (hp.1.code rfl) (by have := hs.height; omega))
  | text body =>
    rw [Term.eval] at he
    cases he
  | constant k =>
    rw [Term.eval] at he
    obtain ⟨y, hy, he⟩ := Option.bind_eq_some_iff.1 he
    obtain ⟨rfl, rfl⟩ := Prod.mk.inj (Option.some.inj he)
    rw [Term.code] at hp ⊢
    rw [← hs.memory]
    exact k.reaches hp hs hy
  | «variable» name =>
    rw [Term.eval] at he
    obtain ⟨y, hy, he⟩ := Option.bind_eq_some_iff.1 he
    obtain ⟨rfl, rfl⟩ := Prod.mk.inj (Option.some.inj he)
    rw [Term.code] at hp ⊢
    rw [← hs.memory]
    exact Context.reaches h.className hp hs hy
  | element array index =>
    rw [Term.eval] at he
    obtain ⟨base, hbase, he⟩ := Option.bind_eq_some_iff.1 he
    obtain ⟨⟨i, m⟩, hi, he⟩ := Option.bind_eq_some_iff.1 he
    obtain ⟨cell, hcell, he⟩ := Option.bind_eq_some_iff.1 he
    obtain ⟨rfl, rfl⟩ := Prod.mk.inj (Option.some.inj he)
    rw [Term.code, Image.placed_append, Image.placed_append] at hp
    rw [Term.code, List.length_append, List.length_append]
    have hoperands : Reaches I s _ (i :: base :: s.operands) m :=
      (Context.reaches h.className hp.1.1 hs hbase).trans fun that temp hle =>
        index.reaches h hp.1.2 (hs.above_same hle) hi
    refine hoperands.trans fun that temp hle => ?_
    rw [List.length_append] at hp
    exact Reaches.element hp.2 rfl hcell hle
  | call f =>
    rw [Term.eval] at he
    rw [Term.code] at hp ⊢
    exact f.reaches h hp hs he
  | group inner =>
    rw [Term.eval] at he
    rw [Term.code] at hp ⊢
    exact inner.reaches h hp hs he
  | unary op operand =>
    rw [Term.eval] at he
    obtain ⟨⟨y, m⟩, hy, he⟩ := Option.bind_eq_some_iff.1 he
    obtain ⟨rfl, rfl⟩ := Prod.mk.inj (Option.some.inj he)
    rw [Term.code, Image.placed_append] at hp
    rw [Term.code, List.length_append]
    refine (operand.reaches h hp.1 hs hy).trans fun that temp _ => ?_
    exact op.reaches hp.2.1 rfl

/-- **The code of an expression leaves its value.** -/
theorem Expression.reaches (e : Expression) (h : Suits I l c calls) {s : Scene} {a : Activation}
    {room : Nat} {x : Int16} {memory : Memory} (hp : I.Placed l s.place (e.code c))
    (hs : s.Plays a room)
    (he : e.eval c calls room a = some (x, memory)) :
    Reaches I s (e.code c).length (x :: s.operands) memory := by
  obtain ⟨first, more⟩ := e
  rw [Expression.eval] at he
  obtain ⟨⟨y, m⟩, hy, he⟩ := Option.bind_eq_some_iff.1 he
  rw [Expression.code, Image.placed_append] at hp
  rw [Expression.code, List.length_append]
  refine (first.reaches h hp.1 hs hy).trans fun that temp hle => ?_
  have hr := hs.room_le hle
  rw [List.length_cons] at hr
  exact Expression.more_reaches more h s.operands hp.2 rfl
    (hs.moved (by rw [List.length_cons]; omega)) he

/-- The code of operators, each with its term, replaces the value in front. -/
theorem Expression.more_reaches (more : List (BinaryOp × Term)) (h : Suits I l c calls)
    (operands : List Int16) {s : Scene} {a : Activation} {room : Nat} {x y : Int16}
    {memory : Memory}
    (hp : I.Placed l s.place (Expression.moreCode c more)) (ho : s.operands = x :: operands)
    (hs : s.Plays a (room - 1))
    (he : Expression.moreEval c calls room a x more = some (y, memory)) :
    Reaches I s (Expression.moreCode c more).length (y :: operands) memory := by
  cases more with
  | nil =>
    rw [Expression.moreEval] at he
    obtain ⟨rfl, rfl⟩ := Prod.mk.inj (Option.some.inj he)
    rw [← ho, ← hs.memory]
    exact Reaches.refl I s
  | cons head rest =>
    obtain ⟨op, t⟩ := head
    rw [Expression.moreEval] at he
    obtain ⟨⟨z, m⟩, hz, he⟩ := Option.bind_eq_some_iff.1 he
    obtain ⟨w, hw, he⟩ := Option.bind_eq_some_iff.1 he
    rw [Expression.moreCode, Image.placed_append] at hp
    rw [Expression.moreCode, List.length_append, List.length_cons, Nat.add_comm _ 1,
      ← Nat.add_assoc]
    have hoperator : Reaches I s _ (w :: operands) m :=
      (t.reaches h hp.1 hs hz).trans fun that temp _ =>
        op.reaches hp.2.1 (by rw [Scene.moved, ho]) hw
    refine hoperator.trans fun that temp _ => ?_
    exact Expression.more_reaches rest h operands hp.2.2 rfl (hs.moved (by rw [ho]; rfl)) he

/-- **The code of a call leaves its value.** -/
theorem Call.reaches (f : Call) (h : Suits I l c calls) {s : Scene} {a : Activation}
    {room : Nat} {x : Int16} {memory : Memory} (hp : I.Placed l s.place (f.code c)) (hs : s.Plays a room)
    (he : f.eval c calls room a = some (x, memory)) :
    Reaches I s (f.code c).length (x :: s.operands) memory := by
  cases f with
  | own routine arguments =>
    rw [Call.eval] at he
    obtain ⟨object, hobject, he⟩ := Option.bind_eq_some_iff.1 he
    obtain ⟨⟨xs, m⟩, hxs, he⟩ := Option.bind_eq_some_iff.1 he
    obtain ⟨hroom, hobject⟩ := occupy_eq_some.1 hobject
    rw [Call.code, Image.Placed, Image.placed_append] at hp
    rw [Call.code, List.length_cons, List.length_append, Nat.add_right_comm]
    have hvalues : Reaches I s (1 + (Call.listCode c arguments).length)
        ((object :: xs).reverse ++ s.operands) m := by
      have hpush := Runs.push_object (hp.1.code rfl) (by have := hs.height; omega)
      rw [hs.this object hobject] at hpush
      rw [List.reverse_cons, List.append_assoc]
      exact (Reaches.of_pushed hpush).trans fun that temp hle =>
        Call.list_reaches arguments h hp.2.1 (hs.above_same hle) hxs
    rw [Nat.add_assoc] at hp
    rw [Nat.add_comm _ 1]
    refine hvalues.serve h.serves (f := ⟨c.className, routine, true⟩) hp.2.2 ?_ hs ?_
    · rw [List.length_cons, Call.length_of_listEval hxs]
    · rw [Nat.add_comm, ← Nat.sub_sub]
      exact he
  | on receiver routine arguments =>
    rw [Call.eval] at he
    rw [Call.code, Image.placed_append, Image.placed_append, Context.pushName, Context.callOn] at hp
    rw [Call.code, List.length_append, List.length_append, Context.pushName]
    cases hv : c.resolve receiver with
    | some v =>
      rw [hv] at he hp
      obtain ⟨object, hobject, he⟩ := Option.bind_eq_some_iff.1 he
      obtain ⟨⟨xs, m⟩, hxs, he⟩ := Option.bind_eq_some_iff.1 he
      have hvalues : Reaches I s (1 + (Call.listCode c arguments).length)
          ((object :: xs).reverse ++ s.operands) m := by
        rw [List.reverse_cons, List.append_assoc]
        exact (Reaches.fetch hp.1.1.1 hs (h.className ▸ hobject)).trans fun that temp hle =>
          Call.list_reaches arguments h hp.1.2 (hs.above_same hle) hxs
      rw [List.length_append] at hp
      refine hvalues.serve h.serves (f := ⟨v.type, routine, true⟩) hp.2 ?_ hs ?_
      · rw [List.length_cons, Call.length_of_listEval hxs]
      · rw [Nat.add_comm, ← Nat.sub_sub]
        exact he
    | none =>
      rw [hv] at he hp
      obtain ⟨⟨xs, m⟩, hxs, he⟩ := Option.bind_eq_some_iff.1 he
      have hvalues : Reaches I s (0 + (Call.listCode c arguments).length)
          (xs.reverse ++ s.operands) m := by
        rw [Nat.zero_add]
        exact Call.list_reaches arguments h hp.1.2 hs hxs
      rw [List.length_append] at hp
      exact hvalues.serve h.serves (f := ⟨receiver, routine, false⟩) hp.2
        (Call.length_of_listEval hxs) hs he

/-- The code of arguments leaves their values, the last on top. -/
theorem Call.list_reaches (arguments : List Expression) (h : Suits I l c calls) {s : Scene}
    {a : Activation} {room : Nat} {xs : List Int16} {memory : Memory}
    (hp : I.Placed l s.place (Call.listCode c arguments))
    (hs : s.Plays a room) (he : Call.listEval c calls room a arguments = some (xs, memory)) :
    Reaches I s (Call.listCode c arguments).length (xs.reverse ++ s.operands) memory := by
  cases arguments with
  | nil =>
    rw [Call.listEval] at he
    obtain ⟨rfl, rfl⟩ := Prod.mk.inj (Option.some.inj he)
    rw [← hs.memory]
    exact Reaches.refl I s
  | cons e rest =>
    rw [Call.listEval] at he
    obtain ⟨⟨y, m⟩, hy, he⟩ := Option.bind_eq_some_iff.1 he
    obtain ⟨⟨ys, m'⟩, hys, he⟩ := Option.bind_eq_some_iff.1 he
    obtain ⟨rfl, rfl⟩ := Prod.mk.inj (Option.some.inj he)
    rw [Call.listCode, Image.placed_append] at hp
    rw [Call.listCode, List.length_append, List.reverse_cons, List.append_assoc]
    refine (e.reaches h hp.1 hs hy).trans fun that temp hle => ?_
    have hr := hs.room_le hle
    rw [List.length_cons] at hr
    exact Call.list_reaches rest h hp.2 (hs.moved (by rw [List.length_cons]; omega)) hys

end

end Expressions

/-! ## Statements -/

/-- The scene at a place, with the variables and the memory of an activation, another array at hand
and another temporary. -/
def Scene.acts (s : Scene) (place : Nat) (a : Activation) (that temp : Int16) : Scene :=
  { s with
    place := place
    arguments := a.arguments
    locals := a.locals
    memory := a.memory
    that := that
    temp := temp }

/-- **A scene arrives where a statement ends**: behind it, playing the activation after it, or at a
`leave` with the value to return on top. -/
def Arrives (I : Image) (s : Scene) (place room : Nat) (a : Activation) : Outcome → Prop
  | .proceeds => ∃ that temp,
    Runs I s (s.acts place a that temp) ∧ (s.acts place a that temp).Plays a room
  | .returns x => ∃ (t : Scene) (rest : List Int16), Runs I s t ∧
    I.code[t.place]? = some .leave ∧ t.operands = x :: rest ∧ t.waiting = s.waiting ∧
    t.memory = a.memory

section Statements

variable {I : Image} {l : Linkage} {s : Scene} {a a' : Activation} {room place place' : Nat}
  {c : Context} {calls : CallMeaning} {x : Int16} {memory : Memory} {outcome : Outcome}

namespace Arrives

theorem trans (h : Arrives I s place room a .proceeds)
    (h' : ∀ that temp, (s.acts place a that temp).Plays a room →
      Arrives I (s.acts place a that temp) place' room a' outcome) :
    Arrives I s place' room a' outcome := by
  obtain ⟨that, temp, hr, hs⟩ := h
  cases outcome with
  | proceeds =>
    obtain ⟨that', temp', hr', hs'⟩ := h' that temp hs
    exact ⟨that', temp', hr.trans hr', hs'⟩
  | returns x =>
    obtain ⟨t, rest, hr', ht⟩ := h' that temp hs
    exact ⟨t, rest, hr.trans hr', ht⟩

/-- Where a statement proceeds, other code may follow. -/
theorem before (h : Arrives I s place room a outcome)
    (h' : ∀ that temp, (s.acts place a that temp).Plays a room →
      Arrives I (s.acts place a that temp) place' room a .proceeds) :
    Arrives I s place' room a outcome := by
  cases outcome with
  | proceeds => exact h.trans h'
  | returns x => exact h

theorem of_eq (h : Arrives I s place room a outcome) (hp : place = place') :
    Arrives I s place' room a outcome :=
  hp ▸ h

/-- A scene that runs on with its variables arrives. -/
theorem of_runs {that temp : Int16} (hs : s.Plays a room)
    (h : Runs I s { s with place := place, memory := memory, that := that, temp := temp }) :
    Arrives I s place room { a with memory := memory } .proceeds := by
  refine ⟨that, temp, ?_, ⟨hs.arguments ▸ rfl, hs.locals ▸ rfl, rfl, hs.this⟩, ?_⟩
  · simpa only [Scene.acts, ← hs.arguments, ← hs.locals] using h
  · rw [← hs.height]
    simp only [Scene.acts, Scene.height, Frame.height, ← hs.arguments, ← hs.locals]

theorem of_reaches {n : Nat} (hs : s.Plays a room) (h : Reaches I s n s.operands memory) :
    Arrives I s (s.place + n) room { a with memory := memory } .proceeds := by
  obtain ⟨that, temp, hr⟩ := h
  exact of_runs hs hr

theorem skip (hs : s.Plays a room) (hcode : I.code[s.place]? = some .skip) :
    Arrives I s (s.place + 1) room a .proceeds := by
  have := of_runs hs (Runs.skip hcode)
  rwa [hs.memory] at this

theorem jump (hs : s.Plays a room) (hcode : I.code[s.place]? = some (.jump place)) :
    Arrives I s place room a .proceeds := by
  have := of_runs hs (Runs.jump hcode)
  rwa [hs.memory] at this

end Arrives

/-- A jump goes to its label. -/
theorem Image.Has.jump {name : String} (h : I.Has l place (.goto name))
    (ht : I.Has l place' (.label name)) : I.code[place]? = some (.jump place') := by
  refine h.code ?_
  rw [Machine.link, Machine.link.find, ht.label name rfl]
  rfl

/-- A branch goes to its label. -/
theorem Image.Has.branch {name : String} (h : I.Has l place (.ifGoto name))
    (ht : I.Has l place' (.label name)) : I.code[place]? = some (.branch place') := by
  refine h.code ?_
  rw [Machine.link, Machine.link.find, ht.label name rfl]
  rfl

theorem not_ne_zero_iff {x : Int16} : ~~~x ≠ 0 ↔ x ≠ -1 := by
  refine not_congr ⟨fun h => ?_, fun h => ?_⟩
  · rw [← Int16.not_not (a := x), h]
    rfl
  · rw [h]
    rfl

/-- **The code of a condition goes on** exactly if its value is -1. -/
theorem Expression.decides (e : Expression) (h : Suits I l c calls) {name : String}
    (hp : I.Placed l s.place (e.code c ++ [.arith .not, .ifGoto name])) (hs : s.Plays a room)
    (ht : I.Has l place (.label name)) (he : e.eval c calls room a = some (x, memory)) :
    Arrives I s (if x = -1 then s.place + ((e.code c).length + 2) else place) room
      { a with memory := memory } .proceeds := by
  rw [Image.placed_append] at hp
  obtain ⟨that, temp, hr⟩ := e.reaches h hp.1 hs he
  have hnot := Runs.arith_unary (s := s.moved (e.code c).length (x :: s.operands) memory that temp)
    rfl (hp.2.1.code rfl) rfl
  have hbranch := Runs.branch (s := s.moved ((e.code c).length + 1) (~~~x :: s.operands) memory
    that temp) (hp.2.2.1.branch ht) rfl
  have hplace : (if ~~~x ≠ 0 then place else s.place + ((e.code c).length + 1) + 1) =
      if x = -1 then s.place + ((e.code c).length + 2) else place := by
    by_cases hx : x = -1
    · rw [if_pos hx, if_neg (fun h => not_ne_zero_iff.1 h hx)]
      rfl
    · rw [if_neg hx, if_pos (not_ne_zero_iff.2 hx)]
  rw [← hplace]
  exact Arrives.of_runs hs ((hr.trans hnot).trans hbranch)

/-- **An element gets the value on top**, at the address below it. -/
theorem Reaches.store {y : Int16} {rest : List Int16} {cell : Nat}
    (hp : I.Placed l s.place [.pop .temp 0, .pop .pointer 1, .push .temp 0, .pop .that 0])
    (ho : s.operands = x :: y :: rest) (hcell : heapCell? y 0 = some cell)
    (hle : s.height ≤ stackCells) : Reaches I s 4 rest (s.memory.setHeap cell x) := by
  have htemp := Runs.pop_temp (hp.1.code rfl) ho
  have harray := Runs.pop_array (s := s.moved 1 (y :: rest) s.memory s.that x) (hp.2.1.code rfl) rfl
  have hheight := s.height_moved 2 rest s.memory y x
  rw [ho, List.length_cons, List.length_cons] at hheight
  have hpush := Runs.push_temp (s := s.moved 2 rest s.memory y x) (hp.2.2.1.code rfl) (by omega)
  have hpop := Runs.pop_that (s := s.moved 3 (x :: rest) s.memory y x) (hp.2.2.2.1.code rfl) rfl
    hcell
  exact ⟨y, x, ((htemp.trans harray).trans hpush).trans hpop⟩

/-- **The code of a return arrives** with the value to return on top. -/
theorem Context.returns (hp : I.Placed l s.place c.returnCode)
    (hx : if c.returnsVoid then x = 0 ∧ s.height < stackCells
      else ∃ rest, s.operands = x :: rest) :
    ∃ (t : Scene) (rest : List Int16), Runs I s t ∧ I.code[t.place]? = some .leave ∧
      t.operands = x :: rest ∧ t.waiting = s.waiting ∧ t.memory = s.memory := by
  rw [returnCode] at hp
  by_cases hv : c.returnsVoid
  · rw [if_pos hv] at hp hx
    obtain ⟨rfl, hlt⟩ := hx
    exact ⟨s.pushed 0, s.operands, Runs.push_constant (hp.1.code rfl) hlt, hp.2.1.code rfl,
      rfl, rfl, rfl⟩
  · rw [if_neg hv] at hp hx
    obtain ⟨rest, ho⟩ := hx
    exact ⟨s, rest, Runs.refl I s, hp.1.code rfl, ho, rfl, rfl⟩

/-- **The code of a loop arrives where it ends**, given that of its body does. -/
theorem iterate_arrives (condition : Expression) (h : Suits I l c calls) {n start : Nat}
    {body : List Command} {evalBody : Activation → Option (Outcome × Activation)}
    (hp : I.Placed l start (.label (whileLabel n) :: (condition.code c ++
      [.arith .not, .ifGoto (whileLabel (n + 1))] ++ body ++
      [.goto (whileLabel n), .label (whileLabel (n + 1))])))
    (hbody : ∀ {s : Scene} {a a' : Activation} {outcome : Outcome},
      s.place = start + 1 + ((condition.code c).length + 2) → s.Plays a room →
      evalBody a = some (outcome, a') → Arrives I s (s.place + body.length) room a' outcome)
    (fuel : Nat) {s : Scene} {a a' : Activation} {outcome : Outcome} (hstart : s.place = start)
    (hs : s.Plays a room)
    (he : iterate (fun a => condition.eval c calls room a) evalBody fuel a = some (outcome, a')) :
    Arrives I s (start + 1 + ((condition.code c).length + 2) + body.length + 2) room a' outcome := by
  have hlen : start + 1 + (condition.code c ++
      [Command.arith .not, .ifGoto (whileLabel (n + 1))] ++ body).length =
      start + 1 + ((condition.code c).length + 2) + body.length := by
    simp only [List.length_append, List.length_cons, List.length_nil]
    omega
  rw [Image.Placed, Image.placed_append, Image.placed_append, hlen] at hp
  obtain ⟨hlabel, ⟨hcondition, -⟩, hgoto, hexit, -⟩ := hp
  induction fuel generalizing s a with
  | zero => cases he
  | succ fuel ih =>
    rw [iterate] at he
    obtain ⟨⟨x, memory⟩, hx, he⟩ := Option.bind_eq_some_iff.1 he
    subst hstart
    refine (Arrives.skip hs (hlabel.code rfl)).trans fun that temp hs₁ => ?_
    have hdecides := condition.decides h hcondition hs₁ hexit hx
    dsimp only at he
    by_cases hx : x = -1
    · rw [if_pos hx] at he hdecides
      obtain ⟨⟨first, b⟩, hfirst, he⟩ := Option.bind_eq_some_iff.1 he
      refine hdecides.trans fun that temp hs₂ => ?_
      have hround := hbody rfl hs₂ hfirst
      cases first with
      | proceeds =>
        refine hround.trans fun that temp hs₃ => ?_
        exact (Arrives.jump hs₃ (hgoto.jump hlabel)).trans fun that temp hs₄ => ih rfl hs₄ he
      | returns v =>
        obtain ⟨rfl, rfl⟩ := Prod.mk.inj (Option.some.inj he)
        exact hround
    · rw [if_neg hx] at he hdecides
      obtain ⟨rfl, rfl⟩ := Prod.mk.inj (Option.some.inj he)
      exact hdecides.trans fun that temp hs₂ => Arrives.skip hs₂ (hexit.code rfl)

mutual

/-- **The code of a statement arrives where it ends.** -/
theorem Statement.arrives (st : Statement) (h : Suits I l c calls) {fuel m n : Nat} {s : Scene}
    {a a' : Activation} {room : Nat} {outcome : Outcome}
    (hp : I.Placed l s.place (st.code c m n)) (hs : s.Plays a room)
    (he : st.eval c calls fuel room a = some (outcome, a')) :
    Arrives I s (s.place + (st.code c m n).length) room a' outcome := by
  cases st with
  | assign name value =>
    rw [Statement.eval] at he
    obtain ⟨⟨x, memory⟩, hx, he⟩ := Option.bind_eq_some_iff.1 he
    obtain ⟨v, hv, he⟩ := Option.bind_eq_some_iff.1 he
    obtain ⟨b, hb, he⟩ := Option.bind_eq_some_iff.1 he
    obtain ⟨rfl, rfl⟩ := Prod.mk.inj (Option.some.inj he)
    have hpop : c.popName name = [v.pop] := by rw [Context.popName, hv]; rfl
    rw [Statement.code, hpop, Image.placed_append] at hp
    rw [Statement.code, hpop, List.length_append]
    obtain ⟨that, temp, hr⟩ := value.reaches h hp.1 hs hx
    have hassign := Runs.assign (a := { a with memory := memory })
      (s := s.moved (value.code c).length (x :: s.operands) memory that temp)
      hp.2.1 ⟨hs.arguments, hs.locals, rfl, hs.this⟩ rfl (h.className ▸ hb)
    obtain ⟨hthis, harguments, hlocals⟩ := Activation.write_keeps hb
    refine ⟨that, temp, hr.trans hassign, ⟨rfl, rfl, rfl, hthis ▸ hs.this⟩, ?_⟩
    rw [← hs.height]
    simp only [Scene.acts, Scene.height, Frame.height, harguments, hlocals, hs.arguments, hs.locals]
  | assignElement array index value =>
    rw [Statement.eval] at he
    obtain ⟨⟨i, memory⟩, hi, he⟩ := Option.bind_eq_some_iff.1 he
    obtain ⟨base, hbase, he⟩ := Option.bind_eq_some_iff.1 he
    obtain ⟨⟨x, memory'⟩, hx, he⟩ := Option.bind_eq_some_iff.1 he
    obtain ⟨cell, hcell, he⟩ := Option.bind_eq_some_iff.1 he
    obtain ⟨rfl, rfl⟩ := Prod.mk.inj (Option.some.inj he)
    rw [Statement.code, Image.placed_append, Image.placed_append, Image.Placed,
      Image.placed_append, List.length_append] at hp
    obtain ⟨⟨hindex, harray⟩, hadd, hvalue, hstore⟩ := hp
    have hsum : Reaches I s ((index.code c).length + (c.pushName array).length + 1)
        ((i + base) :: s.operands) memory := by
      have hoperands : Reaches I s _ (base :: i :: s.operands) memory :=
        (index.reaches h hindex hs hi).trans fun that temp hle =>
          Context.reaches h.className harray (hs.above hle) hbase
      exact hoperands.trans fun that temp _ =>
        Reaches.of_popped (Runs.arith_binary rfl (hadd.code rfl) rfl)
    have hvalues : Reaches I s _ (x :: (i + base) :: s.operands) memory' :=
      hsum.trans fun that temp hle => value.reaches h hvalue (hs.above hle) hx
    have hdone : Reaches I s _ s.operands (memory'.setHeap cell x) :=
      hvalues.trans fun that temp hle =>
        Reaches.store (hstore.of_eq (by simp only [Scene.moved]; omega)) rfl hcell hle
    refine (Arrives.of_reaches hs hdone).of_eq ?_
    simp only [Statement.code, List.length_append, List.length_cons, List.length_nil]
    omega
  | branch condition body otherwise =>
    rw [Statement.eval] at he
    obtain ⟨⟨x, memory⟩, hx, he⟩ := Option.bind_eq_some_iff.1 he
    rw [Statement.code] at hp ⊢
    rw [Image.placed_append, Image.placed_append, Image.placed_append, Image.placed_append] at hp
    obtain ⟨⟨⟨⟨hcondition, hbody⟩, hgoto, helse, -⟩, hotherwise⟩, hend, -⟩ := hp
    have hdecides := condition.decides h hcondition hs helse hx
    simp only [List.length_append, List.length_cons, List.length_nil, ← Nat.add_assoc]
      at hbody hgoto helse hotherwise hend hdecides ⊢
    dsimp only at he
    by_cases hx : x = -1
    · rw [if_pos hx] at he hdecides
      refine hdecides.trans fun that temp hs₁ => ?_
      refine (Statement.list_arrives body h hbody hs₁ he).before fun that temp hs₂ => ?_
      refine (Arrives.jump hs₂ (hgoto.jump hend)).trans fun that temp hs₃ => ?_
      exact Arrives.skip hs₃ (hend.code rfl)
    · rw [if_neg hx] at he hdecides
      refine hdecides.trans fun that temp hs₁ => ?_
      refine (Arrives.skip hs₁ (helse.code rfl)).trans fun that temp hs₂ => ?_
      refine (Statement.otherwise_arrives otherwise h hotherwise hs₂ he).before
        fun that temp hs₃ => ?_
      exact Arrives.skip hs₃ (hend.code rfl)
  | loop condition body =>
    rw [Statement.eval] at he
    rw [Statement.code] at hp ⊢
    have hbody := hp
    rw [Image.Placed, Image.placed_append, Image.placed_append, List.length_append] at hbody
    refine (iterate_arrives condition h hp (fun hplace hs₁ he₁ => ?_) fuel rfl hs he).of_eq ?_
    · refine Statement.list_arrives body h ?_ hs₁ he₁
      rw [hplace]
      exact hbody.2.1.2
    · simp only [List.length_append, List.length_cons, List.length_nil]
      omega
  | perform f =>
    rw [Statement.eval] at he
    obtain ⟨⟨x, memory⟩, hx, he⟩ := Option.bind_eq_some_iff.1 he
    obtain ⟨rfl, rfl⟩ := Prod.mk.inj (Option.some.inj he)
    rw [Statement.code, Image.placed_append] at hp
    rw [Statement.code, List.length_append]
    refine Arrives.of_reaches hs ((f.reaches h hp.1 hs hx).trans fun that temp _ => ?_)
    exact ⟨that, x, Runs.pop_temp (hp.2.1.code rfl) rfl⟩
  | «return» value =>
    cases value with
    | none =>
      rw [Statement.eval] at he
      obtain ⟨v, hv, he⟩ := Option.bind_eq_some_iff.1 he
      obtain ⟨rfl, rfl⟩ := Prod.mk.inj (Option.some.inj he)
      rw [Statement.code] at hp
      rw [Context.returned, Option.ite_none_right_eq_some] at hv
      obtain ⟨hroom, hx⟩ := occupy_eq_some.1 hv.2
      obtain rfl := Option.some.inj hx
      have hlt : s.height < stackCells := by have := hs.height; omega
      obtain ⟨t, rest, ht⟩ := Context.returns (x := 0) hp (by rw [if_pos hv.1]; exact ⟨rfl, hlt⟩)
      exact ⟨t, rest, hs.memory ▸ ht⟩
    | some e =>
      rw [Statement.eval] at he
      obtain ⟨⟨x, memory⟩, hx, he⟩ := Option.bind_eq_some_iff.1 he
      obtain ⟨v, hv, he⟩ := Option.bind_eq_some_iff.1 he
      obtain ⟨rfl, rfl⟩ := Prod.mk.inj (Option.some.inj he)
      rw [Statement.code, Image.placed_append] at hp
      obtain ⟨that, temp, hr⟩ := e.reaches h hp.1 hs hx
      obtain ⟨t, rest, ht, hleave⟩ := Context.returns (x := v)
        (s := s.moved (e.code c).length (x :: s.operands) memory that temp) hp.2 (by
          have hheight := s.height_moved (e.code c).length (x :: s.operands) memory that temp
          rw [Context.returned] at hv
          by_cases hvoid : c.returnsVoid
          · rw [if_pos hvoid] at hv ⊢
            obtain ⟨hroom, hv⟩ := occupy_eq_some.1 hv
            rw [List.length_cons] at hheight
            have := hs.height
            exact ⟨(Option.some.inj hv).symm, by omega⟩
          · rw [if_neg hvoid] at hv ⊢
            exact ⟨s.operands, by rw [Option.some.inj hv.symm]; rfl⟩)
      exact ⟨t, rest, hr.trans ht, hleave⟩

/-- **The code of statements arrives where they end.** -/
theorem Statement.list_arrives (body : List Statement) (h : Suits I l c calls) {fuel m n : Nat}
    {s : Scene} {a a' : Activation} {room : Nat} {outcome : Outcome}
    (hp : I.Placed l s.place (Statement.listCode c m n body)) (hs : s.Plays a room)
    (he : Statement.listEval c calls fuel room a body = some (outcome, a')) :
    Arrives I s (s.place + (Statement.listCode c m n body).length) room a' outcome := by
  cases body with
  | nil =>
    rw [Statement.listEval] at he
    obtain ⟨rfl, rfl⟩ := Prod.mk.inj (Option.some.inj he)
    have := Arrives.of_reaches hs (Reaches.refl I s)
    rwa [hs.memory] at this
  | cons st rest =>
    rw [Statement.listEval] at he
    obtain ⟨⟨first, b⟩, hfirst, he⟩ := Option.bind_eq_some_iff.1 he
    rw [Statement.listCode, Image.placed_append] at hp
    rw [Statement.listCode, List.length_append, ← Nat.add_assoc]
    have hst := st.arrives h hp.1 hs hfirst
    cases first with
    | proceeds => exact hst.trans fun that temp hs' => Statement.list_arrives rest h hp.2 hs' he
    | returns x =>
      obtain ⟨rfl, rfl⟩ := Prod.mk.inj (Option.some.inj he)
      exact hst

/-- The code of a second branch arrives where it ends. -/
theorem Statement.otherwise_arrives (otherwise : Option (List Statement)) (h : Suits I l c calls)
    {fuel m n : Nat} {s : Scene} {a a' : Activation} {room : Nat} {outcome : Outcome}
    (hp : I.Placed l s.place (Statement.otherwiseCode c m n otherwise)) (hs : s.Plays a room)
    (he : Statement.otherwiseEval c calls fuel room a otherwise = some (outcome, a')) :
    Arrives I s (s.place + (Statement.otherwiseCode c m n otherwise).length) room a' outcome := by
  cases otherwise with
  | none =>
    rw [Statement.otherwiseEval] at he
    obtain ⟨rfl, rfl⟩ := Prod.mk.inj (Option.some.inj he)
    have := Arrives.of_reaches hs (Reaches.refl I s)
    rwa [hs.memory] at this
  | some body =>
    rw [Statement.otherwiseEval] at he
    rw [Statement.otherwiseCode] at hp ⊢
    exact Statement.list_arrives body h hp hs he

end

/-! ## Subroutines -/

/-- Statements that end in a return do not proceed. -/
theorem Statement.endsInReturn_of_proceeds {fuel : Nat} {body : List Statement}
    (he : Statement.listEval c calls fuel room a body = some (.proceeds, a')) :
    Statement.endsInReturn body = false := by
  induction body generalizing a with
  | nil => rfl
  | cons st rest ih =>
    rw [Statement.listEval] at he
    obtain ⟨⟨first, b⟩, hfirst, he⟩ := Option.bind_eq_some_iff.1 he
    cases first with
    | returns v => cases he
    | proceeds =>
      cases rest with
      | cons _ _ => exact ih he
      | nil =>
        cases st with
        | «return» value =>
          cases value <;>
          · rw [Statement.eval] at hfirst
            simp [Option.bind_eq_some_iff] at hfirst
        | _ => rfl

namespace RoutineDecl

variable {r : RoutineDecl} {d : ClassDecl}

/-- **The commands before the statements** start the activation. -/
theorem enters (hp : I.Placed l s.place (r.prologue d)) (hl : s.locals = [])
    (ho : s.operands = []) (hh : s.height + r.localCount + room = stackCells)
    (he : r.enter d room s.arguments s.memory = some a) :
    ∃ t : Scene, Runs I s t ∧ t.place = s.place + (r.prologue d).length ∧
      t.waiting = s.waiting ∧ t.Plays a room := by
  rw [prologue, Image.Placed] at hp
  rw [prologue, List.length_cons]
  have hstart := Runs.enter (hp.1.code rfl) hl ho (by omega)
  generalize ht : ({ s with place := s.place + 1, locals := List.replicate r.localCount 0 } : Scene)
    = t at hstart
  have hplace : t.place = s.place + 1 := by rw [← ht]
  have harguments : t.arguments = s.arguments := by rw [← ht]
  have hlocals : t.locals = List.replicate r.localCount 0 := by rw [← ht]
  have hmemory : t.memory = s.memory := by rw [← ht]
  have hwaiting : t.waiting = s.waiting := by rw [← ht]
  have hoperands : t.operands = [] := by rw [← ht]; exact ho
  have hheight : t.height + room = stackCells := by
    rw [← hh, ← ht]
    simp only [Scene.height, Frame.height, hl, List.length_replicate, List.length_nil]
    omega
  clear ht
  rw [enter] at he
  cases hk : r.kind with
  | function =>
    simp only [hk] at he hp ⊢
    obtain rfl := Option.some.inj he
    exact ⟨t, hstart, hplace, hwaiting, ⟨harguments, hlocals, hmemory, nofun⟩, hheight⟩
  | method =>
    simp only [hk] at he hp ⊢
    obtain ⟨object, hobject, he⟩ := Option.bind_eq_some_iff.1 he
    obtain ⟨hroom, hobject⟩ := occupy_eq_some.1 hobject
    obtain rfl := Option.some.inj he
    rw [← hplace] at hp
    have hpush := Runs.push_argument (hp.2.1.code rfl) (by omega)
      (by rw [harguments, ← List.head?_eq_getElem?]; exact hobject)
    have hpop := Runs.pop_object (s := t.pushed object) (hp.2.2.1.code rfl) rfl
    refine ⟨_, (hstart.trans hpush).trans hpop, ?_, hwaiting,
      ⟨harguments, hlocals, hmemory, ?_⟩, hheight⟩
    · rw [Scene.pushed, hplace]
      rfl
    · rintro _ ⟨⟩
      rfl
  | constructor =>
    simp only [hk] at he hp ⊢
    obtain ⟨hroom, he⟩ := Option.ite_none_right_eq_some.1 he
    obtain ⟨⟨object, memory⟩, hobject, he⟩ := Option.bind_eq_some_iff.1 he
    obtain rfl := Option.some.inj he
    rw [← hplace] at hp
    have hpush := Runs.push_constant (hp.2.1.code rfl) (by omega)
    have hcall := Runs.call_alloc (s := t.pushed (Int16.ofNat d.fieldCount)) (hp.2.2.1.code rfl)
      rfl (hmemory ▸ hobject)
    have hpop := Runs.pop_object
      (s := { t with place := t.place + 1 + 1, operands := object :: t.operands, memory := memory })
      (hp.2.2.2.1.code rfl) rfl
    refine ⟨_, ((hstart.trans hpush).trans hcall).trans hpop, ?_, hwaiting,
      ⟨harguments, hlocals, rfl, ?_⟩, hheight⟩
    · rw [hplace]
      rfl
    · rintro _ ⟨⟩
      rfl

/-- **The code of a subroutine arrives at a return** of what the subroutine means. -/
theorem answers {m n fuel : Nat} (h : Suits I l (r.context d) calls)
    (hp : I.Placed l s.place (r.code d m n)) (hl : s.locals = []) (ho : s.operands = [])
    (hh : s.height + room = stackCells + frameCells)
    (he : r.apply d calls fuel room s.arguments s.memory = some (x, memory)) :
    ∃ (t : Scene) (rest : List Int16), Runs I s t ∧ I.code[t.place]? = some .leave ∧
      t.operands = x :: rest ∧ t.waiting = s.waiting ∧ t.memory = memory := by
  rw [apply, Option.ite_none_right_eq_some] at he
  obtain ⟨⟨-, hroom⟩, he⟩ := he
  obtain ⟨a, ha, he⟩ := Option.bind_eq_some_iff.1 he
  obtain ⟨⟨outcome, b⟩, hbody, he⟩ := Option.bind_eq_some_iff.1 he
  rw [code, Image.placed_append, Image.placed_append] at hp
  obtain ⟨⟨hprologue, hstatements⟩, hepilogue⟩ := hp
  obtain ⟨t, ht, hplace, hwaiting, hs⟩ := enters hprologue hl ho (by omega) ha
  rw [← hplace] at hstatements
  have harrives := Statement.list_arrives r.body h hstatements hs hbody
  rw [← hwaiting]
  cases outcome with
  | returns v =>
    obtain ⟨rfl, rfl⟩ := Prod.mk.inj (Option.some.inj he)
    obtain ⟨t', rest, hr, hleave⟩ := harrives
    exact ⟨t', rest, ht.trans hr, hleave⟩
  | proceeds =>
    obtain ⟨v, hv, he⟩ := Option.bind_eq_some_iff.1 he
    obtain ⟨rfl, rfl⟩ := Prod.mk.inj (Option.some.inj he)
    obtain ⟨that, temp, hr, hs'⟩ := harrives
    rw [Context.returned, Option.ite_none_right_eq_some] at hv
    obtain ⟨hpos, hv₀⟩ := occupy_eq_some.1 hv.2
    obtain rfl := Option.some.inj hv₀
    have hreturn : r.epilogue = (r.context d).returnCode := by
      have hvoid : r.returnType.isNone = true := hv.1
      rw [epilogue, Statement.endsInReturn_of_proceeds hbody, hvoid, Context.returnCode, if_pos hv.1]
      rfl
    rw [hreturn, List.length_append, ← Nat.add_assoc, ← hplace] at hepilogue
    obtain ⟨t', rest, hr', hleave⟩ := Context.returns (x := 0)
      (s := t.acts (t.place + _) b that temp) hepilogue
      (by rw [if_pos hv.1]; exact ⟨rfl, by have := hs'.height; omega⟩)
    exact ⟨t', rest, (ht.trans hr).trans hr', hleave⟩

end RoutineDecl

end Statements

end JackStack
