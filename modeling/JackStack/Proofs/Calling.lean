import JackStack.Proofs.Placement

/-!
# Proofs/Calling — calls inside a program and from outside

A call in the code does what it means: the frame of the subroutine opens, the subroutine answers,
and the frame closes. How deep calls nest is what the induction is on. The first call comes from
outside, on an empty stack.

* `Image.Links.serves` — the code of classes serves their calls.
* `Machine.Fresh.returns` — a call from outside returns what a subroutine answers.
-/

namespace JackStack

open Machine (Yields)

/-! ## Calls inside a program -/

/-- The functions that are built in, by class and name. -/
def builtInNames : List (String × String) :=
  [("Math", "multiply"), ("Math", "divide"), ("Memory", "alloc"), ("Array", "new"),
    ("String", "new"), ("String", "appendChar")]

/-- No other function is built in. -/
theorem Machine.builtIn?_eq_none {name : String}
    (h : name ∉ builtInNames.map fun f => qualifiedName f.1 f.2) :
    Machine.builtIn? name = none := by
  unfold Machine.builtIn?
  split <;> first | rfl | exact absurd (by decide) h

/-- The classes of the functions that are built in. -/
def reservedNames : List String :=
  ["Math", "Memory", "Array", "String"]

/-- No function of a class with a name of its own is built in. -/
theorem builtIn?_qualifiedName {className : String} (hw : IsWord className)
    (h : className ∉ reservedNames) (routine : String) :
    Machine.builtIn? (qualifiedName className routine) = none := by
  have hreserved : ∀ f ∈ builtInNames, IsWord f.1 ∧ f.1 ∈ reservedNames := by decide
  refine Machine.builtIn?_eq_none fun hmem => h ?_
  obtain ⟨f, hf, he⟩ := List.mem_map.1 hmem
  obtain ⟨hword, hname⟩ := hreserved f hf
  rwa [← (qualifiedName_inj hword hw he).1]

/-- **A subroutine is linked** at a place: its function is known there, and its code is found. -/
def Image.Links (I : Image) (c : ClassDecl) (r : RoutineDecl) (place : Nat) : Prop :=
  I.functions.lookup (qualifiedName c.name r.name) = some place ∧
    ∃ labels m n, I.Placed ⟨labels, qualifiedName c.name r.name, c.name⟩ place (r.code c m n)

/-- What a call names is a subroutine of one of the classes. -/
theorem ClassDecl.callee?_eq_some {classes : List ClassDecl} {f : Callee} {c : ClassDecl}
    {r : RoutineDecl} (h : ClassDecl.callee? classes f = some (c, r)) :
    c ∈ classes ∧ r ∈ c.routines ∧ c.name = f.className ∧ r.name = f.routine := by
  obtain ⟨d, hd, h⟩ := Option.bind_eq_some_iff.1 h
  obtain ⟨q, hq, h⟩ := Option.bind_eq_some_iff.1 h
  obtain ⟨-, h⟩ := Option.ite_none_right_eq_some.1 h
  obtain ⟨rfl, rfl⟩ := Prod.mk.inj (Option.some.inj h)
  exact ⟨List.mem_of_find?_eq_some hd, List.mem_of_find?_eq_some hq,
    by simpa using List.find?_some hd, by simpa using List.find?_some hq⟩

/-- A subroutine that yields a result has room for its frame. -/
theorem RoutineDecl.room_of_apply {r : RoutineDecl} {c : ClassDecl} {calls : CallMeaning}
    {fuel room : Nat} {arguments : List Int16} {m : Memory} {result : Int16 × Memory}
    (h : r.apply c calls fuel room arguments m = some result) :
    arguments.length = r.arity ∧ frameCells + r.localCount ≤ room :=
  (Option.ite_none_right_eq_some.1 h).1

/-- The subroutine that is called starts on top of what its caller has. -/
theorem Scene.height_called {s : Scene} {arguments operands : List Int16} (target : Nat)
    (h : s.operands = arguments.reverse ++ operands) :
    (s.called target arguments operands).height = s.height + frameCells := by
  simp only [Scene.height, Scene.called, Frame.height, h, List.length_append, List.length_reverse,
    List.length_nil]
  omega

/-- **One call is served**: the subroutine starts, answers, and its caller goes on. -/
theorem Runs.serve {I : Image} {c : ClassDecl} {r : RoutineDecl} {calls : CallMeaning}
    {target fuel room : Nat} {s : Scene} {arguments operands : List Int16} {x : Int16}
    {memory : Memory} (hlink : I.Links c r target) (hcalls : I.Serves calls)
    (hb : Machine.builtIn? (qualifiedName c.name r.name) = none)
    (hsize : I.code.size < Layout.cells)
    (hcode : I.code[s.place]? = some (.call (qualifiedName c.name r.name) arguments.length))
    (ho : s.operands = arguments.reverse ++ operands) (hh : s.height + room = stackCells)
    (he : r.apply c calls fuel room arguments s.memory = some (x, memory)) :
    Reaches I s 1 (x :: operands) memory := by
  obtain ⟨hlookup, labels, m, n, hplaced⟩ := hlink
  have hroom := (RoutineDecl.room_of_apply he).2
  have hcall := Runs.call hcode hb hlookup ho (by omega)
  have hheight := Scene.height_called target ho
  obtain ⟨t, rest, hrun, hleave, hoperands, hwaiting, hmemory⟩ :=
    RoutineDecl.answers (s := s.called target arguments operands) ⟨rfl, hcalls⟩ hplaced rfl rfl
      (by omega) he
  have hplace : s.place < I.code.size := (Array.getElem?_eq_some_iff.1 hcode).1
  have hback := Runs.leave hleave hoperands hwaiting (by simp only; omega)
  rw [hmemory] at hback
  exact ⟨s.that, t.temp, (hcall.trans hrun).trans hback⟩

/-- **The code of classes serves their calls**, however deep they nest. -/
theorem Image.serves_meaning {I : Image} {classes : List ClassDecl}
    (hlinks : ∀ c ∈ classes, ∀ r ∈ c.routines, ∃ place, I.Links c r place)
    (hb : ∀ c ∈ classes, ∀ routine, Machine.builtIn? (qualifiedName c.name routine) = none)
    (hsize : I.code.size < Layout.cells) (fuel : Nat) :
    I.Serves (ClassDecl.meaning classes fuel) := by
  induction fuel with
  | zero => exact fun s room f arguments operands x memory _ _ _ he => nomatch he
  | succ fuel ih =>
    intro s room f arguments operands x memory hcode ho hh he
    obtain ⟨⟨c, r⟩, hf, he⟩ := Option.bind_eq_some_iff.1 he
    obtain ⟨hc, hr, hclass, hroutine⟩ := ClassDecl.callee?_eq_some hf
    obtain ⟨place, hlink⟩ := hlinks c hc r hr
    rw [← hclass, ← hroutine] at hcode
    exact Runs.serve hlink ih (hb c hc r.name) hsize hcode ho hh he

/-! ## Calls from outside -/

namespace Machine

variable {m m' m'' : Machine}

/-- **Calls a function from outside**, with so many steps at most. -/
def callWithin (limit : Nat) (name : String) (arguments : List Int16) : Exec Int16 := do
  write Layout.sp (Int16.ofNat Layout.stack)
  pushAll arguments
  openFrame Layout.halt (Int16.ofNat arguments.length)
  match (← get).functions.lookup name with
  | some target =>
    jump target
    if (← runFor limit) then read Layout.stack
    else throw (.stepsExhausted name limit)
  | none => throw (.unknownEntry name)

theorem call_eq_callWithin (name : String) (arguments : List Int16) :
    call name arguments = callWithin stepLimit name arguments :=
  rfl

/-- More steps than the first call takes make no difference, fewer do not suffice. -/
theorem Steps.runFor {n : Nat} (h : Steps n m m') (hlast : Yields step m' true m'') (limit : Nat) :
    if n + 1 ≤ limit then Yields (runFor limit) m true m''
    else ∃ m₁, Yields (runFor limit) m false m₁ := by
  induction n generalizing m limit with
  | zero =>
    obtain rfl : m = m' := h
    cases limit with
    | zero => exact ⟨m, Yields.pure false⟩
    | succ limit =>
      rw [if_pos (by omega)]
      exact hlast.bind (Yields.pure true)
  | succ n ih =>
    obtain ⟨m₁, hstep, hrest⟩ := h
    cases limit with
    | zero => exact ⟨m, Yields.pure false⟩
    | succ limit =>
      have := ih hrest limit
      by_cases hn : n + 1 ≤ limit
      · rw [if_pos hn] at this
        rw [if_pos (by omega)]
        exact hstep.bind this
      · rw [if_neg hn] at this
        rw [if_neg (by omega)]
        obtain ⟨m₂, hm₂⟩ := this
        exact ⟨m₂, hstep.bind hm₂⟩

/-- **A machine with nothing done yet**, besides loading. -/
structure Fresh (m : Machine) : Prop where
  memory : m.memory = Vector.replicate _ 0
  heap : m.heap = Layout.heap

/-- The scene in which the first call starts. -/
def firstScene (target : Nat) (arguments : List Int16) : Scene where
  place := target
  operands := []
  locals := []
  arguments := arguments
  this := 0
  that := 0
  temp := 0
  waiting := []
  memory := Memory.initial

theorem Fresh.peek (h : m.Fresh) (a : Nat) : m.peek a = 0 := by
  rw [Machine.peek, h.memory]
  by_cases ha : a < Layout.cells
  · simp [ha]
  · simp [Vector.getElem?_eq_none (Nat.not_lt.1 ha)]

/-- The view of a machine whose stack is empty. -/
theorem Fresh.shows {I : Image} (h : m.Fresh) (hcode : m.code = I.code)
    (hfunctions : m.functions = I.functions) :
    Shows I (m.poke Layout.sp (Int16.ofNat Layout.stack))
      ⟨m.pc, [], 0, 0, 0, 0, 0, Memory.initial⟩ := by
  obtain ⟨-, hstatic, -, hheap, -, -⟩ := Layout.bounds
  have hpeek : ∀ a, 0 < a → (m.poke Layout.sp (Int16.ofNat Layout.stack)).peek a = 0 :=
    fun a ha => (peek_poke_of_ne (Nat.ne_of_gt ha) _).trans (h.peek a)
  refine ⟨hcode, hfunctions, rfl, h.heap, Nat.zero_le _, ?_, nofun, fun c i hi => ?_,
    fun a ha _ => ?_⟩
  · intro i x hx
    rw [Nat.zero_add]
    cases i with
    | zero =>
      obtain rfl := Option.some.inj hx
      exact peek_poke_self (by decide) _
    | succ i =>
      have hzero : ∀ y ∈ [(0 : Int16), 0, 0, 0, 0], y = 0 := by simp
      rw [hpeek _ (Nat.succ_pos i), hzero x (List.mem_of_getElem? hx)]
  · have := I.static_le c i hi
    exact hpeek _ (by omega)
  · exact hpeek a (by omega)

/-- What comes behind an operation that yields a value. -/
theorem Yields.bind_eq {α β : Type} {op : Exec α} {x : α} (h : Yields op m x m')
    (f : α → Exec β) : (op >>= f) m = f x m' := by
  change (op m >>= fun p => f p.1 p.2) = _
  rw [show op m = _ from h]
  rfl

/-- **The first call starts** on an empty stack. -/
theorem Fresh.start {I : Image} (h : m.Fresh) (hcode : m.code = I.code)
    (hfunctions : m.functions = I.functions) {target : Nat} {name : String}
    (hlookup : I.functions.lookup name = some target) {arguments : List Int16}
    (hroom : arguments.length + frameCells ≤ stackCells) :
    ∃ m', Shows I m' (firstScene target arguments).view ∧ ∀ limit,
      callWithin limit name arguments m = (runFor limit >>= fun returned =>
        if returned then read Layout.stack else throw (Fault.stepsExhausted name limit)) m' := by
  have h₀ := h.shows hcode hfunctions
  obtain ⟨m₁, hpush, h₁⟩ := h₀.pushAll arguments (by simp only [List.length_nil]; omega)
  obtain ⟨m₂, hopen, h₂⟩ := h₁.openFrame rfl (by simp only [List.nil_append]; omega) Layout.halt
  have hentry : m₂.functions.lookup name = some target := by rw [h₂.functions, hlookup]
  refine ⟨{ m₂ with pc := target }, ?_, fun limit => ?_⟩
  · have := h₂.jump target
    simpa [firstScene, Scene.view, Frame.cells, Frame.saved, Frame.localBase, Frame.argumentBase,
      Frame.height] using this
  · rw [callWithin, (Yields.write (by decide) _).bind_eq, hpush.bind_eq, hopen.bind_eq,
      Yields.get.bind_eq, hentry]
    rfl

/-- **A call from outside returns** what the subroutine answers, and in so many steps. -/
theorem Fresh.returns {I : Image} (h : m.Fresh) (hcode : m.code = I.code)
    (hfunctions : m.functions = I.functions) {target : Nat} {name : String}
    (hlookup : I.functions.lookup name = some target) {arguments : List Int16}
    (hroom : arguments.length + frameCells ≤ stackCells) {t : Scene} {x : Int16}
    {rest : List Int16} (hrun : Runs I (firstScene target arguments) t)
    (hleave : I.code[t.place]? = some .leave) (hx : t.operands = x :: rest)
    (hw : t.waiting = []) :
    ∃ m' steps, (∀ limit, callWithin limit name arguments m =
        if steps ≤ limit then .ok (x, m') else .error (.stepsExhausted name limit)) ∧
      I.HoldsStatics m' t.memory ∧ m'.HoldsHeap t.memory := by
  obtain ⟨m₁, h₁, hcall⟩ := h.start hcode hfunctions hlookup hroom
  obtain ⟨n, m₂, hsteps, h₂⟩ := hrun m₁ h₁
  obtain ⟨m', hlast, hresult, hstatics, hheap⟩ := Runs.halt hleave hx hw h₂
  refine ⟨m', n + 1, fun limit => ?_, hstatics, hheap⟩
  have hfor := hsteps.runFor hlast limit
  rw [hcall limit]
  by_cases hn : n + 1 ≤ limit
  · rw [if_pos hn] at hfor ⊢
    rw [hfor.bind_eq, if_pos rfl]
    exact Yields.read_eq (by decide) hresult
  · rw [if_neg hn] at hfor ⊢
    obtain ⟨m₃, hm₃⟩ := hfor
    rw [hm₃.bind_eq]
    rfl

end Machine

/-- **A subroutine called from outside returns what it means.** -/
theorem Image.Links.returns {I : Image} {c : ClassDecl} {r : RoutineDecl} {place fuel : Nat}
    {calls : CallMeaning} {arguments : List Int16} {v : Int16} {memory : Memory} {m : Machine}
    (h : I.Links c r place) (hcalls : I.Serves calls) (hm : m.Fresh) (hcode : m.code = I.code)
    (hfunctions : m.functions = I.functions)
    (he : r.apply c calls fuel (stackCells - arguments.length) arguments Memory.initial =
      some (v, memory)) :
    ∃ m' steps, (∀ limit, Machine.callWithin limit (qualifiedName c.name r.name) arguments m =
        if steps ≤ limit then .ok (v, m')
        else .error (.stepsExhausted (qualifiedName c.name r.name) limit)) ∧
      I.HoldsStatics m' memory ∧ m'.HoldsHeap memory := by
  obtain ⟨hlookup, labels, k, n, hplaced⟩ := h
  obtain ⟨-, -, -, -, hlimit, hframe⟩ := Layout.bounds
  have hroom := (RoutineDecl.room_of_apply he).2
  have hheight : (Machine.firstScene place arguments).height = arguments.length + frameCells := by
    simp [Machine.firstScene, Scene.height, Frame.height]
  obtain ⟨t, rest, hrun, hleave, hx, hw, rfl⟩ :=
    RoutineDecl.answers (s := Machine.firstScene place arguments) ⟨rfl, hcalls⟩ hplaced rfl rfl
      (by omega) he
  exact hm.returns hcode hfunctions hlookup (by omega) hrun hleave hx hw

/-- The subroutines of a class that the code provides are linked. -/
theorem Image.Provides.links {I : Image} {c : ClassDecl} {r : RoutineDecl}
    (h : I.Provides c.program) (hn : (I.functions.map Prod.fst).Nodup) (hr : r ∈ c.routines) :
    ∃ place, I.Links c r place := by
  obtain ⟨m, n, hmem⟩ := RoutineDecl.exists_mem_procedures hr 0 0
  obtain ⟨labels, place, hentry, hplaced⟩ := h _ hmem
  exact ⟨place, lookup_of_mem hn hentry, labels, m, n, hplaced⟩

end JackStack
