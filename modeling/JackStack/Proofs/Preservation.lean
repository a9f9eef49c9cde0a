import Mathlib.Algebra.Order.BigOperators.Group.List
import Mathlib.Algebra.Order.Group.Nat
import JackStack.Proofs.Calling
import JackStack.Proofs.Extent

/-!
# Proofs/Preservation — compiled programs do what their sources mean

The source of a class is compiled, its text is loaded, and a function is called from outside. If the
meaning of the function has a result for the arguments, the machine returns it, given enough steps,
and leaves the statics and the heap as the meaning says.

* `compileText_function_preserves` — a function without calls.
-/

namespace JackStack

open Text.Decimal (wordBound)

/-- The cells of statics. -/
def staticLimit : Nat := Layout.stack - Layout.static

theorem Parses.text_eq {source text : String} {c : ClassDecl} (h : Parses source c)
    (hc : compileText source = .ok text) : text = c.program.text := by
  obtain ⟨d, hd, -, rfl⟩ := compileText_eq_ok_iff.1 hc
  rw [h.unique hd, c.text_program]

/-! ## A function without calls -/

/-- **What a function without calls may hold**: parameters, locals, statics and elements of arrays,
but no fields, string constants or calls. -/
def RoutineDecl.callFree (r : RoutineDecl) (c : ClassDecl) : Limits where
  name x := ((r.context c).resolve x).all (·.kind ≠ .field)
  text _ := false
  call _ := false

/-- What a machine has loaded, where all statics are those of one class. -/
def Machine.classImage (m : Machine) (className : String) : Image where
  code := m.code
  functions := m.functions
  base _ := Layout.static
  size c := if c = className then staticLimit else 0
  static_le _ _ _ := Nat.le_add_right _ _
  static_lt c i hi := by
    by_cases hc : c = className
    · rw [if_pos hc] at hi
      exact Nat.add_lt_add_left hi Layout.static
    · rw [if_neg hc] at hi
      cases hi
  static_inj c d i j hi hj he := by
    refine ⟨?_, Nat.add_left_cancel he⟩
    by_cases hc : c = className
    · by_cases hd : d = className
      · exact hc.trans hd.symm
      · rw [if_neg hd] at hj
        cases hj
    · rw [if_neg hc] at hi
      cases hi

theorem Machine.size_classImage (m : Machine) (className : String) :
    (m.classImage className).size className = staticLimit :=
  if_pos rfl

theorem CallMeaning.serves_none (I : Image) : I.Serves CallMeaning.none :=
  fun _ _ _ _ _ _ _ _ _ _ he => nomatch he

/-- A class with one function without calls that has room on the stack can be written. -/
theorem ClassDecl.writable_of_callFree {c : ClassDecl} {r : RoutineDecl}
    (hw : ∀ x ∈ c.terminals, x.WellFormed) (hr : c.routines = [r]) (hk : r.kind = .function)
    (hb : Statement.listWithin (r.callFree c) r.body = true) (hs : c.staticCount ≤ staticLimit)
    (ha : r.arity ≤ stackCells) (hl : r.localCount ≤ stackCells) : c.Writable where
  words := hw
  nodup := by
    rw [hr]
    exact List.nodup_singleton _
  within := by
    rw [hr, List.forall_mem_singleton]
    refine ⟨r.callFree c, c.admits hw (hr ▸ List.mem_singleton_self r) ?_ nofun nofun, hb⟩
    intro name v hn hv
    have hn : v.kind ≠ .field := by simpa [RoutineDecl.callFree, hv] using hn
    cases hkind : v.kind with
    | static => exact Nat.lt_of_le_of_lt hs (by decide)
    | argument => exact Nat.lt_of_le_of_lt ha (by decide)
    | «local» => exact Nat.lt_of_le_of_lt hl (by decide)
    | field => exact absurd hkind hn
  locals := by
    rw [hr, List.forall_mem_singleton]
    exact Nat.lt_of_le_of_lt hl (by decide)
  fields := by
    rw [hr, List.forall_mem_singleton, hk]
    exact nofun

/-- **The machine computes what a function without calls means.** -/
theorem compileText_function_preserves {source text : String} {c : ClassDecl} {r : RoutineDecl}
    {fuel : Nat} {arguments : List Int16} {v : Int16} {memory : Memory}
    (hc : compileText source = .ok text) (hp : Parses source c) (hr : c.routines = [r])
    (hk : r.kind = .function) (hb : Statement.listWithin (r.callFree c) r.body = true)
    (hs : c.staticCount ≤ staticLimit)
    (he : r.apply c CallMeaning.none fuel (stackCells - arguments.length) arguments
      Memory.initial = some (v, memory)) :
    ∃ m m' steps, Machine.load {} text = .ok m ∧
      (∀ limit, Machine.callWithin limit (qualifiedName c.name r.name) arguments m =
        if steps ≤ limit then .ok (v, m')
        else .error (.stepsExhausted (qualifiedName c.name r.name) limit)) ∧
      (steps ≤ Machine.stepLimit →
        Machine.call (qualifiedName c.name r.name) arguments m = .ok (v, m')) ∧
      (∀ i, i < staticLimit → m'.cell (Layout.static + i) = .ok (memory.statics c.name i)) ∧
      ∀ a, Layout.heap ≤ a → a < Layout.cells → m'.cell a = .ok (memory.heap a) := by
  obtain ⟨harity, hroom⟩ := RoutineDecl.room_of_apply he
  obtain ⟨hcells, hstatic, hstack, -, hlimit, hframe⟩ := Layout.bounds
  have hwritable := c.writable_of_callFree hp.wellFormed hr hk hb hs (by omega) (by omega)
  have hstatics := Nat.le_trans hwritable.statics_le hs
  have hbound : ({} : Machine).nextStatic + c.program.statics < wordBound :=
    Nat.lt_of_le_of_lt (Nat.add_le_add_left hstatics _) (by decide)
  obtain ⟨m, hload, hloaded⟩ := Machine.load_program hwritable.sound {} hbound
  have hprovides : (m.classImage c.name).Provides c.program := by
    refine hloaded.provides _ ⟨⟨#[], by simp [Machine.classImage]⟩, fun _ h => h⟩ ?_ _
      List.mem_cons_self
    exact ⟨⟨rfl, (m.size_classImage c.name).symm ▸ hstatics⟩, trivial⟩
  have hnames : (m.functions.map Prod.fst).Nodup := by
    refine hloaded.names.nodup_iff.2 ?_
    simpa using hwritable.sound.nodup
  obtain ⟨place, hlink⟩ := hprovides.links hnames (hr ▸ List.mem_singleton_self r)
  obtain ⟨m', steps, hcall, hcellsStatic, hcellsHeap⟩ :=
    hlink.returns (CallMeaning.serves_none _) ⟨hloaded.memory, hloaded.heap⟩ rfl rfl he
  refine ⟨m, m', steps, hp.text_eq hc ▸ hload, hcall, fun h => ?_, fun i hi => ?_,
    fun a ha hlt => ?_⟩
  · rw [Machine.call_eq_callWithin, hcall, if_pos h]
  · have hi' : i < 240 := hi
    rw [Machine.cell_eq_peek (by omega)]
    exact congrArg _ (hcellsStatic c.name i ((m.size_classImage c.name).symm ▸ hi))
  · rw [Machine.cell_eq_peek hlt, hcellsHeap a ha hlt]

/-- A function that stores at an index read from the same array, in a loop. -/
def fillRoutine : RoutineDecl where
  kind := .function
  returnType := some .int
  name := "f"
  parameters := [⟨.int, "n"⟩]
  locals := [⟨.int, "a", ["i"]⟩]
  body := [
    .assign "a" (.chain (.integer "2048") []),
    .loop (.chain (.variable "i") [(.less, .variable "n")]) [
      .assignElement "a"
        (.chain (.element "a" (.chain (.variable "i") [])) [(.add, .variable "i")])
        (.chain (.element "a" (.chain (.variable "i") [])) [(.add, .variable "n")]),
      .assign "i" (.chain (.variable "i") [(.add, .integer "1")])],
    .branch (.chain (.element "a" (.chain (.integer "0") [])) [(.equal, .variable "n")])
      [.assign "s" (.chain (.element "a" (.chain (.integer "1") [])) [])] none,
    .return (some (.chain (.variable "s") []))]

def fillClass : ClassDecl :=
  ⟨"A", [.statics ⟨.int, "s", []⟩], [fillRoutine]⟩

/-- The loop goes round twice, and the static and the array hold what the function means. -/
theorem compileText_function_preserves_fill :
    let source := "class A\x7bstatic int s;function int f(int n)\x7bvar int a,i;let a=2048;"
      ++ "while(i<n)\x7blet a[a[i]+i]=a[i]+n;let i=i+1;\x7d"
      ++ "if(a[0]=n)\x7blet s=a[1];\x7dreturn s;\x7d\x7d"
    ∃ text memory m m' steps, compileText source = .ok text ∧ Parses source fillClass ∧
      Statement.listWithin (fillRoutine.callFree fillClass) fillRoutine.body = true ∧
      fillRoutine.apply fillClass CallMeaning.none 3 (stackCells - 1) [2] Memory.initial =
        some (2, memory) ∧
      Machine.load {} text = .ok m ∧
      (∀ limit, steps ≤ limit → Machine.callWithin limit "A.f" [2] m = .ok (2, m')) ∧
      m'.cell 16 = .ok 2 ∧ m'.cell 2048 = .ok 2 ∧ m'.cell 2050 = .ok 0 := by
  intro source
  have hp : Parses source fillClass := by decide +kernel
  have hc : compileText source = .ok (Vm.programText fillClass.code) :=
    compileText_eq_ok_iff.2 ⟨fillClass, hp, by decide, rfl⟩
  have hb : Statement.listWithin (fillRoutine.callFree fillClass) fillRoutine.body = true := by
    decide +kernel
  have hvalue : (fillRoutine.apply fillClass CallMeaning.none 3 (stackCells - 1) [2]
      Memory.initial).map (fun p => (p.1, p.2.statics "A" 0, p.2.heap 2048, p.2.heap 2050)) =
      some (2, 2, 2, 0) := by decide +kernel
  obtain ⟨⟨v, memory⟩, he, hv⟩ := Option.map_eq_some_iff.1 hvalue
  simp only [Prod.mk.injEq] at hv
  obtain ⟨rfl, hs, h₀, h₂⟩ := hv
  obtain ⟨m, m', steps, hload, hcall, -, hstatic, hheap⟩ :=
    compileText_function_preserves hc hp rfl rfl hb (by decide) he
  refine ⟨_, memory, m, m', steps, hc, hp, hb, he, hload, fun limit h => ?_, ?_, ?_, ?_⟩
  · exact (hcall limit).trans (if_pos h)
  · exact (hstatic 0 (by decide)).trans (congrArg _ hs)
  · exact (hheap 2048 (by decide) (by decide)).trans (congrArg _ h₀)
  · exact (hheap 2050 (by decide) (by decide)).trans (congrArg _ h₂)

/-! ## Classes that call each other -/

section Classes

variable {sources texts : List String} {classes : List ClassDecl}

/-- Sources compile to the texts of their classes. -/
theorem texts_eq
    (hc : List.Forall₂ (fun source text => compileText source = .ok text) sources texts)
    (hp : List.Forall₂ Parses sources classes) :
    texts = (classes.map ClassDecl.program).map Program.text := by
  induction hp generalizing texts with
  | nil =>
    cases hc
    rfl
  | cons hp _ ih =>
    obtain _ | ⟨hc, hcs⟩ := hc
    rw [List.map_cons, List.map_cons, ← ih hcs, hp.text_eq hc]

/-- Classes of sources can be written. -/
theorem writable_of_parses (hp : List.Forall₂ Parses sources classes)
    (hl : ∀ source ∈ sources, source.length < wordBound)
    (hr : ∀ c ∈ classes, (c.routines.map RoutineDecl.name).Nodup) :
    ∀ c ∈ classes, c.Writable := by
  induction hp with
  | nil => exact nofun
  | cons hp _ ih =>
    rw [List.forall_mem_cons] at hl hr ⊢
    exact ⟨ClassDecl.writable_of_extent hp.wellFormed hr.1 (Nat.lt_of_le_of_lt hp.extent_le hl.1),
      ih hl.2 hr.2⟩

/-- Functions of different classes have different names. -/
theorem nodup_names (hw : ∀ c ∈ classes, c.Writable)
    (hn : (classes.map ClassDecl.name).Nodup) :
    ((classes.map ClassDecl.program).flatMap Program.names).Nodup := by
  rw [List.flatMap_map, List.nodup_flatMap]
  refine ⟨fun c hc => (hw c hc).sound.nodup, ?_⟩
  have hne := List.pairwise_map.1 hn
  refine hne.imp_of_mem fun hc hd hne name hname hname' => hne ?_
  simp only [ClassDecl.names_program] at hname hname'
  obtain ⟨r, -, rfl⟩ := List.mem_map.1 hname
  obtain ⟨q, -, he⟩ := List.mem_map.1 hname'
  exact (qualifiedName_inj (ClassDecl.isWord_name (hw _ hd).words)
    (ClassDecl.isWord_name (hw _ hc).words) he).1.symm

/-- The statics of classes find room if those declared do. -/
theorem statics_le_of_writable (hw : ∀ c ∈ classes, c.Writable)
    (hs : (classes.map ClassDecl.staticCount).sum ≤ staticLimit) :
    Layout.static + ((classes.map ClassDecl.program).map Program.statics).sum ≤ Layout.stack := by
  have hle := List.sum_le_sum fun c hc => (hw c hc).statics_le
  rw [List.map_map]
  have : staticLimit = Layout.stack - Layout.static := rfl
  obtain ⟨-, hstatic, hstack, -, -, -⟩ := Layout.bounds
  exact Nat.le_trans (Nat.add_le_add_left (Nat.le_trans hle hs) _) (by omega)

/-- The subroutines of loaded classes are linked. -/
theorem links_image (hw : ∀ c ∈ classes, c.Writable) (hn : (classes.map ClassDecl.name).Nodup)
    (hs : Layout.static + ((classes.map ClassDecl.program).map Program.statics).sum ≤ Layout.stack)
    {m : Machine} (hm : Loaded (classes.map ClassDecl.program) {} m) :
    ∀ c ∈ classes, ∀ r ∈ c.routines,
      ∃ place, (m.image (classes.map ClassDecl.program) hs).Links c r place := by
  have hnames : (m.functions.map Prod.fst).Nodup := by
    refine hm.names.nodup_iff.2 ?_
    rw [List.map_nil, List.append_nil]
    exact nodup_names hw hn
  have hlays : (m.image (classes.map ClassDecl.program) hs).Lays Layout.static
      (classes.map ClassDecl.program) := by
    refine Image.lays_of_staticCells ?_ fun _ _ => rfl
    rw [List.map_map]
    exact hn
  have hcovers : (m.image (classes.map ClassDecl.program) hs).Covers m :=
    ⟨⟨#[], by simp [Machine.image]⟩, fun _ h => h⟩
  intro c hc r hr
  exact (hm.provides _ hcovers hlays _ (List.mem_map_of_mem hc)).links hnames hr

/-- **The machine computes what calls in a program mean.** -/
theorem compileText_program_preserves {fuel : Nat} {f : Callee} {arguments : List Int16}
    {v : Int16} {memory : Memory}
    (hc : List.Forall₂ (fun source text => compileText source = .ok text) sources texts)
    (hp : List.Forall₂ Parses sources classes)
    (hl : ∀ source ∈ sources, source.length < wordBound)
    (hreserved : ∀ c ∈ classes, c.name ∉ reservedNames)
    (hclasses : (classes.map ClassDecl.name).Nodup)
    (hroutines : ∀ c ∈ classes, (c.routines.map RoutineDecl.name).Nodup)
    (hs : (classes.map ClassDecl.staticCount).sum ≤ staticLimit)
    (hlines : (classes.map (·.code.length)).sum < Layout.cells)
    (he : ClassDecl.meaning classes fuel (stackCells - arguments.length) f arguments
      Memory.initial = some (v, memory)) :
    ∃ m m' steps, texts.foldlM Machine.load {} = .ok m ∧
      (∀ limit, Machine.callWithin limit (qualifiedName f.className f.routine) arguments m =
        if steps ≤ limit then .ok (v, m')
        else .error (.stepsExhausted (qualifiedName f.className f.routine) limit)) ∧
      (steps ≤ Machine.stepLimit →
        Machine.call (qualifiedName f.className f.routine) arguments m = .ok (v, m')) ∧
      (∀ c i, i < (staticCells Layout.static (classes.map ClassDecl.program) c).2 →
        m'.cell ((staticCells Layout.static (classes.map ClassDecl.program) c).1 + i) =
          .ok (memory.statics c i)) ∧
      ∀ a, Layout.heap ≤ a → a < Layout.cells → m'.cell a = .ok (memory.heap a) := by
  obtain ⟨hcells, hstatic, hstack, -, -, -⟩ := Layout.bounds
  have hw := writable_of_parses hp hl hroutines
  have hstatics := statics_le_of_writable hw hs
  have hsound : ∀ p ∈ classes.map ClassDecl.program, p.Sound := by
    rw [List.forall_mem_map]
    exact fun c hc => (hw c hc).sound
  obtain ⟨m, hload, hm⟩ := Machine.load_programs hsound {} (Nat.lt_of_le_of_lt hstatics (by decide))
  have hlinks := links_image hw hclasses hstatics hm
  have hb : ∀ c ∈ classes, ∀ routine,
      Machine.builtIn? (qualifiedName c.name routine) = none := fun c hc =>
    builtIn?_qualifiedName (ClassDecl.isWord_name (hw c hc).words) (hreserved c hc)
  have hsize : m.code.size < Layout.cells := by
    have hcode : (fun p => p.code.length) ∘ ClassDecl.program = fun c => c.code.length :=
      funext fun c => congrArg List.length c.code_program
    rw [hm.size, List.map_map, hcode]
    exact Nat.lt_of_le_of_lt (Nat.le_of_eq (Nat.zero_add _)) hlines
  cases fuel with
  | zero => cases he
  | succ fuel =>
    obtain ⟨⟨c, r⟩, hf, he⟩ := Option.bind_eq_some_iff.1 he
    obtain ⟨hmem, hr, hclass, hroutine⟩ := ClassDecl.callee?_eq_some hf
    obtain ⟨place, hlink⟩ := hlinks c hmem r hr
    obtain ⟨m', steps, hcall, hcellsStatic, hcellsHeap⟩ :=
      hlink.returns (Image.serves_meaning hlinks hb hsize fuel) ⟨hm.memory, hm.heap⟩ rfl rfl he
    rw [hclass, hroutine] at hcall
    refine ⟨m, m', steps, texts_eq hc hp ▸ hload, hcall, fun h => ?_, fun c i hi => ?_,
      fun a ha hlt => ?_⟩
    · rw [Machine.call_eq_callWithin, hcall, if_pos h]
    · have := (staticCells_bounds hi).2
      rw [Machine.cell_eq_peek (by omega)]
      exact congrArg _ (hcellsStatic c i hi)
    · rw [Machine.cell_eq_peek hlt, hcellsHeap a ha hlt]

end Classes

/-- Objects with a sum that a method adds to, calling itself. -/
def sumClass : ClassDecl where
  name := "P"
  members := [.fields ⟨.int, "x", ["y"]⟩, .statics ⟨.int, "k", []⟩]
  routines := [
    { kind := .constructor, returnType := some (.ofClass "P"), name := "new",
      parameters := [⟨.int, "a"⟩], locals := [],
      body := [
        .assign "x" (.chain (.variable "a") []),
        .assign "k" (.chain (.variable "k") [(.add, .integer "1")]),
        .return (some (.chain (.constant .this) []))] },
    { kind := .method, returnType := some .int, name := "add",
      parameters := [⟨.int, "n"⟩], locals := [],
      body := [
        .branch (.chain (.variable "n") [(.equal, .integer "0")])
          [.return (some (.chain (.variable "x") []))] none,
        .assign "x" (.chain (.variable "x") [(.add, .variable "n")]),
        .return (some (.chain (.call (.own "add"
          [.chain (.variable "n") [(.subtract, .integer "1")]])) []))] }]

/-- A function that makes an object and calls its method, once for its effect only. -/
def runClass : ClassDecl where
  name := "M"
  members := []
  routines := [
    { kind := .function, returnType := some .int, name := "run",
      parameters := [⟨.int, "n"⟩], locals := [⟨.ofClass "P", "p", []⟩],
      body := [
        .assign "p" (.chain (.call (.on "P" "new" [.chain (.variable "n") []])) []),
        .perform (.on "p" "add" [.chain (.integer "1") []]),
        .return (some (.chain (.call (.on "p" "add" [.chain (.variable "n") []])) []))] }]

/-- A method calls itself four deep, and the object and the static hold what the call means. -/
theorem compileText_program_preserves_sum :
    let sum := "class P\x7bfield int x,y;static int k;constructor P new(int a)\x7blet x=a;"
      ++ "let k=k+1;return this;\x7dmethod int add(int n)\x7bif(n=0)\x7breturn x;\x7d"
      ++ "let x=x+n;return add(n-1);\x7d\x7d"
    let run := "class M\x7bfunction int run(int n)\x7bvar P p;let p=P.new(n);do p.add(1);"
      ++ "return p.add(n);\x7d\x7d"
    ∃ texts memory m m' steps,
      List.Forall₂ (fun source text => compileText source = .ok text) [sum, run] texts ∧
      List.Forall₂ Parses [sum, run] [sumClass, runClass] ∧
      (∀ source ∈ [sum, run], source.length < wordBound) ∧
      ClassDecl.meaning [sumClass, runClass] 6 (stackCells - 1) ⟨"M", "run", false⟩ [3]
        Memory.initial = some (10, memory) ∧
      texts.foldlM Machine.load {} = .ok m ∧
      (∀ limit, steps ≤ limit → Machine.callWithin limit "M.run" [3] m = .ok (10, m')) ∧
      m'.cell 16 = .ok 1 ∧ m'.cell 2048 = .ok 10 := by
  intro sum run
  have hsum : Parses sum sumClass := by decide +kernel
  have hrun : Parses run runClass := by decide +kernel
  have hp := List.Forall₂.cons hsum (.cons hrun .nil)
  have hc : List.Forall₂ (fun source text => compileText source = .ok text) [sum, run]
      [Vm.programText sumClass.code, Vm.programText runClass.code] :=
    .cons (compileText_eq_ok_iff.2 ⟨_, hsum, by decide, rfl⟩)
      (.cons (compileText_eq_ok_iff.2 ⟨_, hrun, by decide, rfl⟩) .nil)
  have hl : ∀ source ∈ [sum, run], source.length < wordBound := by decide +kernel
  have hcells : staticCells Layout.static ([sumClass, runClass].map ClassDecl.program) "P" =
      (16, 1) := by decide +kernel
  have hvalue : (ClassDecl.meaning [sumClass, runClass] 6 (stackCells - [(3 : Int16)].length)
      ⟨"M", "run", false⟩ [3] Memory.initial).map
        (fun p => (p.1, p.2.statics "P" 0, p.2.heap 2048)) = some (10, 1, 10) := by
    decide +kernel
  obtain ⟨⟨v, memory⟩, he, hv⟩ := Option.map_eq_some_iff.1 hvalue
  simp only [Prod.mk.injEq] at hv
  obtain ⟨rfl, hs, hx⟩ := hv
  obtain ⟨m, m', steps, hload, hcall, -, hstatic, hheap⟩ :=
    compileText_program_preserves hc hp hl (by decide) (by decide) (by decide) (by decide)
      (by decide +kernel) he
  have hk := hstatic "P" 0
  rw [hcells] at hk
  refine ⟨_, memory, m, m', steps, hc, hp, hl, he, hload, fun limit h => ?_, ?_, ?_⟩
  · exact (hcall limit).trans (if_pos h)
  · exact (hk Nat.one_pos).trans (congrArg _ hs)
  · exact (hheap 2048 (by decide) (by decide)).trans (congrArg _ hx)

end JackStack
