import JackStack.Proofs.Refinement
import JackStack.Proofs.Wording

/-!
# Proofs/Independence — subroutines compile on their own

What a subroutine compiles to depends on the class through its name and its variables, and on the
subroutines before it through the numbers of the next labels only. So a class is compiled by
compiling each subroutine in a class of its own, one behind the other, with the labels of each moved
up past those of the ones before.

* `Vm.stacked` — texts of commands one behind the other, labels moved up.
* `Statement.numbers_list` — where labels are counted from moves them and changes nothing else.
* `compileText_eq_stacked` — a class compiles as its subroutines do, each in a class of its own.
-/

namespace JackStack

open Vm (Command)

/-! ## Moving labels up -/

namespace Vm

/-- **A label with its number moved up**: that of a condition by `a`, that of a loop by `b`. -/
def movedLabel (a b : Nat) (name : String) : String :=
  match name.toList with
  | 'I' :: 'F' :: '_' :: digits => ifLabel (a + Text.Decimal.value digits)
  | 'W' :: 'H' :: 'I' :: 'L' :: 'E' :: '_' :: digits => whileLabel (b + Text.Decimal.value digits)
  | _ => name

/-- The words of a line with its label moved up. -/
def movedWords (a b : Nat) : List String → List String
  | ["label", name] => ["label", movedLabel a b name]
  | ["goto", name] => ["goto", movedLabel a b name]
  | ["if-goto", name] => ["if-goto", movedLabel a b name]
  | words => words

/-- **A text of commands with its labels moved up.** -/
def movedText (a b : Nat) (text : String) : String :=
  String.ofList ((Text.wordLines text).flatMap fun words =>
    Command.spaced (movedWords a b words) ++ ['\n'])

/-- A line is a label that starts so. -/
def isLabelLine (start : String) : List String → Bool
  | ["label", name] => start.toList.isPrefixOf name.toList
  | _ => false

/-- How many labels that start so a text of commands has. -/
def labelCount (start : String) (text : String) : Nat :=
  (Text.wordLines text).countP (isLabelLine start)

/-- **Texts of commands one behind the other**, the labels of each moved up by how many there are in
the texts before it. -/
def stackedFrom (a b : Nat) : List String → String
  | [] => ""
  | text :: rest =>
    movedText a b text
      ++ stackedFrom (a + labelCount "IF_" text) (b + labelCount "WHILE_" text) rest

/-- **Texts of commands one behind the other**, labels moved up. -/
def stacked (texts : List String) : String :=
  stackedFrom 0 0 texts

/-- A command with its label moved up. -/
def Command.moved (a b : Nat) : Command → Command
  | .label name => .label (movedLabel a b name)
  | .goto name => .goto (movedLabel a b name)
  | .ifGoto name => .ifGoto (movedLabel a b name)
  | command => command

/-- A command is a label that starts so. -/
def Command.isLabel (start : String) : Command → Bool
  | .label name => start.toList.isPrefixOf name.toList
  | _ => false

variable {code : List Command}

theorem movedLabel_ifLabel (a b k : Nat) : movedLabel a b (ifLabel k) = ifLabel (a + k) := by
  have hlist : (ifLabel k).toList = 'I' :: 'F' :: '_' :: Nat.toDigits 10 k := by
    rw [ifLabel, String.toList_append, toList_toString]
    rfl
  rw [movedLabel, hlist]
  simp only [value_toDigits]

theorem movedLabel_whileLabel (a b k : Nat) :
    movedLabel a b (whileLabel k) = whileLabel (b + k) := by
  have hlist : (whileLabel k).toList =
      'W' :: 'H' :: 'I' :: 'L' :: 'E' :: '_' :: Nat.toDigits 10 k := by
    rw [whileLabel, String.toList_append, toList_toString]
    rfl
  rw [movedLabel, hlist]
  simp only [value_toDigits]

theorem movedWords_words (a b : Nat) (command : Command) :
    movedWords a b command.words = (command.moved a b).words := by
  cases command with
  | arith op => cases op <;> rfl
  | _ => rfl

theorem isLabelLine_words (start : String) (command : Command) :
    isLabelLine start command.words = command.isLabel start := by
  cases command with
  | arith op => cases op <;> rfl
  | _ => rfl

theorem toList_programText (code : List Command) :
    (programText code).toList =
      code.flatMap fun command => Command.spaced command.words ++ ['\n'] := by
  induction code with
  | nil => rfl
  | cons command rest ih =>
    rw [List.flatMap_cons, ← ih, ← Command.toList_text]
    simp [programText, Command.line, String.join_cons]

/-- **Moving the labels of a text** moves those of its commands. -/
theorem movedText_programText (a b : Nat)
    (h : ∀ command ∈ code, ∀ name ∈ command.name?, Unbroken name) :
    movedText a b (programText code) = programText (code.map (Command.moved a b)) := by
  rw [← String.toList_inj, movedText, String.toList_ofList, wordLines_programText h,
    toList_programText, List.flatMap_map, List.flatMap_map]
  simp only [movedWords_words]

theorem labelCount_programText (start : String)
    (h : ∀ command ∈ code, ∀ name ∈ command.name?, Unbroken name) :
    labelCount start (programText code) = code.countP (Command.isLabel start) := by
  rw [labelCount, wordLines_programText h, List.countP_map]
  exact List.countP_congr fun command _ => by rw [Function.comp_apply, isLabelLine_words]

end Vm

/-! ## Code that numbers its labels -/

namespace Vm

theorem isLabel_ifLabel (k : Nat) : (Command.label (ifLabel k)).isLabel "IF_" = true ∧
    (Command.label (ifLabel k)).isLabel "WHILE_" = false := by
  simp only [Command.isLabel, ifLabel, String.toList_append]
  exact ⟨rfl, rfl⟩

theorem isLabel_whileLabel (k : Nat) : (Command.label (whileLabel k)).isLabel "IF_" = false ∧
    (Command.label (whileLabel k)).isLabel "WHILE_" = true := by
  simp only [Command.isLabel, whileLabel, String.toList_append]
  exact ⟨rfl, rfl⟩

theorem isLabel_jump (start : String) : (∀ name, (Command.goto name).isLabel start = false) ∧
    (∀ name, (Command.ifGoto name).isLabel start = false) ∧
      (Command.arith .not).isLabel start = false :=
  ⟨fun _ => rfl, fun _ => rfl, rfl⟩

/-- **Code numbers its labels**: it has `k` labels of conditions and `l` of loops, and where they
are counted from moves them and changes nothing else. -/
structure Numbers (k l : Nat) (code : Nat → Nat → List Command) : Prop where
  moved : ∀ a b m n, code (a + m) (b + n) = (code m n).map (Command.moved a b)
  conditions : ∀ m n, (code m n).countP (Command.isLabel "IF_") = k
  loops : ∀ m n, (code m n).countP (Command.isLabel "WHILE_") = l

namespace Numbers

variable {k k' l l' : Nat} {code code' : Nat → Nat → List Command} {plain : List Command}

theorem moved_of_plain (h : ∀ command ∈ plain, command.label? = none ∧ command.target? = none)
    (a b : Nat) : plain.map (Command.moved a b) = plain := by
  refine (List.map_congr_left fun command hc => ?_).trans (List.map_id plain)
  obtain ⟨hl, ht⟩ := h command hc
  cases command with
  | label name => cases hl
  | goto name | ifGoto name => cases ht
  | _ => rfl

theorem countP_of_plain (h : ∀ command ∈ plain, command.label? = none ∧ command.target? = none)
    (start : String) : plain.countP (Command.isLabel start) = 0 := by
  refine List.countP_eq_zero.2 fun command hc => ?_
  have hl := (h command hc).1
  cases command with
  | label name => cases hl
  | _ => exact Bool.false_ne_true

/-- Commands without labels and jumps. -/
theorem of_plain (h : ∀ command ∈ plain, command.label? = none ∧ command.target? = none) :
    Numbers 0 0 fun _ _ => plain where
  moved a b _ _ := (moved_of_plain h a b).symm
  conditions _ _ := countP_of_plain h _
  loops _ _ := countP_of_plain h _

theorem of_issues {c : Context} (h : ∀ command ∈ plain, c.Issues command) :
    Numbers 0 0 fun _ _ => plain :=
  of_plain fun command hc => ⟨(h command hc).label?, (h command hc).target?⟩

/-- Code behind other code counts on from it. -/
theorem append (h : Numbers k l code) (h' : Numbers k' l' code') :
    Numbers (k + k') (l + l') fun m n => code m n ++ code' (m + k) (n + l) where
  moved a b m n := by
    rw [List.map_append, ← h.moved, ← h'.moved, Nat.add_assoc, Nat.add_assoc]
  conditions m n := by rw [List.countP_append, h.conditions, h'.conditions]
  loops m n := by rw [List.countP_append, h.loops, h'.loops]

/-- **The code of a condition**, around that of its branches. -/
theorem branch (hplain : ∀ command ∈ plain, command.label? = none ∧ command.target? = none)
    (h : Numbers k l code) (h' : Numbers k' l' code') :
    Numbers (2 + k + k') (l + l') fun m n =>
      plain ++ [.arith .not, .ifGoto (ifLabel m)] ++ code (m + 2) n
        ++ [.goto (ifLabel (m + 1)), .label (ifLabel m)] ++ code' (m + 2 + k) (n + l)
        ++ [.label (ifLabel (m + 1))] where
  moved a b m n := by
    simp only [List.map_append, List.map_cons, List.map_nil, Command.moved, movedLabel_ifLabel,
      moved_of_plain hplain, ← h.moved, ← h'.moved, Nat.add_assoc]
  conditions m n := by
    simp +arith [countP_of_plain hplain, h.conditions, h'.conditions, isLabel_ifLabel, isLabel_jump]
  loops m n := by
    simp [countP_of_plain hplain, h.loops, h'.loops, isLabel_ifLabel, isLabel_jump]

/-- **The code of a loop**, around that of its body. -/
theorem loop (hplain : ∀ command ∈ plain, command.label? = none ∧ command.target? = none)
    (h : Numbers k l code) :
    Numbers k (2 + l) fun m n => .label (whileLabel n) ::
      (plain ++ [.arith .not, .ifGoto (whileLabel (n + 1))] ++ code m (n + 2)
        ++ [.goto (whileLabel n), .label (whileLabel (n + 1))]) where
  moved a b m n := by
    simp only [List.map_append, List.map_cons, List.map_nil, Command.moved, movedLabel_whileLabel,
      moved_of_plain hplain, ← h.moved, Nat.add_assoc]
  conditions m n := by
    simp [countP_of_plain hplain, h.conditions, isLabel_whileLabel, isLabel_jump]
  loops m n := by
    simp +arith [countP_of_plain hplain, h.loops, isLabel_whileLabel, isLabel_jump]

end Numbers

end Vm

section Statements

variable (c : Context)

theorem Expression.plain (e : Expression) :
    ∀ command ∈ e.code c, command.label? = none ∧ command.target? = none :=
  fun command h => ⟨(e.issues c command h).label?, (e.issues c command h).target?⟩

theorem Context.numbers_returnCode : Vm.Numbers 0 0 fun _ _ => c.returnCode := by
  refine .of_plain ?_
  rw [Context.returnCode]
  split <;> simp [Command.label?, Command.target?]

mutual

/-- **The labels of a statement** are numbered on. -/
theorem Statement.numbers (st : Statement) :
    Vm.Numbers st.conditions st.loops fun m n => st.code c m n := by
  cases st with
  | assign name value =>
    simp only [Statement.code, Statement.conditions, Statement.loops]
    exact .of_issues (List.forall_mem_append.2 ⟨value.issues c, c.issues_popName name⟩)
  | assignElement array index value =>
    simp only [Statement.code, Statement.conditions, Statement.loops]
    refine .of_issues (c := c) ?_
    simp only [List.forall_mem_append, List.forall_mem_cons]
    exact ⟨⟨index.issues c, c.issues_pushName array⟩, .arith _, value.issues c,
      .place (by decide), .place (by decide), .place (by decide), .place (by decide), nofun⟩
  | branch condition body otherwise =>
    simp only [Statement.code, Statement.conditions, Statement.loops]
    exact .branch (condition.plain c) (Statement.numbers_list body)
      (Statement.numbers_otherwise otherwise)
  | loop condition body =>
    simp only [Statement.code, Statement.conditions, Statement.loops]
    exact .loop (condition.plain c) (Statement.numbers_list body)
  | perform f =>
    simp only [Statement.code, Statement.conditions, Statement.loops]
    exact .of_issues (List.forall_mem_append.2
      ⟨f.issues c, List.forall_mem_singleton.2 (.place (by decide))⟩)
  | «return» value =>
    cases value with
    | none =>
      simp only [Statement.code, Statement.conditions, Statement.loops]
      exact c.numbers_returnCode
    | some e =>
      simp only [Statement.code, Statement.conditions, Statement.loops]
      exact (Vm.Numbers.of_issues (e.issues c)).append c.numbers_returnCode

/-- **The labels of statements** are numbered on from one to the next. -/
theorem Statement.numbers_list (body : List Statement) :
    Vm.Numbers (Statement.listConditions body) (Statement.listLoops body)
      fun m n => Statement.listCode c m n body := by
  cases body with
  | nil =>
    simp only [Statement.listCode, Statement.listConditions, Statement.listLoops]
    exact .of_plain nofun
  | cons st rest =>
    simp only [Statement.listCode, Statement.listConditions, Statement.listLoops]
    exact st.numbers.append (Statement.numbers_list rest)

theorem Statement.numbers_otherwise (otherwise : Option (List Statement)) :
    Vm.Numbers (Statement.otherwiseConditions otherwise) (Statement.otherwiseLoops otherwise)
      fun m n => Statement.otherwiseCode c m n otherwise := by
  cases otherwise with
  | none =>
    simp only [Statement.otherwiseCode, Statement.otherwiseConditions, Statement.otherwiseLoops]
    exact .of_plain nofun
  | some body =>
    simp only [Statement.otherwiseCode, Statement.otherwiseConditions, Statement.otherwiseLoops]
    exact Statement.numbers_list body

end

end Statements

/-! ## Subroutines -/

namespace RoutineDecl

variable (r : RoutineDecl) (c : ClassDecl)

/-- **The labels of a subroutine** are numbered as those of its statements. -/
theorem numbers : Vm.Numbers (Statement.listConditions r.body) (Statement.listLoops r.body)
    fun m n => r.code c m n := by
  have hprologue : Vm.Numbers 0 0 fun _ _ => r.prologue c := by
    refine .of_plain ?_
    cases hk : r.kind <;> simp [prologue, hk, Command.label?, Command.target?]
  have hepilogue : Vm.Numbers 0 0 fun _ _ => r.epilogue := by
    refine .of_plain ?_
    rw [epilogue]
    split <;> simp [Command.label?, Command.target?]
  have hbody := Statement.numbers_list (r.context c) r.body
  simpa [code] using (hprologue.append hbody).append hepilogue

end RoutineDecl

/-- **The text of subroutines** is that of each on its own, one behind the other. -/
theorem RoutineDecl.programText_listCode {c : ClassDecl} {rs : List RoutineDecl}
    (h : ∀ r ∈ rs, ∀ command ∈ r.code c 0 0, ∀ name ∈ command.name?, Unbroken name) (m n : Nat) :
    Vm.programText (listCode c m n rs) =
      Vm.stackedFrom m n (rs.map fun r => Vm.programText (r.code c 0 0)) := by
  induction rs generalizing m n with
  | nil => rfl
  | cons r rest ih =>
    rw [List.forall_mem_cons] at h
    have hnumbers := r.numbers c
    have hmoved : r.code c m n = (r.code c 0 0).map (Command.moved m n) := hnumbers.moved m n 0 0
    rw [List.map_cons, Vm.stackedFrom, Vm.movedText_programText m n h.1,
      Vm.labelCount_programText _ h.1, Vm.labelCount_programText _ h.1, hnumbers.conditions,
      hnumbers.loops, ← ih h.2, ← hmoved, listCode, Vm.programText_append]

/-! ## Classes -/

/-- A source compiles if its variables are declared, and to nothing but the code of its tree. -/
theorem Parses.compileText_eq_ok_iff {source text : String} {c : ClassDecl} (h : Parses source c) :
    compileText source = .ok text ↔ c.Declared ∧ text = Vm.programText c.code := by
  rw [JackStack.compileText_eq_ok_iff]
  refine ⟨fun ⟨c', hp, hd, ht⟩ => ?_, fun ⟨hd, ht⟩ => ⟨c, h, hd, ht⟩⟩
  obtain rfl := h.unique hp
  exact ⟨hd, ht⟩

section Class

variable {name : String} {members : List ClassVariables} {routines : List RoutineDecl}

theorem ClassDecl.declared_iff_forall : (ClassDecl.mk name members routines).Declared ↔
    ∀ r ∈ routines, (ClassDecl.mk name members [r]).Declared := by
  simp [ClassDecl.Declared, ClassDecl.names]

/-- **A subroutine in a class of its own** has the code that it has among others. -/
theorem ClassDecl.code_singleton (routines : List RoutineDecl) (r : RoutineDecl) :
    (ClassDecl.mk name members [r]).code = r.code (ClassDecl.mk name members routines) 0 0 :=
  List.append_nil _

section Singles

variable {singles : List String}
  (h : List.Forall₂ (fun single r => Parses single ⟨name, members, [r]⟩) singles routines)
include h

theorem forall_compileText_iff : (∀ single ∈ singles, ∃ text, compileText single = .ok text) ↔
    ∀ r ∈ routines, (ClassDecl.mk name members [r]).Declared := by
  induction h with
  | nil => simp
  | cons hp _ ih => simp [ih, hp.compileText_eq_ok_iff]

/-- The texts of subroutines, each in a class of its own. -/
theorem declared_and_texts_eq {texts : List String}
    (ht : List.Forall₂ (fun single text => compileText single = .ok text) singles texts) :
    (∀ r ∈ routines, (ClassDecl.mk name members [r]).Declared) ∧
      texts = routines.map fun r => Vm.programText (ClassDecl.mk name members [r]).code := by
  induction h generalizing texts with
  | nil =>
    cases ht
    exact ⟨nofun, rfl⟩
  | cons hp _ ih =>
    obtain ⟨_, _, hfirst, hrest, rfl⟩ := List.forall₂_cons_left_iff.1 ht
    obtain ⟨hdeclared, htext⟩ := hp.compileText_eq_ok_iff.1 hfirst
    obtain ⟨hall, htexts⟩ := ih hrest
    exact ⟨List.forall_mem_cons.2 ⟨hdeclared, hall⟩, by rw [List.map_cons, htext, htexts]⟩

end Singles

/-- **A class compiles as its subroutines do**, each in a class of its own with the same variables:
it compiles if all of these do, and then to their texts one behind the other, labels moved up. -/
theorem compileText_eq_stacked {whole : String} {singles : List String}
    (hwhole : Parses whole ⟨name, members, routines⟩)
    (hsingles : List.Forall₂ (fun single r => Parses single ⟨name, members, [r]⟩)
      singles routines) :
    ((∃ text, compileText whole = .ok text) ↔
        ∀ single ∈ singles, ∃ text, compileText single = .ok text) ∧
      ∀ texts, List.Forall₂ (fun single text => compileText single = .ok text) singles texts →
        compileText whole = .ok (Vm.stacked texts) := by
  refine ⟨?_, fun texts ht => ?_⟩
  · rw [forall_compileText_iff hsingles, ← ClassDecl.declared_iff_forall]
    simp [hwhole.compileText_eq_ok_iff]
  · obtain ⟨hdeclared, rfl⟩ := declared_and_texts_eq hsingles ht
    have hunbroken : ∀ r ∈ routines, ∀ command ∈ r.code ⟨name, members, routines⟩ 0 0,
        ∀ name ∈ command.name?, Unbroken name :=
      fun r hr => ClassDecl.unbroken_code hwhole.wellFormed hr 0 0
    refine hwhole.compileText_eq_ok_iff.2 ⟨ClassDecl.declared_iff_forall.2 hdeclared, ?_⟩
    simp only [ClassDecl.code_singleton routines, Vm.stacked]
    exact (RoutineDecl.programText_listCode hunbroken 0 0).symm

end Class

theorem compileText_eq_stacked_clash :
    let f : RoutineDecl := ⟨.function, some .int, "f", [⟨.int, "x"⟩], [],
      [.branch (.chain (.variable "x") []) [] none, .return (some (.chain (.variable "s") []))]⟩
    let g : RoutineDecl := ⟨.method, none, "g", [], [⟨.int, "x", []⟩],
      [.loop (.chain (.variable "x") []) [.branch (.chain (.variable "s") []) [] none]]⟩
    let members : List ClassVariables := [.statics ⟨.int, "s", []⟩]
    let fSource := "function int f(int x) \x7bif (x) \x7b\x7d return s;\x7d\n"
    let gSource := "method void g() \x7bvar int x; while (x) \x7bif (s) \x7b\x7d\x7d\x7d\n"
    let whole := "class C \x7bstatic int s;\n" ++ fSource ++ gSource ++ "\x7d"
    let singles := ["class C \x7bstatic int s;\n" ++ fSource ++ "\x7d",
      "class C \x7bstatic int s;\n" ++ gSource ++ "\x7d"]
    let fText := "function C.f 0\npush argument 0\nnot\nif-goto IF_0\ngoto IF_1\nlabel IF_0\n"
      ++ "label IF_1\npush static 0\nreturn\n"
    let gText := "function C.g 1\npush argument 0\npop pointer 0\nlabel WHILE_0\npush local 0\n"
      ++ "not\nif-goto WHILE_1\npush static 0\nnot\nif-goto IF_0\ngoto IF_1\nlabel IF_0\n"
      ++ "label IF_1\ngoto WHILE_0\nlabel WHILE_1\npush constant 0\nreturn\n"
    (Parses whole ⟨"C", members, [f, g]⟩ ∧
      List.Forall₂ (fun single r => Parses single ⟨"C", members, [r]⟩) singles [f, g]) ∧
    ((∃ text, compileText whole = .ok text) ↔
      ∀ single ∈ singles, ∃ text, compileText single = .ok text) ∧
    compileText whole = .ok (Vm.stacked [fText, gText]) := by
  intro f g members fSource gSource whole singles fText gText
  have hwhole : Parses whole ⟨"C", members, [f, g]⟩ := by decide +kernel
  have hf : Parses ("class C \x7bstatic int s;\n" ++ fSource ++ "\x7d") ⟨"C", members, [f]⟩ := by
    decide +kernel
  have hg : Parses ("class C \x7bstatic int s;\n" ++ gSource ++ "\x7d") ⟨"C", members, [g]⟩ := by
    decide +kernel
  have hsingles : List.Forall₂ (fun single r => Parses single ⟨"C", members, [r]⟩) singles [f, g] :=
    .cons hf (.cons hg .nil)
  have hfText := hf.compileText_eq_ok_iff.2 ⟨by decide, (by decide +kernel : fText = _)⟩
  have hgText := hg.compileText_eq_ok_iff.2 ⟨by decide, (by decide +kernel : gText = _)⟩
  obtain ⟨hiff, htext⟩ := compileText_eq_stacked hwhole hsingles
  exact ⟨⟨hwhole, hsingles⟩, hiff, htext [fText, gText] (.cons hfText (.cons hgText .nil))⟩

end JackStack
