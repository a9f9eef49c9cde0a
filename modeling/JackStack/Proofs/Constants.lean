import JackStack.Proofs.Refinement
import JackStack.Proofs.Spelling
import JackStack.Proofs.Wording

/-!
# Proofs/Constants — which constants code pushes

Integers and characters are checked against the largest constant when they are read. The length of a
string constant and the number of fields that a constructor allocates are not: they are pushed as
they are, and nothing else that is pushed can be too large.

* `compileText_large_constant_iff` — the constants of a program that are too large.
* `compileText_length_overflow` — a string constant whose length is too large.
-/

namespace JackStack

open Vm (Command)

/-! ## Where string constants stand -/

theorem TypeName.terminal_ne_text (t : TypeName) (body : String) : t.terminal ≠ .text body := by
  cases t <;> exact Terminal.noConfusion

theorem VariableList.text_notMem (l : VariableList) (body : String) : .text body ∉ l.terminals := by
  simp [VariableList.terminals, (l.type.terminal_ne_text body).symm]

/-- String constants stand in the statements of a subroutine only. -/
theorem RoutineDecl.text_mem_iff (r : RoutineDecl) (body : String) :
    .text body ∈ r.terminals ↔ .text body ∈ Statement.list r.body := by
  have hreturned : .text body ≠ TypeName.returned r.returnType := by
    cases r.returnType with
    | none => exact Terminal.noConfusion
    | some type => exact (type.terminal_ne_text body).symm
  have hparameter (p : Parameter) : .text body ∉ p.terminals := by
    simp [Parameter.terminals, (p.type.terminal_ne_text body).symm]
  have hparameters : .text body ∉ Parameter.list r.parameters := by
    cases r.parameters with
    | nil => exact List.not_mem_nil
    | cons p rest => simp [Parameter.list, hparameter]
  simp [RoutineDecl.terminals, RoutineDecl.bodyTerminals, Terminal.parentheses, Terminal.braces,
    hreturned, hparameters, VariableList.text_notMem]

theorem ClassDecl.text_mem_iff (c : ClassDecl) (body : String) :
    .text body ∈ c.terminals ↔ ∃ r ∈ c.routines, .text body ∈ r.terminals := by
  have hmember (v : ClassVariables) : .text body ∉ v.terminals := by
    cases v <;> simp [ClassVariables.terminals, VariableList.text_notMem]
  simp [ClassDecl.terminals, Terminal.braces, hmember]

/-! ## The constants of a class -/

/-- **The constants that a subroutine pushes** beyond the largest integer. -/
theorem ClassDecl.large_mem_code_iff {c : ClassDecl} {r : RoutineDecl}
    (hw : ∀ x ∈ c.terminals, x.WellFormed) (hr : r ∈ c.routines) (m n : Nat) {k : Nat}
    (hk : maxConstant < k) : .push .constant k ∈ r.code c m n ↔
      (∃ body, .text body ∈ r.terminals ∧ body.length = k) ∨
        r.kind = .constructor ∧ c.fieldCount = k := by
  have hbody := (Statement.worded_list r.body (c.named_context hw hr) m n).large_iff
    (c.wellFormed_body hw hr) k hk
  have hprologue : .push .constant k ∈ r.prologue c ↔
      r.kind = .constructor ∧ c.fieldCount = k := by
    cases hkind : r.kind <;> simp [RoutineDecl.prologue, hkind, eq_comm]
  have hepilogue : .push .constant k ∉ r.epilogue := by
    have hzero : k ≠ 0 := Nat.ne_of_gt (Nat.lt_of_le_of_lt (Nat.zero_le _) hk)
    rw [RoutineDecl.epilogue]
    split <;> simp [hzero]
  simp only [RoutineDecl.code, List.mem_append, hprologue, hbody, hepilogue, or_false,
    r.text_mem_iff]
  exact or_comm

theorem RoutineDecl.mem_listCode {c : ClassDecl} {command : Command} {P : RoutineDecl → Prop}
    {rs : List RoutineDecl} (h : ∀ r ∈ rs, ∀ m n, command ∈ r.code c m n ↔ P r) (m n : Nat) :
    command ∈ listCode c m n rs ↔ ∃ r ∈ rs, P r := by
  induction rs generalizing m n with
  | nil => simp [listCode]
  | cons r rest ih =>
    rw [List.forall_mem_cons] at h
    simp only [listCode, List.mem_append, h.1, ih h.2, List.exists_mem_cons_iff]

theorem RoutineDecl.exists_mem_code {c : ClassDecl} {command : Command} {rs : List RoutineDecl}
    {m n : Nat} (h : command ∈ listCode c m n rs) :
    ∃ r ∈ rs, ∃ m n, command ∈ r.code c m n := by
  induction rs generalizing m n with
  | nil => cases h
  | cons r rest ih =>
    obtain h | h := List.mem_append.1 h
    · exact ⟨r, List.mem_cons_self, m, n, h⟩
    · obtain ⟨r', hr', hmem⟩ := ih h
      exact ⟨r', List.mem_cons_of_mem _ hr', hmem⟩

/-- **The constants that a class pushes** beyond the largest integer: lengths of string constants,
and the number of its fields if it has a constructor. -/
theorem ClassDecl.large_iff {c : ClassDecl} (hw : ∀ x ∈ c.terminals, x.WellFormed) {k : Nat}
    (hk : maxConstant < k) : .push .constant k ∈ c.code ↔
      (∃ body, .text body ∈ c.terminals ∧ body.length = k) ∨
        (∃ r ∈ c.routines, r.kind = .constructor) ∧ c.fieldCount = k := by
  rw [ClassDecl.code, RoutineDecl.mem_listCode fun r hr m n => c.large_mem_code_iff hw hr m n hk]
  simp only [c.text_mem_iff]
  constructor
  · rintro ⟨r, hr, ⟨body, hb, hl⟩ | ⟨hkind, hf⟩⟩
    · exact .inl ⟨body, ⟨r, hr, hb⟩, hl⟩
    · exact .inr ⟨⟨r, hr, hkind⟩, hf⟩
  · rintro (⟨body, ⟨r, hr, hb⟩, hl⟩ | ⟨⟨r, hr, hkind⟩, hf⟩)
    · exact ⟨r, hr, .inl ⟨body, hb, hl⟩⟩
    · exact ⟨r, hr, .inr ⟨hkind, hf⟩⟩

/-! ## The constants of a program -/

/-- **The line that pushes a constant.** -/
def Vm.constantLine (n : Nat) : List String :=
  ["push", "constant", toString n]

theorem Vm.Command.words_eq_constantLine {command : Command} {n : Nat} :
    command.words = Vm.constantLine n ↔ command = .push .constant n := by
  refine ⟨fun h => ?_, fun h => by rw [h]; rfl⟩
  cases command with
  | push segment index =>
    simp only [words, Vm.constantLine, List.cons.injEq, and_true, true_and] at h
    have hsegment : some segment = some .constant := by
      rw [← Segment.ofText?_text segment, h.1]
      rfl
    have hindex : index = n := by
      rw [← value_toDigits index, ← toList_toString, h.2, toList_toString, value_toDigits]
    rw [Option.some.inj hsegment, hindex]
  | _ => simp [words, Vm.constantLine] at h

/-- The lines of the code of a class that push constants. -/
theorem ClassDecl.constantLine_mem_iff {c : ClassDecl} (hw : ∀ x ∈ c.terminals, x.WellFormed)
    (n : Nat) : Vm.constantLine n ∈ Text.wordLines (Vm.programText c.code) ↔
      .push .constant n ∈ c.code := by
  have hunbroken : ∀ command ∈ c.code, ∀ name ∈ command.name?, Unbroken name := by
    intro command hc
    obtain ⟨r, hr, m, n, hc⟩ := RoutineDecl.exists_mem_code hc
    exact c.unbroken_code hw hr m n command hc
  simp [wordLines_programText hunbroken, List.mem_map, Vm.Command.words_eq_constantLine]

/-- **The constants of a program that are too large** are the lengths of string constants and, in a
class with a constructor, the number of fields. So all constants fit exactly if those do. -/
theorem compileText_large_constant_iff {source text : String} (h : compileText source = .ok text) :
    ∃ c : ClassDecl, Parses source c ∧
      (∀ n, maxConstant < n → (Vm.constantLine n ∈ Text.wordLines text ↔
        (∃ body, .text body ∈ c.terminals ∧ body.length = n) ∨
          (∃ r ∈ c.routines, r.kind = .constructor) ∧ c.fieldCount = n)) ∧
      ((∀ n, Vm.constantLine n ∈ Text.wordLines text → n ≤ maxConstant) ↔
        (∀ body, .text body ∈ c.terminals → body.length ≤ maxConstant) ∧
          ((∃ r ∈ c.routines, r.kind = .constructor) → c.fieldCount ≤ maxConstant)) := by
  obtain ⟨c, hp, -, rfl⟩ := compileText_eq_ok_iff.1 h
  have hlines := c.constantLine_mem_iff hp.wellFormed
  have hlarge (n : Nat) (hn : maxConstant < n) := (hlines n).trans (c.large_iff hp.wellFormed hn)
  refine ⟨c, hp, hlarge, fun hall => ⟨fun body hb => ?_, fun hk => ?_⟩,
    fun ⟨htext, hfield⟩ n hn => ?_⟩
  · by_contra hlong
    rw [Nat.not_le] at hlong
    exact Nat.not_le.2 hlong (hall _ ((hlarge _ hlong).2 (.inl ⟨body, hb, rfl⟩)))
  · by_contra hmany
    rw [Nat.not_le] at hmany
    exact Nat.not_le.2 hmany (hall _ ((hlarge _ hmany).2 (.inr ⟨hk, rfl⟩)))
  · by_contra hbig
    rw [Nat.not_le] at hbig
    obtain ⟨body, hb, rfl⟩ | ⟨hk, rfl⟩ := (hlarge n hbig).1 hn
    · exact Nat.not_le.2 hbig (htext body hb)
    · exact Nat.not_le.2 hbig (hfield hk)

theorem compileText_large_constant_iff_point :
    let source := "class P \x7b field int x, y; constructor P new() \x7b return this; \x7d\n"
      ++ "method String name() \x7b return \"P\"; \x7d \x7d"
    let text := "function P.new 0\npush constant 2\ncall Memory.alloc 1\npop pointer 0\n"
      ++ "push pointer 0\nreturn\nfunction P.name 0\npush argument 0\npop pointer 0\n"
      ++ "push constant 1\ncall String.new 1\npush constant 80\ncall String.appendChar 2\nreturn\n"
    compileText source = .ok text ∧ ∃ c : ClassDecl, Parses source c ∧
      (∀ n, maxConstant < n → (Vm.constantLine n ∈ Text.wordLines text ↔
        (∃ body, .text body ∈ c.terminals ∧ body.length = n) ∨
          (∃ r ∈ c.routines, r.kind = .constructor) ∧ c.fieldCount = n)) ∧
      ((∀ n, Vm.constantLine n ∈ Text.wordLines text → n ≤ maxConstant) ↔
        (∀ body, .text body ∈ c.terminals → body.length ≤ maxConstant) ∧
          ((∃ r ∈ c.routines, r.kind = .constructor) → c.fieldCount ≤ maxConstant)) :=
  ⟨by decide +kernel, compileText_large_constant_iff (by decide +kernel)⟩

/-- A class with one function, which returns a string constant. -/
def ClassDecl.returning (body : String) : ClassDecl where
  name := "A"
  members := []
  routines := [⟨.function, some (.ofClass "String"), "f", [], [],
    [.return (some (.chain (.text body) []))]⟩]

theorem ClassDecl.terminals_returning (body : String) :
    (ClassDecl.returning body).terminals = [.keyword .class, .identifier "A", .symbol '{',
      .keyword .function, .identifier "String", .identifier "f", .symbol '(', .symbol ')',
      .symbol '{', .keyword .return, .text body, .symbol ';', .symbol '}', .symbol '}'] :=
  rfl

theorem ClassDecl.lines_returning (body : String) :
    Terminal.lines (ClassDecl.returning body).terminals =
      "class\nA\n\x7b\nfunction\nString\nf\n(\n)\n\x7b\nreturn\n\"" ++ body
        ++ "\"\n;\n\x7d\n\x7d\n" := by
  rw [terminals_returning, ← String.toList_inj]
  simp [Terminal.lines, Terminal.written, Terminal.spelling, Keyword.text]

/-- **A string constant of any length compiles**, and its length is pushed. -/
theorem compileText_returning {body : String} (h : (Terminal.text body).Spelled) :
    ∃ text, compileText (Terminal.lines (ClassDecl.returning body).terminals) = .ok text ∧
      Vm.constantLine body.length ∈ Text.wordLines text := by
  have hspelled : ∀ t ∈ (ClassDecl.returning body).terminals, t.Spelled := by
    simp only [ClassDecl.terminals_returning, List.forall_mem_cons]
    exact ⟨trivial, by decide, by decide, trivial, by decide, by decide, by decide, by decide,
      by decide, trivial, h, by decide, by decide, by decide, List.forall_mem_nil _⟩
  obtain ⟨hscan, herror⟩ := Terminal.scan_strip_lines hspelled
  have hp : Parses (Terminal.lines (ClassDecl.returning body).terminals)
      (ClassDecl.returning body) := ⟨herror, hscan.symm⟩
  have hdeclared : (ClassDecl.returning body).Declared := by
    simp [ClassDecl.Declared, ClassDecl.returning, Statement.listVariables, Statement.variables,
      Expression.variables, Term.variables, Expression.moreVariables]
  refine ⟨_, compileText_eq_ok_iff.2 ⟨_, hp, hdeclared, rfl⟩, ?_⟩
  rw [ClassDecl.constantLine_mem_iff hp.wellFormed]
  simp [ClassDecl.code, ClassDecl.returning, RoutineDecl.listCode, RoutineDecl.code,
    Statement.listCode, Statement.code, Expression.code, Term.code, textCode]

/-- **A length that is too large is pushed**: nothing checks it. -/
theorem compileText_length_overflow :
    ∃ text, compileText ("class\nA\n\x7b\nfunction\nString\nf\n(\n)\n\x7b\nreturn\n\""
        ++ String.ofList (List.replicate 32768 'x') ++ "\"\n;\n\x7d\n\x7d\n") = .ok text ∧
      Vm.constantLine 32768 ∈ Text.wordLines text ∧ maxConstant < 32768 := by
  generalize hbody : String.ofList (List.replicate 32768 'x') = body
  have hlength : body.length = 32768 := by
    rw [← hbody, String.length_ofList, List.length_replicate]
  have hspelled : (Terminal.text body).Spelled := by
    intro c hc
    rw [← hbody, String.toList_ofList] at hc
    obtain rfl := List.eq_of_mem_replicate hc
    decide
  obtain ⟨text, htext, hline⟩ := compileText_returning hspelled
  rw [ClassDecl.lines_returning] at htext
  rw [hlength] at hline
  exact ⟨text, htext, hline, by decide⟩

end JackStack
