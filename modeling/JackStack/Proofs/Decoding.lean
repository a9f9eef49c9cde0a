import JackStack.Proofs.Extent

/-!
# Proofs/Decoding — what is written is what is loaded

A line of a program becomes one instruction, the one of its command: operands are kept, statics are
moved behind those loaded before, and a jump goes to the place of its label. Labels of a class differ
even where two of its subroutines have one name, so the place of a label depends on its name alone.

* `Vm.Command.instr` — the instruction of a command.
* `Machine.linkAll_eq` — linking commands gives their instructions.
* `compileText_decodes` — what is compiled is loaded as it was written.
-/

namespace JackStack

open Vm (Command)
open Machine (functionAfter labelPlaces staticsFrom linkAll addSize)
open Text.Decimal (wordBound)

/-- **The instruction of a command**, where statics start at a cell and labels have places. -/
def Vm.Command.instr (statics : Nat) (place : String → Nat) : Command → Instr
  | .push .static index => .push .static (index + statics)
  | .push segment index => .push segment index
  | .pop .static index => .pop .static (index + statics)
  | .pop segment index => .pop segment index
  | .arith op => .arith op
  | .label _ => .skip
  | .goto name => .jump (place name)
  | .ifGoto name => .branch (place name)
  | .call name arguments => .call name arguments
  | .function _ locals => .enter locals
  | .return => .leave

/-- **The place of a label** in a program that starts at a place. -/
def Vm.labelPlace (start : Nat) (commands : List Command) (name : String) : Nat :=
  start + commands.idxOf (.label name)

/-- **The block of a position**: how many `function` lines stand up to there. -/
def Vm.blockOf (commands : List Command) (i : Nat) : Nat :=
  (commands.take (i + 1)).countP fun c => c.function?.isSome

/-- **A program is loaded as it was written**: each line is one command and becomes the instruction
of that command; labels differ, and a jump goes to the one line with its label, inside its own
block. -/
structure Machine.Decodes (m : Machine) (text : String) (commands : List Command)
    (m' : Machine) : Prop where
  text_eq : text = Vm.programText commands
  lines : text.toList.count '\n' = commands.length
  reads : (Text.wordLines text).map Command.ofWords = commands.map .ok
  load : m.load text = .ok m'
  code : m'.code = m.code ++
    (commands.map (Command.instr m.nextStatic (Vm.labelPlace m.code.size commands))).toArray
  labels : (commands.filterMap Command.label?).Nodup
  jumps : ∀ (i : Nat) command name, commands[i]? = some command → command.target? = some name →
    ∃ j, (∀ k, commands[k]? = some (.label name) ↔ k = j) ∧
      Vm.labelPlace m.code.size commands name = m.code.size + j ∧
      Vm.blockOf commands j = Vm.blockOf commands i

/-! ## Lines -/

theorem count_programText {commands : List Command} (h : ∀ c ∈ commands, c.Legible) :
    (Vm.programText commands).toList.count '\n' = commands.length := by
  induction commands with
  | nil => rfl
  | cons c rest ih =>
    rw [List.forall_mem_cons] at h
    have hline : c.text.toList.count '\n' = 0 := by
      rw [Command.toList_text, List.count_eq_zero]
      exact Command.notMem_spaced (Command.unbroken_of_mem_words h.1.unbroken_name)
    have htext : (Vm.programText (c :: rest)).toList =
        c.text.toList ++ '\n' :: (Vm.programText rest).toList := by
      simp [Vm.programText, Command.line, String.join_cons]
    rw [htext, List.count_append, List.count_cons_self, hline, ih h.2, Nat.zero_add,
      List.length_cons]

theorem map_ofWords_wordLines {commands : List Command} (h : ∀ c ∈ commands, c.Legible) :
    (Text.wordLines (Vm.programText commands)).map Command.ofWords = commands.map .ok := by
  rw [wordLines_programText fun c hc => (h c hc).unbroken_name, List.map_map]
  exact List.map_congr_left fun c hc => Command.ofWords_words (h c hc)

/-! ## Places of labels -/

section Labels

variable {commands : List Command} {name : String}

theorem mem_filterMap_label? : name ∈ commands.filterMap Command.label? ↔
    .label name ∈ commands := by
  rw [List.mem_filterMap]
  constructor
  · rintro ⟨c, hc, hl⟩
    cases c with
    | label n =>
      obtain rfl := Option.some.inj hl
      exact hc
    | _ => cases hl
  · exact fun h => ⟨_, h, rfl⟩

/-- Where labels differ, one stands at one position only. -/
theorem eq_idxOf_of_getElem? (hn : (commands.filterMap Command.label?).Nodup) {k : Nat}
    (hk : commands[k]? = some (.label name)) : k = commands.idxOf (.label name) := by
  induction commands generalizing k with
  | nil => cases hk
  | cons c rest ih =>
    cases k with
    | zero =>
      obtain rfl := Option.some.inj hk
      exact List.idxOf_cons_self.symm
    | succ k =>
      have hmem : name ∈ rest.filterMap Command.label? :=
        mem_filterMap_label?.2 (List.mem_of_getElem? hk)
      have hc : c ≠ .label name := by
        rintro rfl
        exact (List.nodup_cons.1 hn).1 hmem
      have hrest : (rest.filterMap Command.label?).Nodup :=
        hn.sublist ((List.sublist_cons_self c rest).filterMap _)
      rw [List.idxOf_cons_ne _ hc, ← ih hrest hk]

/-- The first pass notes labels at their places. -/
theorem getElem?_of_mem_labelPlaces {function : String} {start p : Nat} {key : String × String}
    (h : (key, p) ∈ labelPlaces function start commands) :
    ∃ k, p = start + k ∧ commands[k]? = some (.label key.2) := by
  induction commands generalizing function start with
  | nil => cases h
  | cons c rest ih =>
    rw [labelPlaces, List.mem_append] at h
    obtain h | h := h
    · cases c with
      | label name =>
        obtain ⟨rfl, rfl⟩ := Prod.mk.inj (List.mem_singleton.1 h)
        exact ⟨0, rfl, rfl⟩
      | _ => cases h
    · obtain ⟨k, rfl, hk⟩ := ih h
      exact ⟨k + 1, by omega, hk⟩

theorem map_snd_located (g : Command → Option String) (function : String)
    (commands : List Command) :
    (located g function commands).map Prod.snd = commands.filterMap g := by
  induction commands generalizing function with
  | nil => rfl
  | cons c rest ih =>
    rw [located, List.map_append, ih, List.filterMap_cons]
    cases g c <;> rfl

/-- **A label is looked up at its place**, if labels differ whatever function they stand in. -/
theorem lookup_labelPlaces (hn : (commands.filterMap Command.label?).Nodup) {start : Nat}
    {function : String} {key : String × String}
    (h : key ∈ located Command.label? function commands) :
    (labelPlaces function start commands).reverse.lookup key =
      some (Vm.labelPlace start commands key.2) := by
  have hkeys : ((labelPlaces function start commands).reverse.map Prod.fst).Nodup := by
    rw [List.map_reverse, map_fst_labelPlaces, List.nodup_reverse]
    refine List.Nodup.of_map Prod.snd ?_
    rwa [map_snd_located]
  rw [← map_fst_labelPlaces function start] at h
  obtain ⟨⟨key, p⟩, hmem, rfl⟩ := List.mem_map.1 h
  obtain ⟨k, rfl, hk⟩ := getElem?_of_mem_labelPlaces hmem
  rw [Vm.labelPlace, ← eq_idxOf_of_getElem? hn hk]
  exact lookup_of_mem hkeys (List.mem_reverse.2 hmem)

end Labels

/-! ## Linking -/

section Link

variable {labels : List ((String × String) × Nat)} {statics : Nat} {place : String → Nat}

theorem Machine.link_eq {function : String} {c : Command}
    (ht : ∀ name, c.target? = some name → labels.lookup (function, name) = some (place name))
    (hs : ∀ index, c.static? = some index → index + statics < wordBound) :
    link labels statics function c = .ok (c.instr statics place) := by
  have hadd : ∀ index, index + statics < wordBound →
      addSize index statics = .ok (index + statics) := fun _ h => if_pos h
  cases c with
  | push segment index | pop segment index =>
    cases segment with
    | static =>
      rw [link, hadd index (hs index rfl)]
      rfl
    | _ => rfl
  | goto name | ifGoto name =>
    rw [link, link.find, ht name rfl]
    rfl
  | _ => rfl

/-- **Linking commands gives their instructions.** -/
theorem Machine.linkAll_eq {commands : List Command} {function : String}
    (ht : ∀ key ∈ located Command.target? function commands,
      labels.lookup key = some (place key.2))
    (hs : ∀ c ∈ commands, ∀ index, c.static? = some index → index + statics < wordBound) :
    linkAll labels statics function commands =
      .ok (commands.map (Command.instr statics place)) := by
  induction commands generalizing function with
  | nil => rfl
  | cons c rest ih =>
    rw [located, List.forall_mem_append] at ht
    rw [List.forall_mem_cons] at hs
    have htarget : ∀ name, c.target? = some name →
        labels.lookup (functionAfter function c, name) = some (place name) := by
      intro name hn
      have hinner : c.function? = none := by
        cases c with
        | function _ _ => cases hn
        | _ => rfl
      rw [functionAfter_of_inner hinner]
      exact ht.1 (function, name) (by rw [hn]; exact List.mem_cons_self)
    exact linkAll_cons_eq_ok.2 ⟨_, _, link_eq htarget hs.1, ih ht.2 hs.2, rfl⟩

end Link

/-! ## Blocks -/

section Blocks

variable {xs ys : List Command}

theorem Vm.blockOf_append_left {i : Nat} (hi : i < xs.length) :
    blockOf (xs ++ ys) i = blockOf xs i := by
  rw [blockOf, blockOf, List.take_append_of_le_length hi]

theorem Vm.blockOf_append_right (i : Nat) :
    blockOf (xs ++ ys) (xs.length + i) =
      xs.countP (fun c => c.function?.isSome) + blockOf ys i := by
  rw [blockOf, blockOf, Nat.add_assoc, List.take_length_add_append, List.countP_append]

/-- All of a header and the commands behind it is one block. -/
theorem Vm.blockOf_cons {header : Command} {inner : List Command}
    (h : ∀ c ∈ inner, c.function? = none) (i j : Nat) :
    blockOf (header :: inner) i = blockOf (header :: inner) j := by
  have hzero : ∀ k, (inner.take k).countP (fun c => c.function?.isSome) = 0 := by
    intro k
    rw [List.countP_eq_zero]
    intro c hc
    simp [h c (List.mem_of_mem_take hc)]
  rw [blockOf, blockOf, List.take_succ_cons, List.take_succ_cons, List.countP_cons,
    List.countP_cons, hzero, hzero]

end Blocks

/-- **A jump of a subroutine goes to a label of its block.** -/
theorem RoutineDecl.exists_label {c : ClassDecl} {rs : List RoutineDecl} {m n i : Nat}
    {command : Command} {name : String} (hi : (listCode c m n rs)[i]? = some command)
    (ht : command.target? = some name) :
    ∃ j, (listCode c m n rs)[j]? = some (.label name) ∧
      Vm.blockOf (listCode c m n rs) j = Vm.blockOf (listCode c m n rs) i := by
  induction rs generalizing m n i with
  | nil => cases hi
  | cons r rest ih =>
    rw [listCode] at hi ⊢
    obtain hi | ⟨k, rfl, hk⟩ := getElem?_append_eq_some hi
    · have hmem : command ∈ r.inner c m n := by
        have := List.mem_of_getElem? hi
        rw [code_eq_cons] at this
        obtain rfl | this := List.mem_cons.1 this
        · cases ht
        · exact this
      have hlabel := (r.labelled_inner c m n).closed name (List.mem_filterMap.2 ⟨_, hmem, ht⟩)
      have hcode : .label name ∈ r.code c m n := by
        rw [code_eq_cons]
        exact List.mem_cons_of_mem _ (mem_filterMap_label?.1 hlabel)
      obtain ⟨j, hj⟩ := List.mem_iff_getElem?.1 hcode
      have hlt := (List.getElem?_eq_some_iff.1 hj).1
      refine ⟨j, (List.getElem?_append_left hlt).trans hj, ?_⟩
      rw [Vm.blockOf_append_left hlt,
        Vm.blockOf_append_left (List.getElem?_eq_some_iff.1 hi).1, code_eq_cons]
      exact Vm.blockOf_cons (r.function?_inner c m n) j i
    · obtain ⟨j, hj, hblock⟩ := ih hk
      refine ⟨(r.code c m n).length + j, ?_, ?_⟩
      · rw [List.getElem?_append_right (Nat.le_add_right _ _), Nat.add_sub_cancel_left]
        exact hj
      · rw [Vm.blockOf_append_right, Vm.blockOf_append_right, hblock]

/-! ## Sources -/

namespace ClassDecl

variable {c : ClassDecl} (hw : ∀ x ∈ c.terminals, x.WellFormed)
  (h : Terminal.totalExtent c.terminals < wordBound)
include hw h

theorem writes_of_extent {r : RoutineDecl} (hr : r ∈ c.routines) (m n : Nat) :
    (r.context c).Writes m (m + Statement.listConditions r.body) n
      (n + Statement.listLoops r.body) (r.inner c m n) :=
  RoutineDecl.writes (c.admits_of_extent h hw hr) (c.wellFormed_routine hw hr)
    (c.listWithin_of_extent h hr) (fun _ => c.fieldCount_lt_of_extent h) m n

/-- **The subroutines of a class of bounded length are sound functions.** -/
theorem sound_of_extent : ∀ f ∈ c.program.functions, f.Sound := by
  intro f hf
  obtain ⟨r, hr, m, n, rfl⟩ := RoutineDecl.eq_of_mem_procedures hf
  exact RoutineDecl.sound_procedure (c.writes_of_extent hw h hr m n)
    (unbroken_qualifiedName (c.isWord_name hw) (c.isWord_routine hw hr))
    (c.count_lt_of_extent h hr .local)

theorem static_lt_of_extent {command : Command} (hc : command ∈ c.code) {index : Nat}
    (hi : command.static? = some index) : index < c.staticCount := by
  rw [← c.code_program] at hc
  obtain ⟨f, hf, hc⟩ := List.mem_flatMap.1 hc
  obtain ⟨r, hr, m, n, rfl⟩ := RoutineDecl.eq_of_mem_procedures hf
  obtain rfl | hc := List.mem_cons.1 hc
  · cases hi
  · exact RoutineDecl.static_lt ((c.writes_of_extent hw h hr m n).fits command hc) hi

/-- **The code of a class of bounded length is loaded as it was written.** -/
theorem decodes (m : Machine) (hm : m.nextStatic + c.staticCount < wordBound) :
    ∃ m', m.Decodes (Vm.programText c.code) c.code m' := by
  have hsound := c.sound_of_extent hw h
  have hlegible : ∀ command ∈ c.code, command.Legible := by
    intro command hc
    rw [← c.code_program] at hc
    obtain ⟨f, hf, hc⟩ := List.mem_flatMap.1 hc
    exact (hsound f hf).legible command hc
  obtain ⟨m', n', hlabelled⟩ := RoutineDecl.exists_labelled_list c 0 0 c.routines
  have hlabels : (c.code.filterMap Command.label?).Nodup := hlabelled.numbered.nodup
  have hstatics : staticsFrom 0 c.code ≤ c.staticCount :=
    staticsFrom_le (Nat.zero_le _) fun _ hc _ hi => c.static_lt_of_extent hw h hc hi
  have hlink : linkAll (labelPlaces "" m.code.size c.code).reverse m.nextStatic "" c.code =
      .ok (c.code.map (Command.instr m.nextStatic (Vm.labelPlace m.code.size c.code))) := by
    refine Machine.linkAll_eq (fun key hk => lookup_labelPlaces hlabels ?_) fun d hd index hi => ?_
    · rw [← c.code_program] at hk ⊢
      exact mem_located_label hsound "" hk
    · have := c.static_lt_of_extent hw h hd hi
      omega
  refine ⟨_, rfl, count_programText hlegible, map_ofWords_wordLines hlegible,
    Machine.load_programText hlegible m (by omega) hlink, rfl, hlabels, ?_⟩
  intro i command name hi ht
  obtain ⟨j, hj, hblock⟩ := RoutineDecl.exists_label hi ht
  have hplace := eq_idxOf_of_getElem? hlabels hj
  refine ⟨j, fun k => ⟨fun hk => ?_, fun hk => hk ▸ hj⟩, ?_, hblock⟩
  · rw [hplace, eq_idxOf_of_getElem? hlabels hk]
  · rw [Vm.labelPlace, ← hplace]

end ClassDecl

/-- **What is compiled is loaded as it was written**, behind any programs loaded before. -/
theorem compileText_decodes {source text : String} {m : Machine}
    (h : compileText source = .ok text) (hm : m.nextStatic + source.length < wordBound) :
    ∃ (c : ClassDecl) (m' : Machine), Parses source c ∧ m.Decodes text c.code m' := by
  obtain ⟨c, hp, -, rfl⟩ := compileText_eq_ok_iff.1 h
  have hextent := hp.extent_le
  have hstatics : c.staticCount < Terminal.totalExtent c.terminals :=
    Nat.lt_of_le_of_lt List.countP_le_length (Nat.lt_of_succ_lt c.length_declarations_lt)
  obtain ⟨m', hm'⟩ := c.decodes hp.wellFormed (by omega) m (by omega)
  exact ⟨c, m', hp, hm'⟩

/-- Two subroutines of one name, each with a condition, and a static behind those of an earlier
program. -/
theorem compileText_decodes_twice :
    let source := "class A\x7bstatic int s;function void f()\x7bif(s)\x7blet s=1;\x7delse\x7b\x7d\x7d"
      ++ "function void f()\x7bif(s)\x7b\x7d\x7d\x7d"
    let text := "function A.f 0\npush static 0\nnot\nif-goto IF_0\npush constant 1\npop static 0\n"
      ++ "goto IF_1\nlabel IF_0\nlabel IF_1\npush constant 0\nreturn\nfunction A.f 0\n"
      ++ "push static 0\nnot\nif-goto IF_2\ngoto IF_3\nlabel IF_2\nlabel IF_3\n"
      ++ "push constant 0\nreturn\n"
    let m : Machine := { nextStatic := 20, code := #[.leave] }
    compileText source = .ok text ∧ m.nextStatic + source.length < wordBound ∧
      ∃ (c : ClassDecl) (m' : Machine), Parses source c ∧ m.Decodes text c.code m' := by
  intro source text m
  have h : compileText source = .ok text := by decide +kernel
  have hm : m.nextStatic + source.length < wordBound := by decide +kernel
  exact ⟨h, hm, compileText_decodes h hm⟩

end JackStack
