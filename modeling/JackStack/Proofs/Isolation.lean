import JackStack.Proofs.Scene
import JackStack.Proofs.Loading

/-!
# Proofs/Isolation — programs that are loaded one after the other

Each program that is loaded gets statics of its own, behind those of the programs before, and its
code goes behind theirs. How many statics a program takes is found in one pass over its lines and
where they are is found in another; whatever the lines are, both take the same ones for uses of
statics, so no use lies outside.

* `Machine.staticBase`, `Machine.codeBase` — where the statics and the code of the next program
  start.
* `Machine.Extends` — what loading programs leaves of a machine, and what it adds.
* `Machine.foldlM_load_isolated` — programs do not share statics, and keep their code.
-/

namespace JackStack

open Vm (Command)
open Text (wordLines)

namespace Instr

/-- The cell of the static that an instruction uses. -/
def static? : Instr → Option Nat
  | .push .static cell | .pop .static cell => some cell
  | _ => none

/-- The place that an instruction jumps to. -/
def target? : Instr → Option Nat
  | .jump target | .branch target => some target
  | _ => none

end Instr

namespace Machine

/-! ## What programs take -/

/-- **How many statics a program takes**, the most that one of its lines asks for. -/
def programStatics (program : String) : Nat :=
  ((wordLines program).map lineStatics).foldl max 0

/-- **The first static of the next program**, when programs have been loaded. -/
def staticBase (texts : List String) : Nat :=
  texts.foldl (fun base text => base + programStatics text) Layout.static

/-- **The first place of the next program**, when programs have been loaded. -/
def codeBase (texts : List String) : Nat :=
  (texts.flatMap wordLines).length

/-- The program has a function of the name. -/
def Defines (text name : String) : Prop :=
  ∃ locals, ["function", name, locals] ∈ wordLines text

/-- **A line of a program uses a static**: the line `p` of the program `j`, the static `i`. -/
def UsesStatic (texts : List String) (j p i : Nat) : Prop :=
  ∃ text words command, texts[j]? = some text ∧ (wordLines text)[p]? = some words ∧
    Command.ofWords words = .ok command ∧ command.static? = some i

variable {m m' m'' : Machine} {text : String} {texts words : List String} {command : Command}
  {instr : Instr} {labels : List ((String × String) × Nat)} {statics : Nat} {function : String}

/-! ## Operands -/

/-- **What linking does to the operand** of a command: a static moves to the statics of the
program, a jump goes to a label. -/
theorem link_eq_ok (h : link labels statics function command = .ok instr) :
    instr.static? = command.static?.map (statics + ·) ∧
    ∀ name ∈ command.target?, ∃ target, instr.target? = some target ∧
      ((function, name), target) ∈ labels := by
  have hfind : ∀ {name target}, link.find labels function name = .ok target →
      ((function, name), target) ∈ labels := by
    intro name target hfind
    rw [link.find] at hfind
    split at hfind
    · next place hplace =>
      obtain ⟨before, behind, hlabels, -⟩ := List.lookup_eq_some_iff.1 hplace
      cases hfind
      simp [hlabels]
    · cases hfind
  cases command with
  | push segment index | pop segment index =>
    cases segment with
    | static =>
      obtain ⟨cell, hcell, h⟩ := ok_of_bind h
      cases h
      refine ⟨?_, by simp [Vm.Command.target?]⟩
      rw [addSize_eq_ok hcell, Nat.add_comm]
      rfl
    | _ =>
      cases h
      exact ⟨rfl, by simp [Vm.Command.target?]⟩
  | goto name | ifGoto name =>
    obtain ⟨target, htarget, h⟩ := ok_of_bind h
    cases h
    refine ⟨rfl, ?_⟩
    rintro _ ⟨⟩
    exact ⟨target, rfl, hfind htarget⟩
  | _ =>
    cases h
    exact ⟨rfl, by simp [Vm.Command.target?]⟩

/-! ## Statics in range -/

/-- The segment of statics has one name. -/
theorem eq_of_segmentNamed {word : String} (h : Vm.segmentNamed word = .ok .static) :
    word = "static" := by
  rw [Vm.segmentNamed] at h
  split at h
  · next segment hsegment =>
    cases h
    have htext := List.find?_some hsegment
    exact (of_decide_eq_true htext).symm
  · cases h

/-- **Both passes find the same statics**: a command with a static asks for it in its line. -/
theorem lineStatics_of_ofWords {i : Nat} (h : Command.ofWords words = .ok command)
    (hi : command.static? = some i) : lineStatics words = i + 1 := by
  have hthree : ∀ {first segment index : String} {n : Nat}, first ≠ "function" →
      Vm.number index = .ok n → Vm.segmentNamed segment = .ok .static →
      lineStatics [first, segment, index] = n + 1 := by
    intro first segment index n hfirst hn hsegment
    rw [eq_of_segmentNamed hsegment, lineStatics, number_eq_ok hn]
    · rfl
    · intro hfunction
      exact absurd hfunction hfirst
  unfold Command.ofWords at h
  split at h
  · obtain ⟨n, hn, h⟩ := ok_of_bind h
    obtain ⟨s, hs, h⟩ := ok_of_bind h
    cases h
    cases s with
    | static =>
      cases hi
      exact hthree (by decide) hn hs
    | _ => cases hi
  · obtain ⟨n, hn, h⟩ := ok_of_bind h
    obtain ⟨s, hs, h⟩ := ok_of_bind h
    cases h
    cases s with
    | static =>
      cases hi
      exact hthree (by decide) hn hs
    | _ => cases hi
  · cases h; cases hi
  · cases h; cases hi
  · cases h; cases hi
  · obtain ⟨_, -, h⟩ := ok_of_bind h
    cases h; cases hi
  · obtain ⟨_, -, h⟩ := ok_of_bind h
    cases h; cases hi
  · cases h; cases hi
  · split at h
    · cases h; cases hi
    · cases h
  · cases h

theorem le_foldl_max (ns : List Nat) (n : Nat) :
    n ≤ ns.foldl max n ∧ ∀ k ∈ ns, k ≤ ns.foldl max n := by
  induction ns generalizing n with
  | nil => simp
  | cons k ns ih =>
    obtain ⟨hle, hmem⟩ := ih (max n k)
    rw [List.foldl_cons]
    refine ⟨by omega, fun l hl => ?_⟩
    rcases List.mem_cons.1 hl with rfl | hl
    · omega
    · exact hmem l hl

/-- **A static of a program is one of those that it takes.** -/
theorem lt_programStatics {i : Nat} (hwords : words ∈ wordLines text)
    (h : Command.ofWords words = .ok command) (hi : command.static? = some i) :
    i < programStatics text := by
  have hmem := List.mem_map_of_mem (f := lineStatics) hwords
  rw [lineStatics_of_ofWords h hi] at hmem
  exact (le_foldl_max _ 0).2 _ hmem

theorem staticBase_append (texts : List String) (text : String) :
    staticBase (texts ++ [text]) = staticBase texts + programStatics text := by
  rw [staticBase, staticBase, List.foldl_append, List.foldl_cons, List.foldl_nil]

theorem codeBase_append (texts texts' : List String) :
    codeBase (texts ++ texts') = codeBase texts + codeBase texts' := by
  rw [codeBase, codeBase, codeBase, List.flatMap_append, List.length_append]

theorem staticBase_take_succ {j : Nat} (h : texts[j]? = some text) :
    staticBase (texts.take (j + 1)) = staticBase (texts.take j) + programStatics text := by
  rw [List.take_add_one, h, Option.toList_some, staticBase_append]

theorem staticBase_take_mono {j k : Nat} (h : j ≤ k) :
    staticBase (texts.take j) ≤ staticBase (texts.take k) := by
  induction h with
  | refl => exact Nat.le_refl _
  | @step k hk ih =>
    refine Nat.le_trans ih ?_
    cases hk : texts[k]? with
    | none =>
      have htake : texts.take (k + 1) = texts.take k := by
        rw [List.take_add_one, hk, Option.toList_none, List.append_nil]
      exact Nat.le_of_eq (by rw [htake])
    | some text =>
      rw [staticBase_take_succ hk]
      exact Nat.le_add_right _ _

/-! ## Loading -/

/-- **A machine has got programs on top of what another has**: statics and code behind, and new
places only for the functions that these programs have. -/
structure Extends (m : Machine) (texts : List String) (m' : Machine) : Prop where
  statics : m'.nextStatic = texts.foldl (fun base text => base + programStatics text) m.nextStatic
  size : m'.code.size = m.code.size + codeBase texts
  kept : ∀ p < m.code.size, m'.code[p]? = m.code[p]?
  functions : ∀ name, (∀ text ∈ texts, ¬ Defines text name) →
    m'.functions.lookup name = m.functions.lookup name

theorem Extends.refl (m : Machine) : Extends m [] m where
  statics := rfl
  size := rfl
  kept _ _ := rfl
  functions _ _ := rfl

theorem Extends.append {texts' : List String} (h : Extends m texts m')
    (h' : Extends m' texts' m'') : Extends m (texts ++ texts') m'' where
  statics := by rw [List.foldl_append, ← h.statics, h'.statics]
  size := by rw [h'.size, h.size, codeBase_append, Nat.add_assoc]
  kept p hp := by
    rw [h'.kept p (by have := h.size; omega), h.kept p hp]
  functions name hname := by
    rw [h'.functions name fun text ht => hname text (List.mem_append_right _ ht),
      h.functions name fun text ht => hname text (List.mem_append_left _ ht)]

/-- **The line of a program is linked** in a machine that had got so many statics and so much code
before the program. -/
def HasLine (m : Machine) (statics base : Nat) (text : String) (p : Nat) (words : List String) :
    Prop :=
  ∃ command instr, Command.ofWords words = .ok command ∧ m.code[base + p]? = some instr ∧
    instr.static? = command.static?.map (statics + ·) ∧
    ∀ name ∈ command.target?, ∃ q, instr.target? = some (base + q) ∧
      (wordLines text)[q]? = some ["label", name]

/-- **Loading a program** extends the machine by it. -/
theorem extends_load (h : m.load text = .ok m') : Extends m [text] m' := by
  obtain ⟨survey, code, hsurvey, hcode, rfl⟩ := load_eq_ok h
  obtain ⟨hstatics, ⟨found, hfound, hheads⟩, -⟩ := Survey.foldlM_eq_ok hsurvey
  refine ⟨?_, ?_, fun p hp => Array.getElem?_append_left hp, fun name hname => ?_⟩
  · rw [hstatics]
    rfl
  · simp [codeBase, (linkLines_eq_ok hcode).1]
  · have hnone : survey.functions.lookup name = none := by
      rw [hfound, List.append_nil, List.lookup_eq_none_iff]
      intro p hp
      obtain ⟨q, locals, -, hwords⟩ := hheads p hp
      have hne : name ≠ p.1 := by
        rintro rfl
        exact hname text List.mem_cons_self ⟨locals, List.mem_of_getElem? hwords⟩
      exact bne_iff_ne.2 hne
    rw [List.lookup_append, hnone, Option.none_or]

/-- **Loading a program** links each of its lines. -/
theorem hasLine_load {p : Nat} (h : m.load text = .ok m')
    (hp : (wordLines text)[p]? = some words) :
    HasLine m' m.nextStatic m.code.size text p words := by
  obtain ⟨survey, code, hsurvey, hcode, rfl⟩ := load_eq_ok h
  obtain ⟨-, -, hlabels⟩ := Survey.foldlM_eq_ok hsurvey
  obtain ⟨function, command, instr, hcommand, hinstr, hget⟩ := (linkLines_eq_ok hcode).2 p words hp
  obtain ⟨hstatic, htarget⟩ := link_eq_ok hinstr
  refine ⟨command, instr, hcommand, ?_, hstatic, fun name hname => ?_⟩
  · rw [Array.getElem?_append_right (Nat.le_add_right _ _), Nat.add_sub_cancel_left]
    simpa using hget
  · obtain ⟨target, htarget, hmem⟩ := htarget name hname
    rcases hlabels _ hmem with hmem | ⟨q, hq, hlabel⟩
    · cases hmem
    · exact ⟨q, hq ▸ htarget, hlabel⟩

theorem extends_foldlM_load (h : texts.foldlM load m = .ok m') : Extends m texts m' := by
  induction texts generalizing m with
  | nil =>
    cases h
    exact Extends.refl _
  | cons text texts ih =>
    rw [List.foldlM_cons] at h
    obtain ⟨m₁, hload, hrest⟩ := ok_of_bind h
    exact (extends_load hload).append (ih hrest)

/-! ## Programs one after the other -/

/-- The programs up to one of them are loaded first. -/
theorem foldlM_load_take (h : texts.foldlM load m = .ok m') (k : Nat) :
    ∃ m₁, (texts.take k).foldlM load m = .ok m₁ ∧ (texts.drop k).foldlM load m₁ = .ok m' := by
  rw [← List.take_append_drop k texts, List.foldlM_append] at h
  exact ok_of_bind h

theorem foldlM_load_cons (h : m.load text = .ok m') (hrest : texts.foldlM load m' = .ok m'') :
    (text :: texts).foldlM load m = .ok m'' := by
  rw [List.foldlM_cons, h]
  exact hrest

theorem HasLine.mono {base p : Nat} (h : HasLine m statics base text p words)
    (hm : Extends m texts m') : HasLine m' statics base text p words := by
  obtain ⟨command, instr, hcommand, hinstr, hrest⟩ := h
  have hlt : base + p < m.code.size := (Array.getElem?_eq_some_iff.1 hinstr).1
  exact ⟨command, instr, hcommand, by rw [hm.kept _ hlt, hinstr], hrest⟩

/-- **Each line of each program stays linked** with the statics and the code of its program. -/
theorem hasLine_of_foldlM_load {j p : Nat} (h : texts.foldlM load ({} : Machine) = .ok m)
    (hj : texts[j]? = some text) (hp : (wordLines text)[p]? = some words) :
    HasLine m (staticBase (texts.take j)) (codeBase (texts.take j)) text p words := by
  obtain ⟨m₁, hbefore, h⟩ := foldlM_load_take h j
  obtain ⟨hlt, rfl⟩ := List.getElem?_eq_some_iff.1 hj
  rw [List.drop_eq_getElem_cons hlt, List.foldlM_cons] at h
  obtain ⟨m₂, hload, hbehind⟩ := ok_of_bind h
  have hm₁ := extends_foldlM_load hbefore
  have hstatics : m₁.nextStatic = staticBase (texts.take j) := hm₁.statics
  have hsize : m₁.code.size = codeBase (texts.take j) := hm₁.size.trans (Nat.zero_add _)
  have hline := hasLine_load hload hp
  rw [hstatics, hsize] at hline
  exact hline.mono (extends_foldlM_load hbehind)

/-- **Each place in the code is that of a line** of a program. -/
theorem exists_line_of_lt_codeBase {place : Nat} (h : place < codeBase texts) :
    ∃ j text p words, texts[j]? = some text ∧ (wordLines text)[p]? = some words ∧
      place = codeBase (texts.take j) + p := by
  induction texts generalizing place with
  | nil => exact absurd h (Nat.not_lt_zero _)
  | cons text texts ih =>
    have hcons : ∀ rest, codeBase (text :: rest) = (wordLines text).length + codeBase rest := by
      intro rest
      rw [codeBase, codeBase, List.flatMap_cons, List.length_append]
    by_cases hlt : place < (wordLines text).length
    · exact ⟨0, text, place, _, rfl, List.getElem?_eq_getElem hlt, (Nat.zero_add _).symm⟩
    · rw [hcons] at h
      have hrest : place - (wordLines text).length < codeBase texts := by omega
      obtain ⟨j, text', p, words, hj, hp, hplace⟩ := ih hrest
      refine ⟨j + 1, text', p, words, hj, hp, ?_⟩
      rw [List.take_succ_cons, hcons]
      omega

/-- The static of a use is one of those of its program. -/
theorem UsesStatic.lt {j p i : Nat} (h : UsesStatic texts j p i) :
    staticBase (texts.take j) + i < staticBase (texts.take (j + 1)) := by
  obtain ⟨text, words, command, hj, hp, hcommand, hi⟩ := h
  rw [staticBase_take_succ hj]
  exact Nat.add_lt_add_left (lt_programStatics (List.mem_of_getElem? hp) hcommand hi) _

/-- The statics of a program are before those of the programs behind it. -/
theorem UsesStatic.lt_of_lt {j j' p i : Nat} (h : UsesStatic texts j p i) (hj : j < j') :
    staticBase (texts.take j) + i < staticBase (texts.take j') :=
  Nat.lt_of_lt_of_le h.lt (staticBase_take_mono hj)

/-- **Uses of one cell are uses of one static of one program.** -/
theorem UsesStatic.cell_inj {j p i j' p' i' : Nat} (h : UsesStatic texts j p i)
    (h' : UsesStatic texts j' p' i')
    (hcell : staticBase (texts.take j) + i = staticBase (texts.take j') + i') :
    j = j' ∧ i = i' := by
  rcases Nat.lt_trichotomy j j' with hlt | rfl | hlt
  · have := h.lt_of_lt hlt
    omega
  · exact ⟨rfl, Nat.add_left_cancel hcell⟩
  · have := h'.lt_of_lt hlt
    omega

/-- **Programs that are loaded one after the other do not share statics, and keep their code.**
The static `i` of the program `j` has the cell `staticBase (texts.take j) + i`, which is one of
those between the programs before and the programs behind, and the code has no other uses of
statics; so two uses have one cell only if they are the same static of the same program. A jump
goes to a label of its program. Programs that are loaded later leave the code before them as it
is, and the places of all functions except their own. -/
theorem foldlM_load_isolated (h : texts.foldlM load ({} : Machine) = .ok m) :
    (∀ j p i, UsesStatic texts j p i →
      staticBase (texts.take j) + i < staticBase (texts.take (j + 1)) ∧
      ∃ instr, m.code[codeBase (texts.take j) + p]? = some instr ∧
        instr.static? = some (staticBase (texts.take j) + i) ∧
        ∀ l : Machine, Yields (address .static (staticBase (texts.take j) + i)) l
          (staticBase (texts.take j) + i) l) ∧
    (∀ place instr cell, m.code[place]? = some instr → instr.static? = some cell →
      ∃ j p i, UsesStatic texts j p i ∧ place = codeBase (texts.take j) + p ∧
        cell = staticBase (texts.take j) + i) ∧
    (staticBase (texts.take 0) = 16 ∧
      ∀ j k, j ≤ k → staticBase (texts.take j) ≤ staticBase (texts.take k)) ∧
    (∀ j p i j' p' i', UsesStatic texts j p i → UsesStatic texts j' p' i' →
      (staticBase (texts.take j) + i = staticBase (texts.take j') + i' ↔ j = j' ∧ i = i')) ∧
    (∀ j text p words command name, texts[j]? = some text → (wordLines text)[p]? = some words →
      Command.ofWords words = .ok command → command.target? = some name →
      ∃ instr q, m.code[codeBase (texts.take j) + p]? = some instr ∧
        instr.target? = some (codeBase (texts.take j) + q) ∧
        (wordLines text)[q]? = some ["label", name]) ∧
    ∀ k, ∃ m₁, (texts.take k).foldlM load ({} : Machine) = .ok m₁ ∧
      m₁.nextStatic = staticBase (texts.take k) ∧
      (∀ place < m₁.code.size, m.code[place]? = m₁.code[place]?) ∧
      ∀ name, (∀ text ∈ texts.drop k, ¬ Defines text name) →
        m.functions.lookup name = m₁.functions.lookup name := by
  have hcommand : ∀ {words : List String} {c c' : Command}, Command.ofWords words = .ok c →
      Command.ofWords words = .ok c' → c = c' := fun hc hc' => Except.ok.inj (hc.symm.trans hc')
  refine ⟨fun j p i hi => ⟨hi.lt, ?_⟩, fun place instr cell hplace hcell => ?_,
    ⟨rfl, fun j k hjk => staticBase_take_mono hjk⟩,
    fun j p i j' p' i' hi hi' => ⟨hi.cell_inj hi', ?_⟩,
    fun j text p words command name hj hp hread hname => ?_, fun k => ?_⟩
  · obtain ⟨text, words, command, hj, hp, hread, hi⟩ := hi
    obtain ⟨command', instr, hread', hinstr, hstatic, -⟩ := hasLine_of_foldlM_load h hj hp
    obtain rfl := hcommand hread hread'
    exact ⟨instr, hinstr, by rw [hstatic, hi]; rfl, fun l => Yields.pure _⟩
  · have hlt : place < codeBase texts := by
      have hsize := (extends_foldlM_load h).size
      have := (Array.getElem?_eq_some_iff.1 hplace).1
      rw [hsize] at this
      exact (Nat.zero_add (codeBase texts)) ▸ this
    obtain ⟨j, text, p, words, hj, hp, rfl⟩ := exists_line_of_lt_codeBase hlt
    obtain ⟨command, instr', hread, hinstr, hstatic, -⟩ := hasLine_of_foldlM_load h hj hp
    obtain rfl : instr = instr' := Option.some.inj (hplace.symm.trans hinstr)
    rw [hcell] at hstatic
    obtain ⟨i, hi, hcell⟩ := Option.map_eq_some_iff.1 hstatic.symm
    exact ⟨j, p, i, ⟨text, words, command, hj, hp, hread, hi⟩, rfl, hcell.symm⟩
  · rintro ⟨rfl, rfl⟩
    rfl
  · obtain ⟨command', instr, hread', hinstr, -, htarget⟩ := hasLine_of_foldlM_load h hj hp
    obtain rfl := hcommand hread hread'
    obtain ⟨q, htarget, hlabel⟩ := htarget name hname
    exact ⟨instr, q, hinstr, htarget, hlabel⟩
  · obtain ⟨m₁, hbefore, hbehind⟩ := foldlM_load_take h k
    have hm := extends_foldlM_load hbehind
    exact ⟨m₁, hbefore, (extends_foldlM_load hbefore).statics, hm.kept, hm.functions⟩

/-- A program with a jump, and another that has a function of the same name; both use statics. -/
def sameFunction : List Command × List Command :=
  ([.function "A.f" 0, .push .static 1, .goto "L", .label "L", .return],
    [.function "A.f" 0, .push .static 0, .return])

/-- The texts of the two programs. -/
def sameFunctionTexts : List String :=
  [Vm.programText sameFunction.1, Vm.programText sameFunction.2]

/-- The second program uses another cell than the first. -/
theorem foldlM_load_isolated_sameFunction :
    ∃ m, sameFunctionTexts.foldlM load ({} : Machine) = .ok m ∧
      UsesStatic sameFunctionTexts 0 1 1 ∧ UsesStatic sameFunctionTexts 1 1 0 ∧
      staticBase (sameFunctionTexts.take 0) + 1 ≠ staticBase (sameFunctionTexts.take 1) + 0 := by
  have hfirst : ∀ c ∈ sameFunction.1, c.Legible := by decide
  have hsecond : ∀ c ∈ sameFunction.2, c.Legible := by decide
  have hlines : wordLines (Vm.programText sameFunction.1) = sameFunction.1.map Command.words :=
    wordLines_programText fun c hc => (hfirst c hc).unbroken_name
  have hlines' : wordLines (Vm.programText sameFunction.2) = sameFunction.2.map Command.words :=
    wordLines_programText fun c hc => (hsecond c hc).unbroken_name
  have huse : UsesStatic sameFunctionTexts 0 1 1 :=
    ⟨_, _, .push .static 1, rfl, by rw [hlines]; rfl, Command.ofWords_words (by decide), rfl⟩
  have huse' : UsesStatic sameFunctionTexts 1 1 0 :=
    ⟨_, _, .push .static 0, rfl, by rw [hlines']; rfl, Command.ofWords_words (by decide), rfl⟩
  have hload := load_programText hfirst {} (by decide) rfl
  obtain ⟨m, hm⟩ : ∃ m, sameFunctionTexts.foldlM load ({} : Machine) = .ok m :=
    ⟨_, foldlM_load_cons hload
      (foldlM_load_cons (load_programText hsecond _ (by decide) rfl) rfl)⟩
  refine ⟨m, hm, huse, huse', fun hcell => ?_⟩
  have hsame := ((foldlM_load_isolated hm).2.2.2.1 _ _ _ _ _ _ huse huse').1 hcell
  exact absurd hsame.1 (by decide)

end Machine

end JackStack
