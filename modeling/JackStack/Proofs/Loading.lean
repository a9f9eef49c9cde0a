import JackStack.Machine.Load

/-!
# Proofs/Loading — loading what is written

The text of commands is read back word by word and line by line, so loading it does what the two
passes do to the commands themselves: the first collects the places of functions and labels and
counts the statics, the second links each command.

* `Command.ofWords_words` — a command is read back from its words.
* `wordLines_programText` — the lines of a program are those of its commands.
* `Machine.load_programText` — what loading a program adds to the machine.
* `Machine.Survey.foldlM_eq_ok`, `Machine.linkLines_eq_ok` — what the passes make of any lines.
* `Machine.load_eq_ok` — what loading any program that can be loaded does.
* `Machine.HasLoaded.enterable` — whatever is loaded, each function begins by making its locals.
-/

namespace JackStack

open Vm (Command)

/-! ## Words and lines -/

/-- **A text without blanks**, and not empty. -/
def Unbroken (word : String) : Prop :=
  word.toList ≠ [] ∧ ∀ c ∈ word.toList, Text.isBlank c = false

instance (word : String) : Decidable (Unbroken word) :=
  decidable_of_iff (word.toList ≠ [] ∧ word.toList.all (!Text.isBlank ·) = true) (by
    simp [Unbroken])

namespace Text

/-- A word ends where a blank or the end follows. -/
theorem words_append {w rest : List Char} (hw : w ≠ []) (hb : ∀ c ∈ w, isBlank c = false)
    (hrest : rest.head?.all isBlank = true) : words (w ++ rest) = w :: words rest := by
  induction w with
  | nil => exact absurd rfl hw
  | cons c cs ih =>
    have hc : ¬ isBlank c = true := by simp [hb c List.mem_cons_self]
    rw [List.cons_append, words, if_neg hc]
    cases cs with
    | nil => rw [List.nil_append, if_pos hrest]
    | cons d ds =>
      have hd : ¬ ((d :: ds ++ rest).head?.all isBlank) = true := by
        simp [hb d (List.mem_cons_of_mem _ List.mem_cons_self)]
      rw [if_neg hd, ih (List.cons_ne_nil _ _) fun x hx => hb x (List.mem_cons_of_mem _ hx)]

theorem words_single {w : List Char} (hw : w ≠ []) (hb : ∀ c ∈ w, isBlank c = false) :
    words w = [w] := by
  have : words (w ++ []) = w :: words [] := words_append hw hb rfl
  rwa [List.append_nil] at this

theorem words_space (cs : List Char) : words (' ' :: cs) = words cs := by
  rw [words, if_pos (by decide)]

/-- A line ends at a line feed. -/
theorem lines_append {l rest : List Char} (hl : '\n' ∉ l) :
    lines (l ++ '\n' :: rest) = l :: lines rest := by
  induction l with
  | nil => rw [List.nil_append, lines, if_pos rfl]
  | cons c cs ih =>
    have hc : c ≠ '\n' := fun h => hl (h ▸ List.mem_cons_self)
    rw [List.cons_append, lines, if_neg hc, ih fun h => hl (List.mem_cons_of_mem _ h)]

end Text

/-! ## Numbers -/

theorem toList_toString (n : Nat) : (toString n).toList = Nat.toDigits 10 n := by
  rw [Nat.toString_eq_repr, Nat.repr_eq_ofList_toDigits, String.toList_ofList]

theorem value_toDigits (n : Nat) : Text.Decimal.value (Nat.toDigits 10 n) = n :=
  Nat.ofDigitChars_toDigits (by decide) (by decide)

theorem unbroken_toString (n : Nat) : Unbroken (toString n) := by
  rw [Unbroken, toList_toString]
  exact ⟨Nat.toDigits_ne_nil, fun c hc =>
    Text.isBlank_of_isDigit (Nat.isDigit_of_mem_toDigits (by decide) (by decide) hc)⟩

/-- A number is read back. -/
theorem number_toString {n : Nat} (h : n < Text.Decimal.wordBound) :
    Vm.number (toString n) = .ok n := by
  have hdigits : ∀ c ∈ Nat.toDigits 10 n, c.isDigit = true := fun c hc =>
    Nat.isDigit_of_mem_toDigits (by decide) (by decide) hc
  have hsign : ∀ ds, Nat.toDigits 10 n ≠ '+' :: ds := fun ds hd =>
    absurd (hdigits '+' (hd ▸ List.mem_cons_self)) (by decide)
  have hword : Text.Decimal.word? (Nat.toDigits 10 n) = some n := by
    rw [Text.Decimal.word?, if_pos, value_toDigits]
    · rw [value_toDigits]
      exact ⟨Nat.toDigits_ne_nil, List.all_eq_true.2 hdigits, h⟩
    · exact hsign
  rw [Vm.number, toList_toString, hword]

/-! ## Commands -/

namespace Vm.Command

/-- **The words of a command.** -/
def words : Command → List String
  | .push segment index => ["push", segment.text, toString index]
  | .pop segment index => ["pop", segment.text, toString index]
  | .arith op => [op.text]
  | .label name => ["label", name]
  | .goto name => ["goto", name]
  | .ifGoto name => ["if-goto", name]
  | .call name arguments => ["call", name, toString arguments]
  | .function name locals => ["function", name, toString locals]
  | .return => ["return"]

/-- **A command is legible**: its names are unbroken and its numbers fit. No function has the name
of the segment that counts statics. -/
def Legible : Command → Prop
  | .push _ index | .pop _ index => index + 1 < Text.Decimal.wordBound
  | .arith _ | .return => True
  | .label name | .goto name | .ifGoto name => Unbroken name
  | .call name arguments =>
    Unbroken name ∧ name ≠ Segment.static.text ∧ arguments < Text.Decimal.wordBound
  | .function name locals => Unbroken name ∧ locals < Text.Decimal.wordBound

instance : DecidablePred Legible
  | .push _ index | .pop _ index =>
    inferInstanceAs (Decidable (index + 1 < Text.Decimal.wordBound))
  | .arith _ | .return => inferInstanceAs (Decidable True)
  | .label name | .goto name | .ifGoto name => inferInstanceAs (Decidable (Unbroken name))
  | .call name arguments => inferInstanceAs (Decidable (Unbroken name ∧
      name ≠ Segment.static.text ∧ arguments < Text.Decimal.wordBound))
  | .function name locals =>
    inferInstanceAs (Decidable (Unbroken name ∧ locals < Text.Decimal.wordBound))

/-- **A command is read back from its words.** -/
theorem ofWords_words {c : Command} (h : c.Legible) : ofWords c.words = .ok c := by
  cases c with
  | push segment index =>
    rw [words, ofWords, number_toString (Nat.lt_of_succ_lt h)]
    cases segment <;> rfl
  | pop segment index =>
    rw [words, ofWords, number_toString (Nat.lt_of_succ_lt h)]
    cases segment <;> rfl
  | arith op => cases op <;> rfl
  | label name => rfl
  | goto name => rfl
  | ifGoto name => rfl
  | call name arguments =>
    rw [words, ofWords, number_toString h.2.2]
    rfl
  | function name locals =>
    rw [words, ofWords, number_toString h.2]
    rfl
  | «return» => rfl

/-- The name in a command. -/
def name? : Command → Option String
  | .label name | .goto name | .ifGoto name | .call name _ | .function name _ => some name
  | .push .. | .pop .. | .arith _ | .return => none

theorem Legible.unbroken_name {c : Command} (h : c.Legible) : ∀ name ∈ c.name?, Unbroken name := by
  cases c with
  | label name | goto name | ifGoto name =>
    rintro _ ⟨⟩
    exact h
  | call name arguments | function name locals =>
    rintro _ ⟨⟩
    exact h.1
  | _ => exact nofun

theorem unbroken_of_mem_words {c : Command} (h : ∀ name ∈ c.name?, Unbroken name) :
    ∀ w ∈ c.words, Unbroken w := by
  have hsegment : ∀ s : Segment, Unbroken s.text := by
    intro s
    cases s <;> decide
  have hop : ∀ op : ArithOp, Unbroken op.text := by
    intro op
    cases op <;> decide
  have hword : ∀ w ∈ ["push", "pop", "label", "goto", "if-goto", "call", "function", "return"],
      Unbroken w := by decide
  cases c with
  | push segment index | pop segment index =>
    simp only [words, List.forall_mem_cons]
    exact ⟨hword _ (by simp), hsegment segment, unbroken_toString index, nofun⟩
  | arith op =>
    simp only [words, List.forall_mem_singleton]
    exact hop op
  | label name | goto name | ifGoto name =>
    simp only [words, List.forall_mem_cons]
    exact ⟨hword _ (by simp), h name rfl, nofun⟩
  | call name n | function name n =>
    simp only [words, List.forall_mem_cons]
    exact ⟨hword _ (by simp), h name rfl, unbroken_toString n, nofun⟩
  | «return» =>
    simp only [words, List.forall_mem_singleton]
    exact hword _ (by simp)

/-- Words with a space between each two. -/
def spaced : List String → List Char
  | [] => []
  | [w] => w.toList
  | w :: ws => w.toList ++ ' ' :: spaced ws

theorem toList_text (c : Command) : c.text.toList = spaced c.words := by
  cases c <;> simp [text, words, spaced]

theorem words_spaced {ws : List String} (h : ∀ w ∈ ws, Unbroken w) :
    Text.words (spaced ws) = ws.map String.toList := by
  induction ws with
  | nil => rfl
  | cons w ws ih =>
    obtain ⟨hw, hb⟩ := h w List.mem_cons_self
    have hrest := ih fun x hx => h x (List.mem_cons_of_mem _ hx)
    cases ws with
    | nil => exact Text.words_single hw hb
    | cons v vs =>
      have hspace : (' ' :: spaced (v :: vs)).head?.all Text.isBlank = true := rfl
      rw [spaced, Text.words_append hw hb hspace, Text.words_space, hrest]
      · rfl
      · exact List.cons_ne_nil _ _

/-- A command takes one line. -/
theorem notMem_spaced {ws : List String} (h : ∀ w ∈ ws, Unbroken w) : '\n' ∉ spaced ws := by
  have hfeed : ∀ w, Unbroken w → '\n' ∉ w.toList := fun w hw hc =>
    absurd (hw.2 _ hc) (by decide)
  induction ws with
  | nil => exact List.not_mem_nil
  | cons w ws ih =>
    have hw := hfeed w (h w List.mem_cons_self)
    have hrest := ih fun x hx => h x (List.mem_cons_of_mem _ hx)
    cases ws with
    | nil => exact hw
    | cons v vs =>
      rw [spaced, List.mem_append, List.mem_cons, not_or, not_or]
      · exact ⟨hw, by decide, hrest⟩
      · exact List.cons_ne_nil _ _

end Vm.Command

/-- **The lines of a program are those of its commands.** -/
theorem wordLines_programText {cs : List Command}
    (h : ∀ c ∈ cs, ∀ name ∈ c.name?, Unbroken name) :
    Text.wordLines (Vm.programText cs) = cs.map Command.words := by
  rw [Text.wordLines]
  induction cs with
  | nil => rfl
  | cons c cs ih =>
    have hw := Command.unbroken_of_mem_words (h c List.mem_cons_self)
    have htext : (Vm.programText (c :: cs)).toList =
        Command.spaced c.words ++ '\n' :: (Vm.programText cs).toList := by
      rw [← Command.toList_text]
      simp [Vm.programText, Command.line, String.join_cons]
    have hne : c.words ≠ [] := by cases c <;> exact List.cons_ne_nil _ _
    have hback : (c.words.map String.toList).map String.ofList = c.words := by
      rw [List.map_map]
      exact List.map_id'' (fun w => String.ofList_toList) c.words
    rw [htext, Text.lines_append (Command.notMem_spaced hw), List.map_cons,
      Command.words_spaced hw, hback, List.filter_cons_of_pos (by simpa using hne),
      ih fun x hx => h x (List.mem_cons_of_mem _ hx), List.map_cons]

/-! ## First pass -/

/-- The static that a command uses. -/
def Vm.Command.static? : Command → Option Nat
  | .push .static index | .pop .static index => some index
  | _ => none

/-- The function that a command starts. -/
def Vm.Command.function? : Command → Option String
  | .function name _ => some name
  | _ => none

/-- The label that a command is. -/
def Vm.Command.label? : Command → Option String
  | .label name => some name
  | _ => none

/-- The label that a command goes to. -/
def Vm.Command.target? : Command → Option String
  | .goto name | .ifGoto name => some name
  | _ => none

namespace Machine

open Vm.Command (words Legible)

/-- **What the first pass notes of a command.** -/
def Survey.after (s : Survey) (c : Command) : Survey where
  function := functionAfter s.function c
  functions := (c.function?.map fun name => (name, s.place)).toList ++ s.functions
  labels := (c.label?.map fun name => ((s.function, name), s.place)).toList ++ s.labels
  statics := (c.static?.map fun index => max s.statics (index + 1)).getD s.statics
  place := s.place + 1

/-- **A line is surveyed** as its command. -/
theorem Survey.line_words {c : Command} (h : c.Legible) (s : Survey) :
    s.line c.words = .ok (s.after c) := by
  have hstatic : ∀ index, index + 1 < Text.Decimal.wordBound → (do
      let n ← addSize (← ofLine (Vm.number (toString index))) 1
      return { s with place := s.place + 1, statics := max s.statics n } : Except Fault Survey) =
        .ok { s with place := s.place + 1, statics := max s.statics (index + 1) } := by
    intro index hi
    have hadd : addSize index 1 = .ok (index + 1) := if_pos hi
    rw [number_toString (Nat.lt_of_succ_lt hi)]
    change (addSize index 1 >>= _) = _
    rw [hadd]
    rfl
  cases c with
  | push segment index | pop segment index =>
    cases segment with
    | static => exact hstatic index h
    | _ => rfl
  | arith op => cases op <;> rfl
  | goto name | ifGoto name =>
    rw [words, line]
    · rfl
    · simp
    · simp
    · simp
  | call name arguments =>
    rw [words, line]
    · rfl
    · simp
    · simp
    · simpa [Vm.Segment.text] using h.2.1
  | label name => rfl
  | function name locals => rfl
  | «return» => rfl

theorem foldlM_line_words {cs : List Command} (h : ∀ c ∈ cs, c.Legible) (s : Survey) :
    (cs.map words).foldlM Survey.line s = .ok (cs.foldl Survey.after s) := by
  induction cs generalizing s with
  | nil => rfl
  | cons c cs ih =>
    rw [List.map_cons, List.foldlM_cons, Survey.line_words (h c List.mem_cons_self)]
    exact ih (fun x hx => h x (List.mem_cons_of_mem _ hx)) _

/-- The functions of commands with their places, in order. -/
def functionPlaces : Nat → List Command → List (String × Nat)
  | _, [] => []
  | place, c :: rest =>
    (c.function?.map fun name => (name, place)).toList ++ functionPlaces (place + 1) rest

/-- The labels of commands with their functions and places, in order. -/
def labelPlaces : String → Nat → List Command → List ((String × String) × Nat)
  | _, _, [] => []
  | function, place, c :: rest =>
    (c.label?.map fun name => ((function, name), place)).toList ++
      labelPlaces (functionAfter function c) (place + 1) rest

/-- One more than the largest static in use, at least so much. -/
def staticsFrom (n : Nat) (cs : List Command) : Nat :=
  cs.foldl (fun n c => (c.static?.map fun index => max n (index + 1)).getD n) n

/-- **What the first pass finds** in commands, the latest first. -/
theorem foldl_after (cs : List Command) (s : Survey) :
    cs.foldl Survey.after s =
      { function := cs.foldl functionAfter s.function
        functions := (functionPlaces s.place cs).reverse ++ s.functions
        labels := (labelPlaces s.function s.place cs).reverse ++ s.labels
        statics := staticsFrom s.statics cs
        place := s.place + cs.length } := by
  induction cs generalizing s with
  | nil => rfl
  | cons c cs ih =>
    rw [List.foldl_cons, ih]
    have hrev : ∀ {α : Type} (o : Option α), o.toList.reverse = o.toList := by
      intro α o
      cases o <;> rfl
    simp [Survey.after, functionPlaces, labelPlaces, staticsFrom, hrev, Nat.add_assoc,
      Nat.add_comm 1]

/-! ## Second pass -/

/-- **The instructions of commands** from inside a function on. -/
def linkAll (labels : List ((String × String) × Nat)) (statics : Nat) :
    String → List Command → Except Fault (List Instr)
  | _, [] => .ok []
  | function, c :: rest => do
    let instr ← link labels statics (functionAfter function c) c
    return instr :: (← linkAll labels statics (functionAfter function c) rest)

theorem linkLines_words {labels : List ((String × String) × Nat)} {statics : Nat}
    {cs : List Command} (h : ∀ c ∈ cs, c.Legible) (function : String) :
    linkLines labels statics function (cs.map words) = linkAll labels statics function cs := by
  induction cs generalizing function with
  | nil => rfl
  | cons c cs ih =>
    rw [List.map_cons, linkLines, linkAll, Vm.Command.ofWords_words (h c List.mem_cons_self),
      ← ih fun x hx => h x (List.mem_cons_of_mem _ hx)]
    rfl

/-- **Loading a program** adds its instructions, functions and statics. -/
theorem load_programText {cs : List Command} (h : ∀ c ∈ cs, c.Legible) (m : Machine)
    {code : List Instr} (hs : m.nextStatic + staticsFrom 0 cs < Text.Decimal.wordBound)
    (hl : linkAll (labelPlaces "" m.code.size cs).reverse m.nextStatic "" cs = .ok code) :
    m.load (Vm.programText cs) = .ok { m with
      code := m.code ++ code.toArray
      functions := (functionPlaces m.code.size cs).reverse ++ m.functions
      nextStatic := m.nextStatic + staticsFrom 0 cs } := by
  have hadd : addSize m.nextStatic (staticsFrom 0 cs) = .ok (m.nextStatic + staticsFrom 0 cs) :=
    if_pos hs
  rw [load, wordLines_programText fun c hc => (h c hc).unbroken_name, foldlM_line_words h,
    foldl_after]
  simp only [List.append_nil]
  change (addSize m.nextStatic (staticsFrom 0 cs) >>= fun _ => _) = _
  rw [hadd]
  change (linkLines _ m.nextStatic "" (cs.map words) >>= fun _ => _) = _
  rw [linkLines_words h, hl]
  rfl

/-! ## Whatever the lines are -/

variable {m m' : Machine} {words : List String} {lines : List (List String)}
  {labels : List ((String × String) × Nat)} {statics : Nat} {function : String}

theorem ok_of_bind {ε α β : Type} {e : Except ε α} {g : α → Except ε β} {y : β}
    (h : (e >>= g) = .ok y) : ∃ x, e = .ok x ∧ g x = .ok y := by
  cases e with
  | error fault => cases h
  | ok x => exact ⟨x, rfl, h⟩

theorem ofLine_eq_ok {α : Type} {e : Except Vm.LineFault α} {x : α} (h : ofLine e = .ok x) :
    e = .ok x := by
  cases e with
  | error fault => cases h
  | ok y => rw [Except.ok.inj h]

theorem number_eq_ok {word : String} {n : Nat} (h : Vm.number word = .ok n) :
    Text.Decimal.word? word.toList = some n := by
  rw [Vm.number] at h
  split at h
  · next k hk => rw [hk, Except.ok.inj h]
  · cases h

theorem addSize_eq_ok {a b n : Nat} (h : addSize a b = .ok n) : n = a + b := by
  rw [addSize] at h
  split at h
  · cases h; rfl
  · cases h

/-- **How many statics a line asks for**: one more than the number of the static that it names. -/
def lineStatics : List String → Nat
  | ["function", _, _] => 0
  | [_, "static", index] => ((Text.Decimal.word? index.toList).map (· + 1)).getD 0
  | _ => 0

/-- **What the first pass notes of a line**: a function, a label, or how many statics it asks
for. -/
theorem Survey.line_eq_ok {t t' : Survey} (h : t.line words = .ok t') :
    t'.place = t.place + 1 ∧ t'.statics = max t.statics (lineStatics words) ∧
    (t'.functions = t.functions ∨ ∃ name locals, words = ["function", name, locals] ∧
      t'.functions = (name, t.place) :: t.functions) ∧
    (t'.labels = t.labels ∨ ∃ name, words = ["label", name] ∧
      t'.labels = ((t.function, name), t.place) :: t.labels) := by
  unfold Survey.line at h
  dsimp only at h
  split at h
  · next name locals =>
    cases h
    exact ⟨rfl, (Nat.max_zero _).symm, .inr ⟨name, locals, rfl, rfl⟩, .inl rfl⟩
  · next name =>
    cases h
    have hline : lineStatics ["label", name] = 0 := by simp [lineStatics]
    exact ⟨rfl, by rw [hline, Nat.max_zero], .inl rfl, .inr ⟨name, rfl, rfl⟩⟩
  · next first index hfunction =>
    obtain ⟨k, hk, h⟩ := ok_of_bind h
    obtain ⟨n, hn, h⟩ := ok_of_bind h
    cases h
    have hline : lineStatics [first, "static", index] = n := by
      rw [lineStatics, number_eq_ok (ofLine_eq_ok hk), addSize_eq_ok hn]
      · rfl
      · exact hfunction
    exact ⟨rfl, by rw [hline], .inl rfl, .inl rfl⟩
  · next hfunction _ hstatic =>
    cases h
    have hline : lineStatics words = 0 := by
      rw [lineStatics]
      · exact hfunction
      · exact hstatic
    exact ⟨rfl, by rw [hline, Nat.max_zero], .inl rfl, .inl rfl⟩

/-- **What the first pass finds**: the most statics that a line asks for, and the
functions and labels with the places of their lines. -/
theorem Survey.foldlM_eq_ok {t t' : Survey} (h : lines.foldlM Survey.line t = .ok t') :
    t'.statics = (lines.map lineStatics).foldl max t.statics ∧
    (∃ found, t'.functions = found ++ t.functions ∧ ∀ p ∈ found,
      ∃ q locals, p.2 = t.place + q ∧ lines[q]? = some ["function", p.1, locals]) ∧
    ∀ l ∈ t'.labels, l ∈ t.labels ∨
      ∃ q, l.2 = t.place + q ∧ lines[q]? = some ["label", l.1.2] := by
  induction lines generalizing t with
  | nil =>
    cases h
    exact ⟨rfl, ⟨[], rfl, by simp⟩, fun l hl => .inl hl⟩
  | cons words lines ih =>
    rw [List.foldlM_cons] at h
    obtain ⟨t₁, hline, hrest⟩ := ok_of_bind h
    obtain ⟨hplace, hstatics, hfunctions, hlabels⟩ := Survey.line_eq_ok hline
    obtain ⟨hstatics', ⟨found, hfound, hheads⟩, hlabels'⟩ := ih hrest
    refine ⟨by rw [hstatics', hstatics]; rfl, ?_, fun l hl => ?_⟩
    · have hbehind : ∀ p ∈ found, ∃ q locals, p.2 = t.place + q ∧
          (words :: lines)[q]? = some ["function", p.1, locals] := by
        intro p hp
        obtain ⟨q, locals, hq, hwords⟩ := hheads p hp
        exact ⟨q + 1, locals, by omega, hwords⟩
      rcases hfunctions with hfunctions | ⟨name, locals, rfl, hfunctions⟩
      · exact ⟨found, by rw [hfound, hfunctions], hbehind⟩
      · refine ⟨found ++ [(name, t.place)], by simp [hfound, hfunctions], fun p hp => ?_⟩
        rcases List.mem_append.1 hp with hp | hp
        · exact hbehind p hp
        · obtain rfl := List.mem_singleton.1 hp
          exact ⟨0, locals, rfl, rfl⟩
    · rcases hlabels' l hl with hl | ⟨q, hq, hwords⟩
      · rcases hlabels with hlabels | ⟨name, rfl, hlabels⟩
        · exact .inl (hlabels ▸ hl)
        · rcases List.mem_cons.1 (hlabels ▸ hl) with rfl | hl
          · exact .inr ⟨0, rfl, rfl⟩
          · exact .inl hl
      · exact .inr ⟨q + 1, by omega, hwords⟩

/-- **Each line becomes one instruction**, that of its command. -/
theorem linkLines_eq_ok {code : List Instr}
    (h : linkLines labels statics function lines = .ok code) :
    code.length = lines.length ∧ ∀ (p : Nat) words, lines[p]? = some words →
      ∃ function command instr, Command.ofWords words = .ok command ∧
        link labels statics function command = .ok instr ∧ code[p]? = some instr := by
  induction lines generalizing function code with
  | nil =>
    cases h
    exact ⟨rfl, fun p words hp => by cases hp⟩
  | cons words lines ih =>
    rw [linkLines] at h
    obtain ⟨command, hcommand, h⟩ := ok_of_bind h
    obtain ⟨instr, hinstr, h⟩ := ok_of_bind h
    obtain ⟨rest, hrest, h⟩ := ok_of_bind h
    cases h
    obtain ⟨hlength, hlines⟩ := ih hrest
    refine ⟨by rw [List.length_cons, List.length_cons, hlength], fun p words' hp => ?_⟩
    cases p with
    | succ p => exact hlines p words' hp
    | zero =>
      cases hp
      exact ⟨_, command, instr, ofLine_eq_ok hcommand, hinstr, rfl⟩

/-- **What loading does**: both passes go over all lines, and what they find is added. -/
theorem load_eq_ok {text : String} (h : m.load text = .ok m') :
    ∃ survey code,
      (Text.wordLines text).foldlM Survey.line { place := m.code.size } = .ok survey ∧
      linkLines survey.labels m.nextStatic "" (Text.wordLines text) = .ok code ∧
      m' = { m with
        code := m.code ++ code.toArray
        functions := survey.functions ++ m.functions
        nextStatic := m.nextStatic + survey.statics } := by
  rw [load] at h
  obtain ⟨survey, hsurvey, h⟩ := ok_of_bind h
  obtain ⟨next, hnext, h⟩ := ok_of_bind h
  obtain ⟨code, hcode, h⟩ := ok_of_bind h
  obtain rfl := addSize_eq_ok hnext
  exact ⟨survey, code, hsurvey, hcode, (Except.ok.inj h).symm⟩

/-! ## Functions that are loaded -/

/-- **Programs are loaded** in a machine, whatever its memory and its place in the code. -/
def HasLoaded (texts : List String) (m : Machine) : Prop :=
  ∃ l, texts.foldlM load ({} : Machine) = .ok l ∧ m.code = l.code ∧ m.functions = l.functions

/-- At the place of each function stands the instruction that makes its locals. -/
def Enterable (m : Machine) : Prop :=
  ∀ p ∈ m.functions, ∃ k, m.code[p.2]? = some (.enter k)

theorem Enterable.load {text : String} (h : m.Enterable) (hload : m.load text = .ok m') :
    m'.Enterable := by
  obtain ⟨survey, code, hsurvey, hcode, rfl⟩ := load_eq_ok hload
  intro p hp
  rcases List.mem_append.1 hp with hp | hp
  · obtain ⟨-, ⟨found, hfound, hheads⟩, -⟩ := Survey.foldlM_eq_ok hsurvey
    obtain ⟨i, locals, hplace, hi⟩ := hheads p (by rwa [hfound, List.append_nil] at hp)
    obtain ⟨function, command, instr, hcommand, hinstr, hget⟩ := (linkLines_eq_ok hcode).2 i _ hi
    obtain ⟨k, -, h⟩ := ok_of_bind hcommand
    cases h
    cases hinstr
    refine ⟨k, ?_⟩
    rw [hplace, Array.getElem?_append_right (Nat.le_add_right _ _), Nat.add_sub_cancel_left]
    simpa using hget
  · obtain ⟨k, hk⟩ := h p hp
    have hlt : p.2 < m.code.size := (Array.getElem?_eq_some_iff.1 hk).1
    exact ⟨k, by rw [Array.getElem?_append_left hlt, hk]⟩

theorem Enterable.foldlM_load {texts : List String} (h : m.Enterable)
    (hload : texts.foldlM Machine.load m = .ok m') : m'.Enterable := by
  induction texts generalizing m with
  | nil =>
    cases hload
    exact h
  | cons text texts ih =>
    rw [List.foldlM_cons] at hload
    obtain ⟨m₁, hload, hrest⟩ := ok_of_bind hload
    exact ih (h.load hload) hrest

theorem HasLoaded.enterable {texts : List String} (h : m.HasLoaded texts) : m.Enterable := by
  obtain ⟨l, hload, hcode, hfunctions⟩ := h
  have hempty : Enterable {} := by
    intro p hp
    cases hp
  rw [Enterable, hcode, hfunctions]
  exact hempty.foldlM_load hload

end Machine

end JackStack
