import Mathlib.Data.List.Induction
import JackStack.Proofs.Acceptance
import JackStack.Proofs.Cells
import JackStack.Proofs.Tiling

/-!
# Proofs/Literals — an integer constant is one number everywhere

The digits of an integer constant are read more than once: when the token is cut off, when its value
is asked for, when its code is written, and, after they have been printed again, when that code is
loaded. In a program each of these works in words of some size of its own, and gives up where a
number does not fit. A constant that is a token fits in the smallest of them, so all agree, however
many zeros stand in front.

* `Text.Decimal.inBits?` — digits read in words of so many bits.
* `Reader.advance_inFront_run` — a reader in front of a run of digits.
* `Machine.pushesAt_load` — a line that pushes a constant, wherever it stands in a program.
* `Reader.integer_agrees` — the number of an integer constant in every layer.
-/

namespace JackStack

open Vm (Command)
open Text (Position)

/-! ## Words of so many bits -/

namespace Text.Decimal

/-- **A run of digits read in words of so many bits**, digit by digit; nothing, if a word is too
small for what has been read. -/
def inBits? (bits : Nat) (digits : List Char) : Option Nat :=
  digits.foldlM (fun n c =>
    if 10 * n + digitValue c < 2 ^ bits then some (10 * n + digitValue c) else none) 0

/-- **Reading in words gives up exactly if the value does not fit.** -/
theorem inBits?_eq (bits : Nat) (digits : List Char) :
    inBits? bits digits = if value digits < 2 ^ bits then some (value digits) else none := by
  -- The value grows with every digit, so what does not fit once never fits again.
  induction digits using List.reverseRecOn with
  | nil => exact (if_pos (Nat.two_pow_pos bits)).symm
  | append_singleton digits c ih =>
    rw [inBits?] at ih
    rw [inBits?, List.foldlM_append, ih, value_concat]
    split
    · simp
    · next h =>
      have hmore : ¬ 10 * value digits + digitValue c < 2 ^ bits := by omega
      rw [if_neg hmore]
      rfl

theorem inBits?_of_le {bits : Nat} (hbits : 15 ≤ bits) {digits : List Char}
    (h : value digits ≤ maxConstant) : inBits? bits digits = some (value digits) := by
  have hpow : 2 ^ 15 ≤ 2 ^ bits := Nat.pow_le_pow_right (by decide) hbits
  rw [inBits?_eq, if_pos (Nat.lt_of_lt_of_le (Nat.lt_succ_of_le h) hpow)]

/-- **An operand that is a run of digits** is read in words of 64 bits. -/
theorem word?_eq_inBits? {digits : List Char} (hne : digits ≠ [])
    (hd : ∀ c ∈ digits, c.isDigit = true) : word? digits = inBits? 64 digits := by
  have hsign : ∀ ds, digits ≠ '+' :: ds := by
    rintro ds rfl
    exact absurd (hd '+' List.mem_cons_self) (by decide)
  have hbound : wordBound = 2 ^ 64 := rfl
  rw [word?, inBits?_eq, ← hbound]
  · simp [hne, List.all_eq_true.mpr hd]
  · exact hsign

theorem word?_of_le {digits : List Char} (hne : digits ≠ [])
    (hd : ∀ c ∈ digits, c.isDigit = true) (h : value digits ≤ maxConstant) :
    word? digits = some (value digits) := by
  rw [word?_eq_inBits? hne hd, inBits?_of_le (by decide) h]

end Text.Decimal

/-! ## Cutting off a run of digits -/

/-- The pieces behind the first one are those of a text that is left. -/
theorem tail_piecesFrom (p : Position) (cs : List Char) :
    ∃ taken rest, taken ++ rest = cs ∧
      (piecesFrom p cs).tail = piecesFrom (p.after taken) rest := by
  fun_induction piecesFrom p cs with
  | case1 p => exact ⟨[], [], rfl, by simp [piecesFrom]⟩
  | case2 p c cs hb ih =>
    obtain ⟨taken, rest, rfl, h⟩ := ih
    exact ⟨c :: taken, rest, rfl, h⟩
  | case3 p c cs hb cut ih => exact ⟨cut.taken, cut.rest, Cut.taken_append_rest c cs, rfl⟩

namespace Reader

variable {digits rest : List Char}

/-- **A reader in front of a text** that starts at `p`, with a current token or none. -/
def inFront (current : Option Token) (p : Position) (cs : List Char) : Reader :=
  ⟨current, (piecesFrom p cs).map Piece.item⟩

theorem next_inFront (current : Option Token) (p : Position) (cs : List Char) :
    ∃ current' taken rest, taken ++ rest = cs ∧
      (inFront current p cs).next.2 = inFront current' (p.after taken) rest := by
  obtain ⟨taken, rest, happend, htail⟩ := tail_piecesFrom p cs
  refine ⟨(inFront current p cs).next.2.current, taken, rest, happend, ?_⟩
  rw [inFront, inFront, ← htail, List.map_tail]
  exact congrArg (Reader.mk _) (pending_next _)

/-- **A reader of a source is always in front of what is left of it.** -/
theorem exists_inFront (source : String) (n : Nat) :
    ∃ current before cs, before ++ cs = source.toList ∧
      (ofSource source).steps n = inFront current (({} : Position).after before) cs := by
  have hsteps : ∀ current p cs, ∃ current' taken rest, taken ++ rest = cs ∧
      (inFront current p cs).steps n = inFront current' (p.after taken) rest := by
    induction n with
    | zero => exact fun current p cs => ⟨current, [], cs, rfl, rfl⟩
    | succ n ih =>
      intro current p cs
      obtain ⟨current₁, taken₁, rest₁, rfl, h₁⟩ := next_inFront current p cs
      obtain ⟨current₂, taken₂, rest₂, rfl, h₂⟩ := ih current₁ (p.after taken₁) rest₁
      refine ⟨current₂, taken₁ ++ taken₂, rest₂, List.append_assoc _ _ _, ?_⟩
      rw [steps, h₁, h₂, Position.after_append]
  exact hsteps none {} source.toList

/-- **A reader in front of a run of digits** cuts off all of it and is in front of the rest then. -/
theorem advance_inFront_run (hne : digits ≠ []) (hd : ∀ c ∈ digits, c.isDigit = true)
    (hr : ∀ c ∈ rest.head?, c.isDigit = false) (current : Option Token) (p : Position) :
    (inFront current p (digits ++ rest)).advance =
      if Text.Decimal.value digits ≤ maxConstant then
        (.ok (), inFront (some ⟨.integer (String.ofList digits),
          ⟨p.offset, Text.byteLength digits, p.line⟩⟩) (p.after digits) rest)
      else
        (.error (.lexical p.line (.integerTooLarge (String.ofList digits))),
          inFront current (p.after digits) rest) := by
  obtain ⟨c, cs, heq, hb, hcut⟩ := Cut.first_run hne hd hr
  rw [inFront, heq, piecesFrom, if_neg (by simp [hb])]
  simp only [hcut, List.map_cons]
  split
  · simp [advance, Piece.item, Piece.span, inFront, *]
  · simp [advance, Piece.item, inFront, *]

end Reader

/-! ## Lines inside a program -/

namespace Text

/-- A text that ends in a line feed ends with an empty line, which what stands behind it fills. -/
theorem exists_lines_eq {before : List Char} (h : ∀ c ∈ before.getLast?, c = '\n') :
    ∃ full, (before ≠ [] → full ≠ []) ∧ ∀ rest, lines (before ++ rest) = full ++ lines rest := by
  induction before with
  | nil => exact ⟨[], fun h => absurd rfl h, fun rest => rfl⟩
  | cons c cs ih =>
    have hcs : ∀ d ∈ cs.getLast?, d = '\n' := by
      intro d hd
      cases cs with
      | nil => cases hd
      | cons e es => exact h d (by rwa [List.getLast?_cons_cons])
    obtain ⟨full, hfull, hlines⟩ := ih hcs
    by_cases hc : c = '\n'
    · refine ⟨[] :: full, fun _ => List.cons_ne_nil _ _, fun rest => ?_⟩
      rw [List.cons_append, lines, if_pos hc, hlines, List.cons_append]
    · have hne : cs ≠ [] := by
        rintro rfl
        exact hc (h c rfl)
      obtain ⟨l, ls, rfl⟩ := List.exists_cons_of_ne_nil (hfull hne)
      refine ⟨(c :: l) :: ls, fun _ => List.cons_ne_nil _ _, fun rest => ?_⟩
      rw [List.cons_append, lines, if_neg hc, hlines]
      rfl

/-- **The lines of two texts**, the first of which ends in a line feed. -/
theorem wordLines_append {before : String} (h : ∀ c ∈ before.toList.getLast?, c = '\n')
    (behind : String) : wordLines (before ++ behind) = wordLines before ++ wordLines behind := by
  obtain ⟨full, -, hlines⟩ := exists_lines_eq h
  have hbefore : lines before.toList = full ++ [[]] := by simpa [lines] using hlines []
  simp [wordLines, String.toList_append, hlines, hbefore, words]

end Text

/-! ## Loading and running the line of a constant -/

theorem Vm.programText_singleton (c : Command) : programText [c] = c.line := by
  simp [programText, String.join_cons]

namespace Machine

variable {m m' : Machine} {v : Nat}

/-- **The code pushes a number at a place**: a step there pushes it, and does nothing else. On a
stack with room it lies on top then. -/
def PushesAt (code : Array Instr) (place v : Nat) : Prop :=
  ∀ m : Machine, m.code = code → m.pc = place →
    step m = (do push (Int16.ofNat v); return false) m.next ∧
    ∀ sp, m.peek Layout.sp = Int16.ofNat sp → Layout.sp < sp → sp + 1 < Layout.cells →
      ∃ m', step m = .ok (false, m') ∧ m'.pc = place + 1 ∧ (m'.peek sp).toInt = v ∧
        m'.peek Layout.sp = Int16.ofNat (sp + 1) ∧
        ∀ a, a ≠ Layout.sp → a ≠ sp → m'.peek a = m.peek a

theorem pushesAt_of_code {code : Array Instr} {place : Nat}
    (h : code[place]? = some (.push .constant v)) (hv : v ≤ maxConstant) :
    PushesAt code place v := by
  rintro m rfl rfl
  have hstep : step m = (do push (Int16.ofNat v); return false) m.next := by
    show (fetch >>= execute) m = _
    have hfetch : Yields fetch m (.push .constant v) m.next := by rw [Yields, fetch, h]; rfl
    rw [hfetch.bind_eq]
    rfl
  refine ⟨hstep, fun sp hsp h₀ hlt => ⟨m.next.pushed sp (Int16.ofNat v), ?_, rfl, ?_, ?_, ?_⟩⟩
  · rw [hstep]
    exact (Yields.push (m := m.next) hsp h₀ hlt _).bind (Yields.pure false)
  · rw [peek_top_pushed h₀ (by omega), Int16.toInt_ofNat_of_lt (Nat.lt_succ_of_le hv)]
  · exact peek_sp_pushed
  · intro a ha hne
    rw [pushed, peek_poke_of_ne ha, peek_poke_of_ne hne]
    rfl

theorem legible_push_constant (hv : v ≤ maxConstant) :
    (Command.push .constant v).Legible := by
  show v + 1 < Text.Decimal.wordBound
  simp only [maxConstant] at hv
  simp only [Text.Decimal.wordBound]
  omega

/-- **The line of a constant is loaded.** -/
theorem exists_load_line (hm : m.nextStatic < Text.Decimal.wordBound) (hv : v ≤ maxConstant) :
    ∃ m', m.load (Command.push .constant v).line = .ok m' := by
  rw [← Vm.programText_singleton]
  exact ⟨_, load_programText (List.forall_mem_singleton.mpr (legible_push_constant hv)) m hm rfl⟩

/-- **A line that pushes a constant does so wherever it stands in a program.** -/
theorem pushesAt_load {before behind : String} (hbefore : ∀ c ∈ before.toList.getLast?, c = '\n')
    (hv : v ≤ maxConstant)
    (h : m.load (before ++ ((Command.push .constant v).line ++ behind)) = .ok m') :
    PushesAt m'.code (m.code.size + (Text.wordLines before).length) v := by
  have hline : Text.wordLines ((Command.push .constant v).line ++ behind)
      = (Command.push .constant v).words :: Text.wordLines behind := by
    have hfeed : ∀ c ∈ (Command.push .constant v).line.toList.getLast?, c = '\n' := by
      simp [Command.line]
    rw [Text.wordLines_append hfeed, ← Vm.programText_singleton, wordLines_programText]
    · rfl
    · simp [Command.name?]
  obtain ⟨survey, code, -, hcode, rfl⟩ := load_eq_ok h
  rw [Text.wordLines_append hbefore, hline] at hcode
  obtain ⟨function, command, instr, hcommand, hinstr, hget⟩ :=
    (linkLines_eq_ok hcode).2 (Text.wordLines before).length (Command.push .constant v).words
      (by simp)
  rw [Command.ofWords_words (legible_push_constant hv)] at hcommand
  cases hcommand
  cases hinstr
  refine pushesAt_of_code ?_ hv
  rw [Array.getElem?_append_right (Nat.le_add_right _ _), Nat.add_sub_cancel_left]
  simpa using hget

end Machine

/-! ## One number -/

open Text.Decimal (value inBits? inBits?_eq inBits?_of_le word? word?_of_le)

theorem message_integerTooLarge (line : Nat) (digits : String) :
    (CompileError.lexical line (.integerTooLarge digits)).message
      = "line " ++ toString line ++ ": integer constant " ++ digits
        ++ " is out of range 0..=32767" := by
  have hcolon : ": integer constant " = ": " ++ "integer constant " := rfl
  have hmax : " is out of range 0..=32767" = " is out of range 0..=" ++ toString maxConstant := by
    decide +kernel
  show "line " ++ toString line ++ ": " ++ ("integer constant " ++ digits ++ " is out of range 0..="
    ++ toString maxConstant) = _
  simp only [hcolon, hmax, String.append_assoc]

theorem Session.does_term_integer {s : Session} {i : Lookahead} {digits : String}
    (hr : s.input.Reads [.integer digits] i)
    (hs : s.Accepts [.push .constant (value digits.toList)]) :
    Does [.term] s (s.after i [.push .constant (value digits.toList)] 0 0) := by
  refine .of_perform ((perform_term_integer hr.terminal?).mpr
    ⟨_, takes_of_reads hr, ⟨hs, ?_⟩, rfl⟩) (.nil _)
  rw [wrote, after_after, List.nil_append]
  rfl

/-- **An integer constant is one number in every layer.** A reader of a source is always in front of
what is left of it; let that begin with a run of digits, which no digit follows, of any length and
with any number of zeros in front.

It is accepted exactly if its value is at most 32767, whether the value is compared as it is or
after it was read in words of 32 bits. Otherwise the message shows the whole run. The number of an
accepted token is that value, in words of any size from 15 bits on. As a term it is compiled to a
line that has the value in digits without leading zeros. A machine loads that line alone, unless its
static variables are beyond count, and inside any program that it loads at all; the instruction
pushes the value and does nothing else. -/
theorem Reader.integer_agrees {digits rest : List Char} (hne : digits ≠ [])
    (hd : ∀ c ∈ digits, c.isDigit = true) (hr : ∀ c ∈ rest.head?, c.isDigit = false)
    (current : Option Token) (p : Position) :
    (∀ source n, ∃ current before cs, before ++ cs = source.toList ∧
      (ofSource source).steps n = inFront current (({} : Position).after before) cs) ∧
    ((inFront current p (digits ++ rest)).advance.1 = .ok () ↔ value digits ≤ maxConstant) ∧
    ((inBits? 32 digits).any (· ≤ maxConstant) = true ↔ value digits ≤ maxConstant) ∧
    (maxConstant < value digits →
      ∃ e, (inFront current p (digits ++ rest)).advance
          = (.error e, inFront current (p.after digits) rest) ∧
        e.message = "line " ++ toString p.line ++ ": integer constant " ++ String.ofList digits
          ++ " is out of range 0..=32767") ∧
    (value digits ≤ maxConstant →
      (inFront current p (digits ++ rest)).advance.2.terminal?
        = some (.integer (String.ofList digits)) ∧
      (inFront current p (digits ++ rest)).advance.2.terminal?.bind Terminal.integer?
        = some (value digits) ∧
      (∀ bits, 15 ≤ bits → inBits? bits digits = some (value digits)) ∧
      word? digits = some (value digits) ∧
      (∀ (s : Session) i, s.input.Reads [.integer (String.ofList digits)] i →
        s.Accepts [.push .constant (value digits)] →
        ∃ s', Session.Does [.term] s s' ∧ s'.input = i ∧ s'.writer.sink.text = s.writer.sink.text
          ++ "push constant " ++ toString (value digits) ++ "\n") ∧
      (∀ m : Machine, m.nextStatic < Text.Decimal.wordBound → ∃ m',
        m.load ("push constant " ++ toString (value digits) ++ "\n") = .ok m') ∧
      ∀ (m m' : Machine) (before behind : String), (∀ c ∈ before.toList.getLast?, c = '\n') →
        m.load (before ++ ("push constant " ++ toString (value digits) ++ "\n" ++ behind))
          = .ok m' →
        Machine.PushesAt m'.code (m.code.size + (Text.wordLines before).length)
          (value digits)) := by
  have hadvance := advance_inFront_run hne hd hr current p
  refine ⟨exists_inFront, ?_, ?_, ?_, ?_⟩
  · rw [hadvance]
    split <;> simp [*]
  · rw [inBits?_eq]
    split
    · simp
    · simp [maxConstant]
      omega
  · intro hlarge
    rw [hadvance, if_neg (Nat.not_le.mpr hlarge)]
    exact ⟨_, rfl, message_integerTooLarge _ _⟩
  · intro hv
    rw [hadvance, if_pos hv]
    refine ⟨rfl, ?_, fun bits hbits => inBits?_of_le hbits hv, word?_of_le hne hd hv, ?_, ?_, ?_⟩
    · simp [inFront, terminal?, Terminal.integer?]
    · intro s i hreads hs
      have hdigits : (String.ofList digits).toList = digits := String.toList_ofList
      refine ⟨_, Session.does_term_integer hreads (by rwa [hdigits]), rfl, ?_⟩
      simp [Session.after, Writer.wroteOne, Command.line, Command.text, Vm.Segment.text,
        String.append_assoc]
    · exact fun m hm => Machine.exists_load_line hm hv
    · exact fun m m' before behind hbefore hload => Machine.pushesAt_load hbefore hv hload

/-- A session in front of the largest constant, with zeros before it. -/
def zerosSession : Session where
  input := ⟨some ⟨.integer "0032767", default⟩, [.ok ⟨.symbol ';', default⟩], 1⟩

theorem Reader.integer_agrees_zeros :
    ((inFront none {} "0032767;".toList).advance.2.terminal?.bind Terminal.integer? = some 32767 ∧
      (∃ s', Session.Does [.term] zerosSession s' ∧
        s'.writer.sink.text = "push constant 32767\n") ∧
      ∃ m', ({} : Machine).load "push constant 32767\n" = .ok m' ∧
        Machine.PushesAt m'.code 0 32767) ∧
    ∃ e, (inFront none {} "70000000000000000000;".toList).advance.1 = .error e ∧
      e.message = "line 1: integer constant 70000000000000000000 is out of range 0..=32767" := by
  have hend : ∀ c ∈ [';'].head?, c.isDigit = false := by
    intro c hc
    cases hc
    rfl
  constructor
  · obtain ⟨-, -, -, -, h⟩ := @integer_agrees "0032767".toList [';'] (by decide)
      (List.all_eq_true.mp (by decide)) hend none {}
    obtain ⟨-, hvalue, -, -, hdoes, hload, hpushes⟩ := h (by decide)
    have hreads : zerosSession.input.Reads [.integer "0032767"]
        ⟨some ⟨.symbol ';', default⟩, [], (default : Token).line⟩ := ⟨_, _, rfl, rfl, rfl⟩
    have hs : zerosSession.Unlimited := rfl
    obtain ⟨s', hs', -, htext⟩ := hdoes zerosSession _ hreads (hs.accepts _)
    obtain ⟨m', hm'⟩ := hload {} (by decide)
    exact ⟨hvalue, ⟨s', hs', htext⟩, m', hm', hpushes {} m' "" "" (by simp) hm'⟩
  · obtain ⟨-, -, -, h, -⟩ := @integer_agrees "70000000000000000000".toList [';'] (by decide)
      (List.all_eq_true.mp (by decide)) hend none {}
    obtain ⟨e, he, hmessage⟩ := h (by decide)
    exact ⟨e, congrArg Prod.fst he, hmessage⟩

end JackStack
